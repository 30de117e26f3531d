/-!
This module contains the expressions that fixes are made of.
-/

namespace CallCountLint.Fix

/--
An expression that belongs to no tree yet. It may use nodes of the tree it is made for.
-/
inductive Expr where
  | node (id : Nat)
  | identifier (name : String)
  | member (target : Expr) (name : String)
  /-- `target?.name` -/
  | conditional (target : Expr) (name : String)
  | call (callee : Expr) (arguments : List Expr)
  deriving Repr, Inhabited

structure Edit where
  node : Nat
  replacement : Expr
  deriving Repr, Inhabited

end CallCountLint.Fix
