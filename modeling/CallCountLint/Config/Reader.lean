import CallCountLint.Config.Basic
import CallCountLint.Json.Number
import CallCountLint.Text.Quoted

/-!
This module contains the reading of a configuration from JSON. It is an object with the fields
`deprecated-in` and `removed-in`, or an array with their values in this order; what is missing has
its default. The text is read from left to right, and the first problem decides.
-/

namespace CallCountLint

open Json

namespace Config

inductive Found where
  | null
  | boolean (value : Bool)
  | number (value : Number)
  | string (value : List Char)
  | sequence
  | map
  deriving Repr

def Found.display : Found → String
  | .null => "null"
  | .boolean value => "boolean `" ++ toString value ++ "`"
  | .number value => value.display
  | .string value => "string " ++ Text.Quoted.quote value
  | .sequence => "sequence"
  | .map => "map"

inductive Wanted where
  | string
  | config
  deriving DecidableEq, Repr

def Wanted.display : Wanted → String
  | .string => "a string"
  | .config => "struct Config"

inductive Field where
  | deprecatedIn
  | removedIn
  deriving DecidableEq, Repr

namespace Field

def key : Field → String
  | .deprecatedIn => "deprecated-in"
  | .removedIn => "removed-in"

def ofKey? (key : List Char) : Option Field :=
  [deprecatedIn, removedIn].find? fun field => field.key.toList == key

end Field

inductive ReadError where
  | scan (error : ScanError)
  | unknownField (key : List Char)
  | duplicateField (field : Field)
  | wrongType (found : Found) (wanted : Wanted)
  deriving Repr

/--
The text of an error that is not about JSON itself.
-/
def ReadError.message? : ReadError → Option String
  | .scan _ => none
  | .unknownField key =>
    some ("unknown field `" ++ String.ofList key ++ "`, expected `deprecated-in` or `removed-in`")
  | .duplicateField field => some ("duplicate field `" ++ field.key ++ "`")
  | .wrongType found wanted =>
    some ("invalid type: " ++ found.display ++ ", expected " ++ wanted.display)

def unexpectedEnd : ReadError := .scan .unexpectedEnd

def malformed : ReadError := .scan .malformed

/--
What is wrong with a value that should have been something else. Null, booleans, numbers and strings
are read to their end first.
-/
def mismatch (wanted : Wanted) (text : List Char) : ReadError :=
  let found : Except ScanError Found :=
    match text with
    | [] => .error .unexpectedEnd
    | 'n' :: text => (scanWord "ull".toList text).map fun _ => .null
    | 't' :: text => (scanWord "rue".toList text).map fun _ => .boolean true
    | 'f' :: text => (scanWord "alse".toList text).map fun _ => .boolean false
    | '"' :: text => (scanString text).map fun (value, _) => .string value
    | '-' :: text => (scanNumber true text).map fun (value, _) => .number value
    | '[' :: _ => .ok .sequence
    | '\x7b' :: _ => .ok .map
    | c :: text =>
      if c.isDigit then (scanNumber false (c :: text)).map fun (value, _) => .number value
      else .error .malformed
  match found with
  | .ok found => .wrongType found wanted
  | .error error => .scan error

def unexpected (text : List Char) : ReadError :=
  if text.isEmpty then unexpectedEnd else malformed

def readString (text : List Char) : Except ReadError (List Char × List Char) :=
  match scanString text with
  | .ok read => .ok read
  | .error error => .error (.scan error)

def readVersion (text : List Char) : Except ReadError (String × List Char) :=
  match skipBlank text with
  | '"' :: text => do
    let (value, text) ← readString text
    return (String.ofList value, text)
  | text => .error (mismatch .string text)

structure Draft where
  deprecatedIn : Option String := none
  removedIn : Option String := none

namespace Draft

def get? (draft : Draft) : Field → Option String
  | .deprecatedIn => draft.deprecatedIn
  | .removedIn => draft.removedIn

def set (draft : Draft) (field : Field) (value : String) : Draft :=
  match field with
  | .deprecatedIn => { draft with deprecatedIn := some value }
  | .removedIn => { draft with removedIn := some value }

def missing (draft : Draft) : Nat :=
  (if draft.deprecatedIn.isNone then 1 else 0) + (if draft.removedIn.isNone then 1 else 0)

theorem missing_set_lt {draft : Draft} {field : Field} (value : String)
    (h : draft.get? field = none) : (draft.set field value).missing < draft.missing := by
  cases field <;> simp_all [get?, set, missing]

def toConfig (draft : Draft) : Config :=
  let default : Config := {}
  { deprecatedIn := draft.deprecatedIn.getD default.deprecatedIn
    removedIn := draft.removedIn.getD default.removedIn }

end Draft

def readMember (draft : Draft) (text : List Char) :
    Except ReadError ({ next : Draft // next.missing < draft.missing } × List Char) := do
  let (key, text) ← readString text
  match Field.ofKey? key with
  | none => throw (.unknownField key)
  | some field =>
    match h : draft.get? field with
    | some _ => throw (.duplicateField field)
    | none =>
      match skipBlank text with
      | ':' :: text =>
        let (value, text) ← readVersion text
        return (⟨draft.set field value, Draft.missing_set_lt value h⟩, text)
      | text => throw (unexpected text)

def readMembers (draft : Draft) (text : List Char) : Except ReadError (Draft × List Char) :=
  match readMember draft text with
  | .error error => .error error
  | .ok (⟨next, _⟩, text) =>
    match skipBlank text with
    | '\x7d' :: text => .ok (next, text)
    | ',' :: text =>
      match skipBlank text with
      | '"' :: text => readMembers next text
      | text => .error (unexpected text)
    | text => .error (unexpected text)
termination_by draft.missing

def readObject (text : List Char) : Except ReadError (Draft × List Char) :=
  match skipBlank text with
  | '\x7d' :: text => .ok ({}, text)
  | '"' :: text => readMembers {} text
  | text => .error (unexpected text)

def readArray (text : List Char) : Except ReadError (Draft × List Char) := do
  match skipBlank text with
  | [] => throw unexpectedEnd
  | ']' :: text => return ({}, text)
  | text =>
    let (deprecatedIn, text) ← readVersion text
    match skipBlank text with
    | ']' :: text => return ({ deprecatedIn := some deprecatedIn }, text)
    | ',' :: text =>
      match skipBlank text with
      | ']' :: _ => throw malformed
      | text =>
        let (removedIn, text) ← readVersion text
        match skipBlank text with
        | ']' :: text =>
          return ({ deprecatedIn := some deprecatedIn, removedIn := some removedIn }, text)
        | text => throw (unexpected text)
    | text => throw (unexpected text)

def read (text : List Char) : Except ReadError Config := do
  let (draft, text) ←
    match skipBlank text with
    | '\x7b' :: text => readObject text
    | '[' :: text => readArray text
    | text => throw (mismatch .config text)
  if (skipBlank text).isEmpty then return draft.toConfig else throw malformed

end Config

end CallCountLint
