import CallCountLint.Proofs.Json.Lexing

/-!
This module contains a reader of JSON and the proof that it follows the grammar: it reads a value
from a text just if the text is JSON for it. So a text is JSON for at most one value. The tokens of
a text are put together from right to left. The module also contains how the parts of a value are
looked up.
-/

namespace CallCountLint.Json

/--
A part of what is read from the right: a value that is complete, or a mark that stands before one.
-/
inductive Piece where
  | data (data : Data)
  | mark (mark : Mark)

def Piece.tokens : Piece → List Token
  | .data value => value.tokens
  | .mark symbol => [.mark symbol]

def takeItems : List Piece → Option (List Data × List Piece)
  | .data item :: .mark .closeBracket :: rest => some ([item], rest)
  | .data item :: .mark .comma :: rest => (takeItems rest).map (Prod.map (item :: ·) id)
  | _ => none

def takeMembers : List Piece → Option (List (String × Data) × List Piece)
  | .data (.string key) :: .mark .colon :: .data value :: .mark .closeBrace :: rest =>
    some ([(key, value)], rest)
  | .data (.string key) :: .mark .colon :: .data value :: .mark .comma :: rest =>
    (takeMembers rest).map (Prod.map ((key, value) :: ·) id)
  | _ => none

/--
Put a token before what has been read from the right. One that opens an array or an object takes up
what belongs to it.
-/
def Token.attach? : Token → List Piece → Option (List Piece)
  | .mark .openBracket, .mark .closeBracket :: rest => some (.data (.array []) :: rest)
  | .mark .openBracket, pieces =>
    (takeItems pieces).map fun (items, rest) => .data (.array items) :: rest
  | .mark .openBrace, .mark .closeBrace :: rest => some (.data (.object []) :: rest)
  | .mark .openBrace, pieces =>
    (takeMembers pieces).map fun (members, rest) => .data (.object members) :: rest
  | .mark symbol, pieces => some (.mark symbol :: pieces)
  | .null, pieces => some (.data .null :: pieces)
  | .boolean value, pieces => some (.data (.boolean value) :: pieces)
  | .number value, pieces => some (.data (.number value) :: pieces)
  | .string value, pieces => some (.data (.string value) :: pieces)

def Data.ofTokens? (tokens : List Token) : Option Data :=
  match tokens.foldrM Token.attach? [] with
  | some [.data value] => some value
  | _ => none

def read? (text : List Char) : Option Data :=
  (lex text).bind Data.ofTokens?

theorem takeItems_eq_some {pieces rest : List Piece} {items : List Data}
    (h : takeItems pieces = some (items, rest)) :
    ∃ first more, items = first :: more
      ∧ pieces.flatMap Piece.tokens
        = first.tokens ++ itemTokens more ++ rest.flatMap Piece.tokens := by
  fun_induction takeItems pieces generalizing items rest with
  | case1 item rest =>
    simp only [Option.some.injEq, Prod.mk.injEq] at h
    obtain ⟨rfl, rfl⟩ := h
    exact ⟨item, [], rfl, by simp [Piece.tokens, itemTokens]⟩
  | case2 item pieces ih =>
    obtain ⟨items, hitems, rfl⟩ := map_eq_some_pair_iff.mp h
    obtain ⟨first, more, rfl, hpieces⟩ := ih hitems
    exact ⟨item, first :: more, rfl, by simp [Piece.tokens, itemTokens, hpieces]⟩
  | case3 => simp at h

theorem takeMembers_eq_some {pieces rest : List Piece} {members : List (String × Data)}
    (h : takeMembers pieces = some (members, rest)) :
    ∃ key value more, members = (key, value) :: more
      ∧ pieces.flatMap Piece.tokens
        = .string key :: .mark .colon :: (value.tokens ++ memberTokens more)
          ++ rest.flatMap Piece.tokens := by
  fun_induction takeMembers pieces generalizing members rest with
  | case1 key value rest =>
    simp only [Option.some.injEq, Prod.mk.injEq] at h
    obtain ⟨rfl, rfl⟩ := h
    exact ⟨key, value, [], rfl, by simp [Piece.tokens, Data.tokens, memberTokens]⟩
  | case2 key value pieces ih =>
    obtain ⟨members, hmembers, rfl⟩ := map_eq_some_pair_iff.mp h
    obtain ⟨key', value', more, rfl, hpieces⟩ := ih hmembers
    exact ⟨key, value, (key', value') :: more, rfl,
      by simp [Piece.tokens, Data.tokens, memberTokens, hpieces]⟩
  | case3 => simp at h

theorem Token.tokens_of_attach? {token : Token} {pieces pieces' : List Piece}
    (h : token.attach? pieces = some pieces') :
    pieces'.flatMap Piece.tokens = token :: pieces.flatMap Piece.tokens := by
  unfold Token.attach? at h
  split at h
  case h_2 =>
    obtain ⟨⟨items, rest⟩, hitems, rfl⟩ := Option.map_eq_some_iff.mp h
    obtain ⟨first, more, rfl, hpieces⟩ := takeItems_eq_some hitems
    simp [Piece.tokens, Data.tokens, hpieces]
  case h_4 =>
    obtain ⟨⟨members, rest⟩, hmembers, rfl⟩ := Option.map_eq_some_iff.mp h
    obtain ⟨key, value, more, rfl, hpieces⟩ := takeMembers_eq_some hmembers
    simp [Piece.tokens, Data.tokens, hpieces]
  all_goals
    obtain rfl := Option.some.inj h
    simp [Piece.tokens, Data.tokens]

theorem tokens_of_foldrM {tokens : List Token} {pieces pieces' : List Piece}
    (h : tokens.foldrM Token.attach? pieces = some pieces') :
    pieces'.flatMap Piece.tokens = tokens ++ pieces.flatMap Piece.tokens := by
  induction tokens generalizing pieces' with
  | nil =>
    obtain rfl : pieces = pieces' := by simpa using h
    rfl
  | cons token tokens ih =>
    rw [List.foldrM_cons, Option.bind_eq_bind, Option.bind_eq_some_iff] at h
    obtain ⟨between, hbetween, hattach⟩ := h
    rw [Token.tokens_of_attach? hattach, ih hbetween, List.cons_append]

theorem Data.tokens_of_ofTokens? {tokens : List Token} {data : Data}
    (h : ofTokens? tokens = some data) : tokens = data.tokens := by
  unfold ofTokens? at h
  split at h
  . next value hfold =>
    obtain rfl : value = data := by simpa using h
    simpa [Piece.tokens] using (tokens_of_foldrM hfold).symm
  . simp at h

mutual

theorem Data.foldrM_tokens (pieces : List Piece) :
    ∀ data : Data, data.tokens.foldrM Token.attach? pieces = some (.data data :: pieces)
  | .null => rfl
  | .boolean _ => rfl
  | .number _ => rfl
  | .string _ => rfl
  | .array [] => rfl
  | .array (item :: items) => by
    obtain ⟨inner, hinner, htake⟩ := foldrM_itemTokens pieces items
    rw [Data.tokens, List.foldrM_cons, List.foldrM_append, hinner]
    simp [item.foldrM_tokens inner, Token.attach?, htake]
  | .object [] => rfl
  | .object ((key, value) :: members) => by
    obtain ⟨inner, hinner, htake⟩ := foldrM_memberTokens pieces members
    rw [Data.tokens, List.foldrM_cons, List.foldrM_cons, List.foldrM_cons, List.foldrM_append,
      hinner]
    simp [value.foldrM_tokens inner, Token.attach?, htake]

theorem foldrM_itemTokens (pieces : List Piece) : ∀ items : List Data,
    ∃ inner, (itemTokens items).foldrM Token.attach? pieces = some inner
      ∧ ∀ first, takeItems (.data first :: inner) = some (first :: items, pieces)
  | [] => ⟨.mark .closeBracket :: pieces, rfl, fun _ => rfl⟩
  | item :: items => by
    obtain ⟨inner, hinner, htake⟩ := foldrM_itemTokens pieces items
    refine ⟨.mark .comma :: .data item :: inner, ?_, fun first => ?_⟩
    . rw [itemTokens, List.foldrM_cons, List.foldrM_append, hinner]
      simp [item.foldrM_tokens inner, Token.attach?]
    . simp [takeItems, htake]

theorem foldrM_memberTokens (pieces : List Piece) : ∀ members : List (String × Data),
    ∃ inner, (memberTokens members).foldrM Token.attach? pieces = some inner
      ∧ ∀ key value,
        takeMembers (.data (.string key) :: .mark .colon :: .data value :: inner)
          = some ((key, value) :: members, pieces)
  | [] => ⟨.mark .closeBrace :: pieces, rfl, fun _ _ => rfl⟩
  | (key, value) :: members => by
    obtain ⟨inner, hinner, htake⟩ := foldrM_memberTokens pieces members
    refine ⟨.mark .comma :: .data (.string key) :: .mark .colon :: .data value :: inner, ?_,
      fun first firstValue => ?_⟩
    . rw [memberTokens, List.foldrM_cons, List.foldrM_cons, List.foldrM_cons, List.foldrM_append,
        hinner]
      simp [value.foldrM_tokens inner, Token.attach?]
    . simp [takeMembers, htake]

end

theorem Data.ofTokens?_tokens (data : Data) : ofTokens? data.tokens = some data := by
  unfold ofTokens?
  rw [data.foldrM_tokens]

theorem Separated.cons {token : Token} {tokens : List Token} (h : Separated tokens)
    (htoken : ¬ token.IsNumber) : Separated (token :: tokens) :=
  List.IsChain.cons h fun _ _ hboth => htoken hboth.1

theorem not_isNumber_itemTokens (items : List Data) (tokens : List Token) :
    ∀ token ∈ (itemTokens items ++ tokens).head?, ¬ token.IsNumber := by
  cases items <;> simp [itemTokens, Token.IsNumber]

theorem not_isNumber_memberTokens (members : List (String × Data)) (tokens : List Token) :
    ∀ token ∈ (memberTokens members ++ tokens).head?, ¬ token.IsNumber := by
  cases members <;> simp [memberTokens, Token.IsNumber]

mutual

theorem Data.separated_tokens_append {tokens : List Token} (h : Separated tokens)
    (hhead : ∀ token ∈ tokens.head?, ¬ token.IsNumber) :
    ∀ data : Data, Separated (data.tokens ++ tokens)
  | .null => h.cons id
  | .boolean _ => h.cons id
  | .number _ => List.IsChain.cons h fun token htoken hboth => hhead token htoken hboth.2
  | .string _ => h.cons id
  | .array [] => (h.cons id).cons id
  | .array (item :: items) => by
    rw [Data.tokens, List.cons_append, List.append_assoc]
    exact (item.separated_tokens_append (separated_itemTokens_append h items)
      (not_isNumber_itemTokens items tokens)).cons id
  | .object [] => (h.cons id).cons id
  | .object ((_, value) :: members) => by
    rw [Data.tokens, List.cons_append, List.cons_append, List.cons_append, List.append_assoc]
    exact (((value.separated_tokens_append (separated_memberTokens_append h members)
      (not_isNumber_memberTokens members tokens)).cons id).cons id).cons id

theorem separated_itemTokens_append {tokens : List Token} (h : Separated tokens) :
    ∀ items : List Data, Separated (itemTokens items ++ tokens)
  | [] => h.cons id
  | item :: items => by
    rw [itemTokens, List.cons_append, List.append_assoc]
    exact (item.separated_tokens_append (separated_itemTokens_append h items)
      (not_isNumber_itemTokens items tokens)).cons id

theorem separated_memberTokens_append {tokens : List Token} (h : Separated tokens) :
    ∀ members : List (String × Data), Separated (memberTokens members ++ tokens)
  | [] => h.cons id
  | (_, value) :: members => by
    rw [memberTokens, List.cons_append, List.cons_append, List.cons_append, List.append_assoc]
    exact (((value.separated_tokens_append (separated_memberTokens_append h members)
      (not_isNumber_memberTokens members tokens)).cons id).cons id).cons id

end

theorem Data.separated_tokens (data : Data) : Separated data.tokens := by
  simpa using data.separated_tokens_append List.IsChain.nil (by simp)

theorem read?_eq_some_iff {text : List Char} {data : Data} :
    read? text = some data ↔ data.SpelledAs text := by
  unfold read?
  constructor
  . intro h
    obtain ⟨tokens, hlex, hdata⟩ := Option.bind_eq_some_iff.mp h
    obtain rfl := Data.tokens_of_ofTokens? hdata
    exact spelled_of_lex hlex
  . intro h
    rw [lex_of_spelled h data.separated_tokens]
    exact data.ofTokens?_tokens

namespace Data

def fields? (keys : List String) : Data → Option (List Data)
  | .object members =>
    if members.length = keys.length then keys.mapM fun key => members.lookup key else none
  | _ => none

def natural? : Data → Option Nat
  | .number value => if value.isInt ∧ 0 ≤ value then some value.num.toNat else none
  | _ => none

def string? : Data → Option String
  | .string value => some value
  | _ => none

def items? {α : Type} (read : Data → Option α) : Data → Option (List α)
  | .array items => items.mapM read
  | _ => none

theorem natural?_number (n : Nat) : natural? (.number n) = some n := by
  simp [natural?, Rat.isInt]

theorem string?_eq_some_iff {data : Data} {value : String} :
    data.string? = some value ↔ data = .string value := by
  cases data <;> simp [string?]

theorem exists_tokens_eq_cons (data : Data) :
    ∃ token tokens, data.tokens = token :: tokens
      ∧ ∀ value, token = .string value → data = .string value := by
  cases data with
  | array items => cases items <;> exact ⟨_, _, by rw [tokens], by simp⟩
  | object members => cases members <;> exact ⟨_, _, by rw [tokens], by simp⟩
  | _ => exact ⟨_, _, by rw [tokens], by simp⟩

end Data

end CallCountLint.Json
