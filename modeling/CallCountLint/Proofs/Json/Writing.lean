import CallCountLint.Json.Writer
import CallCountLint.Proofs.Json.Reading

/-!
This module contains the proof that written values are JSON, at any depth: what is read from the
text of a value is the value.
-/

namespace CallCountLint.Json

theorem spelledUnit_control {unit : Nat} (h : unit < 0x20) :
    SpelledUnit unit ['0', '0', (unit / 16).digitChar, (unit % 16).digitChar] := by
  refine ⟨by omega, ?_⟩
  rw [show unit / 0x1000 = 0 by omega, show unit / 0x100 % 16 = 0 by omega,
    Nat.mod_eq_of_lt (show unit / 16 < 16 by omega)]
  exact .cons ⟨by omega, .inl rfl⟩ (.cons ⟨by omega, .inl rfl⟩
    (.cons ⟨by omega, .inl rfl⟩ (.cons ⟨by omega, .inl rfl⟩ .nil)))

theorem spelledChar_escape (c : Char) : SpelledChar c (escape c) := by
  unfold escape
  split
  case h_8 hquote hbackslash _ _ _ _ _ =>
    split
    . next hcontrol => exact .unit _ (spelledUnit_control hcontrol)
    . next hcontrol => exact .plain hquote hbackslash (Char.not_lt.mp hcontrol)
  all_goals exact .short _ (by decide)

theorem spelledString_escape (text : List Char) : SpelledString text (text.flatMap escape) := by
  induction text with
  | nil => exact .nil
  | cons c text ih => exact .cons (spelledChar_escape c) ih

theorem spelledAs_writeString (text : String) : (Token.string text).SpelledAs (writeString text) :=
  .string (spelledString_escape text.toList)

theorem head?_toDigits_ne_zero {n : Nat} (h : 0 < n) : (Nat.toDigits 10 n).head? ≠ some '0' := by
  induction n using Nat.strongRecOn with
  | ind n ih =>
    rw [Nat.toDigits_eq_if (by omega)]
    split
    . next hlt =>
      intro hhead
      have := Nat.digitChar_eq_zero.mp (Option.some.inj hhead)
      omega
    . next hle =>
      have hhead := ih (n / 10) (by omega) (by omega)
      rwa [List.head?_append_of_ne_nil _ Nat.toDigits_ne_nil]

theorem isWhole_toDigits (n : Nat) : IsWhole (Nat.toDigits 10 n) := by
  refine ⟨⟨Nat.toDigits_ne_nil, ?_⟩, ?_⟩
  . intro c hc
    exact Nat.isDigit_of_mem_toDigits (by decide) (by decide) hc
  . intro hhead
    rcases Nat.eq_zero_or_pos n with rfl | hpos
    . exact Nat.toDigits_zero 10
    . exact absurd hhead (head?_toDigits_ne_zero hpos)

theorem spelledAs_toDigits (n : Nat) : (Token.number n).SpelledAs (Nat.toDigits 10 n) := by
  have h := SpelledMagnitude.intro (isWhole_toDigits n) .none .none
  rw [Nat.ofDigitChars_ten_toDigits, add_zero, zpow_zero, mul_one, List.append_nil,
    List.append_nil] at h
  exact .number h

mutual

def Value.toData : Value → Data
  | .number value => .number value
  | .string value => .string value
  | .array items => .array (itemsData items)
  | .object members => .object (membersData members)

def itemsData : List Value → List Data
  | [] => []
  | item :: items => item.toData :: itemsData items

def membersData : List (String × Value) → List (String × Data)
  | [] => []
  | (key, value) :: members => (key, value.toData) :: membersData members

end

theorem itemsData_eq_map (items : List Value) : itemsData items = items.map Value.toData := by
  induction items with
  | nil => rfl
  | cons item items ih => rw [itemsData, ih, List.map_cons]

namespace SpelledTokens

variable {tokens : List Token} {text : List Char}

theorem mark (h : SpelledTokens tokens text) (mark : Mark) :
    SpelledTokens (.mark mark :: tokens) (mark.char :: text) :=
  .token (.mark mark) h

theorem newline (h : SpelledTokens tokens text) (depth : Nat) :
    SpelledTokens tokens (newline depth ++ text) := by
  refine .blank '\n' (by decide) ?_
  induction 2 * depth with
  | zero => exact h
  | succ width ih => exact .blank ' ' (by decide) ih

theorem key (h : SpelledTokens tokens text) (key : String) :
    SpelledTokens (.string key :: .mark .colon :: tokens)
      (writeString key ++ ':' :: ' ' :: text) :=
  .token (spelledAs_writeString key) (.mark (.blank ' ' (by decide) h) .colon)

end SpelledTokens

namespace Value

mutual

theorem spelledTokens_write {tokens : List Token} {text : List Char}
    (h : SpelledTokens tokens text) (depth : Nat) :
    ∀ value : Value, SpelledTokens (value.toData.tokens ++ tokens) (value.write depth ++ text)
  | .number value => .token (spelledAs_toDigits value) h
  | .string value => .token (spelledAs_writeString value) h
  | .array [] => (h.mark .closeBracket).mark .openBracket
  | .array (item :: items) => by
    have hitems := spelledTokens_writeItems h depth items
    have hitem := (spelledTokens_write hitems (depth + 1) item).newline (depth + 1)
    simpa [write, toData, itemsData, Data.tokens, Mark.char] using hitem.mark .openBracket
  | .object [] => (h.mark .closeBrace).mark .openBrace
  | .object ((key, value) :: members) => by
    have hmembers := spelledTokens_writeMembers h depth members
    have hvalue := ((spelledTokens_write hmembers (depth + 1) value).key key).newline (depth + 1)
    simpa [write, toData, membersData, Data.tokens, Mark.char] using hvalue.mark .openBrace

theorem spelledTokens_writeItems {tokens : List Token} {text : List Char}
    (h : SpelledTokens tokens text) (depth : Nat) :
    ∀ items : List Value, SpelledTokens (itemTokens (itemsData items) ++ tokens)
      (writeItems (depth + 1) items ++ (newline depth ++ ']' :: text))
  | [] => (h.mark .closeBracket).newline depth
  | item :: items => by
    have hitems := spelledTokens_writeItems h depth items
    have hitem := (spelledTokens_write hitems (depth + 1) item).newline (depth + 1)
    simpa [writeItems, itemsData, itemTokens, Mark.char] using hitem.mark .comma

theorem spelledTokens_writeMembers {tokens : List Token} {text : List Char}
    (h : SpelledTokens tokens text) (depth : Nat) :
    ∀ members : List (String × Value), SpelledTokens (memberTokens (membersData members) ++ tokens)
      (writeMembers (depth + 1) members ++ (newline depth ++ '\x7d' :: text))
  | [] => (h.mark .closeBrace).newline depth
  | (key, value) :: members => by
    have hmembers := spelledTokens_writeMembers h depth members
    have hvalue := ((spelledTokens_write hmembers (depth + 1) value).key key).newline (depth + 1)
    simpa [writeMembers, membersData, memberTokens, Mark.char] using hvalue.mark .comma

end

theorem spelledAs_write (value : Value) (depth : Nat) :
    value.toData.SpelledAs (value.write depth) := by
  simpa [Data.SpelledAs] using spelledTokens_write .nil depth value

end Value

end CallCountLint.Json
