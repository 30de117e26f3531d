import CallCountLint.Proofs.Json.Scanning

/-!
This module contains the division of a JSON text into tokens, and the proof that it follows the
grammar. A number goes on as long as it can, so a row of tokens is found again just if no number
follows another one directly.
-/

namespace CallCountLint.Json

def readDigits (text : List Char) : Option (List Char × List Char) :=
  if text.takeWhile Char.isDigit = [] then none
  else some (text.takeWhile Char.isDigit, text.dropWhile Char.isDigit)

def readFraction : List Char → Option (ℚ × List Char)
  | '.' :: text => (readDigits text).map <|
    Prod.map (fun digits => Nat.ofDigitChars 10 digits 0 / 10 ^ digits.length) id
  | text => some (0, text)

def readScale : List Char → Option (ℤ × List Char)
  | '-' :: text => (readDigits text).map (Prod.map (fun digits => -Nat.ofDigitChars 10 digits 0) id)
  | '+' :: text => (readDigits text).map (Prod.map (fun digits => Nat.ofDigitChars 10 digits 0) id)
  | text => (readDigits text).map (Prod.map (fun digits => Nat.ofDigitChars 10 digits 0) id)

def readExponent : List Char → Option (ℤ × List Char)
  | 'e' :: text => readScale text
  | 'E' :: text => readScale text
  | text => some (0, text)

def readMagnitude (text : List Char) : Option (ℚ × List Char) := do
  let (whole, text) ← readDigits text
  guard (whole.head? = some '0' → whole = ['0'])
  let (fraction, text) ← readFraction text
  let (exponent, text) ← readExponent text
  return ((Nat.ofDigitChars 10 whole 0 + fraction) * 10 ^ exponent, text)

def Token.read? : List Char → Option (Token × List Char)
  | '[' :: text => some (.mark .openBracket, text)
  | ']' :: text => some (.mark .closeBracket, text)
  | '\x7b' :: text => some (.mark .openBrace, text)
  | '\x7d' :: text => some (.mark .closeBrace, text)
  | ':' :: text => some (.mark .colon, text)
  | ',' :: text => some (.mark .comma, text)
  | 'n' :: 'u' :: 'l' :: 'l' :: text => some (.null, text)
  | 't' :: 'r' :: 'u' :: 'e' :: text => some (.boolean true, text)
  | 'f' :: 'a' :: 'l' :: 's' :: 'e' :: text => some (.boolean false, text)
  | '"' :: text => (scanString text).toOption.map (Prod.map (.string ∘ String.ofList) id)
  | '-' :: text => (readMagnitude text).map (Prod.map (fun value => .number (-value)) id)
  | text => (readMagnitude text).map (Prod.map .number id)

def lex (text : List Char) : Option (List Token) :=
  if skipBlank text = [] then
    some []
  else
    match Token.read? (skipBlank text) with
    | none => none
    | some (token, rest) =>
      if rest.length < text.length then (lex rest).map (token :: ·) else none
termination_by text.length

def StartsOutside (p : Char → Prop) (text : List Char) : Prop :=
  ∀ c ∈ text.head?, ¬ p c

/--
The text does not go on with a number that ends before it.
-/
def NumberEnds (text : List Char) : Prop :=
  StartsOutside (fun c => c.isDigit ∨ c = '.' ∨ c = 'e' ∨ c = 'E') text

theorem map_eq_some_pair_iff {α β γ : Type} {read : Option (α × γ)} {f : α → β} {value : β}
    {rest : γ} :
    read.map (Prod.map f id) = some (value, rest) ↔ ∃ a, read = some (a, rest) ∧ f a = value := by
  cases read <;> simp [Prod.ext_iff, and_comm]

theorem StartsOutside.mono {p q : Char → Prop} {text : List Char} (h : StartsOutside p text)
    (hpq : ∀ c, q c → p c) : StartsOutside q text :=
  fun c hc hq => h c hc (hpq c hq)

theorem readDigits_of_isDigits {digits rest : List Char} (h : IsDigits digits)
    (hrest : StartsOutside (fun c => c.isDigit) rest) :
    readDigits (digits ++ rest) = some (digits, rest) := by
  have htake : rest.takeWhile Char.isDigit = [] := by
    cases rest with
    | nil => rfl
    | cons c rest => exact List.takeWhile_cons_of_neg (hrest c rfl)
  have hdrop : rest.dropWhile Char.isDigit = rest := by
    cases rest with
    | nil => rfl
    | cons c rest => exact List.dropWhile_cons_of_neg (hrest c rfl)
  unfold readDigits
  rw [List.takeWhile_append_of_pos h.2, List.dropWhile_append_of_pos h.2, htake, hdrop,
    List.append_nil, if_neg h.1]

theorem isDigits_of_readDigits {text digits rest : List Char}
    (h : readDigits text = some (digits, rest)) : IsDigits digits ∧ text = digits ++ rest := by
  unfold readDigits at h
  split at h
  . simp at h
  . next hne =>
    simp only [Option.some.injEq, Prod.mk.injEq] at h
    obtain ⟨rfl, rfl⟩ := h
    refine ⟨⟨hne, ?_⟩, List.takeWhile_append_dropWhile.symm⟩
    intro c hc
    exact List.mem_takeWhile_imp hc

theorem readFraction_of_spelled {fraction : ℚ} {after rest : List Char}
    (h : SpelledFraction fraction after)
    (hrest : StartsOutside (fun c => c.isDigit ∨ c = '.') rest) :
    readFraction (after ++ rest) = some (fraction, rest) := by
  cases h with
  | none =>
    rw [List.nil_append]
    unfold readFraction
    split
    . exact absurd (.inr rfl) (hrest '.' rfl)
    . rfl
  | digits digits isDigits =>
    simp only [List.cons_append, readFraction,
      readDigits_of_isDigits isDigits (hrest.mono fun _ => .inl)]
    rfl

theorem spelled_of_readFraction {text rest : List Char} {fraction : ℚ}
    (h : readFraction text = some (fraction, rest)) :
    ∃ after, SpelledFraction fraction after ∧ text = after ++ rest := by
  unfold readFraction at h
  split at h
  . obtain ⟨digits, hread, rfl⟩ := map_eq_some_pair_iff.mp h
    obtain ⟨hdigits, rfl⟩ := isDigits_of_readDigits hread
    exact ⟨'.' :: digits, .digits digits hdigits, rfl⟩
  . simp only [Option.some.injEq, Prod.mk.injEq] at h
    obtain ⟨rfl, rfl⟩ := h
    exact ⟨[], .none, rfl⟩

theorem readScale_of_digits {digits rest : List Char} (h : IsDigits digits)
    (hrest : StartsOutside (fun c => c.isDigit) rest) :
    readScale (digits ++ rest) = some ((Nat.ofDigitChars 10 digits 0 : ℤ), rest) := by
  have hread := readDigits_of_isDigits h hrest
  obtain ⟨c, tail, rfl, hc⟩ := h.exists_cons
  unfold readScale
  split
  . next heq =>
    obtain ⟨rfl, -⟩ := List.cons.inj heq
    simp at hc
  . next heq =>
    obtain ⟨rfl, -⟩ := List.cons.inj heq
    simp at hc
  . rw [hread]
    rfl

theorem readExponent_of_spelled {exponent : ℤ} {scale rest : List Char}
    (h : SpelledExponent exponent scale) (hrest : NumberEnds rest) :
    readExponent (scale ++ rest) = some (exponent, rest) := by
  have hdigit : StartsOutside (fun c => c.isDigit) rest := hrest.mono fun _ => .inl
  cases h with
  | none =>
    rw [List.nil_append]
    unfold readExponent
    split
    . exact absurd (by simp) (hrest 'e' rfl)
    . exact absurd (by simp) (hrest 'E' rfl)
    . rfl
  | up letter sign digits isLetter isSign isDigits =>
    have hread : readScale (sign ++ digits ++ rest)
        = some ((Nat.ofDigitChars 10 digits 0 : ℤ), rest) := by
      rcases isSign with rfl | rfl
      . exact readScale_of_digits isDigits hdigit
      . simp only [List.cons_append, List.nil_append, readScale,
          readDigits_of_isDigits isDigits hdigit]
        rfl
    rcases isLetter with rfl | rfl <;> exact hread
  | down letter digits isLetter isDigits =>
    have hread : readScale ('-' :: digits ++ rest)
        = some (-(Nat.ofDigitChars 10 digits 0 : ℤ), rest) := by
      simp only [List.cons_append, readScale, readDigits_of_isDigits isDigits hdigit]
      rfl
    rcases isLetter with rfl | rfl <;> exact hread

theorem spelled_of_readScale {text rest : List Char} {exponent : ℤ} {letter : Char}
    (hletter : letter = 'e' ∨ letter = 'E') (h : readScale text = some (exponent, rest)) :
    ∃ scale, SpelledExponent exponent (letter :: scale) ∧ text = scale ++ rest := by
  unfold readScale at h
  split at h
  all_goals
    obtain ⟨digits, hread, rfl⟩ := map_eq_some_pair_iff.mp h
    obtain ⟨hdigits, rfl⟩ := isDigits_of_readDigits hread
  . exact ⟨'-' :: digits, .down letter digits hletter hdigits, rfl⟩
  . exact ⟨'+' :: digits, .up letter ['+'] digits hletter (.inr rfl) hdigits, rfl⟩
  . exact ⟨digits, .up letter [] digits hletter (.inl rfl) hdigits, rfl⟩

theorem spelled_of_readExponent {text rest : List Char} {exponent : ℤ}
    (h : readExponent text = some (exponent, rest)) :
    ∃ scale, SpelledExponent exponent scale ∧ text = scale ++ rest := by
  unfold readExponent at h
  split at h
  . obtain ⟨scale, hscale, rfl⟩ := spelled_of_readScale (.inl rfl) h
    exact ⟨_, hscale, rfl⟩
  . obtain ⟨scale, hscale, rfl⟩ := spelled_of_readScale (.inr rfl) h
    exact ⟨_, hscale, rfl⟩
  . simp only [Option.some.injEq, Prod.mk.injEq] at h
    obtain ⟨rfl, rfl⟩ := h
    exact ⟨[], .none, rfl⟩

theorem SpelledExponent.startsOutside {exponent : ℤ} {scale rest : List Char}
    (h : SpelledExponent exponent scale) (hrest : NumberEnds rest) :
    StartsOutside (fun c => c.isDigit ∨ c = '.') (scale ++ rest) := by
  have hletter : ∀ letter tail, letter = 'e' ∨ letter = 'E' →
      StartsOutside (fun c => c.isDigit ∨ c = '.') (letter :: tail) := by
    rintro letter tail hletter _ ⟨⟩
    rcases hletter with rfl | rfl <;> decide
  cases h with
  | none => exact hrest.mono fun c hc => hc.imp_right .inl
  | up letter _ _ isLetter => exact hletter letter _ isLetter
  | down letter _ isLetter => exact hletter letter _ isLetter

theorem SpelledFraction.startsOutside {fraction : ℚ} {after rest : List Char}
    (h : SpelledFraction fraction after)
    (hrest : StartsOutside (fun c => c.isDigit ∨ c = '.') rest) :
    StartsOutside (fun c => c.isDigit) (after ++ rest) := by
  cases h with
  | none => exact hrest.mono fun _ => .inl
  | digits =>
    rintro _ ⟨⟩
    decide

theorem readMagnitude_of_spelled {value : ℚ} {text rest : List Char}
    (h : SpelledMagnitude value text) (hrest : NumberEnds rest) :
    readMagnitude (text ++ rest) = some (value, rest) := by
  cases h with
  | intro isWhole isFraction isExponent =>
    have hscale := isExponent.startsOutside hrest
    have hafter := isFraction.startsOutside hscale
    unfold readMagnitude
    rw [List.append_assoc, List.append_assoc, readDigits_of_isDigits isWhole.1 hafter]
    simp only [Option.bind_eq_bind, Option.bind_some, guard, if_pos isWhole.2,
      readFraction_of_spelled isFraction hscale, readExponent_of_spelled isExponent hrest]
    rfl

theorem spelled_of_readMagnitude {text rest : List Char} {value : ℚ}
    (h : readMagnitude text = some (value, rest)) :
    ∃ spelling, SpelledMagnitude value spelling ∧ text = spelling ++ rest := by
  simp only [readMagnitude, Option.bind_eq_bind, Option.bind_eq_some_iff, Option.pure_def,
    Option.some.injEq, Prod.mk.injEq, Prod.exists, Option.guard_eq_some', exists_const] at h
  obtain ⟨whole, _, hwhole, hzero, fraction, _, hfraction, exponent, _, hexponent, rfl, rfl⟩ := h
  obtain ⟨hdigits, rfl⟩ := isDigits_of_readDigits hwhole
  obtain ⟨after, hafter, rfl⟩ := spelled_of_readFraction hfraction
  obtain ⟨scale, hscale, rfl⟩ := spelled_of_readExponent hexponent
  exact ⟨_, .intro ⟨hdigits, hzero⟩ hafter hscale, by simp⟩

theorem Token.read?_of_digit {c : Char} (hc : c.isDigit) (text : List Char) :
    Token.read? (c :: text) = (readMagnitude (c :: text)).map (Prod.map .number id) := by
  unfold Token.read?
  split
  case h_12 => rfl
  all_goals
    next heq =>
    obtain ⟨rfl, -⟩ := List.cons.inj heq
    simp at hc

theorem Token.read?_of_spelled {token : Token} {spelling rest : List Char}
    (h : token.SpelledAs spelling) (hrest : ∀ value, token = .number value → NumberEnds rest) :
    Token.read? (spelling ++ rest) = some (token, rest) := by
  cases h with
  | mark mark => cases mark <;> rfl
  | nullWord | trueWord | falseWord => rfl
  | number magnitude =>
    have hread := readMagnitude_of_spelled magnitude (hrest _ rfl)
    obtain ⟨c, tail, rfl, hc⟩ := magnitude.exists_cons
    rw [List.cons_append] at hread ⊢
    rw [read?_of_digit hc, hread]
    rfl
  | negative magnitude =>
    simp only [List.cons_append, read?, readMagnitude_of_spelled magnitude (hrest _ rfl)]
    rfl
  | string inside =>
    simp only [List.cons_append, List.append_assoc, List.nil_append, read?,
      scanString_of_spelled inside, Except.toOption]
    simp

theorem Token.spelled_of_read? {text rest : List Char} {token : Token}
    (h : Token.read? text = some (token, rest)) :
    ∃ spelling, token.SpelledAs spelling ∧ text = spelling ++ rest := by
  unfold Token.read? at h
  split at h
  case h_10 text =>
    obtain ⟨value, hscan, rfl⟩ := map_eq_some_pair_iff.mp h
    cases hresult : scanString text with
    | error => simp [hresult, Except.toOption] at hscan
    | ok result =>
      simp only [hresult, Except.toOption, Option.some.injEq] at hscan
      rw [hscan] at hresult
      obtain ⟨inside, hinside, rfl⟩ := scanString_eq_ok_iff.mp hresult
      exact ⟨'"' :: (inside ++ ['"']), .string (by simpa using hinside), by simp⟩
  case h_11 text =>
    obtain ⟨value, hread, rfl⟩ := map_eq_some_pair_iff.mp h
    obtain ⟨spelling, hspelling, rfl⟩ := spelled_of_readMagnitude hread
    exact ⟨'-' :: spelling, .negative hspelling, rfl⟩
  case h_12 =>
    obtain ⟨value, hread, rfl⟩ := map_eq_some_pair_iff.mp h
    obtain ⟨spelling, hspelling, rfl⟩ := spelled_of_readMagnitude hread
    exact ⟨spelling, .number hspelling, rfl⟩
  all_goals
    simp only [Option.some.injEq, Prod.mk.injEq] at h
    obtain ⟨rfl, rfl⟩ := h
  case h_7 => exact ⟨_, .nullWord, rfl⟩
  case h_8 => exact ⟨_, .trueWord, rfl⟩
  case h_9 => exact ⟨_, .falseWord, rfl⟩
  all_goals exact ⟨_, .mark _, rfl⟩

def Token.IsNumber : Token → Prop
  | .number _ => True
  | _ => False

/--
No number follows another one directly, since there would be no telling where the first one ends.
-/
def Separated (tokens : List Token) : Prop :=
  tokens.IsChain fun first second => ¬ (first.IsNumber ∧ second.IsNumber)

theorem SpelledTokens.numberEnds {tokens : List Token} {text : List Char}
    (h : SpelledTokens tokens text) (hhead : ∀ token ∈ tokens.head?, ¬ token.IsNumber) :
    NumberEnds text := by
  cases h with
  | nil => simp [NumberEnds, StartsOutside]
  | blank c isBlank rest =>
    rintro _ ⟨⟩
    simp only [List.mem_cons, List.not_mem_nil, or_false] at isBlank
    rcases isBlank with rfl | rfl | rfl | rfl <;> decide
  | token head rest =>
    cases head with
    | mark mark =>
      rintro _ ⟨⟩
      cases mark <;> decide
    | nullWord | trueWord | falseWord | string =>
      rintro _ ⟨⟩
      decide
    | number | negative => exact absurd trivial (hhead _ rfl)

theorem lex_of_spelled {tokens : List Token} {text : List Char} (h : SpelledTokens tokens text)
    (hseparated : Separated tokens) : lex text = some tokens := by
  induction tokens generalizing text with
  | nil => rw [lex, if_pos h.skipBlank_of_nil]
  | cons token tokens ih =>
    obtain ⟨spelling, rest, hspelling, hrest, htext⟩ := h.next
    obtain ⟨c, tail, rfl, -⟩ := hspelling.exists_cons
    have hread : Token.read? (skipBlank text) = some (token, rest) := by
      rw [htext]
      apply Token.read?_of_spelled hspelling
      rintro value rfl
      apply hrest.numberEnds
      intro second hsecond hnumber
      exact hseparated.rel_head? hsecond ⟨trivial, hnumber⟩
    have hlength : rest.length < text.length := by
      have hskipped := (List.dropWhile_suffix isBlank (l := text)).length_le
      unfold skipBlank at htext
      rw [htext, List.length_append, List.length_cons] at hskipped
      omega
    rw [lex, if_neg (by simp [htext]), hread]
    simp only
    rw [if_pos hlength, ih hrest hseparated.tail]
    rfl

theorem spelled_of_lex {text : List Char} {tokens : List Token} (h : lex text = some tokens) :
    SpelledTokens tokens text := by
  fun_induction lex text generalizing tokens with
  | case1 text hnil =>
    obtain rfl : [] = tokens := by simpa using h
    apply SpelledTokens.of_skipBlank
    rw [hnil]
    exact .nil
  | case2 => simp at h
  | case3 text _ token rest hread _ ih =>
    obtain ⟨tokens, htokens, rfl⟩ := Option.map_eq_some_iff.mp h
    obtain ⟨spelling, hspelling, htext⟩ := Token.spelled_of_read? hread
    apply SpelledTokens.of_skipBlank
    rw [htext]
    exact .token hspelling (ih htokens)
  | case4 => simp at h

end CallCountLint.Json
