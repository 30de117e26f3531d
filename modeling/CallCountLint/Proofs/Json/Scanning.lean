import CallCountLint.Json.Scan
import CallCountLint.Proofs.Json.Grammar

/-!
This module contains what the readers of single tokens accept. They read exactly the spellings that
the grammar has for blanks and strings, and they leave what follows a token as it is.
-/

namespace CallCountLint.Json

theorem isBlank_iff {c : Char} : isBlank c = true ↔ c ∈ [' ', '\t', '\n', '\r'] := by
  simp [isBlank, or_assoc]

theorem hexValue?_of_isHexDigit {c : Char} {value : Nat} (h : IsHexDigit c value) :
    hexValue? c = some value := by
  obtain ⟨hlt, hc⟩ := h
  have hdigit : ∀ value < 16, hexValue? value.digitChar = some value
      ∧ hexValue? value.digitChar.toUpper = some value := by decide
  rcases hc with rfl | rfl
  . exact (hdigit value hlt).1
  . exact (hdigit value hlt).2

theorem isHexDigit_of_hexValue? {c : Char} {value : Nat} (h : hexValue? c = some value) :
    IsHexDigit c value := by
  -- Only ASCII characters are digits, and these are few.
  have hascii : ∀ n < 128, ∀ value ∈ hexValue? (Char.ofNat n), value < 16
      ∧ (Char.ofNat n = value.digitChar ∨ Char.ofNat n = value.digitChar.toUpper) := by decide
  have hlt : c.toNat < 128 := by
    unfold hexValue? at h
    simp only [Char.le_def, UInt32.le_iff_toNat_le] at h
    change c.val.toNat < 128
    split at h
    . next hc => exact Nat.lt_of_le_of_lt hc.2 (by decide)
    . split at h
      . next hc => exact Nat.lt_of_le_of_lt hc.2 (by decide)
      . split at h
        . next hc => exact Nat.lt_of_le_of_lt hc.2 (by decide)
        . simp at h
  have := hascii c.toNat hlt value
  rw [Char.ofNat_toNat] at this
  exact this h

theorem hexValue?_eq_some_iff {c : Char} {value : Nat} :
    hexValue? c = some value ↔ IsHexDigit c value :=
  ⟨isHexDigit_of_hexValue?, hexValue?_of_isHexDigit⟩

theorem spelledUnit_of_digits {a b c d : Char} {first second third fourth : Nat}
    (ha : IsHexDigit a first) (hb : IsHexDigit b second) (hc : IsHexDigit c third)
    (hd : IsHexDigit d fourth) :
    SpelledUnit (((first * 16 + second) * 16 + third) * 16 + fourth) [a, b, c, d] := by
  have hfirst := ha.1
  have hsecond := hb.1
  have hthird := hc.1
  have hfourth := hd.1
  refine ⟨by omega, .cons ?_ (.cons ?_ (.cons ?_ (.cons ?_ .nil)))⟩
  . convert ha using 1
    omega
  . convert hb using 1
    omega
  . convert hc using 1
    omega
  . convert hd using 1
    omega

theorem scanHex_eq_ok_iff {text rest : List Char} {unit : Nat} :
    scanHex text = .ok (unit, rest)
      ↔ ∃ digits, SpelledUnit unit digits ∧ text = digits ++ rest := by
  constructor
  . intro h
    unfold scanHex at h
    split at h
    . next a b c d tail =>
      split at h
      . next ha hb hc hd =>
        simp only [Except.ok.injEq, Prod.mk.injEq] at h
        obtain ⟨rfl, rfl⟩ := h
        rw [hexValue?_eq_some_iff] at ha hb hc hd
        exact ⟨[a, b, c, d], spelledUnit_of_digits ha hb hc hd, rfl⟩
      . simp at h
    . split at h <;> simp at h
  . rintro ⟨digits, ⟨hlt, hdigits⟩, rfl⟩
    simp only [List.forall₂_cons_right_iff, List.forall₂_nil_right_iff] at hdigits
    obtain ⟨a, _, ha, ⟨b, _, hb, ⟨c, _, hc, ⟨d, _, hd, rfl, rfl⟩, rfl⟩, rfl⟩, rfl⟩ := hdigits
    rw [← hexValue?_eq_some_iff] at ha hb hc hd
    simp only [List.cons_append, List.nil_append, scanHex, ha, hb, hc, hd, Except.ok.injEq,
      Prod.mk.injEq, and_true]
    omega

theorem isLeadingSurrogate_iff {unit : Nat} :
    isLeadingSurrogate unit = true ↔ 0xd800 ≤ unit ∧ unit < 0xdc00 := by
  simp [isLeadingSurrogate]

theorem isTrailingSurrogate_iff {unit : Nat} :
    isTrailingSurrogate unit = true ↔ 0xdc00 ≤ unit ∧ unit < 0xe000 := by
  simp [isTrailingSurrogate]

theorem scanTrailing_eq_ok_iff {text rest : List Char} {unit : Nat} :
    scanTrailing text = .ok (unit, rest) ↔ isTrailingSurrogate unit
      ∧ ∃ digits, SpelledUnit unit digits ∧ text = '\\' :: 'u' :: (digits ++ rest) := by
  constructor
  . intro h
    unfold scanTrailing at h
    split at h
    . simp at h
    . simp at h
    . split at h
      . simp at h
      . next hhex =>
        split at h
        . next htrailing =>
          simp only [Except.ok.injEq, Prod.mk.injEq] at h
          obtain ⟨rfl, rfl⟩ := h
          obtain ⟨digits, hdigits, rfl⟩ := scanHex_eq_ok_iff.mp hhex
          exact ⟨htrailing, digits, hdigits, rfl⟩
        . simp at h
    . simp at h
  . rintro ⟨htrailing, digits, hdigits, rfl⟩
    simp only [scanTrailing, scanHex_eq_ok_iff.mpr ⟨digits, hdigits, rfl⟩, htrailing, if_true]

theorem toNat_ofNat_of_valid {n : Nat} (h : n < 0xd800 ∨ 0xdfff < n ∧ n < 0x110000) :
    (Char.ofNat n).toNat = n := by
  rw [Char.toNat_ofNat, if_pos h]

theorem spelledChar_of_surrogates {leading trailing : Nat} {digits digits' : List Char}
    (hleading : isLeadingSurrogate leading) (htrailing : isTrailingSurrogate trailing)
    (hdigits : SpelledUnit leading digits) (hdigits' : SpelledUnit trailing digits') :
    SpelledChar (Char.ofNat (0x10000 + (leading - 0xd800) * 0x400 + (trailing - 0xdc00)))
      ('\\' :: 'u' :: (digits ++ '\\' :: 'u' :: digits')) := by
  rw [isLeadingSurrogate_iff] at hleading
  rw [isTrailingSurrogate_iff] at htrailing
  have hvalid : (Char.ofNat (0x10000 + (leading - 0xd800) * 0x400 + (trailing - 0xdc00))).toNat
      = 0x10000 + (leading - 0xd800) * 0x400 + (trailing - 0xdc00) :=
    toNat_ofNat_of_valid (by omega)
  refine .pair digits digits' (by omega) ?_ ?_
  . convert hdigits using 1
    omega
  . convert hdigits' using 1
    omega

theorem spelledChar_of_scanUnits {text rest : List Char} {c : Char}
    (h : scanUnits text = .ok (c, rest)) :
    ∃ spelling, SpelledChar c ('\\' :: 'u' :: spelling) ∧ text = spelling ++ rest := by
  unfold scanUnits at h
  split at h
  . simp at h
  . next unit between hhex =>
    obtain ⟨digits, hdigits, rfl⟩ := scanHex_eq_ok_iff.mp hhex
    split at h
    . simp at h
    . next htrailing =>
      split at h
      . next hleading =>
        split at h
        . simp at h
        . next second _ hsecond =>
          simp only [Except.ok.injEq, Prod.mk.injEq] at h
          obtain ⟨rfl, rfl⟩ := h
          obtain ⟨hsurrogate, digits', hdigits', rfl⟩ := scanTrailing_eq_ok_iff.mp hsecond
          exact ⟨digits ++ '\\' :: 'u' :: digits',
            spelledChar_of_surrogates hleading hsurrogate hdigits hdigits', by simp⟩
      . next hleading =>
        simp only [Except.ok.injEq, Prod.mk.injEq] at h
        obtain ⟨rfl, rfl⟩ := h
        refine ⟨digits, .unit digits ?_, rfl⟩
        have hlt := hdigits.1
        rw [isLeadingSurrogate_iff] at hleading
        rw [isTrailingSurrogate_iff] at htrailing
        rw [toNat_ofNat_of_valid (by omega)]
        exact hdigits

theorem scanUnits_of_unit {c : Char} {digits : List Char} (h : SpelledUnit c.toNat digits)
    (rest : List Char) : scanUnits (digits ++ rest) = .ok (c, rest) := by
  have hvalid := c.toNat_not_surrogate
  simp only [Char.minSurrogate, Char.maxSurrogate] at hvalid
  have htrailing : ¬ isTrailingSurrogate c.toNat := by
    rw [isTrailingSurrogate_iff]
    omega
  have hleading : ¬ isLeadingSurrogate c.toNat := by
    rw [isLeadingSurrogate_iff]
    omega
  simp only [scanUnits, scanHex_eq_ok_iff.mpr ⟨_, h, rfl⟩, if_neg htrailing, if_neg hleading,
    Char.ofNat_toNat]

theorem scanUnits_of_pair {c : Char} {leading trailing : List Char} (hbeyond : 0x10000 ≤ c.toNat)
    (hfirst : SpelledUnit (0xd800 + (c.toNat - 0x10000) / 0x400) leading)
    (hsecond : SpelledUnit (0xdc00 + (c.toNat - 0x10000) % 0x400) trailing) (rest : List Char) :
    scanUnits (leading ++ '\\' :: 'u' :: (trailing ++ rest)) = .ok (c, rest) := by
  have hmax := c.toNat_le_max
  simp only [Char.max] at hmax
  have hnot : ¬ isTrailingSurrogate (0xd800 + (c.toNat - 0x10000) / 0x400) := by
    rw [isTrailingSurrogate_iff]
    omega
  have hleading : isLeadingSurrogate (0xd800 + (c.toNat - 0x10000) / 0x400) := by
    rw [isLeadingSurrogate_iff]
    omega
  have htrailing : isTrailingSurrogate (0xdc00 + (c.toNat - 0x10000) % 0x400) := by
    rw [isTrailingSurrogate_iff]
    omega
  have hvalue : 0x10000 + (0xd800 + (c.toNat - 0x10000) / 0x400 - 0xd800) * 0x400
      + (0xdc00 + (c.toNat - 0x10000) % 0x400 - 0xdc00) = c.toNat := by omega
  simp only [scanUnits, scanHex_eq_ok_iff.mpr ⟨_, hfirst, rfl⟩, if_neg hnot, if_pos hleading,
    scanTrailing_eq_ok_iff.mpr ⟨htrailing, _, hsecond, rfl⟩, hvalue, Char.ofNat_toNat]

theorem scanEscape_eq_ok_iff {text rest : List Char} {c : Char} :
    scanEscape text = .ok (c, rest)
      ↔ ∃ spelling, SpelledChar c ('\\' :: spelling) ∧ text = spelling ++ rest := by
  constructor
  . intro h
    unfold scanEscape at h
    split at h
    case h_1 => simp at h
    case h_11 => simp at h
    case h_10 tail =>
      obtain ⟨spelling, hspelling, rfl⟩ := spelledChar_of_scanUnits h
      exact ⟨'u' :: spelling, hspelling, rfl⟩
    all_goals
      simp only [Except.ok.injEq, Prod.mk.injEq] at h
      obtain ⟨rfl, rfl⟩ := h
      exact ⟨[_], .short _ (by simp [shortEscapes]), rfl⟩
  . rintro ⟨spelling, hspelling, rfl⟩
    cases hspelling with
    | plain quote backslash => exact absurd rfl backslash
    | short letter escape =>
      simp only [shortEscapes, List.mem_cons, Prod.mk.injEq, List.not_mem_nil, or_false] at escape
      rcases escape with ⟨rfl, rfl⟩ | ⟨rfl, rfl⟩ | ⟨rfl, rfl⟩ | ⟨rfl, rfl⟩ | ⟨rfl, rfl⟩ | ⟨rfl, rfl⟩
        | ⟨rfl, rfl⟩ | ⟨rfl, rfl⟩ <;> rfl
    | unit digits unit => exact scanUnits_of_unit unit rest
    | pair leading trailing beyond first second =>
      rw [List.cons_append, List.append_assoc, List.cons_append, List.cons_append]
      exact scanUnits_of_pair beyond first second rest

theorem scanString.go_escape {text rest : List Char} {c : Char}
    (h : scanEscape text = .ok (c, rest)) (read : List Char) :
    go ('\\' :: text) read = go rest (c :: read) := by
  rw [go, if_neg (by decide), if_pos rfl]
  split
  . next herror => simp [h] at herror
  . next hok =>
    rw [h, Except.ok.injEq, Prod.mk.injEq] at hok
    rw [hok.1, hok.2]

theorem scanString.go_of_spelledChar {c : Char} {spelling : List Char} (h : SpelledChar c spelling)
    (text read : List Char) : go (spelling ++ text) read = go text (c :: read) := by
  have hescape : ∀ tail, spelling = '\\' :: tail →
      go (spelling ++ text) read = go text (c :: read) := by
    rintro tail rfl
    exact go_escape (scanEscape_eq_ok_iff.mpr ⟨tail, h, rfl⟩) read
  cases h with
  | plain quote backslash control =>
    rw [List.singleton_append, go, if_neg quote, if_neg backslash, if_neg (Char.not_lt.mpr control)]
  | _ => exact hescape _ rfl

theorem scanString.go_of_spelledString {value inside : List Char} (h : SpelledString value inside)
    (rest read : List Char) :
    go (inside ++ '"' :: rest) read = .ok (read.reverse ++ value, rest) := by
  induction h generalizing read with
  | nil => rw [List.nil_append, go, if_pos rfl, List.append_nil]
  | cons head tail ih =>
    rw [List.append_assoc, go_of_spelledChar head, ih]
    simp

theorem scanString.spelledString_of_go {text read value rest : List Char}
    (h : go text read = .ok (value, rest)) :
    ∃ more inside, value = read.reverse ++ more ∧ SpelledString more inside
      ∧ text = inside ++ '"' :: rest := by
  fun_induction go text read with
  | case1 => simp at h
  | case2 read text =>
    simp only [Except.ok.injEq, Prod.mk.injEq] at h
    obtain ⟨rfl, rfl⟩ := h
    exact ⟨[], [], by simp, .nil, rfl⟩
  | case3 => simp at h
  | case4 read text c tail hescape _ _ ih =>
    obtain ⟨more, inside, rfl, hinside, rfl⟩ := ih h
    obtain ⟨spelling, hspelling, rfl⟩ := scanEscape_eq_ok_iff.mp hescape
    exact ⟨c :: more, '\\' :: spelling ++ inside, by simp, .cons hspelling hinside, by simp⟩
  | case5 => simp at h
  | case6 read c text hquote hbackslash hcontrol ih =>
    obtain ⟨more, inside, rfl, hinside, rfl⟩ := ih h
    exact ⟨c :: more, [c] ++ inside, by simp,
      .cons (.plain hquote hbackslash (Char.not_lt.mp hcontrol)) hinside, rfl⟩

theorem scanString_of_spelled {value inside : List Char} (h : SpelledString value inside)
    (rest : List Char) : scanString (inside ++ '"' :: rest) = .ok (value, rest) :=
  scanString.go_of_spelledString h rest []

theorem scanString_eq_ok_iff {text value rest : List Char} :
    scanString text = .ok (value, rest)
      ↔ ∃ inside, SpelledString value inside ∧ text = inside ++ '"' :: rest := by
  constructor
  . intro h
    obtain ⟨more, inside, rfl, hinside, htext⟩ := scanString.spelledString_of_go h
    exact ⟨inside, hinside, htext⟩
  . rintro ⟨inside, hinside, rfl⟩
    exact scanString_of_spelled hinside rest

theorem IsDigits.exists_cons {text : List Char} (h : IsDigits text) :
    ∃ c tail, text = c :: tail ∧ c.isDigit := by
  obtain ⟨hne, hdigits⟩ := h
  obtain ⟨c, tail, rfl⟩ := List.exists_cons_of_ne_nil hne
  exact ⟨c, tail, rfl, hdigits c List.mem_cons_self⟩

theorem SpelledMagnitude.exists_cons {value : ℚ} {text : List Char}
    (h : SpelledMagnitude value text) : ∃ c tail, text = c :: tail ∧ c.isDigit := by
  cases h with
  | intro isWhole =>
    obtain ⟨c, tail, rfl, hc⟩ := isWhole.1.exists_cons
    exact ⟨c, _, rfl, hc⟩

theorem Token.SpelledAs.exists_cons {token : Token} {text : List Char} (h : token.SpelledAs text) :
    ∃ c tail, text = c :: tail ∧ isBlank c = false := by
  cases h with
  | mark mark => exact ⟨_, _, rfl, by cases mark <;> decide⟩
  | nullWord | trueWord | falseWord | negative | string => exact ⟨_, _, rfl, by decide⟩
  | number magnitude =>
    obtain ⟨c, tail, rfl, hc⟩ := magnitude.exists_cons
    refine ⟨c, tail, rfl, ?_⟩
    rw [Bool.eq_false_iff, ne_eq, isBlank_iff]
    intro hblank
    simp only [List.mem_cons, List.not_mem_nil, or_false] at hblank
    rcases hblank with rfl | rfl | rfl | rfl <;> simp at hc

namespace SpelledTokens

variable {token : Token} {tokens : List Token} {text : List Char}

theorem next (h : SpelledTokens (token :: tokens) text) :
    ∃ spelling rest, token.SpelledAs spelling ∧ SpelledTokens tokens rest
      ∧ skipBlank text = spelling ++ rest := by
  generalize hall : token :: tokens = all at h
  induction h with
  | nil => simp at hall
  | blank c hblank rest ih =>
    obtain ⟨spelling, rest, hspelling, hrest, htext⟩ := ih hall
    refine ⟨spelling, rest, hspelling, hrest, ?_⟩
    rw [← htext]
    exact List.dropWhile_cons_of_pos (isBlank_iff.mpr hblank)
  | token head rest ih =>
    obtain ⟨rfl, rfl⟩ := List.cons.inj hall
    refine ⟨_, _, head, rest, ?_⟩
    obtain ⟨c, tail, rfl, hc⟩ := head.exists_cons
    exact List.dropWhile_cons_of_neg (by simp [hc])

theorem next_mark {mark : Mark} (h : SpelledTokens (.mark mark :: tokens) text) :
    ∃ rest, SpelledTokens tokens rest ∧ skipBlank text = mark.char :: rest := by
  obtain ⟨spelling, rest, hspelling, hrest, htext⟩ := h.next
  cases hspelling
  exact ⟨rest, hrest, htext⟩

theorem next_string {value : String} (h : SpelledTokens (.string value :: tokens) text) :
    ∃ inside rest, SpelledString value.toList inside ∧ SpelledTokens tokens rest
      ∧ skipBlank text = '"' :: (inside ++ '"' :: rest) := by
  obtain ⟨spelling, rest, hspelling, hrest, htext⟩ := h.next
  cases hspelling with
  | string inside => exact ⟨_, rest, inside, hrest, by simpa using htext⟩

theorem skipBlank_ne_quote (h : SpelledTokens (token :: tokens) text)
    (htoken : ∀ value, token ≠ .string value) (rest : List Char) :
    skipBlank text ≠ '"' :: rest := by
  obtain ⟨spelling, after, hspelling, -, htext⟩ := h.next
  rw [htext]
  intro heq
  cases hspelling with
  | mark mark => cases mark <;> simp [Mark.char] at heq
  | number magnitude =>
    obtain ⟨c, tail, rfl, hc⟩ := magnitude.exists_cons
    obtain ⟨rfl, -⟩ := List.cons.inj heq
    simp at hc
  | string => exact htoken _ rfl
  | _ => simp at heq

theorem skipBlank_of_nil (h : SpelledTokens [] text) : skipBlank text = [] := by
  generalize hall : [] = all at h
  induction h with
  | nil => rfl
  | blank c hblank rest ih =>
    rw [← ih hall]
    exact List.dropWhile_cons_of_pos (isBlank_iff.mpr hblank)
  | token => simp at hall

theorem of_skipBlank (h : SpelledTokens tokens (skipBlank text)) : SpelledTokens tokens text := by
  induction text with
  | nil => exact h
  | cons c text ih =>
    unfold skipBlank at h
    rw [List.dropWhile_cons] at h
    split at h
    . next hblank => exact .blank c (isBlank_iff.mp hblank) (ih h)
    . exact h

end SpelledTokens

end CallCountLint.Json
