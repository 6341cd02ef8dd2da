import RecordFilter.Json.Printer
import RecordFilter.Json.Reader
import Mathlib.Tactic.SplitIfs

/-!
Strings in JSON text are read back, whatever characters they are made of: for each character one
code point is read, and no character is half of a surrogate pair.
-/

namespace RecordFilter.Json

variable {c : Char} {n : Nat} {s rest : List Char} {units : List Nat}

theorem hexValue?_hexDigit (n : Nat) : hexValue? (hexDigit n) = some (n % 16) := by
  have hdigits : ∀ d < 16, hexValue? (Nat.digitChar d) = some d := by decide
  exact hdigits (n % 16) (Nat.mod_lt n (by decide))

/-- A character that is not escaped. -/
theorem readUnits_plain (hquote : c ≠ '"') (hslash : c ≠ '\\') (hc : ¬ c.toNat < 0x20)
    (h : readUnits s = some (units, rest)) : readUnits (c :: s) = some (c.toNat :: units, rest) := by
  rw [readUnits]
  · simp [hc, hslash, h]
  · exact hquote
  · intro _ _ _ _ _ heq
    exact absurd heq hslash
  · intro _ _ heq
    exact absurd heq hslash

theorem readUnits_escape (hc : escapeValue? c = some n) (h : readUnits s = some (units, rest)) :
    readUnits ('\\' :: c :: s) = some (n :: units, rest) := by
  rw [readUnits]
  · simp [hc, h]
  · rintro _ _ _ _ _ rfl
    cases hc

theorem readUnits_control (hn : n < 0x20) (h : readUnits s = some (units, rest)) :
    readUnits ('\\' :: 'u' :: '0' :: '0' :: hexDigit (n / 16) :: hexDigit n :: s) =
      some (n :: units, rest) := by
  have hzero : hexValue? '0' = some 0 := rfl
  have hunit : n / 16 % 16 * 16 + n % 16 = n := by omega
  rw [readUnits]
  simp [hzero, hexValue?_hexDigit, hunit, h]

/-- The three ways a character is written: behind a backslash, by its number, or as it stands. -/
theorem escapedChar_cases (c : Char) :
    (∃ d, escapedChar c = ['\\', d] ∧ escapeValue? d = some c.toNat) ∨
      (escapedChar c = ['\\', 'u', '0', '0', hexDigit (c.toNat / 16), hexDigit c.toNat] ∧
        c.toNat < 0x20) ∨
      (escapedChar c = [c] ∧ c ≠ '"' ∧ c ≠ '\\' ∧ ¬ c.toNat < 0x20) := by
  unfold escapedChar
  split_ifs with hquote hslash hb hf hn hr ht hcontrol
  · subst hquote
    exact .inl ⟨_, rfl, rfl⟩
  · subst hslash
    exact .inl ⟨_, rfl, rfl⟩
  · subst hb
    exact .inl ⟨_, rfl, rfl⟩
  · subst hf
    exact .inl ⟨_, rfl, rfl⟩
  · subst hn
    exact .inl ⟨_, rfl, rfl⟩
  · subst hr
    exact .inl ⟨_, rfl, rfl⟩
  · subst ht
    exact .inl ⟨_, rfl, rfl⟩
  · exact .inr (.inl ⟨rfl, hcontrol⟩)
  · exact .inr (.inr ⟨rfl, hquote, hslash, hcontrol⟩)

theorem readUnits_escapedChar (c : Char) (h : readUnits s = some (units, rest)) :
    readUnits (escapedChar c ++ s) = some (c.toNat :: units, rest) := by
  rcases escapedChar_cases c with ⟨d, hchars, hd⟩ | ⟨hchars, hcontrol⟩ | ⟨hchars, hplain⟩
  · rw [hchars]
    exact readUnits_escape hd h
  · rw [hchars]
    exact readUnits_control hcontrol h
  · rw [hchars]
    exact readUnits_plain hplain.1 hplain.2.1 hplain.2.2 h

theorem readUnits_flatMap_escapedChar (s : List Char) :
    readUnits (s.flatMap escapedChar ++ '"' :: rest) = some (s.map Char.toNat, rest) := by
  induction s with
  | nil => rfl
  | cons c s ih =>
      rw [List.flatMap_cons, List.append_assoc]
      exact readUnits_escapedChar c ih

theorem isSurrogate_toNat (c : Char) :
    isHighSurrogate c.toNat = false ∧ isLowSurrogate c.toNat = false := by
  have hvalid : c.toNat < 0xD800 ∨ 0xDFFF < c.toNat ∧ c.toNat < 0x110000 := c.valid
  simp only [isHighSurrogate, isLowSurrogate, Bool.and_eq_false_iff, decide_eq_false_iff_not]
  omega

theorem joinUnits?_map_toNat (s : List Char) : joinUnits? (s.map Char.toNat) = some s := by
  induction s with
  | nil => rfl
  | cons c s ih =>
      obtain ⟨hhigh, hlow⟩ := isSurrogate_toNat c
      cases s with
      | nil => simp [joinUnits?, hhigh, hlow]
      | cons d s =>
          rw [List.map_cons] at ih
          simp [joinUnits?, hhigh, hlow, ih]

theorem stringChars_eq (s : String) :
    stringChars s = '"' :: (s.toList.flatMap escapedChar ++ ['"']) := by
  rfl

theorem stringChars_append (s : String) (rest : List Char) :
    stringChars s ++ rest = '"' :: (s.toList.flatMap escapedChar ++ '"' :: rest) := by
  rw [stringChars_eq, List.cons_append, List.append_assoc]
  rfl

/-- Behind its opening quote a written string is read up to its closing quote. -/
theorem readString_escaped (s : String) (rest : List Char) :
    readString (s.toList.flatMap escapedChar ++ '"' :: rest) = some (some s, rest) := by
  rw [readString, readUnits_flatMap_escapedChar]
  simp [joinUnits?_map_toNat]

end RecordFilter.Json
