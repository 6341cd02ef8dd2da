/-!
Blank characters, and trimming at both ends.
-/

namespace RecordFilter.Text

/-- The characters with the Unicode property White_Space. -/
def isBlank (c : Char) : Bool :=
  let n := c.toNat
  (0x9 ≤ n && n ≤ 0xD) || n == 0x20 || n == 0x85 || n == 0xA0 || n == 0x1680 ||
    (0x2000 ≤ n && n ≤ 0x200A) || n == 0x2028 || n == 0x2029 || n == 0x202F ||
    n == 0x205F || n == 0x3000

def trimStart (s : List Char) : List Char :=
  s.dropWhile isBlank

def trimEnd (s : List Char) : List Char :=
  (trimStart s.reverse).reverse

/-- What is left of a text when the blanks at both ends are taken away. -/
def trim (s : List Char) : List Char :=
  trimEnd (trimStart s)

/-- No digit is blank and no letter of ASCII, nor what stands between them. -/
theorem isBlank_of_toNat {c : Char} (hleast : 0x30 ≤ c.toNat) (hgreatest : c.toNat ≤ 0x7A) :
    isBlank c = false := by
  cases hblank : isBlank c with
  | false => rfl
  | true =>
      simp only [isBlank, Bool.or_eq_true, Bool.and_eq_true, beq_iff_eq,
        decide_eq_true_eq] at hblank
      omega

end RecordFilter.Text
