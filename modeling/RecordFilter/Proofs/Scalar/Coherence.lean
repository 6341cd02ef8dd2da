import RecordFilter.Proofs.Number.Layout
import RecordFilter.Proofs.Scalar.Operators

/-!
Equality and order of one field. Equality with a literal is decided in the format of the field and
order on the text of the field. The two agree on literals that both of them read alike.
-/

namespace RecordFilter

open Number

namespace Number

variable {f : Format} {s : List Char}

theorem isNaN_of_readNumber? {x : Double} (h : readNumber? s = some x) : x.isNaN = false := by
  have hfilter := (Option.filter_eq_some_iff.mp h).2
  simpa using hfilter

theorem readNumber?_trim (s : List Char) : readNumber? (Text.trim s) = readNumber? s := by
  rw [readNumber?, Text.trim_trim, readNumber?]

theorem readInt64?_eq_none_of_readNumber? (h : readNumber? s = none) :
    readInt64? (Text.trim s) = none := by
  rw [Option.eq_none_iff_forall_ne_some]
  intro i hi
  obtain ⟨x, hx, -⟩ := readNumber?_of_readInt64? hi
  rw [hx] at h
  cases h

theorem Numeral.Plain.isBlank_of_mem_text {n : Numeral} (h : n.Plain) {c : Char}
    (hc : c ∈ n.text) : Text.isBlank c = false := by
  rw [h.text_eq, List.mem_append, List.mem_append] at hc
  rcases hc with hsign | hwhole | hfraction
  · split at hsign
    · rw [List.mem_singleton.mp hsign]
      decide
    · cases hsign
  · exact isBlank_of_isDigit (h.isDigit_of_mem_whole c hwhole)
  · unfold pointText at hfraction
    split at hfraction
    · cases hfraction
    · rcases List.mem_cons.mp hfraction with rfl | hdigit
      · decide
      · exact isBlank_of_isDigit (h.isDigit_of_mem_fraction c hdigit)

theorem trim_displayChars (x : Binary f) : Text.trim x.displayChars = x.displayChars := by
  cases x with
  | nan => rfl
  | infinite a => cases a <;> rfl
  | finite a m e h =>
      have hplain := Layout.plain_display f a m e
      have hne : (Layout.display.numeral f a m e).text ≠ [] := by
        rw [hplain.text_eq]
        simp [hplain.whole_ne_nil]
      exact (Text.framed_of_forall hne fun _ hc => hplain.isBlank_of_mem_text hc).trim_eq

theorem readNumber?_displayChars {x : Double} (hx : x.isNaN = false) :
    readNumber? x.displayChars = some x := by
  rw [readNumber?, trim_displayChars, readBinary?_displayChars regular_double decimal_double,
    Option.filter_some, hx]
  rfl

theorem readNumber?_of_numeral {n : Numeral} (h : Literal.read? (Text.trim s) = some (.numeral n)) :
    readNumber? s = some (n.toBinary .double) := by
  rw [readNumber?, readBinary?, h, Option.map_some, Literal.toBinary, Option.filter_some,
    isNaN_toBinary_numeral]
  rfl

theorem read?_trim_displayChars {negative : Bool} {m : ℕ} {e : ℤ} (h : f.Canonical m e) :
    Literal.read? (Text.trim (Binary.finite negative m e h).displayChars) =
      some (.numeral (Layout.display.numeral f negative m e)) := by
  rw [trim_displayChars]
  exact (Layout.plain_display f negative m e).read?_text

/-- The text of a single is not past the doubles. -/
theorem value?_toBinary_display_single (negative : Bool) {m : ℕ} {e : ℤ}
    (h : Format.single.Canonical m e) :
    let own := Layout.display.numeral .single negative m e
    (own.toBinary .double).value? = some (Format.double.nearest own.value) ∧
      |Format.double.nearest own.value| < Format.double.limit := by
  intro own
  have hself : Format.single.nearest own.value = withSign negative (m * 2 ^ e) :=
    Layout.nearest_value_numeral regular_single decimal_single rfl negative h
  have hown : |own.value| < Format.single.limit :=
    regular_single.abs_lt_limit (hself ▸ regular_single.abs_withSign_lt_limit negative h)
  have hlt : |Format.double.nearest own.value| < Format.double.limit :=
    regular_double.abs_nearest_lt_limit hown.le (by decide)
  exact ⟨(Numeral.value?_toBinary_eq_some_iff regular_double hlt).mpr rfl, hlt⟩

end Number

theorem compareTexts_of_readInt64? {s t : List Char} {i j : Int64}
    (hs : readInt64? (Text.trim s) = some i) (ht : readInt64? (Text.trim t) = some j) :
    compareTexts s t = compare i.toInt j.toInt := by
  unfold compareTexts
  rw [hs, ht]

theorem compareTexts_of_readNumber? {s t : List Char} {x y : Double}
    (hwhole : readInt64? (Text.trim s) = none ∨ readInt64? (Text.trim t) = none)
    (hx : readNumber? s = some x) (hy : readNumber? t = some y) :
    compareTexts s t = (x.compare? y).getD .eq := by
  unfold compareTexts
  split
  · next hs ht =>
      rw [hs, ht] at hwhole
      simp at hwhole
  · rw [hx, hy]

theorem compareTexts_of_readNumber?_eq_none {s t : List Char} (h : readNumber? t = none) :
    compareTexts s t = compareOfLessAndEq s t := by
  have hwhole := readInt64?_eq_none_of_readNumber? h
  unfold compareTexts
  split
  · next ht =>
      rw [hwhole] at ht
      cases ht
  · split
    · next ht =>
        rw [h] at ht
        cases ht
    · rfl

theorem compareOfLessAndEq_eq_eq_iff {s t : List Char} :
    compareOfLessAndEq s t = .eq ↔ s = t := by
  unfold compareOfLessAndEq
  split
  · next hlt =>
      refine iff_of_false (by decide) ?_
      rintro rfl
      exact List.lt_irrefl s hlt
  · split
    · next heq => exact iff_of_true rfl heq
    · next hne => exact iff_of_false (by decide) hne

/-- Whether two texts are whole numbers of 64 bits, which are compared without rounding. -/
def bothWhole (s t : List Char) : Bool :=
  (readInt64? (Text.trim s)).isSome && (readInt64? (Text.trim t)).isSome

/-- Whether a numeral has a single as its nearest one just where it takes the place of the text of
the single: it has the same value if both are whole numbers, and else the same nearest double. -/
def SingleReadAlike (literal : List Char) (n : Numeral) : Single → Prop
  | .nan => False
  | .infinite negative =>
      n.negative = negative →
        (Format.single.limit ≤ Format.single.nearest n.size ↔
          Format.double.limit ≤ Format.double.nearest n.size)
  | .finite negative m e _ =>
      let own := Layout.display.numeral .single negative m e
      Format.single.nearest n.value = withSign negative (m * 2 ^ e) ↔
        if bothWhole own.text literal then n.value = own.value
        else Format.double.nearest n.value = Format.double.nearest own.value

namespace Scalar

variable {v : Scalar} {literal : List Char}

/-- The values that stand in the order of numbers. -/
def IsNumber : Scalar → Prop
  | int32 _ => True
  | int64 _ => True
  | float32 x => x.isNaN = false
  | float64 x => x.isNaN = false
  | _ => False

/-- Whether equality and order come from readings of the literal that agree. A whole number of 64
bits is ordered by way of a double where the literal is no such number, and a double by way of its
digits where the literal is one; neither matters below the precision of doubles. A single is equal
to the literals nearest to it, but ordered by way of its text. -/
def ReadAlike : Scalar → List Char → Prop
  | int32 _, _ => True
  | int64 i, literal => (readInt64? (Text.trim literal)).isSome = true ∨ i.toInt.natAbs ≤ 2 ^ 53
  | float32 x, literal =>
      ∀ n, Literal.read? (Text.trim literal) = some (.numeral n) → SingleReadAlike literal n x
  | float64 x, literal =>
      readInt64? (Text.trim literal) = none ∨ ∃ q, x.value? = some q ∧ |q| < 2 ^ 53
  | _, _ => False

theorem matchesLiteral_of_isNumber (hv : v.IsNumber) (literal : List Char) :
    v.matchesLiteral literal =
      (v.numberIs? (Text.trim literal)).getD (v.displayChars == literal) := by
  cases v <;> first | rfl | cases hv

theorem compareTo?_of_isNumber (hv : v.IsNumber) (literal : List Char) :
    v.compareTo? literal = some (compareTexts v.displayChars literal) := by
  cases v <;> first | rfl | cases hv

theorem numberIs?_eq_none (h : readNumber? literal = none) :
    v.numberIs? (Text.trim literal) = none := by
  have hwhole (n : Int) : wholeIs? n (Text.trim literal) = none := by
    rw [wholeIs?, readInt64?_eq_none_of_readNumber? h, readNumber?_trim, h]
    rfl
  have hbinary {f : Format} (x : Binary f) : binaryIs? x (Text.trim literal) = none := by
    have hread := (filter_readBinary?_eq_none_iff .double _).mp h
    rw [binaryIs?, (filter_readBinary?_eq_none_iff f _).mpr hread, Option.map_none]
  cases v with
  | int32 i => exact hwhole _
  | int64 i => exact hwhole _
  | float32 x => exact hbinary x
  | float64 x => exact hbinary x
  | null => rfl
  | text s => rfl
  | bool b => rfl

theorem matchesLiteral_iff_of_readNumber?_eq_none (hv : v.IsNumber)
    (h : readNumber? literal = none) :
    v.matchesLiteral literal = true ↔ compareTexts v.displayChars literal = .eq := by
  rw [matchesLiteral_of_isNumber hv, numberIs?_eq_none h, Option.getD_none, beq_iff_eq,
    compareTexts_of_readNumber?_eq_none h, compareOfLessAndEq_eq_eq_iff]

end Scalar

section Readings

variable {literal : List Char} {y : Double}

theorem compareTexts_eq_eq_iff {s : List Char} {x : Double}
    (hwhole : readInt64? (Text.trim s) = none ∨ readInt64? (Text.trim literal) = none)
    (hx : readNumber? s = some x) (hy : readNumber? literal = some y) :
    compareTexts s literal = .eq ↔ x.compare? y = some .eq := by
  obtain ⟨o, ho⟩ := Binary.exists_compare? (isNaN_of_readNumber? hx) (isNaN_of_readNumber? hy)
  rw [compareTexts_of_readNumber? hwhole hx hy, ho, Option.getD_some, Option.some_inj]

theorem wholeIs?_iff (i : Int64) (hy : readNumber? literal = some y)
    (h : (readInt64? (Text.trim literal)).isSome = true ∨ i.toInt.natAbs ≤ 2 ^ 53) :
    wholeIs? i.toInt (Text.trim literal) = some true ↔
      compareTexts (writeInt i.toInt) literal = .eq := by
  cases hwhole : readInt64? (Text.trim literal) with
  | some j =>
      rw [wholeIs?_of_readInt64? hwhole, compareTexts_writeInt i hwhole, Option.some_inj,
        beq_iff_eq, compare_eq_iff_eq, eq_comm]
  | none =>
      have hsmall : i.toInt.natAbs ≤ 2 ^ 53 := by
        rw [hwhole] at h
        exact h.resolve_left (by decide)
      have hself : readInt64? (Text.trim (writeInt i.toInt)) = some i := by
        rw [trim_writeInt, readInt64?_writeInt]
      obtain ⟨x, hx, hvalue⟩ := readNumber?_of_readInt64? hself
      rw [Format.nearest_intCast regular_double.precision_pos regular_double.minExponent_nonpos
        hsmall] at hvalue
      rw [compareTexts_eq_eq_iff (.inr hwhole) hx hy, Binary.compare?_eq_eq_iff hvalue, wholeIs?,
        hwhole, readNumber?_trim, hy, Option.map_some, Option.some_inj, beq_iff_eq,
        Binary.toInt?_eq_some_iff]

theorem binaryIs?_double_iff {x : Double} (hx : x.isNaN = false) (hy : readNumber? literal = some y)
    (h : readInt64? (Text.trim literal) = none ∨ ∃ q, x.value? = some q ∧ |q| < 2 ^ 53) :
    binaryIs? x (Text.trim literal) = some true ↔
      compareTexts x.displayChars literal = .eq := by
  have hequal : binaryIs? x (Text.trim literal) = some (y.sameValue x) := by
    show (readNumber? literal).map (·.sameValue x) = _
    rw [hy, Option.map_some]
  have hself := readNumber?_displayChars hx
  rw [hequal, Option.some_inj, Binary.sameValue_comm, Binary.sameValue, beq_iff_eq]
  cases hwhole : readInt64? (Text.trim x.displayChars) with
  | none => rw [compareTexts_eq_eq_iff (.inl hwhole) hself hy]
  | some i =>
      cases hwhole' : readInt64? (Text.trim literal) with
      | none => rw [compareTexts_eq_eq_iff (.inr hwhole') hself hy]
      | some j =>
          rw [hwhole'] at h
          obtain ⟨q, hq, hsmall⟩ := h.resolve_left (by simp)
          obtain ⟨x', hx', hvalue⟩ := readNumber?_of_readInt64? hwhole
          obtain ⟨y', hy', hvalue'⟩ := readNumber?_of_readInt64? hwhole'
          cases hself.symm.trans hx'
          cases hy.symm.trans hy'
          cases hq.symm.trans hvalue
          have hi : i.toInt.natAbs < 2 ^ 53 := regular_double.natAbs_lt hsmall
          have hiff := Format.nearest_intCast_le_iff regular_double.precision_pos
            regular_double.minExponent_nonpos hi j.toInt
          rw [Binary.compare?_eq hvalue hvalue', compareTexts_of_readInt64? hwhole hwhole',
            Option.some_inj, compare_eq_iff_eq, compare_eq_iff_eq, le_antisymm_iff, hiff.1, hiff.2,
            ← le_antisymm_iff]

theorem sameValue_toBinary_iff {f : Format} (hf : f.Regular) {n : Numeral} (negative : Bool)
    {m : ℕ} {e : ℤ} (h : f.Canonical m e) :
    (n.toBinary f).sameValue (.finite negative m e h) = true ↔
      f.nearest n.value = withSign negative (m * 2 ^ e) := by
  rw [Binary.sameValue_comm, Binary.sameValue, beq_iff_eq, Binary.compare?_eq_eq_iff rfl,
    Numeral.value?_toBinary_eq_some_iff hf (hf.abs_withSign_lt_limit negative h)]

theorem value_eq_of_readInt64? {s : List Char} {i : Int64} {n : Numeral}
    (hs : readInt64? s = some i) (hn : Literal.read? s = some (.numeral n)) :
    n.value = i.toInt := by
  obtain ⟨k, hk, hvalue⟩ := read?_of_readInt? (readInt?_of_readInt64? hs)
  cases hn.symm.trans hk
  exact hvalue

/-- How the text of a single stands to a numeral. -/
theorem compareTexts_single_iff (negative : Bool) {m : ℕ} {e : ℤ} {n : Numeral}
    (h : Format.single.Canonical m e)
    (hn : Literal.read? (Text.trim literal) = some (.numeral n)) :
    let own := Layout.display.numeral .single negative m e
    compareTexts own.text literal = .eq ↔
      if bothWhole own.text literal then n.value = own.value
      else Format.double.nearest n.value = Format.double.nearest own.value := by
  intro own
  have hown : Literal.read? (Text.trim own.text) = some (.numeral own) := read?_trim_displayChars h
  by_cases hboth : bothWhole own.text literal
  · rw [if_pos hboth]
    rw [bothWhole, Bool.and_eq_true, Option.isSome_iff_exists, Option.isSome_iff_exists] at hboth
    obtain ⟨⟨i, hi⟩, j, hj⟩ := hboth
    rw [compareTexts_of_readInt64? hi hj, compare_eq_iff_eq, value_eq_of_readInt64? hi hown,
      value_eq_of_readInt64? hj hn, Int.cast_inj, eq_comm]
  · rw [if_neg hboth]
    have hwhole : readInt64? (Text.trim own.text) = none ∨
        readInt64? (Text.trim literal) = none := by
      rwa [bothWhole, Bool.and_eq_true, not_and_or, Option.not_isSome_iff_eq_none,
        Option.not_isSome_iff_eq_none] at hboth
    obtain ⟨hvalue, hlt⟩ := value?_toBinary_display_single negative h
    rw [compareTexts_eq_eq_iff hwhole (readNumber?_of_numeral hown) (readNumber?_of_numeral hn),
      Binary.compare?_eq_eq_iff hvalue, Numeral.value?_toBinary_eq_some_iff regular_double hlt]

/-- In no order does the text of a finite single stand where an infinity stands. -/
theorem compareTexts_infinite_ne (negative a : Bool) {m : ℕ} {e : ℤ}
    (h : Format.single.Canonical m e) (hy : readNumber? literal = some (.infinite a)) :
    compareTexts (Binary.finite negative m e h).displayChars literal ≠ .eq := by
  have hwhole : readInt64? (Text.trim literal) = none := by
    rw [Option.eq_none_iff_forall_ne_some]
    intro i hi
    obtain ⟨x, hx, hvalue⟩ := readNumber?_of_readInt64? hi
    cases hy.symm.trans hx
    cases hvalue
  obtain ⟨hvalue, -⟩ := value?_toBinary_display_single negative h
  rw [Ne, compareTexts_eq_eq_iff (.inr hwhole) (readNumber?_of_numeral (read?_trim_displayChars h))
    hy, Binary.compare?_eq_eq_iff hvalue]
  exact nofun

theorem compareTexts_infinite_iff (negative : Bool) (hy : readNumber? literal = some y) :
    compareTexts (Binary.infinite negative : Single).displayChars literal = .eq ↔
      y = .infinite negative := by
  have hself : readNumber? (Binary.infinite negative : Single).displayChars =
      some (.infinite negative) := by
    cases negative <;> rfl
  have hwhole : readInt64? (Text.trim (Binary.infinite negative : Single).displayChars) = none := by
    cases negative <;> rfl
  rw [compareTexts_eq_eq_iff (.inl hwhole) hself hy, Binary.compare?_infinite_eq_eq_iff]

theorem binaryIs?_single_iff {x : Single} (hx : x.isNaN = false) (hy : readNumber? literal = some y)
    (h : ∀ n, Literal.read? (Text.trim literal) = some (.numeral n) → SingleReadAlike literal n x) :
    binaryIs? x (Text.trim literal) = some true ↔
      compareTexts x.displayChars literal = .eq := by
  obtain ⟨l, hl, rfl, hnumber⟩ := exists_literal_of_readNumber? hy
  rw [binaryIs?, hnumber, Option.map_some, Option.some_inj]
  cases x with
  | nan => cases hx
  | infinite negative =>
      rw [compareTexts_infinite_iff negative hy, Binary.sameValue_comm, Binary.sameValue,
        beq_iff_eq, Binary.compare?_infinite_eq_eq_iff]
      cases l with
      | nan => cases isNaN_of_readNumber? hy
      | infinite a => simp [Literal.toBinary]
      | numeral n =>
          rw [Literal.toBinary, Literal.toBinary, Numeral.toBinary_eq_infinite_iff regular_single,
            Numeral.toBinary_eq_infinite_iff regular_double]
          exact and_congr_right (h n hl)
  | finite negative m e hm =>
      cases l with
      | nan => cases isNaN_of_readNumber? hy
      | infinite a =>
          refine iff_of_false ?_ (compareTexts_infinite_ne negative a hm hy)
          cases a <;> simp [Literal.toBinary, Binary.sameValue, Binary.compare?]
      | numeral n =>
          exact (sameValue_toBinary_iff regular_single negative hm).trans
            ((h n hl).trans (compareTexts_single_iff negative hm hl).symm)

end Readings

namespace Scalar

variable {v : Scalar} {literal : List Char}

theorem exists_numberIs? (hv : v.IsNumber) {y : Double} (h : readNumber? literal = some y) :
    ∃ b, v.numberIs? (Text.trim literal) = some b := by
  have hwhole (n : Int) : ∃ b, wholeIs? n (Text.trim literal) = some b := by
    unfold wholeIs?
    rw [readNumber?_trim, h]
    split
    · exact ⟨_, rfl⟩
    · exact ⟨_, rfl⟩
  have hbinary {f : Format} (x : Binary f) : ∃ b, binaryIs? x (Text.trim literal) = some b := by
    obtain ⟨l, -, -, hnumber⟩ := exists_literal_of_readNumber? h
    rw [binaryIs?, hnumber]
    exact ⟨_, rfl⟩
  cases v with
  | int32 i => exact hwhole _
  | int64 i => exact hwhole _
  | float32 x => exact hbinary x
  | float64 x => exact hbinary x
  | null => cases hv
  | text s => cases hv
  | bool b => cases hv

theorem matchesLiteral_iff (hv : v.IsNumber)
    (h : readNumber? literal = none ∨ v.ReadAlike literal) :
    v.matchesLiteral literal = true ↔ compareTexts v.displayChars literal = .eq := by
  cases hread : readNumber? literal with
  | none => exact matchesLiteral_iff_of_readNumber?_eq_none hv hread
  | some y =>
      have halike : v.ReadAlike literal := h.resolve_left (by simp [hread])
      obtain ⟨b, hb⟩ := exists_numberIs? hv hread
      rw [matchesLiteral_of_isNumber hv, hb, Option.getD_some, ← Option.some_inj, ← hb]
      cases v with
      | int32 i =>
          have hsmall : i.toInt64.toInt.natAbs ≤ 2 ^ 53 := by
            have hlow := i.le_toInt
            have hhigh := i.toInt_lt
            rw [Int32.toInt_toInt64]
            omega
          have hiff := wholeIs?_iff i.toInt64 hread (.inr hsmall)
          rwa [Int32.toInt_toInt64] at hiff
      | int64 i => exact wholeIs?_iff i hread halike
      | float32 x => exact binaryIs?_single_iff hv hread halike
      | float64 x => exact binaryIs?_double_iff hv hread halike
      | null => cases hv
      | text s => cases hv
      | bool b => cases hv

/-- A literal of the same value as the text of the field, however it is written. -/
theorem readAlike_of_value_eq {negative : Bool} {m : ℕ} {e : ℤ} {n : Numeral}
    (h : Format.single.Canonical m e) (hn : Literal.read? (Text.trim literal) = some (.numeral n))
    (hvalue : n.value = (Layout.display.numeral .single negative m e).value) :
    (float32 (.finite negative m e h)).ReadAlike literal := by
  intro n' hn'
  cases hn.symm.trans hn'
  refine iff_of_true ?_ ?_
  · rw [hvalue]
    exact Layout.nearest_value_numeral regular_single decimal_single rfl negative h
  · split
    · exact hvalue
    · rw [hvalue]

end Scalar

namespace Condition

variable {r : Record} {field literal : String} {v : Scalar}

/-- What the operators of comparison give for a number. Those of order follow one order, and of
equality the one is the negation of the other. Where equality and order read the literal alike, all
six follow the same order: the field is equal to the literal just where it stands neither before
nor after it. -/
theorem result_of_isNumber (link : Connective) (hfield : r.field? field = some v)
    (hv : v.IsNumber) :
    let result (operator : Operator) := (holdsOn ⟨field, operator, .text literal, link⟩ r).result
    ∃ o, (∀ operator ∈ Operator.ofOrder, result operator = .ok (operator.accepts o)) ∧
      (∃ e, result .equal = .ok e ∧ result .notEqual = .ok !e) ∧
      (readNumber? literal.toList = none ∨ v.ReadAlike literal.toList →
        result .equal = .ok (Operator.equal.accepts o) ∧
          result .notEqual = .ok (Operator.notEqual.accepts o)) := by
  intro result
  have hequal : result .equal = .ok (v.matchesLiteral literal.toList) := result_holdsOn hfield
  have hnotEqual : result .notEqual = .ok !v.matchesLiteral literal.toList := result_holdsOn hfield
  refine ⟨compareTexts v.displayChars literal.toList, ?_, ⟨_, hequal, hnotEqual⟩, ?_⟩
  · intro operator hoperator
    exact result_ofOrder hfield rfl (Scalar.compareTo?_of_isNumber hv _) hoperator
  · intro h
    have haccepts : v.matchesLiteral literal.toList =
        Operator.equal.accepts (compareTexts v.displayChars literal.toList) := by
      rw [Bool.eq_iff_iff, Scalar.matchesLiteral_iff hv h, Operator.accepts,
        Ordering.isEq_iff_eq_eq]
    rw [hequal, hnotEqual, haccepts]
    refine ⟨rfl, ?_⟩
    cases compareTexts v.displayChars literal.toList <;> rfl

/-- A number of one format is equal to its own text, although that says another number in the format
in which the order is settled, and to no text that says a number apart from both. -/
theorem result_of_isNumber_own_text :
    let x : Single := .finite false 13421773 (-27) (by decide)
    let r := Record.ofList [("ratio", .float32 x)]
    let result (operator : Operator) (literal : String) :=
      (holdsOn ⟨"ratio", operator, .text literal, .or⟩ r).result
    r.field? "ratio" = some (.float32 x) ∧ x.isNaN = false ∧
      ∀ literal ∈ [" 0.1 ", "1e-1", "0.25"],
        ∃ o, (∀ operator ∈ Operator.ofOrder, result operator literal = .ok (operator.accepts o)) ∧
          result .equal literal = .ok (Operator.equal.accepts o) ∧
          result .notEqual literal = .ok (Operator.notEqual.accepts o) := by
  intro x r result
  have hfield : r.field? "ratio" = some (.float32 x) := rfl
  have hown : Layout.display.numeral .single false 13421773 (-27) =
      ⟨false, ['0'], ['1'], none⟩ := by
    decide +kernel
  have hvalue : (⟨false, ['0'], ['1'], none⟩ : Numeral).value = 1 * 10 ^ (-1 : ℤ) := rfl
  have halike : ∀ literal ∈ [" 0.1 ", "1e-1", "0.25"],
      (Scalar.float32 x).ReadAlike literal.toList := by
    intro literal hliteral
    simp only [List.mem_cons, List.not_mem_nil, or_false] at hliteral
    rcases hliteral with rfl | rfl | rfl
    · refine Scalar.readAlike_of_value_eq _ (n := ⟨false, ['0'], ['1'], none⟩) rfl ?_
      rw [hown]
    · refine Scalar.readAlike_of_value_eq _ (n := ⟨false, ['1'], [], some (-1)⟩) rfl ?_
      rw [hown, hvalue]
      rfl
    · intro n hn
      obtain rfl : (⟨false, ['0'], ['2', '5'], none⟩ : Numeral) = n := by
        cases hn
        rfl
      have hquarter : (⟨false, ['0'], ['2', '5'], none⟩ : Numeral).value =
          (1 : ℕ) * 2 ^ (-2 : ℤ) := by
        change (25 : ℕ) * (10 : ℚ) ^ (-2 : ℤ) = _
        norm_num
      have hnear : Format.double.nearest (1 * 10 ^ (-1 : ℤ)) ≤ (1 : ℕ) * 2 ^ (-3 : ℤ) := by
        rw [← Format.nearest_mul_zpow (f := .double) (n := 1) (e := -3) (by decide) (by decide)]
        exact Format.nearest_mono regular_double.precision_pos (by norm_num)
      have hwhole : bothWhole (Layout.display.numeral .single false 13421773 (-27)).text
          "0.25".toList = false := by
        rw [hown]
        rfl
      rw [SingleReadAlike, hwhole, hown, hvalue, hquarter]
      rw [Format.nearest_mul_zpow (by decide) (by decide),
        Format.nearest_mul_zpow (by decide) (by decide)]
      refine iff_of_false (by norm_num [withSign]) ?_
      rw [if_neg Bool.false_ne_true]
      intro heq
      rw [← heq] at hnear
      norm_num at hnear
  refine ⟨hfield, rfl, fun literal hliteral => ?_⟩
  obtain ⟨o, horder, -, hequality⟩ := @result_of_isNumber r "ratio" literal _ .or hfield rfl
  exact ⟨o, horder, hequality (.inr (halike literal hliteral))⟩

/-- A number with more digits than a double holds is not equal to its neighbour, but does not stand
before or after it either. -/
theorem result_of_isNumber_not_coherent :
    let r := Record.ofList [("id", .int64 9007199254740993)]
    let result (operator : Operator) :=
      (holdsOn ⟨"id", operator, .text "9007199254740992.0", .or⟩ r).result
    result .lessThan = .ok false ∧ result .equal = .ok false ∧ result .greaterThan = .ok false ∧
      result .lessThanOrEqual = .ok true := by
  decide +kernel

end Condition

end RecordFilter
