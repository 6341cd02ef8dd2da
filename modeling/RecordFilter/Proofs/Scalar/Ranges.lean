import RecordFilter.Proofs.Scalar.Bounds
import RecordFilter.Proofs.Scalar.Operators

/-!
Ranges of whole numbers. The value and both bounds are compared as the numbers that a double holds
of them, which is the order of the whole numbers as long as the value is one that doubles tell
apart from its neighbours.
-/

namespace RecordFilter

open Number

namespace Number

variable {s : List Char} {c : Char} {i : Int64}

theorem mem_of_splitSign {negative : Bool} {body : List Char} (h : splitSign s = (negative, body))
    (hc : c ∈ s) : c ∈ body ∨ c = '-' ∨ c = '+' := by
  unfold splitSign at h
  split at h
  · cases h
    rcases List.mem_cons.mp hc with rfl | hbody
    · exact .inr (.inl rfl)
    · exact .inl hbody
  · cases h
    rcases List.mem_cons.mp hc with rfl | hbody
    · exact .inr (.inr rfl)
    · exact .inl hbody
  · cases h
    exact .inl hc

theorem isDigit_of_mem_of_readInt? {k : ℤ} (h : readInt? s = some k) (hc : c ∈ s) :
    c.isDigit = true ∨ c = '-' ∨ c = '+' := by
  obtain ⟨negative, digits, hsign, -, hdigits, -⟩ := readInt?_eq_some h
  exact (mem_of_splitSign hsign hc).imp_left (hdigits c)

theorem trim_ne_nil_of_readInt64? (h : readInt64? (Text.trim s) = some i) : Text.trim s ≠ [] := by
  intro hnil
  rw [hnil] at h
  cases h

/-- The colon of a range is none of the characters that a whole number and the blanks around it
consist of. -/
theorem colon_notMem_of_readInt64? (h : readInt64? (Text.trim s) = some i) : ':' ∉ s := by
  obtain ⟨before, after, hs, hbefore, hafter⟩ := Text.exists_eq_append_trim_append s
  intro hmem
  rw [hs, List.mem_append, List.mem_append] at hmem
  rcases hmem with hblank | hnumber | hblank
  · exact absurd (hbefore _ hblank) (by decide)
  · exact absurd (isDigit_of_mem_of_readInt? (readInt?_of_readInt64? h) hnumber) (by decide)
  · exact absurd (hafter _ hblank) (by decide)

theorem Binary.atMost_eq {f : Format} {x y : Binary f} {a b : ℚ} (hx : x.value? = some a)
    (hy : y.value? = some b) : x.atMost y = decide (a ≤ b) := by
  rw [atMost, compare?_eq hx hy, Bool.eq_iff_iff, decide_eq_true_iff, le_iff_lt_or_eq]
  simp [compare_lt_iff_lt]

end Number

namespace Scalar

variable {v : Scalar} {n : Int} {least greatest : List Char} {lo hi : Int64}

theorem within_of_whole? (hv : v.whole? = some n) (hlo : readInt64? (Text.trim least) = some lo)
    (hhi : readInt64? (Text.trim greatest) = some hi) :
    v.within least greatest =
      decide (Format.double.nearest lo.toInt ≤ Format.double.nearest n ∧
        Format.double.nearest n ≤ Format.double.nearest hi.toInt) := by
  obtain ⟨i, rfl, htext⟩ := textChars?_of_whole? hv
  have hi64 : readInt64? (Text.trim (writeInt i.toInt)) = some i := by
    rw [trim_writeInt, readInt64?_writeInt]
  obtain ⟨x, hx, hxvalue⟩ := readNumber?_of_readInt64? hi64
  obtain ⟨a, ha, havalue⟩ := readNumber?_of_readInt64? hlo
  obtain ⟨b, hb, hbvalue⟩ := readNumber?_of_readInt64? hhi
  rw [within, htext, Option.any_some, liesWithin, hx, ha, hb]
  simp only [Binary.atMost_eq havalue hxvalue, Binary.atMost_eq hxvalue hbvalue,
    Bool.decide_and]

end Scalar

namespace Condition

variable {r : Record} {field least greatest : String} {link : Connective} {v : Scalar} {n : Int}
  {lo hi : Int64}

theorem result_between {c : Condition} {literal : String} {bounds : List Char × List Char}
    (hfield : r.field? c.field = some v) (hliteral : c.operand = .text literal)
    (hoperator : c.operator = .between) (hbounds : rangeBounds? literal.toList = some bounds) :
    (c.holdsOn r).result = .ok (v.within bounds.1 bounds.2) := by
  rw [result_holdsOn hfield, holdsFor, hliteral, hoperator]
  simp only [holdsForText, hbounds]

theorem result_between_of_whole? (hfield : r.field? field = some v) (hv : v.whole? = some n)
    (hlo : readInt64? (Text.trim least.toList) = some lo)
    (hhi : readInt64? (Text.trim greatest.toList) = some hi) :
    (holdsOn ⟨field, .between, .text (least ++ ":" ++ greatest), link⟩ r).result =
      .ok (decide (Format.double.nearest lo.toInt ≤ Format.double.nearest n ∧
        Format.double.nearest n ≤ Format.double.nearest hi.toInt)) := by
  have hbounds : rangeBounds? (least ++ ":" ++ greatest).toList =
      some (Text.trim least.toList, Text.trim greatest.toList) := by
    rw [String.toList_append, String.toList_append, List.append_assoc]
    exact rangeBounds?_append (colon_notMem_of_readInt64? hlo) (trim_ne_nil_of_readInt64? hlo)
      (trim_ne_nil_of_readInt64? hhi)
  rw [result_between hfield rfl rfl hbounds]
  rw [Scalar.within_of_whole? hv (by rwa [Text.trim_trim]) (by rwa [Text.trim_trim])]

theorem result_atLeast_of_whole? (hfield : r.field? field = some v) (hv : v.whole? = some n)
    (hlo : readInt64? (Text.trim least.toList) = some lo) :
    (holdsOn ⟨field, .greaterThanOrEqual, .text least, link⟩ r).result =
      .ok (decide (lo.toInt ≤ n)) := by
  rw [result_ofOrder hfield rfl (Scalar.compareTo?_of_whole? hv hlo) (by simp [Operator.ofOrder]),
    Operator.accepts, Bool.eq_iff_iff.mpr (Std.isGE_compare.trans decide_eq_true_iff.symm)]

theorem result_atMost_of_whole? (hfield : r.field? field = some v) (hv : v.whole? = some n)
    (hhi : readInt64? (Text.trim greatest.toList) = some hi) :
    (holdsOn ⟨field, .lessThanOrEqual, .text greatest, link⟩ r).result =
      .ok (decide (n ≤ hi.toInt)) := by
  rw [result_ofOrder hfield rfl (Scalar.compareTo?_of_whole? hv hhi) (by simp [Operator.ofOrder]),
    Operator.accepts, Bool.eq_iff_iff.mpr (Std.isLE_compare.trans decide_eq_true_iff.symm)]

/-- A range of whole numbers holds of the values within it, and beyond the precision of doubles also
of those that round to one of its bounds. The two bounds on their own are compared exactly. -/
theorem result_between_whole (link : Connective) (hfield : r.field? field = some v)
    (hv : v.whole? = some n) (hlo : readInt64? (Text.trim least.toList) = some lo)
    (hhi : readInt64? (Text.trim greatest.toList) = some hi) :
    let near (k : Int) : ℚ := Format.double.nearest k
    let between := (holdsOn ⟨field, .between, .text (least ++ ":" ++ greatest), link⟩ r).result
    between = .ok (decide (near lo.toInt ≤ near n ∧ near n ≤ near hi.toInt)) ∧
      (holdsOn ⟨field, .greaterThanOrEqual, .text least, link⟩ r).result =
        .ok (decide (lo.toInt ≤ n)) ∧
      (holdsOn ⟨field, .lessThanOrEqual, .text greatest, link⟩ r).result =
        .ok (decide (n ≤ hi.toInt)) ∧
      (lo.toInt ≤ n ∧ n ≤ hi.toInt → between = .ok true) ∧
      (n.natAbs < 2 ^ 53 → between = .ok (decide (lo.toInt ≤ n ∧ n ≤ hi.toInt))) := by
  intro near between
  have hbetween : between = .ok (decide (near lo.toInt ≤ near n ∧ near n ≤ near hi.toInt)) :=
    result_between_of_whole? hfield hv hlo hhi
  refine ⟨hbetween, result_atLeast_of_whole? hfield hv hlo, result_atMost_of_whole? hfield hv hhi,
    ?_, ?_⟩
  · rintro ⟨hlow, hhigh⟩
    have hmono (j k : Int) (hle : j ≤ k) : near j ≤ near k :=
      Format.nearest_mono regular_double.precision_pos (by exact_mod_cast hle)
    rw [hbetween, decide_eq_true ⟨hmono _ _ hlow, hmono _ _ hhigh⟩]
  · intro hn
    have hiff (k : Int) : (near k ≤ near n ↔ k ≤ n) ∧ (near n ≤ near k ↔ n ≤ k) :=
      Format.nearest_intCast_le_iff regular_double.precision_pos
        regular_double.minExponent_nonpos hn k
    simp only [hbetween, (hiff lo.toInt).1, (hiff hi.toInt).2]

/-- Bounds that doubles do not tell apart from the value. -/
theorem result_between_whole_neighbours :
    let r := Record.ofList [("id", .int64 9007199254740993)]
    r.field? "id" = some (.int64 9007199254740993) ∧
      (holdsOn ⟨"id", .between, .text (" 9007199254740992 " ++ ":" ++ "+9007199254740994"), .or⟩
        r).result = .ok true := by
  intro r
  have hfield : r.field? "id" = some (.int64 9007199254740993) := rfl
  have hlo : readInt64? (Text.trim " 9007199254740992 ".toList) = some 9007199254740992 := by cbv
  have hhi : readInt64? (Text.trim "+9007199254740994".toList) = some 9007199254740994 := by cbv
  exact ⟨hfield, (result_between_whole .or hfield rfl hlo hhi).2.2.2.1 (by decide)⟩

/-- A value past both bounds of a range that holds of it. -/
theorem between_whole_not_exact :
    let r := Record.ofList [("id", .int64 9007199254740993)]
    (holdsOn ⟨"id", .between, .text "9007199254740992:9007199254740992", .or⟩ r).result =
        .ok true ∧
      (holdsOn ⟨"id", .lessThanOrEqual, .text "9007199254740992", .or⟩ r).result = .ok false := by
  decide +kernel

end Condition

end RecordFilter
