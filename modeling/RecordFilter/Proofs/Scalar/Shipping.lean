import RecordFilter.Scalar.Json
import RecordFilter.Proofs.Json.Numbers

/-!
Values sent as JSON. All values are read back but binary numbers: an infinity or NaN is written as
`null`, and many digits, or a point far from them, may be read as a neighbour.
-/

namespace RecordFilter

open Number

namespace Json

theorem nesting_ofBinary {f : Format} (l : Layout) (x : Binary f) : (ofBinary l x).nesting = 0 := by
  cases x <;> rfl

end Json

namespace Scalar

/-- A value that a reader takes for what it is: a binary number only where it is written with few
digits, and a single only where it is also the nearest one to the double nearest to these. -/
def Concise : Scalar → Prop
  | float32 (.finite s m e _) =>
      let n := Json.singleLayout.numeral .single s m e
      n.Concise ∧ Format.single.nearest (Format.double.nearest n.size) = m * 2 ^ e
  | float32 _ => False
  | float64 (.finite s m e _) => (Json.doubleLayout.numeral .double s m e).Concise
  | float64 _ => False
  | _ => True

instance : DecidablePred Concise
  | null => inferInstanceAs (Decidable True)
  | text _ => inferInstanceAs (Decidable True)
  | int32 _ => inferInstanceAs (Decidable True)
  | int64 _ => inferInstanceAs (Decidable True)
  | float32 (.finite _ _ _ _) => inferInstanceAs (Decidable (_ ∧ _))
  | float32 .nan => inferInstanceAs (Decidable False)
  | float32 (.infinite _) => inferInstanceAs (Decidable False)
  | float64 (.finite _ _ _ _) => inferInstanceAs (Decidable (Numeral.Concise _))
  | float64 .nan => inferInstanceAs (Decidable False)
  | float64 (.infinite _) => inferInstanceAs (Decidable False)
  | bool _ => inferInstanceAs (Decidable True)

theorem nesting_toJson_le (v : Scalar) : v.toJson.nesting ≤ 1 := by
  cases v with
  | null => exact Nat.zero_le 1
  | float32 x => rw [toJson, Json.nesting_tagged, Json.ofSingle, Json.nesting_ofBinary]
  | float64 x => rw [toJson, Json.nesting_tagged, Json.ofDouble, Json.nesting_ofBinary]
  | _ => exact le_rfl

theorem legible_toJson (v : Scalar) : v.toJson.Legible := by
  cases v with
  | null => exact .string "Null"
  | text s => exact (Json.Legible.string s).tagged "String"
  | int32 i => exact (Json.Legible.number (Numeral.standard_ofInt _)).tagged "I32"
  | int64 i => exact (Json.Legible.number (Numeral.standard_ofInt _)).tagged "I64"
  | float32 x => exact (Json.legible_ofBinary decimal_single rfl x).tagged "F32"
  | float64 x => exact (Json.legible_ofBinary decimal_double rfl x).tagged "F64"
  | bool b => exact (Json.Legible.bool b).tagged "Bool"

/-- What is read from the document of a value does not depend on the room around it. -/
theorem ofJson?_toJson (room : ℕ) (v : Scalar) :
    ofJson? room v.toJson = if v.toJson.nesting ≤ room then ofJson? 1 v.toJson else none := by
  cases room with
  | zero => cases v <;> rfl
  | succ room =>
      rw [if_pos (v.nesting_toJson_le.trans (Nat.le_add_left 1 room))]
      cases v <;> rfl

theorem ofJson?_toJson_of_concise {v : Scalar} (h : v.Concise) : ofJson? 1 v.toJson = some v := by
  cases v with
  | null => rfl
  | text s => rfl
  | bool b => rfl
  | int32 i =>
      have hmin := i.minValue_le_toInt
      have hmax := i.toInt_le
      change ((Json.whole? (.ofInt i.toInt)).bind int32?).map int32 = some (int32 i)
      rw [Json.whole?_ofInt (hmin.trans' (by decide)) (hmax.trans_lt (by decide)), Option.bind_some,
        int32?_toInt, Option.map_some]
  | int64 i =>
      have hmin := i.minValue_le_toInt
      have hmax := i.toInt_le
      change ((Json.whole? (.ofInt i.toInt)).bind int64?).map int64 = some (int64 i)
      rw [Json.whole?_ofInt (hmin.trans' (by decide)) (hmax.trans_lt (by decide)), Option.bind_some,
        int64?_toInt, Option.map_some]
  | float32 x =>
      cases x with
      | nan => exact h.elim
      | infinite s => exact h.elim
      | finite s m e hcanonical =>
          change (Json.binary? .single (Json.singleLayout.numeral .single s m e)).map float32 = _
          rw [Json.binary?_numeral (List.cons_ne_nil _ _) s h.1,
            Numeral.convert_toBinary hcanonical h.2, Layout.negative_numeral, Option.map_some]
  | float64 x =>
      cases x with
      | nan => exact h.elim
      | infinite s => exact h.elim
      | finite s m e hcanonical =>
          change (Json.binary? .double (Json.doubleLayout.numeral .double s m e)).map float64 = _
          rw [Json.binary?_numeral (List.cons_ne_nil _ _) s h,
            Layout.toBinary_numeral regular_double decimal_double (readDigits_replicate_zero 1),
            Binary.convert_self regular_double, Option.map_some]

theorem concise_of_convert? {kind : Kind} {literal : String} {v : Scalar}
    (hkind : kind ≠ .float32 ∧ kind ≠ .float64) (h : kind.convert? literal = some v) :
    v.Concise := by
  cases kind with
  | text =>
      cases h
      trivial
  | int32 =>
      obtain ⟨i, -, rfl⟩ := Option.map_eq_some_iff.mp h
      trivial
  | int64 =>
      obtain ⟨i, -, rfl⟩ := Option.map_eq_some_iff.mp h
      trivial
  | float32 => exact absurd rfl hkind.1
  | float64 => exact absurd rfl hkind.2
  | bool =>
      obtain ⟨b, -, rfl⟩ := Option.map_eq_some_iff.mp h
      trivial

end Scalar

end RecordFilter
