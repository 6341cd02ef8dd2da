/-!
Parts of a text by byte offsets in UTF-8. A slice is taken only where both offsets lie between
characters and the first is not beyond the second.
-/

namespace RecordFilter.Text

def slice? (s : String) (start stop : Nat) : Option String := do
  let first ← s.pos? ⟨start⟩
  let last ← s.pos? ⟨stop⟩
  let part ← s.slice? first last
  return part.copy

/-- How many bytes some characters take. -/
def width (s : List Char) : Nat :=
  (String.ofList s).utf8ByteSize

theorem width_append (s t : List Char) : width (s ++ t) = width s + width t := by
  rw [width, String.ofList_append, String.utf8ByteSize_append]
  rfl

theorem width_singleton (c : Char) : width [c] = c.utf8Size := by
  rw [width, ← String.singleton_eq_ofList, String.utf8ByteSize_singleton]

theorem pos?_offset {s : String} (p : s.Pos) : s.pos? p.offset = some p := by
  have hvalid : String.Pos.Raw.isValidForSlice s.toSlice p.offset = true := by
    simpa using p.isValid
  rw [String.pos?, String.Slice.pos?, dif_pos hvalid]
  rfl

theorem offset_of_pos? {s : String} {n : Nat} {p : s.Pos} (h : s.pos? ⟨n⟩ = some p) :
    p.offset = ⟨n⟩ := by
  rw [String.pos?, String.Slice.pos?] at h
  split at h
  · cases h
    rfl
  · cases h

theorem slice?_append (a t b : String) :
    slice? (a ++ t ++ b) a.utf8ByteSize (a ++ t).utf8ByteSize = some t := by
  have hbefore := String.Pos.splits_ofEqAppend (String.append_assoc : a ++ t ++ b = a ++ (t ++ b))
  have hbehind := String.Pos.splits_ofEqAppend (rfl : a ++ t ++ b = (a ++ t) ++ b)
  obtain ⟨hle, hcopy⟩ := String.copy_slice_eq_iff_splits.mpr ⟨a, b, hbefore, hbehind⟩
  have hfirst := pos?_offset (String.Pos.ofEqAppend
    (String.append_assoc : a ++ t ++ b = a ++ (t ++ b)))
  have hlast := pos?_offset (String.Pos.ofEqAppend (rfl : a ++ t ++ b = (a ++ t) ++ b))
  rw [hbefore.offset_eq_rawEndPos] at hfirst
  rw [hbehind.offset_eq_rawEndPos] at hlast
  rw [slice?]
  simp only [bind, Option.bind_eq_some_iff, String.slice?]
  exact ⟨_, hfirst, _, hlast, _, dif_pos hle, congrArg some hcopy⟩

/-- A slice divides the text into whole characters before it, in it and behind it. -/
theorem slice?_eq_some_iff {s t : String} {start stop : Nat} :
    slice? s start stop = some t ↔
      ∃ a b, s = a ++ t ++ b ∧ a.utf8ByteSize = start ∧ (a ++ t).utf8ByteSize = stop := by
  constructor
  · intro h
    simp only [slice?, bind, Option.bind_eq_some_iff, pure, Option.some.injEq, String.slice?] at h
    obtain ⟨first, hfirst, last, hlast, part, hpart, rfl⟩ := h
    split at hpart
    · next hle =>
        cases hpart
        obtain ⟨a, b, ha, hb⟩ := String.copy_slice_eq_iff_splits.mp ⟨hle, rfl⟩
        have hstart := ha.offset_eq_rawEndPos.symm.trans (offset_of_pos? hfirst)
        have hstop := hb.offset_eq_rawEndPos.symm.trans (offset_of_pos? hlast)
        exact ⟨a, b, hb.eq_append, congrArg String.Pos.Raw.byteIdx hstart,
          congrArg String.Pos.Raw.byteIdx hstop⟩
    · cases hpart
  · rintro ⟨a, b, rfl, rfl, rfl⟩
    exact slice?_append a t b

theorem slice?_ofList (a t b : List Char) :
    slice? (String.ofList (a ++ t ++ b)) (width a) (width (a ++ t)) = some (String.ofList t) := by
  refine slice?_eq_some_iff.mpr ⟨String.ofList a, String.ofList b, ?_, rfl, ?_⟩
  · rw [String.ofList_append, String.ofList_append]
  · rw [width, String.ofList_append]

end RecordFilter.Text
