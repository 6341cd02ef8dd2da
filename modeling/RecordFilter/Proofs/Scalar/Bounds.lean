import RecordFilter.Proofs.Text.Run
import RecordFilter.Proofs.Text.Trim
import RecordFilter.Scalar.Compare

/-!
The bounds of a range: which literals have them.
-/

namespace RecordFilter

theorem rangeBounds?_append {least greatest : List Char} (hcolon : ':' ∉ least)
    (hleast : Text.trim least ≠ []) (hgreatest : Text.trim greatest ≠ []) :
    rangeBounds? (least ++ ':' :: greatest) = some (Text.trim least, Text.trim greatest) := by
  have hspan : (least ++ ':' :: greatest).span (· != ':') = (least, ':' :: greatest) := by
    refine Text.span_append (fun c hc => ?_) (Text.startsOutside_cons rfl)
    rw [bne_iff_ne]
    rintro rfl
    exact hcolon hc
  rw [rangeBounds?, hspan]
  simp [hleast, hgreatest]

/-- There is text other than blanks on both sides of the first colon. -/
def HasBounds (literal : List Char) : Prop :=
  ∃ least greatest, literal = least ++ ':' :: greatest ∧ ':' ∉ least ∧
    (∃ c ∈ least, Text.isBlank c = false) ∧ ∃ c ∈ greatest, Text.isBlank c = false

theorem hasBounds_of_rangeBounds? {literal : List Char} {bounds : List Char × List Char}
    (h : rangeBounds? literal = some bounds) : HasBounds literal := by
  unfold rangeBounds? at h
  split at h
  · cases h
  · next least c greatest hspan =>
      obtain ⟨hleast, hrest, rfl⟩ := Text.span_eq_iff.mp hspan
      have hcolon : c = ':' := by
        have hc := hrest c rfl
        simpa using hc
      subst hcolon
      refine ⟨least, greatest, rfl, ?_, ?_⟩
      · intro hmem
        exact absurd (hleast ':' hmem) (by decide)
      · simp only [Option.ite_none_left_eq_some, Bool.or_eq_true, List.isEmpty_iff, not_or] at h
        exact ⟨Text.trim_ne_nil_iff.mp h.1.1, Text.trim_ne_nil_iff.mp h.1.2⟩

theorem exists_rangeBounds?_iff {literal : List Char} :
    (∃ bounds, rangeBounds? literal = some bounds) ↔ HasBounds literal := by
  constructor
  · rintro ⟨bounds, h⟩
    exact hasBounds_of_rangeBounds? h
  · rintro ⟨least, greatest, rfl, hcolon, hleast, hgreatest⟩
    exact ⟨_, rangeBounds?_append hcolon (Text.trim_ne_nil_iff.mpr hleast)
      (Text.trim_ne_nil_iff.mpr hgreatest)⟩

end RecordFilter
