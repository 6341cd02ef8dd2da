import Mathlib.Data.List.TakeDrop
import Mathlib.Data.List.TakeWhile

/-!
Runs of characters of one class: where a run ends is settled by what stands after it.
-/

namespace RecordFilter.Text

variable {p : Char → Bool} {s t a b : List Char}

/-- The text is at its end, or goes on with a character outside the class. -/
def StartsOutside (p : Char → Bool) (s : List Char) : Prop :=
  ∀ c ∈ s.head?, p c = false

theorem startsOutside_nil : StartsOutside p [] := by
  intro c hc
  cases hc

theorem startsOutside_cons {c : Char} (h : p c = false) : StartsOutside p (c :: s) := by
  intro d hd
  cases hd
  exact h

theorem StartsOutside.append (hs : StartsOutside p s) (ht : StartsOutside p t) :
    StartsOutside p (s ++ t) := by
  cases s with
  | nil => exact ht
  | cons c s => exact hs

theorem StartsOutside.mono {q : Char → Bool} (hs : StartsOutside p s)
    (h : ∀ c, q c = true → p c = true) : StartsOutside q s := by
  intro c hc
  exact Bool.eq_false_iff.mpr fun hq => Bool.eq_false_iff.mp (hs c hc) (h c hq)

/-- The run at the front of a text is not lengthened by what stands behind the text. -/
theorem takeWhile_append (ht : StartsOutside p t) : (s ++ t).takeWhile p = s.takeWhile p := by
  induction s with
  | nil =>
      cases t with
      | nil => rfl
      | cons c t => simp [ht c rfl]
  | cons c s ih =>
      rw [List.cons_append, List.takeWhile_cons, List.takeWhile_cons, ih]

theorem span_append (ha : ∀ c ∈ a, p c = true) (hs : StartsOutside p s) :
    (a ++ s).span p = (a, s) := by
  rw [List.span_eq_takeWhile_dropWhile]
  induction a with
  | nil =>
      cases s with
      | nil => rfl
      | cons c s => simp [hs c rfl]
  | cons c a ih =>
      have hc := ha c List.mem_cons_self
      have hrest := ih fun d hd => ha d (List.mem_cons_of_mem _ hd)
      simp only [Prod.mk.injEq] at hrest
      simp [hc, hrest.1, hrest.2]

theorem startsOutside_dropWhile : StartsOutside p (s.dropWhile p) := by
  intro c hc
  have hhead := List.head?_dropWhile_not p s
  rw [Option.mem_def.mp hc] at hhead
  exact hhead

theorem span_eq_iff :
    s.span p = (a, b) ↔ (∀ c ∈ a, p c = true) ∧ StartsOutside p b ∧ s = a ++ b := by
  constructor
  · intro h
    rw [List.span_eq_takeWhile_dropWhile] at h
    cases h
    exact ⟨fun c hc => List.mem_takeWhile_imp hc, startsOutside_dropWhile,
      List.takeWhile_append_dropWhile.symm⟩
  · rintro ⟨ha, hb, rfl⟩
    exact span_append ha hb

theorem span_spec (p : Char → Bool) (s : List Char) :
    (∀ c ∈ (s.span p).1, p c = true) ∧ StartsOutside p (s.span p).2 ∧
      s = (s.span p).1 ++ (s.span p).2 :=
  span_eq_iff.mp rfl

theorem run_append_inj (ha : ∀ c ∈ a, p c = true) (hb : ∀ c ∈ b, p c = true)
    (hs : StartsOutside p s) (ht : StartsOutside p t) (h : a ++ s = b ++ t) : a = b ∧ s = t := by
  have hspan := congrArg (List.span p) h
  rw [span_append ha hs, span_append hb ht] at hspan
  exact Prod.mk.inj hspan

end RecordFilter.Text
