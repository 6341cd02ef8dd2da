import RecordFilter.Text.Blank
import Mathlib.Data.List.TakeWhile

/-!
Trimming: what stands around a text goes, and a text whose ends are not blank stays as it is.
-/

namespace RecordFilter.Text

variable {s t a b m : List Char}

/-- The text has a first and a last character, and neither is blank. -/
structure Framed (s : List Char) : Prop where
  head : ∃ c t, s = c :: t ∧ isBlank c = false
  last : ∃ t c, s = t ++ [c] ∧ isBlank c = false

theorem Framed.ne_nil (h : Framed s) : s ≠ [] := by
  obtain ⟨c, t, rfl, _⟩ := h.head
  exact List.cons_ne_nil c t

theorem Framed.append (ha : Framed a) (hb : Framed b) : Framed (a ++ m ++ b) := by
  obtain ⟨c, t, rfl, hc⟩ := ha.head
  obtain ⟨u, d, rfl, hd⟩ := hb.last
  exact ⟨⟨c, t ++ m ++ (u ++ [d]), by simp, hc⟩, ⟨c :: t ++ m ++ u, d, by simp, hd⟩⟩

theorem Framed.last_of_append (h : Framed (a ++ b)) (hb : b ≠ []) :
    ∃ t c, b = t ++ [c] ∧ isBlank c = false := by
  obtain ⟨u, d, hlast, hd⟩ := h.last
  obtain hnil | ⟨t, c, rfl⟩ := List.eq_nil_or_concat b
  · exact absurd hnil hb
  · rw [List.concat_eq_append, ← List.append_assoc] at hlast
    have hcd := (List.append_inj' hlast rfl).2
    exact ⟨t, c, List.concat_eq_append, (List.cons.inj hcd).1 ▸ hd⟩

theorem framed_of_forall (hne : s ≠ []) (h : ∀ c ∈ s, isBlank c = false) : Framed s := by
  constructor
  · obtain ⟨c, t, rfl⟩ := List.exists_cons_of_ne_nil hne
    exact ⟨c, t, rfl, h c List.mem_cons_self⟩
  · obtain hnil | ⟨t, c, rfl⟩ := List.eq_nil_or_concat s
    · exact absurd hnil hne
    · rw [List.concat_eq_append] at h ⊢
      exact ⟨t, c, rfl, h c (List.mem_append_right _ List.mem_cons_self)⟩

theorem trimStart_append (ha : ∀ c ∈ a, isBlank c = true) : trimStart (a ++ s) = trimStart s :=
  List.dropWhile_append_of_pos ha

theorem trimStart_of_forall (ha : ∀ c ∈ a, isBlank c = true) : trimStart a = [] := by
  have h := trimStart_append (s := []) ha
  rw [List.append_nil] at h
  exact h

theorem trimEnd_append (hb : ∀ c ∈ b, isBlank c = true) : trimEnd (s ++ b) = trimEnd s := by
  rw [trimEnd, List.reverse_append, trimStart_append (by simpa using hb), trimEnd]

theorem trim_blank_append (ha : ∀ c ∈ a, isBlank c = true) : trim (a ++ s) = trim s := by
  rw [trim, trimStart_append ha, trim]

theorem trim_append_blank (hb : ∀ c ∈ b, isBlank c = true) : trim (s ++ b) = trim s := by
  rw [trim, trim, trimStart, trimStart, List.dropWhile_append]
  split
  · next hempty =>
      rw [List.isEmpty_iff.mp hempty]
      exact congrArg trimEnd (trimStart_of_forall hb)
  · exact trimEnd_append hb

theorem Framed.trim_eq (h : Framed s) : trim s = s := by
  have hstart : trimStart s = s := by
    obtain ⟨c, t, rfl, hc⟩ := h.head
    rw [trimStart, List.dropWhile_cons_of_neg (by simp [hc])]
  have hend : trimEnd s = s := by
    obtain ⟨t, c, rfl, hc⟩ := h.last
    rw [trimEnd, List.reverse_append, List.reverse_singleton, List.singleton_append, trimStart,
      List.dropWhile_cons_of_neg (by simp [hc])]
    simp
  rw [trim, hstart, hend]

theorem exists_eq_append_trimStart (s : List Char) :
    ∃ a, s = a ++ trimStart s ∧ ∀ c ∈ a, isBlank c = true :=
  ⟨s.takeWhile isBlank, List.takeWhile_append_dropWhile.symm, fun _ => List.mem_takeWhile_imp⟩

theorem exists_eq_trimEnd_append (s : List Char) :
    ∃ b, s = trimEnd s ++ b ∧ ∀ c ∈ b, isBlank c = true := by
  obtain ⟨a, ha, hblank⟩ := exists_eq_append_trimStart s.reverse
  refine ⟨a.reverse, ?_, by simpa using hblank⟩
  rw [trimEnd, ← List.reverse_append, ← ha, List.reverse_reverse]

theorem exists_eq_append_trim_append (s : List Char) :
    ∃ a b, s = a ++ (trim s ++ b) ∧ (∀ c ∈ a, isBlank c = true) ∧ ∀ c ∈ b, isBlank c = true := by
  obtain ⟨a, ha, hblank⟩ := exists_eq_append_trimStart s
  obtain ⟨b, hb, hblank'⟩ := exists_eq_trimEnd_append (trimStart s)
  exact ⟨a, b, ha.trans (congrArg (a ++ ·) hb), hblank, hblank'⟩

theorem trim_eq_nil_iff : trim s = [] ↔ ∀ c ∈ s, isBlank c = true := by
  constructor
  · intro h
    obtain ⟨a, b, hs, ha, hb⟩ := exists_eq_append_trim_append s
    rw [hs, h, List.nil_append]
    exact List.forall_mem_append.mpr ⟨ha, hb⟩
  · intro hs
    rw [trim, trimStart_of_forall hs]
    rfl

theorem trim_ne_nil_iff : trim s ≠ [] ↔ ∃ c ∈ s, isBlank c = false := by
  rw [Ne, trim_eq_nil_iff]
  simp

theorem isBlank_of_trimStart_eq_cons {c : Char} (h : trimStart s = c :: t) : isBlank c = false := by
  have hhead := List.head?_dropWhile_not isBlank s
  rw [← trimStart, h] at hhead
  simpa using hhead

theorem framed_trim (h : trim s ≠ []) : Framed (trim s) := by
  obtain ⟨b, hb, _⟩ := exists_eq_trimEnd_append (trimStart s)
  rw [← trim] at hb
  constructor
  · obtain ⟨c, t, ht⟩ := List.exists_cons_of_ne_nil h
    rw [ht, List.cons_append] at hb
    exact ⟨c, t, ht, isBlank_of_trimStart_eq_cons hb⟩
  · obtain ⟨c, t, ht⟩ := List.exists_cons_of_ne_nil (List.reverse_ne_nil_iff.mpr h)
    have hlast : trimStart (trimStart s).reverse = c :: t := by
      rw [← ht, trim, trimEnd, List.reverse_reverse]
    refine ⟨t.reverse, c, ?_, isBlank_of_trimStart_eq_cons hlast⟩
    rw [← List.reverse_cons, ← ht, List.reverse_reverse]

theorem trim_trim (s : List Char) : trim (trim s) = trim s := by
  by_cases h : trim s = []
  · rw [h]
    rfl
  · exact (framed_trim h).trim_eq

end RecordFilter.Text
