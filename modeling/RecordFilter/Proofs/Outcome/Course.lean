import RecordFilter.Notice

/-!
The course of a computation: what it reports and how it fails, without its value. Checks made one
after the other fail with the first of them that fails, and report what the checks up to it do.
-/

namespace RecordFilter.Outcome

variable {ε α β : Type}

/-- The notices and the error, if there is one, without the value. -/
def course (x : Outcome ε α) : Outcome ε Unit :=
  (fun _ => ()) <$> x

theorem course_bind (x : Outcome ε α) (f : α → Outcome ε β) :
    (x >>= f).course = x >>= fun a => (f a).course :=
  map_bind _ x f

/-- What goes on in the same way from every value needs no value. -/
theorem course_bind_const (x : Outcome ε α) (y : Outcome ε β) :
    (x >>= fun _ => y) = x.course >>= fun _ => y := by
  rw [course, bind_map_left]

theorem notices_course (x : Outcome ε α) : x.course.notices = x.notices := by
  rcases x with ⟨notices, _ | a⟩
  · rfl
  · exact List.append_nil notices

theorem result_course_eq_error_iff {x : Outcome ε α} {e : ε} :
    x.course.result = .error e ↔ x.result = .error e := by
  rcases x with ⟨notices, d | a⟩
  · simp [course, Functor.map, Outcome.bind]
  · simp [course, Functor.map, Outcome.bind, Outcome.pure]

theorem result_course_eq_ok_iff {x : Outcome ε α} :
    x.course.result = .ok () ↔ ∃ a, x.result = .ok a := by
  rcases x with ⟨notices, e | a⟩
  · simp [course, Functor.map, Outcome.bind]
  · simp [course, Functor.map, Outcome.bind, Outcome.pure]

theorem course_eq {x : Outcome ε α} {y : Outcome ε β} (h : x.course = y.course) :
    x.notices = y.notices ∧ ∀ e, x.result = .error e ↔ y.result = .error e := by
  constructor
  · rw [← notices_course x, h, notices_course]
  · intro e
    rw [← result_course_eq_error_iff, h, result_course_eq_error_iff]

variable {γ : Type} {check : β → Outcome ε γ} {xs before after : List β} {y : β}

theorem forM_course_of_forall (h : ∀ y ∈ xs, ∃ c, (check y).result = .ok c) :
    (forM xs fun y => (check y).course) = ⟨xs.flatMap fun y => (check y).notices, .ok ()⟩ := by
  induction xs with
  | nil => rfl
  | cons y xs ih =>
      rw [List.forall_mem_cons] at h
      rw [List.forM_cons, bind_ok (result_course_eq_ok_iff.mpr h.1), ih h.2, notices_course]
      rfl

theorem forM_course_of_first {e : ε} (hbefore : ∀ z ∈ before, ∃ c, (check z).result = .ok c)
    (hy : (check y).result = .error e) :
    (forM (before ++ y :: after) fun y => (check y).course) =
      ⟨(before.flatMap fun z => (check z).notices) ++ (check y).notices, .error e⟩ := by
  rw [List.forM_append, forM_course_of_forall hbefore, List.forM_cons,
    bind_error (result_course_eq_error_iff.mpr hy), notices_course]
  rfl

theorem forall_or_exists_first (check : β → Outcome ε γ) (xs : List β) :
    (∀ y ∈ xs, ∃ c, (check y).result = .ok c) ∨
      ∃ before y after e, xs = before ++ y :: after ∧
        (∀ z ∈ before, ∃ c, (check z).result = .ok c) ∧ (check y).result = .error e := by
  induction xs with
  | nil => exact .inl (List.forall_mem_nil _)
  | cons y xs ih =>
      cases hy : (check y).result with
      | error e => exact .inr ⟨[], y, xs, e, rfl, List.forall_mem_nil _, hy⟩
      | ok c =>
          rcases ih with hall | ⟨before, z, after, e, rfl, hbefore, hz⟩
          · exact .inl (List.forall_mem_cons.mpr ⟨⟨c, hy⟩, hall⟩)
          · refine .inr ⟨y :: before, z, after, e, rfl, ?_, hz⟩
            exact List.forall_mem_cons.mpr ⟨⟨c, hy⟩, hbefore⟩

/-- The computation reports and fails as checks do that are made one after the other. -/
def Follows (x : Outcome ε α) (check : β → Outcome ε γ) (xs : List β) : Prop :=
  x.course = forM xs fun y => (check y).course

namespace Follows

variable {x : Outcome ε α}

theorem exists_ok_iff (h : x.Follows check xs) :
    (∃ a, x.result = .ok a) ↔ ∀ y ∈ xs, ∃ c, (check y).result = .ok c := by
  rw [← result_course_eq_ok_iff, h]
  constructor
  · intro hok
    obtain hall | ⟨before, y, after, e, rfl, hbefore, hy⟩ := forall_or_exists_first check xs
    · exact hall
    · rw [forM_course_of_first hbefore hy] at hok
      cases hok
  · intro hall
    rw [forM_course_of_forall hall]

/-- The first check that fails gives the error. -/
theorem eq_error_iff (h : x.Follows check xs) {e : ε} :
    x.result = .error e ↔
      ∃ before y after, xs = before ++ y :: after ∧
        (∀ z ∈ before, ∃ c, (check z).result = .ok c) ∧ (check y).result = .error e := by
  rw [← result_course_eq_error_iff, h]
  constructor
  · intro herror
    obtain hall | ⟨before, y, after, d, rfl, hbefore, hy⟩ := forall_or_exists_first check xs
    · rw [forM_course_of_forall hall] at herror
      cases herror
    · rw [forM_course_of_first hbefore hy] at herror
      cases herror
      exact ⟨before, y, after, rfl, hbefore, hy⟩
  · rintro ⟨before, y, after, rfl, hbefore, hy⟩
    rw [forM_course_of_first hbefore hy]

theorem notices_of_forall (h : x.Follows check xs)
    (hall : ∀ y ∈ xs, ∃ c, (check y).result = .ok c) :
    x.notices = xs.flatMap fun y => (check y).notices := by
  rw [← notices_course, h, forM_course_of_forall hall]

theorem notices_of_first {e : ε} (h : x.Follows check (before ++ y :: after))
    (hbefore : ∀ z ∈ before, ∃ c, (check z).result = .ok c) (hy : (check y).result = .error e) :
    x.notices = (before.flatMap fun z => (check z).notices) ++ (check y).notices := by
  rw [← notices_course, h, forM_course_of_first hbefore hy]

end Follows

end RecordFilter.Outcome
