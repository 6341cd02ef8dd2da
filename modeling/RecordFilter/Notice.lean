import RecordFilter.Scalar.Kind

/-!
What is reported beside a result. A computation that reports keeps its notices in their order, also
when it fails.
-/

namespace RecordFilter

inductive Notice where
  /-- A literal that has no value of the field's kind is compared as text. -/
  | comparedAsText (field : String) (cause : ConversionError)
  | missingField (name : String)
  deriving DecidableEq

def Notice.line : Notice → String
  | comparedAsText field cause =>
      "WARN: field " ++ field ++ ": " ++ cause.message ++ "; comparing as text"
  | missingField name => "ERROR: record has no field " ++ Text.quoted name

/-- A result or an error, with the notices that were given on the way. -/
structure Outcome (ε α : Type) where
  notices : List Notice
  result : Except ε α

namespace Outcome

variable {ε α β : Type}

protected def pure (a : α) : Outcome ε α :=
  ⟨[], .ok a⟩

protected def bind (x : Outcome ε α) (f : α → Outcome ε β) : Outcome ε β :=
  match x.result with
  | .error e => ⟨x.notices, .error e⟩
  | .ok a => ⟨x.notices ++ (f a).notices, (f a).result⟩

instance : Monad (Outcome ε) where
  pure := Outcome.pure
  bind := Outcome.bind

def fail (e : ε) : Outcome ε α :=
  ⟨[], .error e⟩

def notify (n : Notice) : Outcome ε Unit :=
  ⟨[n], .ok ()⟩

def ofExcept (r : Except ε α) : Outcome ε α :=
  ⟨[], r⟩

def log (x : Outcome ε α) : List String :=
  x.notices.map Notice.line

@[simp] theorem pure_def (a : α) : (pure a : Outcome ε α) = ⟨[], .ok a⟩ :=
  rfl

theorem bind_error {x : Outcome ε α} {e : ε} (h : x.result = .error e) (f : α → Outcome ε β) :
    x >>= f = ⟨x.notices, .error e⟩ := by
  show Outcome.bind x f = _
  simp [Outcome.bind, h]

theorem bind_ok {x : Outcome ε α} {a : α} (h : x.result = .ok a) (f : α → Outcome ε β) :
    x >>= f = ⟨x.notices ++ (f a).notices, (f a).result⟩ := by
  show Outcome.bind x f = _
  simp [Outcome.bind, h]

theorem map_id (x : Outcome ε α) : id <$> x = x := by
  rcases x with ⟨notices, _ | a⟩ <;> simp [Functor.map, Outcome.bind, Outcome.pure]

theorem pure_then (a : α) (f : α → Outcome ε β) : pure a >>= f = f a := by
  simp [bind, Outcome.bind]

theorem bind_then {γ : Type} (x : Outcome ε α) (f : α → Outcome ε β) (g : β → Outcome ε γ) :
    x >>= f >>= g = x >>= fun a => f a >>= g := by
  rcases x with ⟨notices, _ | a⟩
  · rfl
  · cases h : (f a).result <;> simp [bind, Outcome.bind, h]

instance : LawfulMonad (Outcome ε) :=
  LawfulMonad.mk' _ map_id pure_then bind_then

theorem result_bind_eq_ok_iff {x : Outcome ε α} {f : α → Outcome ε β} {b : β} :
    (x >>= f).result = .ok b ↔ ∃ a, x.result = .ok a ∧ (f a).result = .ok b := by
  cases h : x.result with
  | error e => simp [bind_error h]
  | ok a => simp [bind_ok h]

end Outcome

end RecordFilter
