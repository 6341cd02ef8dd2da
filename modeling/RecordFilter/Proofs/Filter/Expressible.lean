import RecordFilter.Proofs.Filter.RoundTrip

/-!
Filters that the syntax can express, whether or not they have been read: their fields are dotted
names, no text holds quotes of both kinds, and no group is without clauses. They are what is read
from the text written for them.
-/

namespace RecordFilter

namespace Expression

/-- A letter or an underscore, and then letters, digits and underscores. -/
def isName : List Char → Bool
  | [] => false
  | c :: s => startsName c && s.all continuesName

/-- Names with one point between each two of them. -/
def isDottedName (s : List Char) : Bool :=
  (s.splitOn '.').all isName

theorem IsFieldRest.append {run s : List Char} (hrun : ∀ c ∈ run, continuesName c = true)
    (hs : IsFieldRest s) : IsFieldRest (run ++ s) := by
  induction run with
  | nil => exact hs
  | cons c run ih =>
      rw [List.forall_mem_cons] at hrun
      exact .cons c _ hrun.1 (ih hrun.2)

theorem isField_append {name s : List Char} (h : isName name = true) (hs : IsFieldRest s) :
    IsField (name ++ s) := by
  cases name with
  | nil => cases h
  | cons c rest =>
      rw [isName, Bool.and_eq_true, List.all_eq_true] at h
      exact .mk c _ h.1 (hs.append h.2)

theorem IsField.point {s : List Char} (h : IsField s) : IsFieldRest ('.' :: s) := by
  cases h with
  | mk c s hc hs => exact .point c s hc hs

theorem isField_intercalate {part : List Char} {parts : List (List Char)}
    (h : ∀ p ∈ part :: parts, isName p = true) :
    IsField (['.'].intercalate (part :: parts)) := by
  induction parts generalizing part with
  | nil =>
      rw [List.intercalate_singleton, ← List.append_nil part]
      exact isField_append (h part List.mem_cons_self) .nil
  | cons next parts ih =>
      rw [List.forall_mem_cons] at h
      rw [List.intercalate_cons_cons, List.append_assoc]
      exact isField_append h.1 (ih h.2).point

theorem isField_of_isDottedName {s : List Char} (h : isDottedName s = true) : IsField s := by
  rw [isDottedName, List.all_eq_true] at h
  rw [← s.intercalate_splitOn '.']
  cases hparts : s.splitOn '.' with
  | nil => exact absurd hparts (List.splitOn_ne_nil _ _)
  | cons part parts => exact isField_intercalate (hparts ▸ h)

end Expression

open Expression

/-- A text that may stand between quotes of one kind or the other. -/
def Operand.Quotable : Operand → Prop
  | null => True
  | text s => '\'' ∉ s.toList ∨ '"' ∉ s.toList

theorem Operand.Quotable.legible {o : Operand} (h : o.Quotable) : o.Legible := by
  cases o with
  | null => exact legible_null
  | text s =>
      rcases h with hsingle | hdouble
      · exact legible_of_not_mem rfl hsingle
      · exact legible_of_not_mem rfl hdouble

structure Condition.Expressible (c : Condition) : Prop where
  field : isDottedName c.field.toList = true
  operand : c.operand.Quotable

theorem Condition.Expressible.legible {c : Condition} (h : c.Expressible) : c.Legible :=
  ⟨isField_of_isDottedName h.field, h.operand.legible⟩

namespace Filter

mutual

def Expressible : Filter → Prop
  | [] => True
  | clause :: rest => ClauseExpressible clause ∧ Expressible rest

/-- At every depth, conditions can be expressed and groups have clauses. -/
def ClauseExpressible : Clause → Prop
  | .condition c => c.Expressible
  | .group _ inner => inner ≠ [] ∧ Expressible inner

end

theorem Expressible.legible {f : Filter} (h : f.Expressible) : f.Legible := by
  induction f using Filter.induction with
  | nil => exact legible_nil
  | condition c rest ih =>
      rw [Expressible, ClauseExpressible] at h
      exact legible_cons_iff.mpr ⟨legible_condition_iff.mpr h.1.legible, ih h.2⟩
  | group l inner rest ihInner ih =>
      rw [Expressible, ClauseExpressible] at h
      exact legible_cons_iff.mpr ⟨legible_group_iff.mpr ⟨h.1.1, ihInner h.1.2⟩, ih h.2⟩

/-- Whatever can be expressed and does not begin with the word before a filter is read back from
what is written for it, up to the connectives that join nothing. -/
theorem ofText_written_of_expressible (f : Filter) (h : f.Expressible)
    (hlead : f.startsWithLead = false) : ofText (written f) = .ok (resetLinks f) :=
  h.legible.ofText_written hlead

theorem ofText_written_of_expressible_nested :
    let inner : Filter :=
      [.condition ⟨"_x1", .like, .text "", .and⟩, .condition ⟨"where", .between, .null, .and⟩]
    let f : Filter :=
      [.group .and [.group .or inner], .condition ⟨"a.b", .equal, .text "'(&\n:", .and⟩]
    written f = "((_x1 ~ '' & where <> null)) & a.b = \"'(&\n:\"" ∧
      ofText (written f) = .ok (resetLinks f) := by
  refine ⟨rfl, ofText_written_of_expressible _ ?_ rfl⟩
  simp only [Filter.Expressible, ClauseExpressible, and_true]
  refine ⟨⟨by simp, by simp, ?_, ?_⟩, ?_⟩
  · exact ⟨rfl, .inl (by decide)⟩
  · exact ⟨rfl, trivial⟩
  · exact ⟨rfl, .inr (by decide)⟩

end Filter

end RecordFilter
