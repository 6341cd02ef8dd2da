import RecordFilter.Proofs.Expression.Pairing
import RecordFilter.Proofs.Expression.Split

/-!
The tokens of a text at every depth. The text of a group is shorter than the text it stands in, so
that the splitting of groups ends; and where parentheses and quotes pair up in a text, they do so in
each of its groups.
-/

namespace RecordFilter.Expression

open Cursor

/-- A token in which the text of a group has been split in its turn. -/
inductive Piece where
  | condition (text : List Char)
  | group (inner : List Piece)
  | link (l : Connective)

variable {k k' : Cursor} {c : Char} {held inner s t : List Char}

/-- One step of a split: the character is held, or it ends what is held. -/
theorem splitFrom_cons_cases (k : Cursor) (held : List Char) (c : Char) (s : List Char) :
    (splitFrom k held (c :: s) = splitFrom (k.advance c) (c :: held) s ∧
      (k.depth = 0 → k.mark c = .plain ∨ k.mark c = .closing) ∧
      (k.mark c = .closing → k.depth ≠ 1)) ∨
    (k.mark c = .opening ∧ k.depth = 0 ∧ splitFrom k held (c :: s) =
      conditionToken held.reverse ++ splitFrom (k.advance c) [] s) ∨
    (k.mark c = .closing ∧ k.depth = 1 ∧ splitFrom k held (c :: s) =
      .group held.reverse :: splitFrom (k.advance c) [] s) ∨
    ∃ l, k.mark c = .link l ∧ k.depth = 0 ∧ splitFrom k held (c :: s) =
      conditionToken held.reverse ++ .link l :: splitFrom (k.advance c) [] s := by
  rw [splitFrom]
  split
  · next hmark hdepth => exact .inr (.inl ⟨hmark, hdepth, rfl⟩)
  · next hmark hdepth => exact .inr (.inr (.inl ⟨hmark, hdepth, rfl⟩))
  · next l hmark hdepth => exact .inr (.inr (.inr ⟨l, hmark, hdepth, rfl⟩))
  · next hopening hclosing hlink =>
      refine .inl ⟨rfl, ?_, hclosing⟩
      intro hdepth
      cases hmark : k.mark c with
      | plain => exact .inl rfl
      | closing => exact .inr rfl
      | opening => exact absurd hdepth (hopening hmark)
      | link l => exact absurd hdepth (hlink l hmark)

theorem not_group_mem_conditionToken : .group inner ∉ conditionToken s := by
  intro h
  cases (mem_conditionToken h).1

theorem length_lt_of_group_mem_splitFrom (h : .group inner ∈ splitFrom k held s) :
    inner.length < held.length + s.length := by
  induction s generalizing k held with
  | nil => exact absurd h not_group_mem_conditionToken
  | cons c s ih =>
      rw [List.length_cons]
      obtain ⟨hsplit, -⟩ | ⟨-, -, hsplit⟩ | ⟨-, -, hsplit⟩ | ⟨l, -, -, hsplit⟩ :=
        splitFrom_cons_cases k held c s
      · have hlength := ih (hsplit ▸ h)
        rw [List.length_cons] at hlength
        omega
      · rw [hsplit, List.mem_append] at h
        have hlength := ih (h.resolve_left not_group_mem_conditionToken)
        rw [List.length_nil] at hlength
        omega
      · rw [hsplit, List.mem_cons] at h
        rcases h with h | h
        · cases h
          rw [List.length_reverse]
          omega
        · have hlength := ih h
          rw [List.length_nil] at hlength
          omega
      · rw [hsplit, List.mem_append, List.mem_cons] at h
        rcases h.resolve_left not_group_mem_conditionToken with h | h
        · cases h
        · have hlength := ih h
          rw [List.length_nil] at hlength
          omega

/-- A group is shorter than the text it stands in. -/
theorem length_lt_of_group_mem_split (h : .group inner ∈ split s) : inner.length < s.length := by
  simpa using length_lt_of_group_mem_splitFrom h

/-- The tokens of a text, each group with those of its own text. -/
def pieces (s : List Char) : List Piece :=
  (split s).attach.map fun
    | ⟨.condition text, _⟩ => .condition text
    | ⟨.group inner, _⟩ => .group (pieces inner)
    | ⟨.link l, _⟩ => .link l
termination_by s.length
decreasing_by exact length_lt_of_group_mem_split ‹_›

def Token.piece : Token → Piece
  | .condition text => .condition text
  | .group inner => .group (pieces inner)
  | .link l => .link l

theorem pieces_eq (s : List Char) : pieces s = (split s).map Token.piece := by
  rw [pieces, ← List.attach_map_val (l := split s)]
  refine List.map_congr_left ?_
  rintro ⟨_ | _ | _, _⟩ _ <;> rfl

namespace Cursor

/-- No parenthesis of the text closes nothing. -/
def Sound (k : Cursor) : List Char → Prop
  | [] => True
  | c :: s => ¬(k.mark c = .closing ∧ k.depth = 0) ∧ (k.advance c).Sound s

theorem sound_append_iff : k.Sound (s ++ t) ↔ k.Sound s ∧ (k.after s).Sound t := by
  induction s generalizing k with
  | nil => simp [Sound, after_nil]
  | cons c s ih => rw [List.cons_append, Sound, Sound, ih, after_cons, and_assoc]

theorem Sound.after_deeper (h : k.Sound s) : k.deeper.after s = (k.after s).deeper := by
  induction s generalizing k with
  | nil => rfl
  | cons c s ih => rw [after_cons, advance_deeper h.1, ih h.2, after_cons]

theorem Sound.parentheses_deeper (h : k.Sound s) :
    k.deeper.parentheses s = k.parentheses s := by
  induction s generalizing k with
  | nil => rfl
  | cons c s ih =>
      rw [parentheses, parentheses, advance_deeper h.1, ih h.2]
      rfl

theorem imbalanceFrom_eq_none_iff :
    k.imbalanceFrom s = none ↔ k.Sound s ∧ (k.after s).Outermost := by
  induction s generalizing k with
  | nil => simp [imbalanceFrom, imbalanceAtEnd_eq_none_iff, Sound, after_nil]
  | cons c s ih => rw [imbalanceFrom_cons_eq_none_iff, ih, Sound, after_cons, and_assoc]

/-- Where the text of a group begins. -/
def atGroup : Cursor :=
  ⟨none, some '(', 0⟩

/-- Inside parentheses, the text held is what has been read of the group, and nothing in it has been
closed that was not opened there. -/
def HeldInside (k : Cursor) (held : List Char) : Prop :=
  k.depth ≠ 0 → atGroup.Sound held.reverse ∧ (atGroup.after held.reverse).deeper = k

theorem heldInside_of_depth_eq_zero (h : k.depth = 0) : HeldInside k held := by
  intro hdepth
  exact absurd h hdepth

theorem heldInside_opening (hmark : k.mark c = .opening) (hdepth : k.depth = 0) :
    HeldInside (k.advance c) [] := by
  intro _
  obtain ⟨hquote, rfl⟩ := mark_eq_opening_iff.mp hmark
  refine ⟨trivial, ?_⟩
  rw [advance_opening hquote, hdepth]
  rfl

theorem HeldInside.advance (h : HeldInside k held)
    (houter : k.depth = 0 → k.mark c = .plain) (hclosing : k.mark c = .closing → k.depth ≠ 1) :
    HeldInside (k.advance c) (c :: held) := by
  by_cases hdepth : k.depth = 0
  · refine heldInside_of_depth_eq_zero ?_
    rw [depth_advance, houter hdepth]
    exact hdepth
  · obtain ⟨hsound, rfl⟩ := h hdepth
    have hinside : ¬((atGroup.after held.reverse).mark c = .closing ∧
        (atGroup.after held.reverse).depth = 0) := by
      rintro ⟨hmark, hzero⟩
      exact hclosing hmark (congrArg (· + 1) hzero)
    intro _
    rw [List.reverse_cons, sound_append_iff, after_append, advance_deeper hinside]
    exact ⟨⟨hsound, hinside, trivial⟩, rfl⟩

theorem HeldInside.imbalance_eq_none (h : HeldInside k held) (hmark : k.mark c = .closing)
    (hdepth : k.depth = 1) : imbalance held.reverse = none := by
  obtain ⟨hsound, rfl⟩ := h (by omega)
  have houtermost : (atGroup.after held.reverse).Outermost :=
    ⟨quote_of_mark_ne_plain (c := c) (by rw [← mark_deeper, hmark]; exact nofun),
      Nat.succ.inj hdepth⟩
  have hinner := imbalanceFrom_eq_none_iff.mpr ⟨hsound, houtermost⟩
  rw [← imbalanceFrom_opening, ← atGroup, hinner]

end Cursor

theorem imbalance_eq_none_of_group_mem_splitFrom (hbalanced : k.imbalanceFrom s = none)
    (hheld : HeldInside k held) (h : .group inner ∈ splitFrom k held s) :
    imbalance inner = none := by
  induction s generalizing k held with
  | nil => exact absurd h not_group_mem_conditionToken
  | cons c s ih =>
      obtain ⟨hc, hrest⟩ := imbalanceFrom_cons_eq_none_iff.mp hbalanced
      obtain ⟨hsplit, houter, hclosing⟩ | ⟨hmark, hdepth, hsplit⟩ | ⟨hmark, hdepth, hsplit⟩ |
        ⟨l, hmark, hdepth, hsplit⟩ := splitFrom_cons_cases k held c s
      · refine ih hrest (hheld.advance ?_ hclosing) (hsplit ▸ h)
        intro hdepth
        exact (houter hdepth).resolve_right fun hmark => hc ⟨hmark, hdepth⟩
      · rw [hsplit, List.mem_append] at h
        exact ih hrest (heldInside_opening hmark hdepth)
          (h.resolve_left not_group_mem_conditionToken)
      · rw [hsplit, List.mem_cons] at h
        rcases h with h | h
        · cases h
          exact hheld.imbalance_eq_none hmark hdepth
        · refine ih hrest (heldInside_of_depth_eq_zero ?_) h
          rw [depth_advance, hmark, hdepth]
      · rw [hsplit, List.mem_append, List.mem_cons] at h
        rcases h.resolve_left not_group_mem_conditionToken with h | h
        · cases h
        · refine ih hrest (heldInside_of_depth_eq_zero ?_) h
          rw [depth_advance, hmark]
          exact hdepth

/-- The groups of a text in which parentheses and quotes pair up are such texts. -/
theorem imbalance_eq_none_of_group_mem_split (hbalanced : imbalance s = none)
    (h : .group inner ∈ split s) : imbalance inner = none :=
  imbalance_eq_none_of_group_mem_splitFrom hbalanced (heldInside_of_depth_eq_zero rfl) h

mutual

/-- The texts of the conditions at every depth, in the order of the text. -/
def atoms : List Piece → List (List Char)
  | [] => []
  | piece :: rest => pieceAtoms piece ++ atoms rest

def pieceAtoms : Piece → List (List Char)
  | .condition text => [text]
  | .group inner => atoms inner
  | .link _ => []

end

end RecordFilter.Expression
