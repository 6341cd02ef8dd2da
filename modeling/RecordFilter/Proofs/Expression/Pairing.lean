import RecordFilter.Proofs.Expression.Scan

/-!
Which parentheses of a text belong together. A closing parenthesis closes the opening one from which
it is separated by pairs alone; the scan by depth finds a fault exactly where some parenthesis has
no partner or a quotation is not closed.
-/

namespace RecordFilter.Expression

inductive Parenthesis where
  | opening
  | closing
  deriving DecidableEq

/-- Words in which every parenthesis has its partner. -/
inductive Paired : List Parenthesis → Prop where
  | nil : Paired []
  | pair {v w : List Parenthesis} (hv : Paired v) (hw : Paired w) :
      Paired (.opening :: v ++ .closing :: w)

/-- Some closing parenthesis closes nothing. -/
def Unopened (w : List Parenthesis) : Prop :=
  ∃ a b, w = a ++ .closing :: b ∧ ∀ u v, a = u ++ .opening :: v → ¬Paired v

/-- Some opening parenthesis stays open. -/
def Unclosed (w : List Parenthesis) : Prop :=
  ∃ a b, w = a ++ .opening :: b ∧ ∀ v u, b = v ++ .closing :: u → ¬Paired v

/-- How many parentheses are open behind a word that is met at some depth, unless one of the word
closes nothing. -/
def climb : Nat → List Parenthesis → Option Nat
  | d, [] => some d
  | d, .opening :: w => climb (d + 1) w
  | 0, .closing :: _ => none
  | d + 1, .closing :: w => climb d w

variable {d e : Nat} {a b u v w : List Parenthesis}

theorem Paired.append (hv : Paired v) (hw : Paired w) : Paired (v ++ w) := by
  induction hv with
  | nil => exact hw
  | @pair x y hx _ _ ih =>
      rw [List.append_assoc, List.cons_append]
      exact .pair hx ih

theorem climb_append : climb d (v ++ w) = (climb d v).bind fun e => climb e w := by
  fun_induction climb d v with
  | case1 d => rfl
  | case2 d v ih => exact ih
  | case3 v => rfl
  | case4 d v ih => exact ih

theorem climb_of_paired (h : Paired w) : climb d w = some d := by
  induction h generalizing d with
  | nil => rfl
  | @pair v w _ _ ihv ihw =>
      rw [List.cons_append, climb, climb_append, ihv, Option.bind_some, climb, ihw]

/-- A word that leads below the depth at which it is met closes the parenthesis that was open. -/
theorem exists_paired_of_climb_lt (h : climb (d + 1) w = some e) (he : e ≤ d) :
    ∃ v u, w = v ++ .closing :: u ∧ Paired v ∧ climb d u = some e := by
  induction hn : w.length using Nat.strongRecOn generalizing d w with
  | ind n ih =>
      subst hn
      rcases w with _ | ⟨_ | _, w⟩
      · cases h
        omega
      · obtain ⟨v, u, rfl, hv, hu⟩ := ih w.length (by simp) (d := d + 1) h (by omega) rfl
        obtain ⟨v', u', rfl, hv', hu'⟩ := ih u.length (by simp; omega) hu he rfl
        exact ⟨.opening :: v ++ .closing :: v', u', by simp, .pair hv hv', hu'⟩
      · exact ⟨[], w, rfl, .nil, h⟩

/-- Words whose parentheses lead back to where they are met, and never below. -/
theorem paired_of_climb {w : List Parenthesis} (h : climb 0 w = some 0) : Paired w := by
  induction hn : w.length using Nat.strongRecOn generalizing w with
  | ind n ih =>
      subst hn
      rcases w with _ | ⟨_ | _, w⟩
      · exact .nil
      · obtain ⟨v, u, rfl, hv, hu⟩ := exists_paired_of_climb_lt (d := 0) h (Nat.le_refl 0)
        exact .pair hv (ih u.length (by simp; omega) hu rfl)
      · cases h

/-- A word that leads above the depth at which it is met has left a parenthesis open, with nothing
but pairs behind it. -/
theorem exists_paired_of_climb_gt (h : climb d w = some e) (he : d < e) :
    ∃ u v, w = u ++ .opening :: v ∧ Paired v ∧ climb d u = some (e - 1) := by
  induction hn : w.length using Nat.strongRecOn generalizing w e with
  | ind n ih =>
      subst hn
      obtain rfl | ⟨w, p, rfl⟩ := List.eq_nil_or_concat w
      · cases h
        omega
      rw [List.concat_eq_append, climb_append, Option.bind_eq_some_iff] at h
      obtain ⟨f, hf, hp⟩ := h
      cases p with
      | opening =>
          cases hp
          exact ⟨w, [], List.concat_eq_append, .nil, hf⟩
      | closing =>
          obtain ⟨e, rfl⟩ : ∃ e, f = e + 1 := by
            cases f with
            | zero => cases hp
            | succ e => exact ⟨e, rfl⟩
          cases hp
          obtain ⟨u, v, rfl, hv, hu⟩ := ih w.length (by simp) hf (by omega) rfl
          obtain ⟨u', v', rfl, hv', hu'⟩ := ih u.length (by simp) hu (by omega) rfl
          refine ⟨u', v' ++ (.opening :: v ++ [.closing]), by simp, ?_, hu'⟩
          exact hv'.append (.pair hv .nil)

/-- The first parenthesis that closes nothing has every one before it closed. -/
theorem exists_climb_eq_zero (h : climb d w = none) :
    ∃ a b, w = a ++ .closing :: b ∧ climb d a = some 0 := by
  fun_induction climb d w with
  | case1 d => cases h
  | case2 d w ih =>
      obtain ⟨a, b, rfl, ha⟩ := ih h
      exact ⟨.opening :: a, b, rfl, ha⟩
  | case3 w => exact ⟨[], w, rfl, rfl⟩
  | case4 d w ih =>
      obtain ⟨a, b, rfl, ha⟩ := ih h
      exact ⟨.closing :: a, b, rfl, ha⟩

theorem unopened_iff : Unopened w ↔ climb 0 w = none := by
  constructor
  · rintro ⟨a, b, rfl, ha⟩
    rw [climb_append]
    cases hdepth : climb 0 a with
    | none => rfl
    | some d =>
        cases d with
        | zero => rfl
        | succ d =>
            obtain ⟨u, v, hav, hv, -⟩ := exists_paired_of_climb_gt hdepth (Nat.succ_pos d)
            exact absurd hv (ha u v hav)
  · intro h
    obtain ⟨a, b, rfl, ha⟩ := exists_climb_eq_zero h
    refine ⟨a, b, rfl, ?_⟩
    rintro u v rfl hv
    rw [climb_append] at ha
    obtain ⟨d, -, hd⟩ := Option.bind_eq_some_iff.mp ha
    rw [climb, climb_of_paired hv] at hd
    cases hd

theorem unclosed_iff (h : climb 0 w = some d) : Unclosed w ↔ d ≠ 0 := by
  constructor
  · rintro ⟨a, b, rfl, hb⟩ rfl
    rw [climb_append] at h
    obtain ⟨d, -, hd⟩ := Option.bind_eq_some_iff.mp h
    obtain ⟨v, u, hbv, hv, -⟩ := exists_paired_of_climb_lt hd (Nat.zero_le d)
    exact hb v u hbv hv
  · intro hd
    obtain ⟨a, b, rfl, hb, -⟩ := exists_paired_of_climb_gt h (Nat.pos_of_ne_zero hd)
    refine ⟨a, b, rfl, ?_⟩
    rintro v u rfl hv
    have hclosed := climb_of_paired (d := 0) hb
    rw [climb_append, climb_of_paired hv] at hclosed
    cases hclosed

namespace Cursor

variable {k : Cursor} {c : Char} {s : List Char}

/-- The parentheses of a text that no quotation hides. -/
def parentheses (k : Cursor) : List Char → List Parenthesis
  | [] => []
  | c :: s =>
      let rest := (k.advance c).parentheses s
      if k.quote.isSome then rest
      else if c = '(' then .opening :: rest
      else if c = ')' then .closing :: rest
      else rest

theorem delimits_of_mark_ne_plain (h : k.mark c ≠ .plain) :
    c = '(' ∨ c = ')' ∨ ∃ l : Connective, c = l.symbol := by
  by_cases hopening : c = '('
  · exact .inl hopening
  by_cases hclosing : c = ')'
  · exact .inr (.inl hclosing)
  by_cases hand : c = '&'
  · exact .inr (.inr ⟨.and, hand⟩)
  by_cases hor : c = '|'
  · exact .inr (.inr ⟨.or, hor⟩)
  exact absurd (mark_eq_plain hopening hclosing hand hor) h

theorem mark_eq_opening_iff : k.mark c = .opening ↔ k.quote = none ∧ c = '(' := by
  constructor
  · intro h
    have hplain : k.mark c ≠ .plain := by simp [h]
    have hquote := quote_of_mark_ne_plain hplain
    refine ⟨hquote, ?_⟩
    obtain rfl | rfl | ⟨l, rfl⟩ := delimits_of_mark_ne_plain hplain
    · rfl
    · cases (mark_closing hquote).symm.trans h
    · cases (mark_symbol hquote l).symm.trans h
  · rintro ⟨hquote, rfl⟩
    exact mark_opening hquote

theorem mark_eq_closing_iff : k.mark c = .closing ↔ k.quote = none ∧ c = ')' := by
  constructor
  · intro h
    have hplain : k.mark c ≠ .plain := by simp [h]
    have hquote := quote_of_mark_ne_plain hplain
    refine ⟨hquote, ?_⟩
    obtain rfl | rfl | ⟨l, rfl⟩ := delimits_of_mark_ne_plain hplain
    · cases (mark_opening hquote).symm.trans h
    · rfl
    · cases (mark_symbol hquote l).symm.trans h
  · rintro ⟨hquote, rfl⟩
    exact mark_closing hquote

theorem mark_eq_link_iff {l : Connective} : k.mark c = .link l ↔ k.quote = none ∧ c = l.symbol := by
  constructor
  · intro h
    have hplain : k.mark c ≠ .plain := by simp [h]
    have hquote := quote_of_mark_ne_plain hplain
    refine ⟨hquote, ?_⟩
    obtain rfl | rfl | ⟨l', rfl⟩ := delimits_of_mark_ne_plain hplain
    · cases (mark_opening hquote).symm.trans h
    · cases (mark_closing hquote).symm.trans h
    · cases (mark_symbol hquote l').symm.trans h
      rfl
  · rintro ⟨hquote, rfl⟩
    exact mark_symbol hquote l

theorem parentheses_of_opening (h : k.mark c = .opening) :
    k.parentheses (c :: s) = .opening :: (k.advance c).parentheses s := by
  obtain ⟨hquote, rfl⟩ := mark_eq_opening_iff.mp h
  simp [parentheses, hquote]

theorem parentheses_of_closing (h : k.mark c = .closing) :
    k.parentheses (c :: s) = .closing :: (k.advance c).parentheses s := by
  obtain ⟨hquote, rfl⟩ := mark_eq_closing_iff.mp h
  simp [parentheses, hquote]

theorem parentheses_of_other (hopening : k.mark c ≠ .opening) (hclosing : k.mark c ≠ .closing) :
    k.parentheses (c :: s) = (k.advance c).parentheses s := by
  rw [Ne, mark_eq_opening_iff, not_and] at hopening
  rw [Ne, mark_eq_closing_iff, not_and] at hclosing
  cases hquote : k.quote with
  | none => simp [parentheses, hquote, hopening hquote, hclosing hquote]
  | some q => simp [parentheses, hquote]

/-- The fault behind a text, by the depth to which its parentheses have led, if none of them closes
nothing, and by the quotation that is open. -/
def fault (depth : Option Nat) (quote : Option Char) : Option Imbalance :=
  match depth, quote with
  | none, _ => some .unopened
  | some _, some q => some (.openQuote q)
  | some d, none => if d = 0 then none else some .unclosed

theorem fault_eq_none_iff {depth : Option Nat} {quote : Option Char} :
    fault depth quote = none ↔ depth = some 0 ∧ quote = none := by
  cases depth <;> cases quote <;> simp [fault]

theorem imbalanceFrom_eq_fault :
    k.imbalanceFrom s = fault (climb k.depth (k.parentheses s)) (k.after s).quote := by
  induction s generalizing k with
  | nil =>
      rw [imbalanceFrom, imbalanceAtEnd, parentheses, climb, after_nil]
      cases k.quote <;> rfl
  | cons c s ih =>
      rw [imbalanceFrom, after_cons, ih, depth_advance]
      cases hmark : k.mark c with
      | opening => simp [parentheses_of_opening hmark, climb]
      | closing =>
          rw [parentheses_of_closing hmark]
          cases hdepth : k.depth with
          | zero => simp [climb, fault]
          | succ d => simp [climb]
      | plain => simp [parentheses_of_other (k := k) (c := c), hmark]
      | link l => simp [parentheses_of_other (k := k) (c := c), hmark]

theorem paired_of_imbalanceFrom (h : k.imbalanceFrom s = none) (hk : k.depth = 0) :
    Paired (k.parentheses s) := by
  rw [imbalanceFrom_eq_fault, hk, fault_eq_none_iff] at h
  exact paired_of_climb h.1

end Cursor

/-- Some parenthesis outside every quotation has no partner, or a quotation is left open. -/
def Malformed (s : List Char) : Prop :=
  Unopened (Cursor.parentheses {} s) ∨ Unclosed (Cursor.parentheses {} s) ∨
    ∃ q, (Cursor.after {} s).quote = some q

theorem imbalance_eq_none_iff {s : List Char} : imbalance s = none ↔ ¬Malformed s := by
  rw [imbalance, Cursor.imbalanceFrom_eq_fault, Malformed, unopened_iff]
  cases hdepth : climb (Cursor.depth {}) (Cursor.parentheses {} s) with
  | none => simp [Cursor.fault]
  | some d =>
      rw [unclosed_iff hdepth]
      cases hquote : (Cursor.after {} s).quote <;> simp [Cursor.fault]

end RecordFilter.Expression
