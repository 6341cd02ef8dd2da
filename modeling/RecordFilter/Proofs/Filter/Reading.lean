import RecordFilter.Proofs.Expression.Levels
import RecordFilter.Proofs.Expression.Pieces

/-!
What a text is read as. A text fails as a whole where its parentheses or quotes do not pair up, else
at the first of its conditions that is none; and where every condition is read, the filter has on
each level the clauses that stand there.
-/

namespace RecordFilter.Filter

open Expression

/-- The text is read as a condition. -/
def Accepted (text : List Char) : Prop :=
  ∃ c, Condition.ofChars text = .ok c

/-- The first of the texts that is no condition is refused with this error. -/
def FirstRejected (texts : List (List Char)) (e : ReadError) : Prop :=
  ∃ before text after, texts = before ++ text :: after ∧ (∀ t ∈ before, Accepted t) ∧
    Condition.ofChars text = .error e

/-- The pieces of a level, each with the one immediately before it. -/
def withBefore : Option Piece → List Piece → List (Option Piece × Piece)
  | _, [] => []
  | before, piece :: rest => (before, piece) :: withBefore (some piece) rest

/-- The pieces of a level in which a condition stands. -/
def sources (before : Option Piece) (ps : List Piece) : List (Option Piece × Piece) :=
  (withBefore before ps).filter fun source => !(pieceAtoms source.2).isEmpty

/-- The connective is `&` exactly where that is the piece immediately before. -/
def JoinedBy (before : Option Piece) (l : Connective) : Prop :=
  l = .and ↔ before = some (.link .and)

mutual

/-- The clauses come in their order from the conditions of the level and from those of its groups in
which a condition stands. -/
inductive Mirrors : List Piece → Filter → Prop where
  | level {ps : List Piece} {f : Filter} (h : List.Forall₂ ClauseMirrors (sources none ps) f) :
      Mirrors ps f

inductive ClauseMirrors : Option Piece × Piece → Clause → Prop where
  | condition {before : Option Piece} {text : List Char} {c : Condition}
      (hread : Condition.ofChars text = .ok { c with link := .or }) (hlink : JoinedBy before c.link) :
      ClauseMirrors (before, .condition text) (.condition c)
  | group {before : Option Piece} {ps : List Piece} {l : Connective} {inner : Filter}
      (hinner : Mirrors ps inner) (hlink : JoinedBy before l) :
      ClauseMirrors (before, .group ps) (.group l inner)

end

/-- The result that is right for a level whose pieces stand behind `before`. -/
def Answers (before : Option Piece) (ps : List Piece) : Except ReadError Filter → Prop
  | .ok f => (∀ text ∈ atoms ps, Accepted text) ∧
      List.Forall₂ ClauseMirrors (sources before ps) f ∧ size f = (atoms ps).length
  | .error e => FirstRejected (atoms ps) e

section

variable {text : List Char} {texts more : List (List Char)} {e e' : ReadError}

theorem not_firstRejected_nil : ¬FirstRejected [] e := by
  rintro ⟨before, text, after, h, -⟩
  cases before <;> cases h

theorem firstRejected_cons_iff :
    FirstRejected (text :: texts) e ↔
      Condition.ofChars text = .error e ∨ (Accepted text ∧ FirstRejected texts e) := by
  constructor
  · rintro ⟨before, rejected, after, h, hbefore, hrejected⟩
    cases before with
    | nil =>
        cases h
        exact .inl hrejected
    | cons first before =>
        cases h
        rw [List.forall_mem_cons] at hbefore
        exact .inr ⟨hbefore.1, before, rejected, after, rfl, hbefore.2, hrejected⟩
  · rintro (hrejected | ⟨htext, before, rejected, after, rfl, hbefore, hrejected⟩)
    · exact ⟨[], text, texts, rfl, by simp, hrejected⟩
    · exact ⟨text :: before, rejected, after, rfl, List.forall_mem_cons.mpr ⟨htext, hbefore⟩,
        hrejected⟩

theorem FirstRejected.append_right (h : FirstRejected texts e) : FirstRejected (texts ++ more) e := by
  obtain ⟨before, text, after, rfl, hbefore, htext⟩ := h
  exact ⟨before, text, after ++ more, by simp, hbefore, htext⟩

theorem FirstRejected.append_left (hmore : ∀ text ∈ more, Accepted text)
    (h : FirstRejected texts e) : FirstRejected (more ++ texts) e := by
  obtain ⟨before, text, after, rfl, hbefore, htext⟩ := h
  exact ⟨more ++ before, text, after, by simp, List.forall_mem_append.mpr ⟨hmore, hbefore⟩, htext⟩

theorem FirstRejected.not_accepted (h : FirstRejected texts e) :
    ¬∀ text ∈ texts, Accepted text := by
  obtain ⟨before, text, after, rfl, -, htext⟩ := h
  intro haccepted
  obtain ⟨c, hc⟩ := haccepted text (by simp)
  cases htext.symm.trans hc

theorem FirstRejected.unique (h : FirstRejected texts e) (h' : FirstRejected texts e') :
    e = e' := by
  induction texts with
  | nil => exact absurd h not_firstRejected_nil
  | cons text texts ih =>
      rw [firstRejected_cons_iff] at h h'
      rcases h with h | ⟨⟨c, hc⟩, h⟩
      · rcases h' with h' | ⟨⟨c, hc⟩, -⟩
        · exact Except.error.inj (h.symm.trans h')
        · cases h.symm.trans hc
      · rcases h' with h' | ⟨-, h'⟩
        · cases hc.symm.trans h'
        · exact ih h h'

end

section

variable {before : Option Piece} {ps : List Piece}

theorem sources_link (l : Connective) :
    sources before (.link l :: ps) = sources (some (.link l)) ps := by
  simp [sources, withBefore, pieceAtoms]

theorem sources_condition (text : List Char) :
    sources before (.condition text :: ps) =
      (before, .condition text) :: sources (some (.condition text)) ps := by
  simp [sources, withBefore, pieceAtoms]

theorem sources_group (inner : List Piece) :
    sources before (.group inner :: ps) =
      if atoms inner = [] then sources (some (.group inner)) ps
      else (before, .group inner) :: sources (some (.group inner)) ps := by
  by_cases h : atoms inner = []
  · simp [sources, withBefore, pieceAtoms, h]
  · rw [if_neg h]
    exact List.filter_cons_of_pos (by simpa [pieceAtoms] using h)

theorem sources_eq_nil_iff : sources before ps = [] ↔ atoms ps = [] := by
  induction ps generalizing before with
  | nil => simp [sources, withBefore, atoms]
  | cons piece ps ih =>
      have hrest : sources (some piece) ps = [] ↔ atoms ps = [] := ih
      rw [atoms, List.append_eq_nil_iff, ← hrest]
      by_cases h : pieceAtoms piece = [] <;> simp [sources, withBefore, h]

end

theorem link_of_ofChars {text : List Char} {c : Condition} (h : Condition.ofChars text = .ok c) :
    c.link = .or := by
  rw [Condition.ofChars] at h
  split at h
  · rw [Condition.ofParts] at h
    split at h
    · cases h
      rfl
    · cases h
  · cases h

theorem not_malformed_of_ofChars {text : List Char} {e : ReadError}
    (h : Condition.ofChars text = .error e) (fault : Imbalance) : e ≠ .malformed fault := by
  rw [Condition.ofChars] at h
  split at h
  · rw [Condition.ofParts] at h
    split at h
    · cases h
    · cases h
      exact nofun
  · cases h
    exact nofun

section

variable {before : Option Piece} {ps : List Piece} {l : Connective} {text : List Char}
  {c : Condition} {f inner : Filter}

theorem joinedBy_or (h : before ≠ some (.link .and)) : JoinedBy before .or :=
  iff_of_false nofun h

theorem joinedBy_link (l : Connective) : JoinedBy (some (.link l)) l := by
  cases l <;> simp [JoinedBy]

theorem answers_condition (hc : Condition.ofChars text = .ok c) (hlink : JoinedBy before l)
    (hrest : Answers (some (.condition text)) ps (.ok f)) :
    Answers before (.condition text :: ps) (.ok (.condition { c with link := l } :: f)) := by
  obtain ⟨haccepted, hmirrors, hsize⟩ := hrest
  have hread : Condition.ofChars text = .ok { c with link := .or } := by
    rw [hc, ← link_of_ofChars hc]
  refine ⟨?_, ?_, ?_⟩
  · rw [atoms, pieceAtoms]
    exact List.forall_mem_cons.mpr ⟨⟨c, hc⟩, haccepted⟩
  · rw [sources_condition]
    exact .cons (.condition hread hlink) hmirrors
  · rw [size, clauseSize, hsize, atoms, pieceAtoms, List.length_append, List.length_singleton]

theorem answers_group {qs : List Piece} (hinner : Answers none qs (.ok inner))
    (hlink : JoinedBy before l) (hrest : Answers (some (.group qs)) ps (.ok f)) :
    Answers before (.group qs :: ps)
      (.ok (if inner.isEmpty then f else .group l inner :: f)) := by
  obtain ⟨haccepted, hmirrors, hsize⟩ := hrest
  obtain ⟨hacceptedInner, hmirrorsInner, hsizeInner⟩ := hinner
  have hempty : inner = [] ↔ atoms qs = [] := by
    constructor
    · rintro rfl
      exact List.length_eq_zero_iff.mp hsizeInner.symm
    · intro h
      rw [sources_eq_nil_iff.mpr h] at hmirrorsInner
      cases hmirrorsInner
      rfl
  refine ⟨?_, ?_, ?_⟩
  · rw [atoms, pieceAtoms]
    exact List.forall_mem_append.mpr ⟨hacceptedInner, haccepted⟩
  · rw [sources_group]
    by_cases h : inner = []
    · rw [if_pos (hempty.mp h), if_pos (by simp [h])]
      exact hmirrors
    · rw [if_neg (mt hempty.mpr h), if_neg (by simpa using h)]
      exact .cons (.group (.level hmirrorsInner) hlink) hmirrors
  · rw [atoms, pieceAtoms, List.length_append, ← hsize, ← hsizeInner]
    by_cases h : inner = []
    · simp [h, size]
    · simp [h, size, clauseSize]

end

section

variable {readInner : List Char → Except ReadError Filter} {tokens : List Token}
  {before : Option Piece} {l : Connective}

theorem answers_link_iff {ps : List Piece} {r : Except ReadError Filter} :
    Answers before (.link l :: ps) r ↔ Answers (some (.link l)) ps r := by
  cases r <;> simp [Answers, atoms, pieceAtoms, sources_link]

/-- The tokens of a level are read as they should be if the texts of its groups are. -/
theorem answers_readTokens
    (hinner : ∀ text, .group text ∈ tokens → Answers none (pieces text) (readInner text))
    (hlink : JoinedBy before l) :
    Answers before (tokens.map Token.piece) (readTokens readInner l tokens) := by
  induction tokens generalizing before l with
  | nil => exact ⟨by simp [atoms], .nil, by simp [size, atoms]⟩
  | cons token rest ih =>
      have hlater : ∀ text, .group text ∈ rest → Answers none (pieces text) (readInner text) :=
        fun text htext => hinner text (List.mem_cons_of_mem _ htext)
      cases token with
      | link next => exact answers_link_iff.mpr (ih hlater (joinedBy_link next))
      | condition text =>
          have hrest : Answers (some (.condition text)) (rest.map Token.piece)
              (readTokens readInner .or rest) := ih hlater (joinedBy_or (by simp))
          rw [readTokens]
          cases hc : Condition.ofChars text with
          | error e => exact firstRejected_cons_iff.mpr (.inl hc)
          | ok c =>
              cases hread : readTokens readInner .or rest with
              | error e =>
                  rw [hread] at hrest
                  exact firstRejected_cons_iff.mpr (.inr ⟨⟨c, hc⟩, hrest⟩)
              | ok clauses =>
                  rw [hread] at hrest
                  exact answers_condition hc hlink hrest
      | group text =>
          have hrest : Answers (some (.group (pieces text))) (rest.map Token.piece)
              (readTokens readInner .or rest) := ih hlater (joinedBy_or (by simp))
          have hgroup := hinner text List.mem_cons_self
          rw [readTokens]
          cases hread : readInner text with
          | error e =>
              rw [hread] at hgroup
              exact FirstRejected.append_right hgroup
          | ok inner =>
              rw [hread] at hgroup
              cases hread : readTokens readInner .or rest with
              | error e =>
                  rw [hread] at hrest
                  exact FirstRejected.append_left hgroup.1 hrest
              | ok clauses =>
                  rw [hread] at hrest
                  exact answers_group hgroup hlink hrest

theorem answers_readLevel {fuel : Nat} {s : List Char} (hfuel : s.length ≤ fuel)
    (hbalanced : imbalance s = none) : Answers none (pieces s) (readLevel fuel s) := by
  induction fuel generalizing s with
  | zero =>
      obtain rfl := List.length_eq_zero_iff.mp (Nat.le_zero.mp hfuel)
      have hsplit : split [] = [] := rfl
      rw [pieces_eq, hsplit]
      exact ⟨by simp [atoms], .nil, rfl⟩
  | succ fuel ih =>
      rw [readLevel, splitBalanced, hbalanced, pieces_eq]
      refine answers_readTokens ?_ (joinedBy_or (by simp))
      intro text htext
      have hshorter := length_lt_of_group_mem_split htext
      exact ih (by omega) (imbalance_eq_none_of_group_mem_split hbalanced htext)

end

section

variable {before : Option Piece} {ps : List Piece} {r : Except ReadError Filter}

theorem Answers.exists_ok_iff (h : Answers before ps r) :
    (∃ f, r = .ok f) ↔ ∀ text ∈ atoms ps, Accepted text := by
  cases r with
  | ok f => exact iff_of_true ⟨f, rfl⟩ h.1
  | error e => exact iff_of_false nofun (FirstRejected.not_accepted h)

theorem Answers.eq_error_iff (h : Answers before ps r) {e : ReadError} :
    r = .error e ↔ FirstRejected (atoms ps) e := by
  cases r with
  | ok f => exact iff_of_false nofun fun hrejected => hrejected.not_accepted h.1
  | error d =>
      constructor
      · rintro ⟨⟩
        exact h
      · intro hrejected
        rw [FirstRejected.unique h hrejected]

theorem not_firstRejected_malformed {texts : List (List Char)} {fault : Imbalance} :
    ¬FirstRejected texts (.malformed fault) := by
  rintro ⟨_, _, _, -, -, htext⟩
  exact not_malformed_of_ofChars htext fault rfl

end

theorem ofChars_of_imbalance {s : List Char} {fault : Imbalance}
    (h : imbalance (filterBody s) = some fault) : ofChars s = .error (.malformed fault) := by
  rw [ofChars]
  cases hlength : (filterBody s).length with
  | zero =>
      rw [List.length_eq_zero_iff.mp hlength] at h
      cases h
  | succ fuel => rw [readLevel, splitBalanced, h]

theorem ofText_eq_error_iff {s : String} {e : InvalidFilter} :
    ofText s = .error e ↔ e.input = s ∧ ofChars s.toList = .error e.cause := by
  obtain ⟨input, cause⟩ := e
  rw [ofText]
  cases ofChars s.toList <;> simp [Except.mapError, eq_comm]

/-- A text is refused as malformed exactly where its parentheses or quotes do not pair up, whatever
stands inside its groups. Otherwise it is read if all of its conditions are, at every depth, and the
first that is not gives the error; the filter has the conditions and the groups with conditions in
them as its clauses, each joined by the piece before it. -/
theorem ofText_outcome (s : String) :
    ((∃ fault, ofText s = .error ⟨s, .malformed fault⟩) ↔ Malformed (filterBody s.toList)) ∧
    (¬Malformed (filterBody s.toList) →
      ((∃ f, ofText s = .ok f) ↔ ∀ text ∈ atoms (pieces (filterBody s.toList)), Accepted text) ∧
      ∀ cause, ofText s = .error ⟨s, cause⟩ ↔
        FirstRejected (atoms (pieces (filterBody s.toList))) cause) ∧
    (∀ e, ofText s = .error e → e.input = s) ∧
    ∀ f, ofText s = .ok f →
      Mirrors (pieces (filterBody s.toList)) f ∧
        size f = (atoms (pieces (filterBody s.toList))).length := by
  simp only [ofText_eq_error_iff, ofText_eq_ok_iff, true_and]
  by_cases hmalformed : Malformed (filterBody s.toList)
  · obtain ⟨fault, hfault⟩ : ∃ fault, imbalance (filterBody s.toList) = some fault := by
      refine Option.ne_none_iff_exists'.mp ?_
      intro hbalanced
      exact imbalance_eq_none_iff.mp hbalanced hmalformed
    rw [ofChars_of_imbalance hfault]
    refine ⟨iff_of_true ⟨fault, rfl⟩ hmalformed, fun h => absurd hmalformed h, fun e he => he.1, ?_⟩
    rintro f ⟨⟩
  · have hanswers := answers_readLevel le_rfl (imbalance_eq_none_iff.mpr hmalformed)
    refine ⟨iff_of_false ?_ hmalformed, fun _ => ⟨hanswers.exists_ok_iff, ?_⟩, fun e he => he.1, ?_⟩
    · rintro ⟨fault, hfault⟩
      exact not_firstRejected_malformed (hanswers.eq_error_iff.mp hfault)
    · intro cause
      exact hanswers.eq_error_iff
    · intro f hf
      rw [ofChars] at hf
      rw [hf] at hanswers
      exact ⟨.level hanswers.2.1, hanswers.2.2⟩

theorem ofText_outcome_nested :
    (∃ f, ofText "where & a = 1 (b = '2)' | () & c ~ d) & (()) e = f" = .ok f ∧
      Mirrors (pieces "& a = 1 (b = '2)' | () & c ~ d) & (()) e = f".toList) f ∧ size f = 4) ∧
    (ofText "a = 1 & ((b == 2) | c)" =
        .error ⟨"a = 1 & ((b == 2) | c)", .unsupportedOperator "=="⟩ ∧
      FirstRejected (atoms (pieces "a = 1 & ((b == 2) | c)".toList)) (.unsupportedOperator "==")) ∧
    Malformed "(a = 1) | b = '2)".toList := by
  let inner : Filter :=
    [.condition ⟨"b", .equal, .text "2)", .or⟩, .condition ⟨"c", .like, .text "d", .and⟩]
  let f : Filter :=
    [.condition ⟨"a", .equal, .text "1", .and⟩, .group .or inner,
      .condition ⟨"e", .equal, .text "f", .or⟩]
  have hread : ofText "where & a = 1 (b = '2)' | () & c ~ d) & (()) e = f" = .ok f := rfl
  have hrejected : ofText "a = 1 & ((b == 2) | c)" =
    .error ⟨"a = 1 & ((b == 2) | c)", .unsupportedOperator "=="⟩ := rfl
  have hbalanced : ¬Malformed (filterBody "a = 1 & ((b == 2) | c)".toList) := by
    intro h
    obtain ⟨fault, hfault⟩ := (ofText_outcome "a = 1 & ((b == 2) | c)").1.mpr h
    cases hrejected.symm.trans hfault
  refine ⟨⟨f, hread, ((ofText_outcome _).2.2.2 f hread).1, rfl⟩, ⟨hrejected, ?_⟩, ?_⟩
  · exact (((ofText_outcome _).2.1 hbalanced).2 _).mp hrejected
  · exact (ofText_outcome "(a = 1) | b = '2)").1.mp ⟨.openQuote '\'', rfl⟩

end RecordFilter.Filter
