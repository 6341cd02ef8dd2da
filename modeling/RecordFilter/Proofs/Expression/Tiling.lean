import RecordFilter.Proofs.Expression.Pieces

/-!
How the tokens of a text cover it. Between and around them the text is blank; a condition ends only
at a connective, at a group or at the end of the text; and a group ends with the parenthesis that
closes the one it begins with.
-/

namespace RecordFilter.Expression

open Cursor
open Text (Framed trim)

variable {k start : Cursor} {c : Char} {held gap read rest s : List Char} {tokens : List Token}

/-- What is right for a token that a scan meets at `k`: all tokens stand on the outermost level; a
condition is trimmed and has connectives and parentheses only in its quotations; and the parenthesis
behind a group closes the one before it. -/
def Token.StandsAt (k : Cursor) : Token → Prop
  | condition text =>
      k.Outermost ∧ Framed text ∧
        ∀ a c b, text = a ++ c :: b → (k.after a).quote = none → c ∉ ['&', '|', '(', ')']
  | group inner =>
      k.Outermost ∧ Paired ((k.advance '(').parentheses inner) ∧
        ((k.advance '(').after inner).quote = none
  | link _ => k.Outermost

/-- The tokens stand one behind the other in a text that is met at `k`, with blanks around them. -/
inductive Tiles : Cursor → List Token → List Char → Prop where
  | nil {k : Cursor} {gap : List Char} (blank : ∀ c ∈ gap, Text.isBlank c = true) : Tiles k [] gap
  | cons {k : Cursor} {gap rest : List Char} {token : Token} {tokens : List Token}
      (blank : ∀ c ∈ gap, Text.isBlank c = true) (stands : token.StandsAt (k.after gap))
      (tiles : Tiles (k.after (gap ++ token.chars)) tokens rest) :
      Tiles k (token :: tokens) (gap ++ token.chars ++ rest)

theorem Tiles.blank_append (hgap : ∀ c ∈ gap, Text.isBlank c = true)
    (h : Tiles (k.after gap) tokens s) : Tiles k tokens (gap ++ s) := by
  cases h with
  | nil hs => exact .nil (List.forall_mem_append.mpr ⟨hgap, hs⟩)
  | @cons _ more rest token tokens hmore hstands htiles =>
      rw [← after_append] at hstands htiles
      rw [← List.append_assoc, ← List.append_assoc]
      refine .cons (List.forall_mem_append.mpr ⟨hgap, hmore⟩) hstands ?_
      rw [List.append_assoc]
      exact htiles

namespace Cursor

theorem Plain.not_mem (h : k.Plain s) {a b : List Char} (hs : s = a ++ c :: b)
    (hquote : (k.after a).quote = none) : c ∉ ['&', '|', '(', ')'] := by
  rw [hs, plain_append_iff, Plain] at h
  have hmark := h.2.1
  intro hc
  simp only [List.mem_cons, List.not_mem_nil, or_false] at hc
  rcases hc with rfl | rfl | rfl | rfl
  · cases (mark_symbol hquote .and).symm.trans hmark
  · cases (mark_symbol hquote .or).symm.trans hmark
  · cases (mark_opening hquote).symm.trans hmark
  · cases (mark_closing hquote).symm.trans hmark

theorem Outermost.advance_opening (h : k.Outermost) : k.advance '(' = atGroup.deeper := by
  rw [Cursor.advance_opening h.quote, h.depth]
  rfl

/-- What has been read of a text since `start`, where `held` is held at `k`: on the outermost level
nothing but what is held, and otherwise the parenthesis that is open before it. -/
structure Pending (start : Cursor) (held : List Char) (k : Cursor) (read : List Char) : Prop where
  outside : k.depth = 0 →
    start.Plain held.reverse ∧ start.after held.reverse = k ∧ read = held.reverse
  inside : HeldInside k held
  opened : k.depth ≠ 0 → read = '(' :: held.reverse

theorem pending_start (hstart : start.Outermost) : Pending start [] start [] where
  outside _ := ⟨trivial, rfl, rfl⟩
  inside := heldInside_of_depth_eq_zero hstart.depth
  opened h := absurd hstart.depth h

theorem pending_opening (hmark : k.mark c = .opening) (hdepth : k.depth = 0) :
    Pending k [] (k.advance c) [c] where
  outside h := by
    rw [depth_advance, hmark] at h
    cases h
  inside := heldInside_opening hmark hdepth
  opened _ := by
    rw [(mark_eq_opening_iff.mp hmark).2]
    rfl

theorem Pending.advance (h : Pending start held k read) (hplain : k.depth = 0 → k.mark c = .plain)
    (hclosing : k.mark c = .closing → k.depth ≠ 1) :
    Pending start (c :: held) (k.advance c) (read ++ [c]) := by
  have hinside := h.inside.advance hplain hclosing
  by_cases hdepth : k.depth = 0
  · have hmark := hplain hdepth
    have hnext : (k.advance c).depth = 0 := by
      rw [depth_advance, hmark]
      exact hdepth
    obtain ⟨hheld, hafter, hread⟩ := h.outside hdepth
    refine ⟨fun _ => ⟨?_, ?_, ?_⟩, hinside, fun hopen => absurd hnext hopen⟩
    · rw [List.reverse_cons, plain_append_iff, hafter]
      exact ⟨hheld, hmark, trivial⟩
    · rw [List.reverse_cons, after_append, hafter]
      rfl
    · rw [List.reverse_cons, hread]
  · have hnext := depth_advance_ne_zero hdepth hclosing
    refine ⟨fun hzero => absurd hzero hnext, hinside, fun _ => ?_⟩
    rw [h.opened hdepth, List.cons_append, List.reverse_cons]

end Cursor

/-- A condition token and the blanks around it cover what has been passed over. -/
theorem tiles_conditionToken_append (hk : k.Outermost) (hheld : k.Passes held)
    (h : Tiles (k.after held) tokens rest) :
    Tiles k (conditionToken held ++ tokens) (held ++ rest) := by
  obtain ⟨a, b, hsplit, ha, hb⟩ := Text.exists_eq_append_trim_append held
  by_cases hnil : trim held = []
  · rw [conditionToken_eq, if_pos hnil]
    exact h.blank_append (Text.trim_eq_nil_iff.mp hnil)
  · have hplace := (passes_of_not_delimiter hk.quote
      (not_delimiter_of_forall_blank ha)).outermost_after hk
    have hplain : (k.after a).Plain (trim held) := by
      have hplain := hheld.plain
      rw [hsplit, plain_append_iff, plain_append_iff] at hplain
      exact hplain.2.1
    have hrest : Tiles (k.after (a ++ trim held)) tokens (b ++ rest) := by
      apply Tiles.blank_append hb
      rw [← after_append, List.append_assoc, ← hsplit]
      exact h
    have htext : held ++ rest = a ++ trim held ++ (b ++ rest) := by
      rw [List.append_assoc, ← List.append_assoc (trim held), ← List.append_assoc, ← hsplit]
    rw [conditionToken_eq, if_neg hnil, htext]
    refine .cons ha ⟨hplace, Text.framed_trim hnil, ?_⟩ hrest
    intro before c behind
    exact hplain.not_mem

theorem Tiles.cons_of_standsAt {token : Token} (h : Tiles (k.after token.chars) tokens rest)
    (hstands : token.StandsAt k) :
    Tiles k (token :: tokens) (token.chars ++ rest) := by
  rw [← List.nil_append token.chars]
  exact .cons (by simp) hstands h

theorem standsAt_group (hk : k.Outermost) (hinner : atGroup.imbalanceFrom s = none) :
    (Token.group s).StandsAt k := by
  obtain ⟨hsound, hafter⟩ := imbalanceFrom_eq_none_iff.mp hinner
  rw [Token.StandsAt, hk.advance_opening, hsound.parentheses_deeper, hsound.after_deeper]
  exact ⟨hk, paired_of_imbalanceFrom hinner rfl, hafter.quote⟩

theorem after_group (hk : k.Outermost) (hsound : atGroup.Sound s) :
    k.after (Token.group s).chars = (atGroup.after s).deeper.advance ')' := by
  rw [Token.chars, List.cons_append, after_cons, hk.advance_opening, after_append,
    hsound.after_deeper, after_cons, after_nil]

/-- A step of a scan reads on or ends a token; what has been read before it is covered by the tokens
that are still to come. -/
theorem tiles_splitFrom (hstart : start.Outermost) (hbalanced : k.imbalanceFrom s = none)
    (h : Pending start held k read) : Tiles start (splitFrom k held s) (read ++ s) := by
  induction s generalizing start k held read with
  | nil =>
      have hk := imbalanceAtEnd_eq_none_iff.mp hbalanced
      obtain ⟨hplain, rfl, rfl⟩ := h.outside hk.depth
      have hnil : Tiles (start.after held.reverse) [] [] := .nil (by simp)
      have hend := tiles_conditionToken_append hstart ⟨hplain, hk.quote⟩ hnil
      rw [List.append_nil] at hend
      exact hend
  | cons c s ih =>
      obtain ⟨hc, hrest⟩ := imbalanceFrom_cons_eq_none_iff.mp hbalanced
      obtain ⟨hsplit, houter, hclosing⟩ | ⟨hmark, hdepth, hsplit⟩ | ⟨hmark, hdepth, hsplit⟩ |
        ⟨l, hmark, hdepth, hsplit⟩ := splitFrom_cons_cases k held c s
      · have hplain : k.depth = 0 → k.mark c = .plain := by
          intro hdepth
          exact (houter hdepth).resolve_right fun hmark => hc ⟨hmark, hdepth⟩
        have htiles := ih hstart hrest (h.advance hplain hclosing)
        rw [List.append_assoc, List.singleton_append] at htiles
        rw [hsplit]
        exact htiles
      · have hquote := (mark_eq_opening_iff.mp hmark).1
        obtain ⟨hplain, rfl, rfl⟩ := h.outside hdepth
        rw [hsplit]
        exact tiles_conditionToken_append hstart ⟨hplain, hquote⟩
          (ih ⟨hquote, hdepth⟩ hrest (pending_opening hmark hdepth))
      · obtain ⟨hquote, rfl⟩ := mark_eq_closing_iff.mp hmark
        have hopen : k.depth ≠ 0 := by omega
        obtain ⟨hsound, rfl⟩ := h.inside hopen
        have hgroup := imbalanceFrom_eq_none_iff.mpr ⟨hsound, hquote, Nat.succ.inj hdepth⟩
        have hnext : ((atGroup.after held.reverse).deeper.advance ')').Outermost := by
          rw [advance_closing hquote, hdepth]
          exact outermost_mk
        have htiles := ih hnext hrest (pending_start hnext)
        rw [← after_group hstart hsound] at htiles
        rw [hsplit, h.opened hopen, ← after_group hstart hsound]
        simpa [Token.chars] using htiles.cons_of_standsAt (standsAt_group hstart hgroup)
      · obtain ⟨hquote, rfl⟩ := mark_eq_link_iff.mp hmark
        have hnext : (k.advance l.symbol).Outermost := by
          rw [advance_symbol hquote, hdepth]
          exact outermost_mk
        have hlink : (Token.link l).StandsAt k := ⟨hquote, hdepth⟩
        have hrest : Tiles (k.after (Token.link l).chars) (splitFrom (k.advance l.symbol) [] s) s :=
          ih hnext hrest (pending_start hnext)
        have htiles := hrest.cons_of_standsAt hlink
        obtain ⟨hplain, rfl, rfl⟩ := h.outside hdepth
        rw [hsplit]
        exact tiles_conditionToken_append hstart ⟨hplain, hquote⟩ htiles

/-- Between two conditions there is a connective or a group. -/
def Apart (tokens : List Token) : Prop :=
  ∀ before first second behind,
    tokens ≠ before ++ .condition first :: .condition second :: behind

theorem apart_nil : Apart [] := by
  intro before first second behind h
  cases before <;> cases h

theorem Apart.cons (h : Apart tokens) {token : Token}
    (hnext : ∀ text behind, tokens = .condition text :: behind → ∀ t, token ≠ .condition t) :
    Apart (token :: tokens) := by
  rintro before first second behind heq
  cases before with
  | nil =>
      cases heq
      exact hnext second behind rfl first rfl
  | cons other before =>
      rw [List.cons_append, List.cons.injEq] at heq
      exact h before first second behind heq.2

theorem Apart.conditionToken_append (h : Apart tokens)
    (hnext : ∀ text behind, tokens ≠ .condition text :: behind) :
    Apart (conditionToken s ++ tokens) := by
  rw [conditionToken_eq]
  split
  · exact h
  · refine h.cons ?_
    intro text behind heq
    exact absurd heq (hnext text behind)

/-- Inside a group the next token is that group. -/
theorem apart_splitFrom (hbalanced : k.imbalanceFrom s = none) :
    Apart (splitFrom k held s) ∧
      (k.depth ≠ 0 → ∀ text behind, splitFrom k held s ≠ .condition text :: behind) := by
  induction s generalizing k held with
  | nil =>
      have hk := imbalanceAtEnd_eq_none_iff.mp hbalanced
      refine ⟨?_, fun hdepth => absurd hk.depth hdepth⟩
      have hlast := apart_nil.conditionToken_append (s := held.reverse) nofun
      rw [List.append_nil] at hlast
      exact hlast
  | cons c s ih =>
      obtain ⟨hc, hrest⟩ := imbalanceFrom_cons_eq_none_iff.mp hbalanced
      obtain ⟨hsplit, houter, hclosing⟩ | ⟨hmark, hdepth, hsplit⟩ | ⟨hmark, hdepth, hsplit⟩ |
        ⟨l, hmark, hdepth, hsplit⟩ := splitFrom_cons_cases k held c s
      · rw [hsplit]
        exact ⟨(ih hrest).1, fun hdepth => (ih hrest).2 (depth_advance_ne_zero hdepth hclosing)⟩
      · have hopened : (k.advance c).depth ≠ 0 := by
          rw [depth_advance, hmark]
          exact Nat.succ_ne_zero _
        rw [hsplit]
        exact ⟨(ih hrest).1.conditionToken_append ((ih hrest).2 hopened),
          fun hinside => absurd hdepth hinside⟩
      · rw [hsplit]
        exact ⟨(ih hrest).1.cons fun _ _ _ _ => nofun, fun _ => nofun⟩
      · have hlinked : Apart (.link l :: splitFrom (k.advance c) [] s) :=
          (ih hrest).1.cons fun _ _ _ _ => nofun
        rw [hsplit]
        exact ⟨hlinked.conditionToken_append nofun, fun hinside => absurd hdepth hinside⟩

/-- Nothing of a text is lost in its tokens but blanks around them, and nothing is added. -/
theorem tiles_of_splitBalanced {s : List Char} {tokens : List Token}
    (h : splitBalanced s = .ok tokens) : Tiles {} tokens s ∧ Apart tokens := by
  rw [splitBalanced] at h
  split at h
  · cases h
  · next hbalanced =>
      cases h
      exact ⟨tiles_splitFrom outermost_start hbalanced (pending_start outermost_start),
        (apart_splitFrom hbalanced).1⟩

theorem tiles_of_splitBalanced_quoted :
    let s := " (a = ')' | (b=1))c's = '&'&\td=2 ".toList
    let tokens := [.group "a = ')' | (b=1)".toList, .condition "c's = '&'".toList, .link .and,
      .condition "d=2".toList]
    splitBalanced s = .ok tokens ∧ Tiles {} tokens s ∧ Apart tokens :=
  ⟨by decide, tiles_of_splitBalanced (by decide)⟩

end RecordFilter.Expression
