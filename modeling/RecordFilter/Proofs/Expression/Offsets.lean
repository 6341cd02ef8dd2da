import RecordFilter.Proofs.Filter.Reading
import RecordFilter.Proofs.Text.Slices

/-!
Splitting by byte offsets. A scan in one pass keeps the offset up to which tokens cover the text,
and takes every token as a slice of it. On a balanced text it moves as the cursor that has found the
text balanced, so that it closes nothing that is not open and asks for no slice that is not there.
-/

namespace RecordFilter.Expression

open Cursor
open Text (slice? slice?_ofList width width_append width_singleton)

namespace Cursor

variable {k : Cursor} {held : List Char}

/-- The text that has been read since the last token, in a group with its opening parenthesis. -/
def pending (k : Cursor) (held : List Char) : List Char :=
  if k.depth = 0 then held.reverse else '(' :: held.reverse

theorem pending_of_outer (h : k.depth = 0) : k.pending held = held.reverse :=
  if_pos h

theorem pending_of_inside (h : k.depth ≠ 0) : k.pending held = '(' :: held.reverse :=
  if_neg h

end Cursor

/-- Why a scan by offsets has to stop. -/
inductive OutOfRange where
  | depth
  | slice (start stop : Nat)
  deriving DecidableEq

/-- A scan by offsets; tokens cover the text up to `start`. -/
structure Slicer extends Cursor where
  start : Nat := 0
  tokens : List Token := []
  deriving DecidableEq

namespace Slicer

def cut (s : String) (start stop : Nat) : Except OutOfRange String :=
  match slice? s start stop with
  | some part => .ok part
  | none => .error (.slice start stop)

/-- The tokens with the condition that ends at an offset. -/
def flush (s : String) (k : Slicer) (stop : Nat) : Except OutOfRange (List Token) := do
  let text ← cut s k.start stop
  return k.tokens ++ conditionToken text.toList

/-- The token of a group from the slice of it with its parentheses. -/
def groupToken (group : String) : Except OutOfRange Token := do
  let inner ← cut group 1 (group.utf8ByteSize - 1)
  return .group inner.toList

/-- One character and its offset. -/
def step (s : String) (k : Slicer) (i : Nat) (c : Char) : Except OutOfRange Slicer :=
  let read : Slicer := { k with last := some c }
  match k.quote with
  | some q => .ok (if c = q then { read with quote := none } else read)
  | none =>
      if isQuote c && opensQuotation k.last then .ok { read with quote := some c }
      else if c = '(' then
        if k.depth = 0 then do
          let tokens ← k.flush s i
          return { read with depth := 1, start := i, tokens }
        else .ok { read with depth := k.depth + 1 }
      else if c = ')' then
        if k.depth = 0 then .error .depth
        else if k.depth = 1 then do
          let group ← groupToken (← cut s k.start (i + 1))
          return { read with depth := 0, start := i + 1, tokens := k.tokens ++ [group] }
        else .ok { read with depth := k.depth - 1 }
      else
        match Connective.ofSymbol? c with
        | some l =>
            if k.depth = 0 then do
              let tokens ← k.flush s i
              let _ ← cut s i (i + 1)
              return { read with start := i + 1, tokens := tokens ++ [.link l] }
            else .ok read
        | none => .ok read

def run (s : String) (k : Slicer) (i : Nat) : List Char → Except OutOfRange Slicer
  | [] => .ok k
  | c :: rest => do
      let next ← k.step s i c
      next.run s (i + c.utf8Size) rest

/-- The whole text; what is left behind the last token is a condition. -/
def scan (s : String) : Except OutOfRange Slicer := do
  let k ← run s {} 0 s.toList
  let tokens ← k.flush s s.utf8ByteSize
  return { k with tokens }

variable {s : String} {k : Slicer} {i : Nat} {c : Char} {a t b held rest : List Char}

theorem bind_ok {α β : Type} (x : α) (f : α → Except OutOfRange β) :
    (Except.ok x >>= f) = f x := rfl

theorem cut_eq (h : s.toList = a ++ t ++ b) :
    cut s (width a) (width (a ++ t)) = .ok (String.ofList t) := by
  rw [cut, ← String.ofList_toList (s := s), h, slice?_ofList]

theorem groupToken_eq : groupToken (String.ofList ('(' :: t ++ [')'])) = .ok (.group t) := by
  have hwidth : (String.ofList ('(' :: t ++ [')'])).utf8ByteSize - 1 = width (['('] ++ t) := by
    change width (['('] ++ t ++ [')']) - 1 = _
    rw [width_append _ [')'], width_singleton]
    rfl
  have hcut : cut (String.ofList ('(' :: t ++ [')'])) 1 (width (['('] ++ t)) =
      .ok (String.ofList t) := cut_eq (a := ['(']) (b := [')']) (by simp)
  rw [groupToken, hwidth, hcut, bind_ok, String.toList_ofList]
  rfl

theorem ofSymbol?_of_plain (hquote : k.quote = none) (hmark : k.mark c = .plain) :
    Connective.ofSymbol? c = none := by
  rw [Connective.ofSymbol?]
  · rintro rfl
    cases (mark_symbol hquote .and).symm.trans hmark
  · rintro rfl
    cases (mark_symbol hquote .or).symm.trans hmark

theorem step_of_plain (hmark : k.mark c = .plain) :
    step s k i c = .ok { k with toCursor := k.toCursor.advance c } := by
  cases hquote : k.quote with
  | some q =>
      rw [step, hquote, advance, quoteAfter, hquote, depthAfter, hmark]
      by_cases hq : c = q <;> simp [hq]
  | none =>
      have hopening : c ≠ '(' := by
        rintro rfl
        cases (mark_opening hquote).symm.trans hmark
      have hclosing : c ≠ ')' := by
        rintro rfl
        cases (mark_closing hquote).symm.trans hmark
      rw [step, hquote, advance, quoteAfter, hquote, depthAfter, hmark]
      cases hopens : isQuote c && opensQuotation k.last with
      | true => rfl
      | false => simp [hopening, hclosing, ofSymbol?_of_plain hquote hmark]

theorem step_opening (hquote : k.quote = none) : step s k i '(' =
    if k.depth = 0 then do
      let tokens ← k.flush s i
      return ⟨k.toCursor.advance '(', i, tokens⟩
    else .ok { k with toCursor := k.toCursor.advance '(' } := by
  rw [step, hquote, advance_opening hquote]
  by_cases hdepth : k.depth = 0 <;> simp [isQuote, hdepth]

theorem step_closing (hquote : k.quote = none) : step s k i ')' =
    if k.depth = 0 then .error .depth
    else if k.depth = 1 then do
      let group ← groupToken (← cut s k.start (i + 1))
      return ⟨k.toCursor.advance ')', i + 1, k.tokens ++ [group]⟩
    else .ok { k with toCursor := k.toCursor.advance ')' } := by
  rw [step, hquote, advance_closing hquote]
  by_cases hdepth : k.depth = 0
  · simp [isQuote, hdepth]
  · by_cases hone : k.depth = 1 <;> simp [isQuote, hdepth, hone]

theorem step_symbol (hquote : k.quote = none) (l : Connective) : step s k i l.symbol =
    if k.depth = 0 then do
      let tokens ← k.flush s i
      let _ ← cut s i (i + 1)
      return ⟨k.toCursor.advance l.symbol, i + 1, tokens ++ [.link l]⟩
    else .ok { k with toCursor := k.toCursor.advance l.symbol } := by
  have hother : isQuote l.symbol = false ∧ l.symbol ≠ '(' ∧ l.symbol ≠ ')' := by
    cases l <;> decide
  obtain ⟨hnot, hopening, hclosing⟩ := hother
  rw [step, hquote, advance_symbol hquote]
  simp [hnot, hopening, hclosing, Connective.ofSymbol?_symbol]

/-- A character that ends no token moves the cursor and nothing else. -/
theorem step_of_inside (houter : k.depth = 0 → k.mark c = .plain)
    (hclosing : k.mark c = .closing → k.depth ≠ 1) :
    step s k i c = .ok { k with toCursor := k.toCursor.advance c } := by
  by_cases hdepth : k.depth = 0
  · exact step_of_plain (houter hdepth)
  cases hmark : k.mark c with
  | plain => exact step_of_plain hmark
  | opening =>
      obtain ⟨hquote, rfl⟩ := mark_eq_opening_iff.mp hmark
      rw [step_opening hquote, if_neg hdepth]
  | closing =>
      have hone := hclosing hmark
      obtain ⟨hquote, rfl⟩ := mark_eq_closing_iff.mp hmark
      rw [step_closing hquote, if_neg hdepth, if_neg hone]
  | link l =>
      obtain ⟨hquote, rfl⟩ := mark_eq_link_iff.mp hmark
      rw [step_symbol hquote, if_neg hdepth]

/-- Tokens cover the text up to `start`, what is pending leads from there to the offset of the rest,
and the split of the rest gives the tokens that are missing. -/
structure Covers (s : String) (k : Slicer) (covered held : List Char) (i : Nat)
    (rest : List Char) : Prop where
  text : s.toList = covered ++ k.pending held ++ rest
  start : k.start = width covered
  offset : i = width (covered ++ k.pending held)
  tokens : k.tokens ++ splitFrom k.toCursor held rest = split s.toList

theorem covers_start (s : String) : Covers s {} [] [] 0 s.toList where
  text := rfl
  start := rfl
  offset := rfl
  tokens := rfl

theorem width_concat : width (a ++ [c]) = width a + c.utf8Size := by
  rw [width_append, width_singleton]

section

variable {covered : List Char}

theorem Covers.flush (h : Covers s k covered held i rest) (hdepth : k.depth = 0) :
    k.flush s i = .ok (k.tokens ++ conditionToken held.reverse) := by
  have hcut := cut_eq h.text
  rw [← h.start, ← h.offset, pending_of_outer hdepth] at hcut
  rw [Slicer.flush, hcut, bind_ok, String.toList_ofList]
  rfl

/-- The step succeeds, moves as the cursor does, and goes on covering the text. -/
def Steps (s : String) (k : Slicer) (i : Nat) (c : Char) (rest : List Char) : Prop :=
  ∃ next covered held, k.step s i c = .ok next ∧ next.toCursor = k.toCursor.advance c ∧
    Covers s next covered held (i + c.utf8Size) rest

theorem Covers.steps_inside (h : Covers s k covered held i (c :: rest))
    (houter : k.depth = 0 → k.mark c = .plain) (hclosing : k.mark c = .closing → k.depth ≠ 1)
    (hsplit : splitFrom k.toCursor held (c :: rest) =
      splitFrom (k.toCursor.advance c) (c :: held) rest) : Steps s k i c rest := by
  have hpending : (k.toCursor.advance c).pending (c :: held) = k.pending held ++ [c] := by
    by_cases hdepth : k.depth = 0
    · have hnext : (k.advance c).depth = 0 := by
        rw [depth_advance, houter hdepth]
        exact hdepth
      rw [pending_of_outer hnext, pending_of_outer hdepth, List.reverse_cons]
    · rw [pending_of_inside (depth_advance_ne_zero hdepth hclosing), pending_of_inside hdepth,
        List.reverse_cons, List.cons_append]
  refine ⟨_, covered, c :: held, step_of_inside houter hclosing, rfl, ?_, h.start, ?_, ?_⟩
  · rw [hpending, h.text]
    simp
  · rw [hpending, h.offset, ← List.append_assoc, width_concat]
  · rw [← h.tokens, hsplit]

theorem Covers.steps_opening (h : Covers s k covered held i ('(' :: rest)) (hquote : k.quote = none)
    (hdepth : k.depth = 0) : Steps s k i '(' rest := by
  have hstep := step_opening (s := s) (i := i) hquote
  rw [if_pos hdepth, h.flush hdepth, bind_ok] at hstep
  have hinside : (k.advance '(').depth ≠ 0 := by
    rw [advance_opening hquote]
    exact Nat.succ_ne_zero _
  refine ⟨_, covered ++ k.pending held, [], hstep, rfl, ?_, h.offset, ?_, ?_⟩
  · rw [pending_of_inside hinside, h.text]
    simp
  · rw [pending_of_inside hinside, h.offset]
    exact width_concat.symm
  · rw [← h.tokens, splitFrom_of_opening (mark_opening hquote) hdepth, List.append_assoc]

theorem Covers.steps_closing (h : Covers s k covered held i (')' :: rest)) (hquote : k.quote = none)
    (hdepth : k.depth = 1) : Steps s k i ')' rest := by
  have hinside : k.depth ≠ 0 := by omega
  have houter : (k.advance ')').depth = 0 := by
    rw [advance_closing hquote, hdepth]
  have hwidth : i + 1 = width (covered ++ (k.pending held ++ [')'])) := by
    rw [h.offset, ← List.append_assoc, width_concat]
    rfl
  have hcut : cut s k.start (i + 1) = .ok (String.ofList ('(' :: held.reverse ++ [')'])) := by
    rw [h.start, hwidth, ← pending_of_inside hinside]
    apply cut_eq (b := rest)
    rw [h.text]
    simp
  have hstep := step_closing (s := s) (i := i) hquote
  rw [if_neg hinside, if_pos hdepth, hcut, bind_ok, groupToken_eq, bind_ok] at hstep
  refine ⟨_, covered ++ (k.pending held ++ [')']), [], hstep, rfl, ?_, hwidth, ?_, ?_⟩
  · rw [pending_of_outer houter, h.text]
    simp
  · rw [pending_of_outer houter, List.reverse_nil, List.append_nil]
    exact hwidth
  · rw [← h.tokens, splitFrom_of_closing (mark_closing hquote) hdepth, List.append_assoc]
    rfl

theorem Covers.steps_symbol {l : Connective} (h : Covers s k covered held i (l.symbol :: rest))
    (hquote : k.quote = none) (hdepth : k.depth = 0) : Steps s k i l.symbol rest := by
  have houter : (k.advance l.symbol).depth = 0 := by
    rw [advance_symbol hquote, hdepth]
  have hsize : l.symbol.utf8Size = 1 := by
    cases l <;> rfl
  have hwidth : i + 1 = width (covered ++ k.pending held ++ [l.symbol]) := by
    rw [h.offset, width_concat, hsize]
  have hcut : cut s i (i + 1) = .ok (String.ofList [l.symbol]) := by
    rw [hwidth, h.offset]
    apply cut_eq (b := rest)
    rw [h.text]
    simp
  have hstep := step_symbol (s := s) (i := i) hquote l
  rw [if_pos hdepth, h.flush hdepth, bind_ok, hcut, bind_ok] at hstep
  refine ⟨_, covered ++ k.pending held ++ [l.symbol], [], hstep, rfl, ?_, hwidth, ?_, ?_⟩
  · rw [pending_of_outer houter, h.text]
    simp
  · rw [pending_of_outer houter, hsize, List.reverse_nil, List.append_nil]
    exact hwidth
  · rw [← h.tokens, splitFrom_of_link (mark_symbol hquote l) hdepth]
    simp

/-- On a text that is balanced from here on every step succeeds. -/
theorem Covers.steps (h : Covers s k covered held i (c :: rest))
    (hc : ¬(k.mark c = .closing ∧ k.depth = 0)) : Steps s k i c rest := by
  obtain ⟨hsplit, houter, hclosing⟩ | ⟨hmark, hdepth, -⟩ | ⟨hmark, hdepth, -⟩ |
    ⟨l, hmark, hdepth, -⟩ := splitFrom_cons_cases k.toCursor held c rest
  · refine h.steps_inside ?_ hclosing hsplit
    intro hdepth
    exact (houter hdepth).resolve_right fun hmark => hc ⟨hmark, hdepth⟩
  · obtain ⟨hquote, rfl⟩ := mark_eq_opening_iff.mp hmark
    exact h.steps_opening hquote hdepth
  · obtain ⟨hquote, rfl⟩ := mark_eq_closing_iff.mp hmark
    exact h.steps_closing hquote hdepth
  · obtain ⟨hquote, rfl⟩ := mark_eq_link_iff.mp hmark
    exact h.steps_symbol hquote hdepth

theorem Covers.run (h : Covers s k covered held i rest)
    (hbalanced : k.toCursor.imbalanceFrom rest = none) :
    ∃ last covered held, Slicer.run s k i rest = .ok last ∧
      last.toCursor = k.toCursor.after rest ∧ Covers s last covered held (width s.toList) [] := by
  induction rest generalizing k covered held i with
  | nil =>
      refine ⟨k, covered, held, rfl, rfl, ?_⟩
      have hoffset : i = width s.toList := by
        rw [h.offset, h.text, List.append_nil]
      rw [← hoffset]
      exact h
  | cons c rest ih =>
      obtain ⟨hc, hrest⟩ := imbalanceFrom_cons_eq_none_iff.mp hbalanced
      obtain ⟨next, covered, held, hstep, hcursor, hnext⟩ := h.steps hc
      obtain ⟨last, covered, held, hrun, hlast, hcovers⟩ := ih hnext (hcursor ▸ hrest)
      refine ⟨last, covered, held, ?_, ?_, hcovers⟩
      · rw [Slicer.run, hstep, bind_ok, hrun]
      · rw [hlast, hcursor, after_cons]

/-- A balanced text is scanned to its end on the outermost level, and gives the tokens of its
split. -/
theorem scan_of_balanced (h : imbalance s.toList = none) :
    ∃ k, scan s = .ok k ∧ k.toCursor.Outermost ∧ k.tokens = split s.toList := by
  obtain ⟨k, covered, held, hrun, hcursor, hcovers⟩ := (covers_start s).run h
  have houtermost : k.toCursor.Outermost := by
    rw [hcursor]
    exact outermost_after_of_balanced h
  have hsize : s.utf8ByteSize = width s.toList := by
    rw [width, String.ofList_toList]
  refine ⟨{ k with tokens := split s.toList }, ?_, houtermost, rfl⟩
  rw [scan, hrun, bind_ok, hsize, hcovers.flush houtermost.depth, bind_ok, ← hcovers.tokens]
  rfl

end

end Slicer

end RecordFilter.Expression

namespace RecordFilter.Filter

open Expression

variable {readInner : List Char → Except ReadError Filter} {l : Connective} {tokens : List Token}
  {fault : Imbalance}

theorem bind_eq_error_iff {α β : Type} {x : Except ReadError α} {f : α → Except ReadError β}
    {e : ReadError} : x >>= f = .error e ↔ x = .error e ∨ ∃ a, x = .ok a ∧ f a = .error e := by
  cases x <;> simp [bind, Except.bind]

/-- A level that is balanced is refused as malformed only for one of its groups. -/
theorem exists_group_of_readTokens_malformed
    (h : readTokens readInner l tokens = .error (.malformed fault)) :
    ∃ inner, .group inner ∈ tokens ∧ readInner inner = .error (.malformed fault) := by
  induction tokens generalizing l with
  | nil => cases h
  | cons token rest ih =>
      have hlater : ∀ {l}, readTokens readInner l rest = .error (.malformed fault) →
          ∃ inner, .group inner ∈ token :: rest ∧ readInner inner = .error (.malformed fault) := by
        intro l hrest
        obtain ⟨inner, hmem, hinner⟩ := ih hrest
        exact ⟨inner, List.mem_cons_of_mem _ hmem, hinner⟩
      cases token with
      | link next => exact hlater h
      | condition text =>
          simp only [readTokens, bind_eq_error_iff] at h
          rcases h with htext | ⟨c, -, hrest | ⟨clauses, -, ⟨⟩⟩⟩
          · exact absurd rfl (not_malformed_of_ofChars htext fault)
          · exact hlater hrest
      | group text =>
          simp only [readTokens, bind_eq_error_iff] at h
          rcases h with htext | ⟨f, -, hrest | ⟨clauses, -, ⟨⟩⟩⟩
          · exact ⟨text, List.mem_cons_self, htext⟩
          · exact hlater hrest

theorem readLevel_ne_malformed {fuel : Nat} {s : List Char} (hbalanced : imbalance s = none) :
    readLevel fuel s ≠ .error (.malformed fault) := by
  induction fuel generalizing s with
  | zero => exact nofun
  | succ fuel ih =>
      intro h
      rw [readLevel, splitBalanced, hbalanced] at h
      obtain ⟨inner, hmem, hinner⟩ := exists_group_of_readTokens_malformed h
      exact ih (imbalance_eq_none_of_group_mem_split hbalanced hmem) hinner

/-- A text that is found balanced is scanned without closing what is not open and without a slice
that is not there, ends on the outermost level, and gives groups that are balanced in their turn, so
that no group at any depth is refused as malformed. -/
theorem scan_in_range {s : String} (h : imbalance s.toList = none) :
    (∃ k, Slicer.scan s = .ok k ∧ k.depth = 0 ∧ k.quote = none ∧ k.tokens = split s.toList ∧
      ∀ inner, .group inner ∈ k.tokens → imbalance inner = none) ∧
    ∀ fuel fault, readLevel fuel s.toList ≠ .error (.malformed fault) := by
  obtain ⟨k, hscan, ⟨hquote, hdepth⟩, htokens⟩ := Slicer.scan_of_balanced h
  refine ⟨⟨k, hscan, hdepth, hquote, htokens, ?_⟩, fun fuel fault => readLevel_ne_malformed h⟩
  intro inner hmem
  exact imbalance_eq_none_of_group_mem_split h (htokens ▸ hmem)

theorem scan_in_range_nested :
    imbalance "ä = 'ß)' & (b ~ \"it's (\" | ((日 = d'é)))| e".toList = none ∧
    (∃ k, Slicer.scan "ä = 'ß)' & (b ~ \"it's (\" | ((日 = d'é)))| e" = .ok k ∧
      k.depth = 0 ∧ k.quote = none ∧
      k.tokens = [.condition "ä = 'ß)'".toList, .link .and,
        .group "b ~ \"it's (\" | ((日 = d'é))".toList, .link .or, .condition "e".toList] ∧
      ∀ inner, .group inner ∈ k.tokens → imbalance inner = none) ∧
    ∀ fuel fault, readLevel fuel "ä = 'ß)' & (b ~ \"it's (\" | ((日 = d'é)))| e".toList ≠
      .error (.malformed fault) := by
  have hbalanced : imbalance "ä = 'ß)' & (b ~ \"it's (\" | ((日 = d'é)))| e".toList = none := by
    decide +kernel
  have htokens : split "ä = 'ß)' & (b ~ \"it's (\" | ((日 = d'é)))| e".toList =
      [.condition "ä = 'ß)'".toList, .link .and,
        .group "b ~ \"it's (\" | ((日 = d'é))".toList, .link .or, .condition "e".toList] := by
    decide +kernel
  have hscan := scan_in_range hbalanced
  rw [htokens] at hscan
  exact ⟨hbalanced, hscan⟩

end RecordFilter.Filter
