import RecordFilter.Proofs.Expression.Pieces
import RecordFilter.Proofs.Filter.Groups
import RecordFilter.Proofs.Query.Clauses
import RecordFilter.Record.Matching

/-!
Filters put together from texts. Between parentheses a text is read as it is read alone, whatever
quotations, parentheses and connectives it has, so that two texts in parentheses with a connective
between them are a filter that says of a record what this connective makes of both.
-/

namespace RecordFilter

open Expression

namespace Expression

open Cursor

variable {k : Cursor} {a b s t : List Char}

/-- Blanks that have been read before everything else that is held belong to no token. -/
theorem splitFrom_held_blank (hk : k.depth = 0) (ha : ∀ c ∈ a, Text.isBlank c = true)
    (held : List Char) : splitFrom k (held ++ a) s = splitFrom k held s := by
  have hheld : ∀ held, conditionToken (held ++ a).reverse = conditionToken held.reverse := by
    intro held
    rw [List.reverse_append]
    exact conditionToken_blank_append (by simpa using ha)
  induction s generalizing k held with
  | nil => exact hheld held
  | cons c s ih =>
      cases hmark : k.mark c with
      | opening => rw [splitFrom_of_opening hmark hk, splitFrom_of_opening hmark hk, hheld]
      | link l => rw [splitFrom_of_link hmark hk, splitFrom_of_link hmark hk, hheld]
      | _ =>
          have hnext : (k.advance c).depth = 0 := by rw [depth_advance, hmark, hk]
          simp only [splitFrom, hmark, hk]
          exact ih hnext (c :: held)

theorem splitFrom_append_blank (hbalanced : k.imbalanceFrom s = none)
    (hb : ∀ c ∈ b, Text.isBlank c = true) (held : List Char) :
    splitFrom k held (s ++ b) = splitFrom k held s := by
  induction s generalizing k held with
  | nil =>
      have hk := imbalanceAtEnd_eq_none_iff.mp hbalanced
      have hpasses := passes_of_not_delimiter hk.quote (not_delimiter_of_forall_blank hb)
      have hsplit : splitFrom k held (b ++ []) = splitFrom (k.after b) (b.reverse ++ held) [] :=
        splitFrom_append_of_plain hpasses.plain
      rw [List.nil_append, ← List.append_nil b, hsplit, splitFrom, splitFrom, List.reverse_append,
        List.reverse_reverse]
      exact conditionToken_append_blank hb
  | cons c s ih =>
      have hnext := ih (imbalanceFrom_cons_eq_none_iff.mp hbalanced).2
      simp only [List.cons_append, splitFrom, hnext]

/-- The place behind blanks is like the beginning of a text. -/
theorem after_blank (ha : ∀ c ∈ a, Text.isBlank c = true) :
    (after {} a).quote = quote {} ∧ (after {} a).depth = depth {} ∧
      opensQuotation (after {} a).last = opensQuotation (last {}) := by
  have hplace := (passes_of_not_delimiter rfl
    (not_delimiter_of_forall_blank ha)).outermost_after outermost_start
  refine ⟨hplace.quote, hplace.depth, ?_⟩
  by_cases hnil : a = []
  · rw [hnil]
    rfl
  · rw [← List.nil_append a]
    exact opensQuotation_after hnil fun c hc => opensQuotation_of_isBlank (ha c hc)

theorem plain_blank (ha : ∀ c ∈ a, Text.isBlank c = true) : Plain {} a :=
  (passes_of_not_delimiter rfl (not_delimiter_of_forall_blank ha)).plain

theorem imbalance_padded (ha : ∀ c ∈ a, Text.isBlank c = true)
    (hb : ∀ c ∈ b, Text.isBlank c = true) (h : imbalance s = none) :
    imbalance (a ++ (s ++ b)) = none := by
  obtain ⟨hquote, hdepth, hlast⟩ := after_blank ha
  have hbehind : Balanced b := balanced_of_passes fun k hk =>
    passes_of_not_delimiter hk.quote (not_delimiter_of_forall_blank hb)
  rw [imbalance, (plain_blank ha).imbalanceFrom_append, imbalanceFrom_congr hquote hdepth hlast,
    imbalanceFrom_append h]
  exact hbehind _ (outermost_after_of_balanced h)

/-- Blanks around a text do not change its tokens. -/
theorem split_padded (ha : ∀ c ∈ a, Text.isBlank c = true)
    (hb : ∀ c ∈ b, Text.isBlank c = true) (h : imbalance s = none) :
    split (a ++ (s ++ b)) = split s := by
  obtain ⟨hquote, hdepth, hlast⟩ := after_blank ha
  have hreverse : ∀ c ∈ a.reverse, Text.isBlank c = true := by simpa using ha
  rw [split, splitFrom_append_of_plain (plain_blank ha), List.append_nil,
    ← List.nil_append a.reverse, splitFrom_held_blank hdepth hreverse,
    splitFrom_congr hquote hdepth hlast, splitFrom_append_blank h hb, split]

end Expression

namespace Filter

variable {s t : String} {f g : Filter} {l : Connective}

theorem readTokens_congr {readInner readInner' : List Char → Except ReadError Filter}
    {tokens : List Token} {link : Connective}
    (h : ∀ text, .group text ∈ tokens → readInner text = readInner' text) :
    readTokens readInner link tokens = readTokens readInner' link tokens := by
  induction tokens generalizing link with
  | nil => rfl
  | cons token rest ih =>
      have hrest : ∀ {link}, readTokens readInner link rest = readTokens readInner' link rest :=
        ih fun text htext => h text (List.mem_cons_of_mem _ htext)
      cases token with
      | link next => exact hrest
      | condition text => rw [readTokens, readTokens, hrest]
      | group text => rw [readTokens, readTokens, h text List.mem_cons_self, hrest]

/-- Any fuel is enough that covers the length of the text. -/
theorem readLevel_congr {text : List Char} {m n : Nat} (hm : text.length ≤ m)
    (hn : text.length ≤ n) : readLevel m text = readLevel n text := by
  induction m generalizing text n with
  | zero =>
      obtain rfl := List.length_eq_zero_iff.mp (Nat.le_zero.mp hm)
      cases n <;> rfl
  | succ m ih =>
      cases n with
      | zero =>
          obtain rfl := List.length_eq_zero_iff.mp (Nat.le_zero.mp hn)
          rfl
      | succ n =>
          rw [readLevel, readLevel, splitBalanced]
          cases imbalance text with
          | some fault => rfl
          | none =>
              refine readTokens_congr ?_
              intro inner hinner
              have hlength := length_lt_of_group_mem_split hinner
              exact ih (by omega) (by omega)

/-- A text without a word before it is read between parentheses as it is alone. -/
theorem readLevel_of_ofText (h : ofText s = .ok f)
    (hlead : filterBody s.toList = Text.trim s.toList) {n : Nat} (hn : s.toList.length ≤ n) :
    imbalance s.toList = none ∧ readLevel n s.toList = .ok f := by
  obtain ⟨a, b, hs, ha, hb⟩ := Text.exists_eq_append_trim_append s.toList
  have hlength : (Text.trim s.toList).length ≤ s.toList.length := by
    have := congrArg List.length hs
    simp only [List.length_append] at this
    omega
  rw [ofText_eq_ok_iff, ofChars, hlead, readLevel_congr le_rfl (Nat.le_succ _),
    readLevel_succ_eq_ok_iff] at h
  obtain ⟨hbalanced, htokens⟩ := h
  have himbalance : imbalance s.toList = none := by
    rw [hs]
    exact imbalance_padded ha hb hbalanced
  have hsplit : split s.toList = split (Text.trim s.toList) :=
    (congrArg split hs).trans (split_padded ha hb hbalanced)
  refine ⟨himbalance, ?_⟩
  rw [readLevel_congr hn (Nat.le_succ s.toList.length), readLevel_succ_eq_ok_iff, hsplit]
  refine ⟨himbalance, htokens ▸ readTokens_congr ?_⟩
  intro inner hinner
  have hinner := length_lt_of_group_mem_split hinner
  exact readLevel_congr (by omega) (by omega)

/-- Two texts, each in parentheses, with a connective between them. -/
def joined : Connective → String → String → String
  | .and, s, t => "(" ++ s ++ ") & (" ++ t ++ ")"
  | .or, s, t => "(" ++ s ++ ") | (" ++ t ++ ")"

theorem toList_joined (l : Connective) (s t : String) :
    (joined l s t).toList =
      '(' :: (s.toList ++ ')' :: ' ' :: l.symbol :: ' ' :: '(' :: (t.toList ++ [')'])) := by
  cases l <;> simp [joined, Connective.symbol]

theorem filterBody_joined (l : Connective) (s t : String) :
    filterBody (joined l s t).toList = (joined l s t).toList := by
  have hframed : Text.Framed (joined l s t).toList := by
    rw [toList_joined]
    refine ⟨⟨'(', _, rfl, rfl⟩, ⟨'(' :: (s.toList ++ ')' :: ' ' :: l.symbol :: ' ' :: '(' ::
      t.toList), ')', by simp, rfl⟩⟩
  have hopening :
      Text.sameLetters ((joined l s t).toList.take leadWord.length) leadWord = false := by
    rw [toList_joined]
    rfl
  rw [filterBody, hframed.trim_eq, hopening]
  rfl

theorem imbalance_joined (l : Connective) (hs : imbalance s.toList = none)
    (ht : imbalance t.toList = none) : imbalance (joined l s t).toList = none := by
  have hgap : Balanced [' '] := balanced_of_passes fun k hk =>
    Cursor.passes_of_not_delimiter hk.quote (by simp; rfl)
  have hbalanced := (balanced_parenthesised hs).append
    (hgap.append ((balanced_symbol l).append (hgap.append (balanced_parenthesised ht))))
  rw [toList_joined]
  simpa using hbalanced.imbalance_eq_none

theorem split_joined (l : Connective) (hs : imbalance s.toList = none)
    (ht : imbalance t.toList = none) :
    split (joined l s t).toList = [.group s.toList, .link l, .group t.toList] := by
  have hblank : isDelimiter ' ' = false := rfl
  have hbehind : ∀ c, Cursor.advance ⟨none, c, 0⟩ ' ' = ⟨none, some ' ', 0⟩ := fun c =>
    Cursor.advance_of_not_delimiter rfl hblank
  have hgap : ∀ c s, splitFrom ⟨none, c, 0⟩ [] (' ' :: s) = splitFrom ⟨none, some ' ', 0⟩ [' '] s :=
    fun c s => by rw [splitFrom_of_plain (Cursor.mark_of_not_delimiter hblank), hbehind]
  rw [toList_joined, split, splitFrom_group Cursor.outermost_start hs, hgap,
    splitFrom_symbol Cursor.outermost_mk, hgap, splitFrom_group Cursor.outermost_mk ht]
  rfl

theorem readTokens_groups {readInner : List Char → Except ReadError Filter} {a b : List Char}
    (hf : readInner a = .ok f) (hg : readInner b = .ok g) (hfne : f ≠ []) (hgne : g ≠ []) :
    readTokens readInner .or [.group a, .link l, .group b] =
      .ok [.group .or f, .group l g] := by
  have hsecond : readTokens readInner .or [.link l, .group b] = .ok [.group l g] :=
    readTokens_group_eq_ok_iff.mpr ⟨g, [], hg, rfl, if_neg (by simpa using hgne)⟩
  exact readTokens_group_eq_ok_iff.mpr
    ⟨f, [.group l g], hf, hsecond, if_neg (by simpa using hfne)⟩

theorem ofText_joined (l : Connective) (hf : ofText s = .ok f) (hg : ofText t = .ok g)
    (hfne : f ≠ []) (hgne : g ≠ []) (hs : filterBody s.toList = Text.trim s.toList)
    (ht : filterBody t.toList = Text.trim t.toList) :
    ofText (joined l s t) = .ok [.group .or f, .group l g] := by
  have hlength : s.toList.length ≤ (joined l s t).toList.length ∧
      t.toList.length ≤ (joined l s t).toList.length := by
    rw [toList_joined]
    simp only [List.length_cons, List.length_append]
    omega
  obtain ⟨hsbalanced, hsread⟩ := readLevel_of_ofText hf hs hlength.1
  obtain ⟨htbalanced, htread⟩ := readLevel_of_ofText hg ht hlength.2
  rw [ofText_eq_ok_iff, ofChars, filterBody_joined, readLevel_congr le_rfl (Nat.le_succ _),
    readLevel_succ_eq_ok_iff, split_joined l hsbalanced htbalanced]
  exact ⟨imbalance_joined l hsbalanced htbalanced, readTokens_groups hsread htread hfne hgne⟩

theorem result_holdsOn_groups {r : Record} {p q : Bool} (hf : (f.holdsOn r).result = .ok p)
    (hg : (g.holdsOn r).result = .ok q) :
    (holdsOn [.group .or f, .group l g] r).result = .ok (l.eval p q) := by
  rw [holdsOn, holdsFrom_group, Outcome.result_bind_eq_ok_iff]
  refine ⟨p, hf, ?_⟩
  rw [holdsFrom_group, Outcome.result_bind_eq_ok_iff]
  exact ⟨q, hg, rfl⟩

end Filter

namespace Query

variable {settings : Settings} {catalog : Catalog} {f g : Filter} {l : Connective} {p q : Query}

theorem ofClauses_of_ofFilter (h : (ofFilter settings catalog none f).result = .ok q)
    (hf : f.conditions ≠ []) : (ofClauses catalog none f).result = .ok (some q) ∧ q ≠ all := by
  rw [result_ofFilter_none] at h
  cases hfound : (ofClauses catalog none f).result with
  | error e =>
      rw [hfound] at h
      cases h
  | ok found =>
      rw [hfound] at h
      cases found with
      | none => exact absurd ((ofClauses_eq_none_iff hfound).mp rfl).2 hf
      | some found =>
          cases h
          exact ⟨rfl, ne_all_of_ofClauses (by simp) hfound found rfl⟩

theorem result_ofFilter_groups (hf : f.conditions ≠ []) (hg : g.conditions ≠ [])
    (hp : (ofFilter settings catalog none f).result = .ok p)
    (hq : (ofFilter settings catalog none g).result = .ok q) :
    (ofFilter settings catalog none [.group .or f, .group l g]).result =
      .ok (compound l p q) := by
  obtain ⟨hp, hpall⟩ := ofClauses_of_ofFilter hp hf
  obtain ⟨hq, -⟩ := ofClauses_of_ofFilter hq hg
  have hclauses : (ofClauses catalog none [.group .or f, .group l g]).result =
      .ok (some (compound l p q)) := by
    rw [ofClauses_group, Outcome.result_bind_eq_ok_iff]
    refine ⟨some p, hp, ?_⟩
    rw [ofClauses_group, Outcome.result_bind_eq_ok_iff]
    refine ⟨some q, hq, ?_⟩
    rw [ofClauses_nil, ← join_eq_compound hpall]
    rfl
  rw [result_ofFilter_none, hclauses]
  rfl

end Query

namespace Filter

/-- Two texts that are filters are, each in parentheses and with a connective between them, the
filter of both: neither text says how the other is read. Joined by `&`, a record matches the two
where it matches each of them, and a store is asked for both; joined by `|`, it is one of them. -/
theorem joined_composes {s t : String} {f g : Filter} (hf : ofText s = .ok f)
    (hg : ofText t = .ok g) (hfsize : 0 < size f) (hgsize : 0 < size g)
    (hs : filterBody s.toList = Text.trim s.toList)
    (ht : filterBody t.toList = Text.trim t.toList) :
    (ofText ("(" ++ s ++ ") & (" ++ t ++ ")") = .ok [.group .or f, .group .and g] ∧
      (∀ (r : Record) (p q : Bool), (f.holdsOn r).result = .ok p → (g.holdsOn r).result = .ok q →
        (holdsOn [.group .or f, .group .and g] r).result = .ok (p && q)) ∧
      ∀ (settings : Settings) (catalog : Catalog) (p q : Query),
        (Query.ofFilter settings catalog none f).result = .ok p →
        (Query.ofFilter settings catalog none g).result = .ok q →
        (Query.ofFilter settings catalog none [.group .or f, .group .and g]).result =
          .ok (.and p q)) ∧
    ofText ("(" ++ s ++ ") | (" ++ t ++ ")") = .ok [.group .or f, .group .or g] ∧
      (∀ (r : Record) (p q : Bool), (f.holdsOn r).result = .ok p → (g.holdsOn r).result = .ok q →
        (holdsOn [.group .or f, .group .or g] r).result = .ok (p || q)) ∧
      ∀ (settings : Settings) (catalog : Catalog) (p q : Query),
        (Query.ofFilter settings catalog none f).result = .ok p →
        (Query.ofFilter settings catalog none g).result = .ok q →
        (Query.ofFilter settings catalog none [.group .or f, .group .or g]).result =
          .ok (.or p q) := by
  have hne : ∀ {f : Filter}, 0 < size f → f ≠ [] := by
    rintro f hsize rfl
    exact absurd hsize (Nat.lt_irrefl 0)
  have hfconditions := conditions_ne_nil (noEmptyGroup_of_ofText hf) (hne hfsize)
  have hgconditions := conditions_ne_nil (noEmptyGroup_of_ofText hg) (hne hgsize)
  have htext (l : Connective) : ofText (joined l s t) = .ok [.group .or f, .group l g] :=
    ofText_joined l hf hg (hne hfsize) (hne hgsize) hs ht
  refine ⟨⟨htext .and, ?_, ?_⟩, htext .or, ?_, ?_⟩
  · intro r p q hp hq
    exact result_holdsOn_groups hp hq
  · intro settings catalog p q hp hq
    exact Query.result_ofFilter_groups hfconditions hgconditions hp hq
  · intro r p q hp hq
    exact result_holdsOn_groups hp hq
  · intro settings catalog p q hp hq
    exact Query.result_ofFilter_groups hfconditions hgconditions hp hq

/-- A record that matches the first text and not the second one. -/
theorem joined_composes_quoted :
    let s := " a = ')' & b = x'y |"
    let t := "& (a ~ \"(\" | b = null)"
    let f : Filter := [.condition ⟨"a", .equal, .text ")", .or⟩,
      .condition ⟨"b", .equal, .text "x'y", .and⟩]
    let g : Filter := [.group .and [.condition ⟨"a", .like, .text "(", .or⟩,
      .condition ⟨"b", .equal, .null, .or⟩]]
    let r := Record.ofList [("a", .text ")"), ("b", .text "x'y")]
    let catalog := (Schema.mk "Session" [⟨"a", .text⟩, ⟨"b", .text⟩]).catalog
    let p : Query := .and (.compare "a" .equal (.text ")")) (.compare "b" .equal (.text "x'y"))
    let q : Query := .or (.contains "a" "(" false) (.isNull "b")
    (ofText ("(" ++ s ++ ") & (" ++ t ++ ")") = .ok [.group .or f, .group .and g] ∧
      (holdsOn [.group .or f, .group .and g] r).result = .ok false ∧
      (Query.ofFilter {} catalog none [.group .or f, .group .and g]).result = .ok (.and p q)) ∧
    ofText ("(" ++ s ++ ") | (" ++ t ++ ")") = .ok [.group .or f, .group .or g] ∧
      (holdsOn [.group .or f, .group .or g] r).result = .ok true ∧
      (Query.ofFilter {} catalog none [.group .or f, .group .or g]).result = .ok (.or p q) := by
  intro s t f g r catalog p q
  have hs : ofText " a = ')' & b = x'y |" = .ok f := rfl
  have ht : ofText "& (a ~ \"(\" | b = null)" = .ok g := rfl
  obtain ⟨⟨hboth, hbothHold, hbothAsked⟩, heither, heitherHolds, heitherAsked⟩ :=
    joined_composes hs ht (by decide) (by decide) rfl rfl
  exact ⟨⟨hboth, hbothHold r true false rfl rfl, hbothAsked {} catalog p q rfl rfl⟩,
    heither, heitherHolds r true false rfl rfl, heitherAsked {} catalog p q rfl rfl⟩

end Filter

end RecordFilter
