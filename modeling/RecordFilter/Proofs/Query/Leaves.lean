import RecordFilter.Proofs.Query.Clauses
import RecordFilter.Proofs.Query.Refusals
import RecordFilter.Proofs.Scalar.Native

/-!
The tests of a query beside the conditions that they come from. There is one test for each condition,
in the order of the text, on the field that the condition names. Its values are of the kind declared
for that field, but for the literals that have no such value: these stay text, and each of them is
reported where it is met.
-/

namespace RecordFilter

open Outcome

/-- What a literal becomes in a field of the kind, and what is reported of it. -/
inductive Kind.Takes (kind : Kind) (field literal : String) : Scalar → List Notice → Prop where
  | converted {v : Scalar} (value : kind.convert? literal = some v) (ofKind : v.kind? = some kind) :
      Takes kind field literal v []
  | asText (noValue : kind.convert? literal = none) :
      Takes kind field literal (.text literal) [.comparedAsText field ⟨literal, kind⟩]

def Comparison.operator : Comparison → Operator
  | equal => .equal
  | notEqual => .notEqual
  | lessThan => .lessThan
  | lessThanOrEqual => .lessThanOrEqual
  | greaterThan => .greaterThan
  | greaterThanOrEqual => .greaterThanOrEqual

namespace Condition

/-- The test that a condition comes to on a field of the kind, and what is reported of its literals.
The bounds of a range are the trimmed texts on both sides of its first colon. -/
inductive Asks (c : Condition) (kind : Kind) : Query → List Notice → Prop where
  | isNull (null : c.operand = .null) (operator : c.operator = .equal) :
      Asks c kind (.isNull c.field) []
  | isNotNull (null : c.operand = .null) (operator : c.operator = .notEqual) :
      Asks c kind (.isNotNull c.field) []
  | contains {literal : String} (text : c.operand = .text literal) (operator : c.operator = .like) :
      Asks c kind (.contains c.field literal false) []
  | lacks {literal : String} (text : c.operand = .text literal) (operator : c.operator = .notLike) :
      Asks c kind (.contains c.field literal true) []
  | compare {literal : String} {comparison : Comparison} {v : Scalar} {notices : List Notice}
      (text : c.operand = .text literal) (operator : c.operator = comparison.operator)
      (value : kind.Takes c.field literal v notices) :
      Asks c kind (.compare c.field comparison v) notices
  | between {literal : String} {least greatest : List Char} {low high : Scalar}
      {first second : List Notice} (text : c.operand = .text literal)
      (operator : c.operator = .between) (split : literal.toList = least ++ ':' :: greatest)
      (colon : ':' ∉ least)
      (lower : kind.Takes c.field (String.ofList (Text.trim least)) low first)
      (upper : kind.Takes c.field (String.ofList (Text.trim greatest)) high second) :
      Asks c kind (.between c.field low high) (first ++ second)

/-- The test of a condition with what is reported of it. The condition is on a field of the schema,
and of several declarations of that field the last counts. -/
def Becomes (s : Schema) (c : Condition) (test : Query × List Notice) : Prop :=
  ∃ kind, ⟨c.field, kind⟩ ∈ s.fields ∧ s.catalog.kind? c.field = some kind ∧
    c.Asks kind test.1 test.2

end Condition

theorem Kind.kind?_of_convert? {kind : Kind} {literal : String} {v : Scalar}
    (h : kind.convert? literal = some v) : v.kind? = some kind := by
  cases kind with
  | text =>
      cases h
      rfl
  | _ =>
      obtain ⟨value, -, rfl⟩ := Option.map_eq_some_iff.mp h
      rfl

theorem Kind.exists_valueOf_eq (kind : Kind) (field literal : String) :
    ∃ v notices, kind.valueOf field literal = ⟨notices, .ok v⟩ ∧
      kind.Takes field literal v notices := by
  unfold Kind.valueOf Kind.convert
  cases h : kind.convert? literal with
  | none => exact ⟨_, _, rfl, .asText h⟩
  | some v => exact ⟨v, [], rfl, .converted h (kind?_of_convert? h)⟩

theorem Schema.mem_fields_of_kind? {s : Schema} {name : String} {kind : Kind}
    (h : s.catalog.kind? name = some kind) : ⟨name, kind⟩ ∈ s.fields := by
  rw [kind?_catalog, Option.map_eq_some_iff] at h
  obtain ⟨⟨found, kind⟩, hfound, rfl⟩ := h
  obtain rfl : found = name := by simpa using List.find?_some hfound
  exact List.mem_reverse.mp (List.mem_of_find?_eq_some hfound)

namespace Condition

variable {s : Schema} {c : Condition} {kind : Kind} {literal : String}

theorem exists_queryForNull_eq (hnull : c.operand = .null)
    (hoperator : c.operator = .equal ∨ c.operator = .notEqual) :
    ∃ q notices, queryForNull c.field c.operator = ⟨notices, .ok q⟩ ∧ c.Asks kind q notices := by
  rcases hoperator with hoperator | hoperator <;> rw [hoperator]
  · exact ⟨_, _, rfl, .isNull hnull hoperator⟩
  · exact ⟨_, _, rfl, .isNotNull hnull hoperator⟩

theorem exists_comparisonQuery_eq {comparison : Comparison} (htext : c.operand = .text literal)
    (hoperator : c.operator = comparison.operator) :
    ∃ q notices, comparisonQuery c.field kind comparison literal = ⟨notices, .ok q⟩ ∧
      c.Asks kind q notices := by
  obtain ⟨v, notices, hvalue, htakes⟩ := kind.exists_valueOf_eq c.field literal
  refine ⟨.compare c.field comparison v, notices, ?_, .compare htext hoperator htakes⟩
  rw [comparisonQuery, hvalue, bind_ok rfl]
  simp

theorem exists_rangeQuery_eq (htext : c.operand = .text literal) (hoperator : c.operator = .between)
    (hbounds : HasBounds literal.toList) :
    ∃ q notices, rangeQuery c.field kind literal = ⟨notices, .ok q⟩ ∧ c.Asks kind q notices := by
  obtain ⟨least, greatest, hsplit, hcolon, hleast, hgreatest⟩ := hbounds
  obtain ⟨low, first, hlow, htakesLow⟩ :=
    kind.exists_valueOf_eq c.field (String.ofList (Text.trim least))
  obtain ⟨high, second, hhigh, htakesHigh⟩ :=
    kind.exists_valueOf_eq c.field (String.ofList (Text.trim greatest))
  refine ⟨.between c.field low high, first ++ second, ?_,
    .between htext hoperator hsplit hcolon htakesLow htakesHigh⟩
  rw [rangeQuery, hsplit, rangeBounds?_append hcolon (Text.trim_ne_nil_iff.mpr hleast)
    (Text.trim_ne_nil_iff.mpr hgreatest)]
  simp only [hlow, hhigh]
  rw [bind_ok rfl, bind_ok rfl]
  simp

theorem exists_queryForText_eq (htext : c.operand = .text literal)
    (hrange : c.operator = .between → HasBounds literal.toList) :
    ∃ q notices, queryForText c.field kind literal c.operator = ⟨notices, .ok q⟩ ∧
      c.Asks kind q notices := by
  cases hoperator : c.operator with
  | like => exact ⟨_, _, rfl, .contains htext hoperator⟩
  | notLike => exact ⟨_, _, rfl, .lacks htext hoperator⟩
  | between => exact exists_rangeQuery_eq htext hoperator (hrange hoperator)
  | _ => exact exists_comparisonQuery_eq htext hoperator

/-- A condition that fits the schema becomes a test. -/
theorem exists_query_eq (h : c.Fits s) :
    ∃ test : Query × List Notice, c.query s.catalog = ⟨test.2, .ok test.1⟩ ∧ c.Becomes s test := by
  obtain ⟨kind, hkind⟩ := exists_kind?_iff.mpr h.declared
  have hasks : ∃ q notices, c.query s.catalog = ⟨notices, .ok q⟩ ∧ c.Asks kind q notices := by
    rw [query, hkind]
    cases hoperand : c.operand with
    | null => exact exists_queryForNull_eq hoperand (h.null hoperand)
    | text literal =>
        refine exists_queryForText_eq hoperand ?_
        intro hbetween
        obtain ⟨bounded, htext, hbounds⟩ := h.range hbetween
        cases hoperand.symm.trans htext
        exact hbounds
  obtain ⟨q, notices, hquery, hasks⟩ := hasks
  exact ⟨(q, notices), hquery, kind, Schema.mem_fields_of_kind? hkind, hkind, hasks⟩

/-- The test is the one that the condition is turned into, with what is reported on the way. -/
def Yields (catalog : Catalog) (c : Condition) (test : Query × List Notice) : Prop :=
  c.query catalog = ⟨test.2, .ok test.1⟩

theorem yields_of_query {catalog : Catalog} {q : Query}
    (h : (c.query catalog).result = .ok q) :
    c.Yields catalog (q, (c.query catalog).notices) := by
  rw [Yields, ← h]

theorem Yields.becomes {test : Query × List Notice} (h : c.Yields s.catalog test) :
    c.Becomes s test := by
  have hfits : c.Fits s := exists_query_iff_fits.mp ⟨test.1, congrArg result h⟩
  obtain ⟨other, hother, hbecomes⟩ := exists_query_eq hfits
  obtain ⟨hnotices, hresult⟩ := Outcome.mk.inj (h.symm.trans hother)
  rwa [Prod.ext (Except.ok.inj hresult) hnotices]

end Condition

namespace Query

open Condition (Yields)

/-- The tests of a query from left to right. -/
def leaves : Query → List Query
  | and left right => leaves left ++ leaves right
  | or left right => leaves left ++ leaves right
  | q => [q]

/-- The tests of the clauses so far. -/
def leavesSoFar (soFar : Option Query) : List Query :=
  soFar.elim [] leaves

variable {catalog : Catalog} {s : Schema} {f : Filter} {soFar found : Option Query} {l : Connective}
  {p q : Query}

theorem IsLeaf.leaves_eq (h : q.IsLeaf) : q.leaves = [q] := by
  cases q with
  | and left right => exact h.elim
  | or left right => exact h.elim
  | _ => rfl

/-- Nothing is absorbed as long as the left side does not ask for every record. -/
theorem leaves_join (hp : p ≠ all) : (p.join l q).leaves = p.leaves ++ q.leaves := by
  rw [join_eq_compound hp]
  cases l <;> rfl

theorem leaves_joinNext (hsoFar : ∀ p, soFar = some p → p ≠ all) :
    (joinNext soFar l q).leaves = leavesSoFar soFar ++ q.leaves := by
  cases soFar with
  | none => rfl
  | some p => exact leaves_join (hsoFar p rfl)

theorem leavesSoFar_joinGroup (hsoFar : ∀ p, soFar = some p → p ≠ all) :
    leavesSoFar (joinGroup soFar l found) = leavesSoFar soFar ++ leavesSoFar found := by
  cases found with
  | none => exact (List.append_nil _).symm
  | some q => exact leaves_joinNext hsoFar

theorem forall₂_yields_relink {cs : List Condition} {tests : List (Query × List Notice)}
    (h : List.Forall₂ (Yields catalog) cs tests) :
    List.Forall₂ (Yields catalog) (Filter.relink l cs) tests := by
  cases h with
  | nil => exact .nil
  | cons hfirst hrest => exact .cons hfirst hrest

/-- The clauses that follow add the tests of their conditions, in order, to those so far. -/
theorem exists_tests_of_ofClauses (hsoFar : ∀ p, soFar = some p → p ≠ all)
    (h : (ofClauses catalog soFar f).result = .ok found) :
    ∃ tests, List.Forall₂ (Yields catalog) f.conditions tests ∧
      leavesSoFar found = leavesSoFar soFar ++ tests.map (·.1) := by
  induction f using Filter.induction generalizing soFar found with
  | nil =>
      rw [ofClauses_nil] at h
      cases h
      rw [Filter.conditions_nil]
      exact ⟨[], .nil, (List.append_nil _).symm⟩
  | condition c rest ih =>
      rw [ofClauses_condition, result_bind_eq_ok_iff] at h
      obtain ⟨q, hq, hrest⟩ := h
      have hleaf := Condition.isLeaf_of_query hq
      have hnext : ∀ p, some (joinNext soFar c.link q) = some p → p ≠ all := by
        rintro p ⟨⟩
        exact joinNext_ne_all hsoFar hleaf.ne_all
      obtain ⟨tests, htests, hleaves⟩ := ih hnext hrest
      rw [Filter.conditions_condition]
      refine ⟨_, .cons (Condition.yields_of_query hq) htests, ?_⟩
      rw [hleaves, leavesSoFar, Option.elim_some, leaves_joinNext hsoFar, hleaf.leaves_eq]
      simp
  | group l inner rest ihInner ih =>
      rw [ofClauses_group, result_bind_eq_ok_iff] at h
      obtain ⟨foundInner, hinner, hrest⟩ := h
      obtain ⟨testsInner, htestsInner, hleavesInner⟩ := ihInner (by simp) hinner
      have hfound := ne_all_of_ofClauses (by simp) hinner
      obtain ⟨tests, htests, hleaves⟩ := ih (joinGroup_ne_all hsoFar hfound) hrest
      rw [Filter.conditions_group]
      refine ⟨testsInner ++ tests, List.rel_append (forall₂_yields_relink htestsInner) htests, ?_⟩
      rw [hleaves, leavesSoFar_joinGroup hsoFar, hleavesInner]
      simp [leavesSoFar]

variable {cs : List Condition} {tests : List (Query × List Notice)}

theorem exists_tests (h : ∀ c ∈ cs, c.Fits s) :
    ∃ tests, List.Forall₂ (Yields s.catalog) cs tests := by
  induction cs with
  | nil => exact ⟨[], .nil⟩
  | cons c cs ih =>
      rw [List.forall_mem_cons] at h
      obtain ⟨test, hquery, -⟩ := Condition.exists_query_eq h.1
      obtain ⟨tests, htests⟩ := ih h.2
      exact ⟨test :: tests, .cons hquery htests⟩

theorem flatMap_notices_eq (h : List.Forall₂ (Yields catalog) cs tests) :
    (cs.flatMap fun c => (c.query catalog).notices) = tests.flatMap (·.2) := by
  induction h with
  | nil => rfl
  | cons hquery _ ih => rw [List.flatMap_cons, List.flatMap_cons, ih, hquery]

theorem forall₂_becomes (h : List.Forall₂ (Yields s.catalog) cs tests) :
    List.Forall₂ (Condition.Becomes s) cs tests :=
  h.imp fun _ _ => Yields.becomes

/-- A query has the tests of the conditions and no others, in the order of the text. Its values are
of the declared kinds wherever the literals have such values, and what is logged are the literals
that stay text. Without a query, what is logged are those of the conditions before the first one that
is refused. -/
theorem leaves_of_ofFilter (settings : Settings) (s : Schema) (f : Filter) :
    (∀ q, f.conditions ≠ [] → (ofFilter settings s.catalog none f).result = .ok q →
      ∃ tests, List.Forall₂ (Condition.Becomes s) f.conditions tests ∧
        q.leaves = tests.map (·.1) ∧
        (ofFilter settings s.catalog none f).log = (tests.flatMap (·.2)).map Notice.line) ∧
    ∀ e, (ofFilter settings s.catalog none f).result = .error e →
      ∃ before c after tests, f.conditions = before ++ c :: after ∧ c.Offends s e ∧
        List.Forall₂ (Condition.Becomes s) before tests ∧
        (ofFilter settings s.catalog none f).log = (tests.flatMap (·.2)).map Notice.line := by
  have hfollows := follows_ofFilter settings s.catalog none f
  constructor
  · intro q hne hq
    have hnotices := hfollows.notices_of_forall (hfollows.exists_ok_iff.mp ⟨q, hq⟩)
    rw [result_ofFilter_none] at hq
    cases hfound : (ofClauses s.catalog none f).result with
    | error e =>
        rw [hfound] at hq
        cases hq
    | ok found =>
        rw [hfound] at hq
        cases hq
        obtain ⟨tests, htests, hleaves⟩ := exists_tests_of_ofClauses (by simp) hfound
        refine ⟨tests, forall₂_becomes htests, ?_, ?_⟩
        · obtain ⟨q, rfl⟩ : ∃ q, found = some q := by
            refine Option.ne_none_iff_exists'.mp fun hnone => hne ?_
            exact ((ofClauses_eq_none_iff hfound).mp hnone).2
          exact hleaves
        · rw [log, hnotices, flatMap_notices_eq htests]
  · intro e he
    obtain ⟨before, c, after, hsplit, hbefore, hc⟩ := hfollows.eq_error_iff.mp he
    have hfits : ∀ d ∈ before, d.Fits s := by
      intro d hd
      exact Condition.exists_query_iff_fits.mp (hbefore d hd)
    have hoffends := Condition.query_eq_error_iff_offends.mp hc
    obtain ⟨tests, htests⟩ := exists_tests hfits
    refine ⟨before, c, after, tests, hsplit, hoffends, forall₂_becomes htests, ?_⟩
    rw [hsplit] at hfollows
    rw [log, hfollows.notices_of_first hbefore hc, flatMap_notices_eq htests,
      Condition.query_of_offends hoffends]
    exact congrArg (List.map Notice.line) (List.append_nil _)

/-- A range with one bound that is no number, on a field declared twice, and groups without
conditions; then the same with a condition that is refused behind it. -/
theorem leaves_of_ofFilter_mixed :
    let s : Schema := ⟨"Session", [⟨"ip", .text⟩, ⟨"attempts", .text⟩, ⟨"attempts", .int32⟩]⟩
    let f : Filter :=
      [.group .or [], .condition ⟨"attempts", .between, .text " 1 : many", .or⟩,
        .group .and [.group .or [], .condition ⟨"ip", .notEqual, .null, .or⟩],
        .condition ⟨"attempts", .equal, .text " 7 ", .or⟩]
    let g : Filter := f ++ [.condition ⟨"password", .equal, .text "x", .and⟩]
    let lines := ["WARN: field attempts: cannot convert \"many\" to Int32; comparing as text"]
    (f.conditions ≠ [] ∧ ∃ q tests, (ofFilter {} s.catalog none f).result = .ok q ∧
      List.Forall₂ (Condition.Becomes s) f.conditions tests ∧ tests.map (·.1) =
        [between "attempts" (.int32 1) (.text "many"), isNotNull "ip",
          compare "attempts" .equal (.int32 7)] ∧
      (tests.flatMap (·.2)).map Notice.line = lines) ∧
    ∃ before c after tests, g.conditions = before ++ c :: after ∧
      c.Offends s (.unknownField "password" "Session") ∧
      List.Forall₂ (Condition.Becomes s) before tests ∧
      (tests.flatMap (·.2)).map Notice.line = lines := by
  intro s f g lines
  let q := or (and (between "attempts" (.int32 1) (.text "many")) (isNotNull "ip"))
    (compare "attempts" .equal (.int32 7))
  have hq : (ofFilter {} s.catalog none f).result = .ok q := by decide
  have hne : f.conditions ≠ [] := by decide
  have hlog : (ofFilter {} s.catalog none f).log = lines := by decide +kernel
  have he : (ofFilter {} s.catalog none g).result = .error (.unknownField "password" "Session") := by
    decide
  have hlog' : (ofFilter {} s.catalog none g).log = lines := by decide +kernel
  obtain ⟨tests, htests, hleaves, hlines⟩ := (leaves_of_ofFilter {} s f).1 q hne hq
  obtain ⟨before, c, after, tests', hsplit, hc, htests', hlines'⟩ :=
    (leaves_of_ofFilter {} s g).2 _ he
  refine ⟨⟨hne, q, tests, hq, htests, hleaves.symm, ?_⟩, before, c, after, tests', hsplit, hc,
    htests', ?_⟩
  · rw [← hlines, hlog]
  · rw [← hlines', hlog']

end Query

end RecordFilter
