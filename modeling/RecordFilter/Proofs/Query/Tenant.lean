import RecordFilter.Proofs.Query.Clauses
import RecordFilter.Proofs.Sql.Reading

/-!
Queries for one tenant: whatever a filter asks for, the statement of its query is a conjunction that
ends in the tenant of the record, so that no record of another tenant meets it.
-/

namespace RecordFilter

namespace Sql

mutual

/-- The truth value of a term whose leaves have the given truth values. -/
def Term.eval (truth : Leaf → Bool) : Term → Bool
  | .leaf .truth => true
  | .leaf l => truth l
  | .parenthesized d => d.eval truth

def Conjunction.eval (truth : Leaf → Bool) : Conjunction → Bool
  | .one t => t.eval truth
  | .and t rest => t.eval truth && rest.eval truth

def Disjunction.eval (truth : Leaf → Bool) : Disjunction → Bool
  | .one c => c.eval truth
  | .or c rest => c.eval truth || rest.eval truth

end

def Conjunction.last : Conjunction → Term
  | .one t => t
  | .and _ rest => rest.last

theorem Conjunction.eval_eq_false_of_last {truth : Leaf → Bool} :
    ∀ {c : Conjunction}, c.last.eval truth = false → c.eval truth = false
  | .one t, h => by
      rw [Conjunction.eval]
      exact h
  | .and t rest, h => by
      have hrest : rest.eval truth = false := Conjunction.eval_eq_false_of_last h
      rw [Conjunction.eval, hrest, Bool.and_false]

theorem Chain.last_append (d c : Chain) :
    (Chain.append c d).toConjunction.last = d.toConjunction.last := by
  cases c with
  | one f => rw [Chain.append, Chain.toConjunction, Conjunction.last]
  | and f rest =>
      rw [Chain.append, Chain.toConjunction, Conjunction.last, Chain.last_append d rest]

end Sql

namespace Query

open Sql

/-- The records of one tenant. -/
def ofTenant (settings : Settings) (t : String) : Query :=
  compare settings.tenantField .equal (.text t)

/-- The tenant of a record as the last test of a statement with `count` arguments. -/
def tenantLeaf (settings : Settings) (count : Nat) : Leaf :=
  .test (.ofField settings.tenantField) (.compare .equal count)

theorem restrictTo_some {settings : Settings} {t : String} (ht : t ≠ "") (q : Query) :
    restrictTo settings (some t) q = q.both (ofTenant settings t) := by
  rw [restrictTo.eq_3 _ _ _ ht, ofTenant]

theorem reading_both_ofTenant (settings : Settings) (t : String) (q : Query) :
    ((q.both (ofTenant settings t)).reading 0).toConjunction.last =
        .leaf (tenantLeaf settings (q.both (ofTenant settings t)).arguments.length) ∧
      (q.both (ofTenant settings t)).arguments.getLast? = some (.text t) := by
  by_cases hq : q = all
  · subst hq
    exact ⟨rfl, rfl⟩
  · rw [both_of_ne_all hq]
    constructor
    · rw [reading, Chain.last_append, arguments, List.length_append]
      simp [ofTenant, reading, testReading, Chain.toConjunction, Conjunction.last,
        Factor.toTerm, tenantLeaf, arguments]
    · rw [arguments, ofTenant, arguments, List.getLast?_concat]

theorem text_eq_toSql_iff {q : Query} {d : Disjunction} :
    d.text = q.toSql.text.toList ↔ d = .one (q.reading 0).toConjunction := by
  have htext : (Disjunction.one (q.reading 0).toConjunction).text = q.toSql.text.toList := by
    rw [Disjunction.text, Chain.text_toConjunction, text_toSql]
  constructor
  · intro h
    exact Disjunction.text_injective (h.trans htext.symm)
  · rintro rfl
    exact htext

/-- A tenant changes neither whether there is a query nor the error where there is none. It adds its
own test to the query, and the statement of the query is a conjunction that ends in this test and
fails with it, whatever the other tests say. -/
theorem ofFilter_some_tenant (settings : Settings) (catalog : Catalog) (f : Filter) (t : String)
    (ht : t ≠ "") :
    (∀ e, (ofFilter settings catalog (some t) f).result = .error e ↔
      (ofFilter settings catalog none f).result = .error e) ∧
    (∀ q, (ofFilter settings catalog none f).result = .ok q →
      (ofFilter settings catalog (some t) f).result =
        .ok (if f.conditions = [] then ofTenant settings t else and q (ofTenant settings t))) ∧
    ∀ q, (ofFilter settings catalog (some t) f).result = .ok q →
      ∃ c : Conjunction,
        (∀ d : Disjunction, d.text = q.toSql.text.toList ↔ d = .one c) ∧
        c.last = .leaf (tenantLeaf settings q.toSql.arguments.length) ∧
        q.toSql.arguments.getLast? = some (.text t) ∧
        ∀ truth : Leaf → Bool, truth (tenantLeaf settings q.toSql.arguments.length) = false →
          (Disjunction.one c).eval truth = false := by
  rw [result_ofFilter, result_ofFilter_none]
  cases hfound : (ofClauses catalog none f).result with
  | error e =>
      refine ⟨fun d => by simp [Except.map], ?_, ?_⟩
      · rintro q ⟨⟩
      · rintro q ⟨⟩
  | ok found =>
      refine ⟨fun d => by simp [Except.map], ?_, ?_⟩
      · rintro q ⟨⟩
        simp only [Except.map, restrictTo_some ht]
        by_cases hempty : f.conditions = []
        · rw [(ofClauses_eq_none_iff hfound).mpr ⟨rfl, hempty⟩, if_pos hempty]
          rfl
        · obtain ⟨q, rfl⟩ : ∃ q, found = some q := by
            refine Option.ne_none_iff_exists'.mp fun hnone => hempty ?_
            exact ((ofClauses_eq_none_iff hfound).mp hnone).2
          have hne := ne_all_of_ofClauses (by simp) hfound q rfl
          rw [if_neg hempty, Option.getD_some, both_of_ne_all hne]
      · rintro q ⟨⟩
        simp only [restrictTo_some ht, arguments_toSql]
        obtain ⟨hlast, harguments⟩ := reading_both_ofTenant settings t (found.getD all)
        refine ⟨_, fun d => text_eq_toSql_iff, hlast, harguments, ?_⟩
        intro truth htruth
        rw [Disjunction.eval]
        refine Conjunction.eval_eq_false_of_last ?_
        rw [hlast, tenantLeaf, Term.eval.eq_2]
        · exact htruth
        · exact nofun

theorem ofFilter_some_tenant_exposed :
    "acme" ≠ "" ∧ ∃ q,
      (ofFilter {} (Schema.mk "Session" [⟨"ip", .text⟩, ⟨"tenant_id", .text⟩]).catalog none
        [.condition ⟨"ip", .equal, .text "x", .or⟩,
          .condition ⟨"tenant_id", .equal, .text "other", .or⟩]).result = .ok q ∧
      (ofFilter {} (Schema.mk "Session" [⟨"ip", .text⟩, ⟨"tenant_id", .text⟩]).catalog
        (some "acme") [.condition ⟨"ip", .equal, .text "x", .or⟩,
          .condition ⟨"tenant_id", .equal, .text "other", .or⟩]).result =
        .ok (and q (ofTenant {} "acme")) := by
  refine ⟨by decide, or (compare "ip" .equal (.text "x"))
    (compare "tenant_id" .equal (.text "other")), rfl, ?_⟩
  exact (ofFilter_some_tenant {} _ _ "acme" (by decide)).2.1 _ rfl

end Query

end RecordFilter
