import RecordFilter.Proofs.Sql.Grammar

/-!
Statements read back. The text of a query is a chain of terms joined by `AND`, in which `OR` stands
inside parentheses between two chains; it has one reading, and with the arguments in the place of
their placeholders this reading is the query, up to the grouping of its conjunctions.
-/

namespace RecordFilter

namespace Sql

mutual

/-- Terms joined by `AND`. -/
inductive Chain where
  | one (f : Factor)
  | and (f : Factor) (rest : Chain)

/-- A leaf, or two chains in parentheses with `OR` between them. -/
inductive Factor where
  | leaf (l : Leaf)
  | either (left right : Chain)

end

mutual

def Chain.text : Chain → List Char
  | .one f => f.text
  | .and f rest => f.text ++ (andText ++ rest.text)

def Factor.text : Factor → List Char
  | .leaf l => l.text
  | .either left right => '(' :: (left.text ++ (orText ++ right.text)) ++ [')']

end

mutual

def Chain.toConjunction : Chain → Conjunction
  | .one f => .one f.toTerm
  | .and f rest => .and f.toTerm rest.toConjunction

def Factor.toTerm : Factor → Term
  | .leaf l => .leaf l
  | .either left right => .parenthesized (.or left.toConjunction (.one right.toConjunction))

end

mutual

theorem Chain.text_toConjunction : ∀ c : Chain, c.toConjunction.text = c.text
  | .one f => by
      rw [Chain.toConjunction, Conjunction.text, Chain.text, f.text_toTerm]
  | .and f rest => by
      rw [Chain.toConjunction, Conjunction.text, Chain.text, f.text_toTerm,
        rest.text_toConjunction]

theorem Factor.text_toTerm : ∀ f : Factor, f.toTerm.text = f.text
  | .leaf l => rfl
  | .either left right => by
      rw [Factor.toTerm, Term.text, Disjunction.text, Disjunction.text, Factor.text,
        left.text_toConjunction, right.text_toConjunction]

end

mutual

theorem Chain.toConjunction_inj : ∀ {c d : Chain}, c.toConjunction = d.toConjunction → c = d
  | .one f, .one g, h => by
      rw [Factor.toTerm_inj (Conjunction.one.inj h)]
  | .and f rest, .and g rest', h => by
      obtain ⟨hterm, hrest⟩ := Conjunction.and.inj h
      rw [Factor.toTerm_inj hterm, Chain.toConjunction_inj hrest]
  | .one _, .and _ _, h => nomatch h
  | .and _ _, .one _, h => nomatch h

theorem Factor.toTerm_inj : ∀ {f g : Factor}, f.toTerm = g.toTerm → f = g
  | .leaf l, .leaf m, h => by
      rw [Term.leaf.inj h]
  | .either left right, .either left' right', h => by
      obtain ⟨hleft, hright⟩ := Disjunction.or.inj (Term.parenthesized.inj h)
      rw [Chain.toConjunction_inj hleft, Chain.toConjunction_inj (Disjunction.one.inj hright)]
  | .leaf _, .either _ _, h => nomatch h
  | .either _ _, .leaf _, h => nomatch h

end

theorem Chain.text_injective {c d : Chain} (h : c.text = d.text) : c = d := by
  rw [← c.text_toConjunction, ← d.text_toConjunction] at h
  have hone : Disjunction.one c.toConjunction = .one d.toConjunction := Disjunction.text_injective h
  exact Chain.toConjunction_inj (Disjunction.one.inj hone)

def Chain.append : Chain → Chain → Chain
  | .one f, d => .and f d
  | .and f rest, d => .and f (rest.append d)

theorem Chain.text_append :
    ∀ c d : Chain, (c.append d).text = c.text ++ (andText ++ d.text)
  | .one f, d => by
      rw [Chain.append, Chain.text, Chain.text]
  | .and f rest, d => by
      rw [Chain.append, Chain.text, Chain.text, rest.text_append d]
      simp only [List.append_assoc]

namespace Name

/-- The name of a field, split at its points. -/
def ofField (field : String) : Name :=
  match field.toList.splitOn '.' with
  | [] => ⟨[], []⟩
  | part :: parts => ⟨part, parts⟩

def unquoted (n : Name) : String :=
  String.ofList (['.'].intercalate (n.first :: n.others))

theorem splitOn_eq (field : String) :
    field.toList.splitOn '.' = (ofField field).first :: (ofField field).others := by
  rw [ofField]
  cases h : field.toList.splitOn '.' with
  | nil => exact absurd h (List.splitOn_ne_nil _ _)
  | cons part parts => rfl

theorem intercalate_quotedPart (part : List Char) (parts : List (List Char)) :
    ['.'].intercalate ((part :: parts).map quotedPart) = quotedPart part ++ othersText parts := by
  induction parts generalizing part with
  | nil => simp [othersText]
  | cons next parts ih =>
      rw [List.map_cons, List.map_cons, List.intercalate_cons_cons, ← List.map_cons, ih next,
        othersText_cons]
      simp

theorem text_ofField (field : String) : (ofField field).text = (identifier field).toList := by
  rw [identifier, String.toList_ofList, splitOn_eq, intercalate_quotedPart, text]

theorem unquoted_ofField (field : String) : (ofField field).unquoted = field := by
  rw [unquoted, ← splitOn_eq, List.intercalate_splitOn, String.ofList_toList]

end Name

/-- Takes the escapes off a pattern that has no wildcards. -/
def unescape? : List Char → Option (List Char)
  | [] => some []
  | '\\' :: c :: s => (unescape? s).map (c :: ·)
  | c :: s => if c = '\\' ∨ c = '%' ∨ c = '_' then none else (unescape? s).map (c :: ·)

/-- The text that a pattern looks for, if it is a pattern of containment. -/
def searchedText? (pattern : String) : Option String :=
  match pattern.toList with
  | '%' :: s => if s.getLast? = some '%' then (unescape? s.dropLast).map String.ofList else none
  | _ => none

theorem unescape?_escapePattern (s : List Char) : unescape? (escapePattern s) = some s := by
  induction s with
  | nil => rfl
  | cons c s ih =>
      by_cases hc : c = '\\' ∨ c = '%' ∨ c = '_'
      · rw [escapePattern_cons, if_pos hc, List.cons_append, List.singleton_append, unescape?, ih,
          Option.map_some]
      · have hslash : c ≠ '\\' := fun h => hc (.inl h)
        rw [escapePattern_cons, if_neg hc, List.singleton_append,
          unescape?.eq_3 _ _ fun _ _ h _ => hslash h, if_neg hc, ih, Option.map_some]

theorem searchedText?_containsPattern (s : String) :
    searchedText? (containsPattern s) = some s := by
  rw [searchedText?, containsPattern, String.toList_ofList]
  simp [unescape?_escapePattern]

/-- The argument of a placeholder; the first one has the number 1. -/
def argument? (arguments : List Scalar) : Nat → Option Scalar
  | 0 => none
  | n + 1 => arguments[n]?

/-- A test as a query, with the arguments in the place of their placeholders. -/
def Test.resolve? (arguments : List Scalar) (field : String) : Test → Option Query
  | compare comparison n => (argument? arguments n).map (.compare field comparison)
  | like negated n =>
      match argument? arguments n with
      | some (.text pattern) => (searchedText? pattern).map (.contains field · negated)
      | _ => none
  | between n m => do
      return .between field (← argument? arguments n) (← argument? arguments m)
  | isNull => some (.isNull field)
  | isNotNull => some (.isNotNull field)

def Leaf.resolve? (arguments : List Scalar) : Leaf → Option Query
  | truth => some .all
  | test name t => t.resolve? arguments name.unquoted

mutual

def Chain.resolve? (arguments : List Scalar) : Chain → Option Query
  | .one f => f.resolve? arguments
  | .and f rest => do
      return .and (← f.resolve? arguments) (← rest.resolve? arguments)

def Factor.resolve? (arguments : List Scalar) : Factor → Option Query
  | .leaf l => l.resolve? arguments
  | .either left right => do
      return .or (← left.resolve? arguments) (← right.resolve? arguments)

end

end Sql

namespace Query

open Sql

/-- The same query up to the grouping of conjunctions. -/
inductive SameUpToAnd : Query → Query → Prop where
  | refl (p : Query) : SameUpToAnd p p
  | symm {p q : Query} : SameUpToAnd p q → SameUpToAnd q p
  | trans {p q r : Query} : SameUpToAnd p q → SameUpToAnd q r → SameUpToAnd p r
  | assoc (p q r : Query) : SameUpToAnd (and (and p q) r) (and p (and q r))
  | and {p p' q q' : Query} : SameUpToAnd p p' → SameUpToAnd q q' →
      SameUpToAnd (and p q) (and p' q')
  | or {p p' q q' : Query} : SameUpToAnd p p' → SameUpToAnd q q' →
      SameUpToAnd (or p q) (or p' q')

/-- The values of a query from left to right, those searched for as patterns. -/
def arguments : Query → List Scalar
  | all => []
  | compare _ _ value => [value]
  | contains _ value _ => [.text (containsPattern value)]
  | between _ least greatest => [least, greatest]
  | isNull _ => []
  | isNotNull _ => []
  | and left right => arguments left ++ arguments right
  | or left right => arguments left ++ arguments right

def testReading (field : String) (t : Test) : Chain :=
  .one (.leaf (.test (.ofField field) t))

/-- How the text of a query reads where `before` arguments stand before it. -/
def reading (before : Nat) : Query → Chain
  | all => .one (.leaf .truth)
  | compare field comparison _ => testReading field (.compare comparison (before + 1))
  | contains field _ negated => testReading field (.like negated (before + 1))
  | between field _ _ => testReading field (.between (before + 1) (before + 2))
  | isNull field => testReading field .isNull
  | isNotNull field => testReading field .isNotNull
  | and left right =>
      (left.reading before).append (right.reading (before + left.arguments.length))
  | or left right =>
      .one (.either (left.reading before) (right.reading (before + left.arguments.length)))

theorem ofList_andText : String.ofList andText = " AND " :=
  String.ofList_toList

theorem ofList_orText : String.ofList orText = " OR " :=
  String.ofList_toList

theorem ofList_argumentText (n : Nat) : String.ofList (argumentText n) = placeholder n := by
  rw [argumentText_eq, placeholder, ← String.toList_inj]
  simp

theorem text_compare (comparison : Comparison) :
    (Keyword.compare comparison).text = " " ++ comparisonSymbol comparison ++ " " := by
  cases comparison <;> rfl

theorem ofList_testReading (field : String) (t : Test) :
    String.ofList (testReading field t).text =
      identifier field ++ (t.keyword.text ++ String.ofList t.operands) := by
  rw [← String.toList_inj]
  simp [testReading, Chain.text, Factor.text, Leaf.text, Test.text, Name.text_ofField]

/-- The statement of a query is its reading, written out, with its arguments. -/
theorem assembleFrom_fragments (q : Query) (before : Nat) :
    assembleFrom (before + 1) q.fragments =
      ⟨String.ofList (q.reading before).text, q.arguments⟩ := by
  induction q generalizing before with
  | all => rfl
  | compare field comparison value =>
      simp [fragments, assembleFrom, reading, arguments, ofList_testReading, Test.keyword,
        Test.operands, text_compare, ofList_argumentText]
  | contains field value negated =>
      simp [fragments, assembleFrom, reading, arguments, ofList_testReading, Test.keyword,
        Test.operands, Keyword.text, ofList_argumentText]
  | between field least greatest =>
      simp [fragments, assembleFrom, reading, arguments, ofList_testReading, Test.keyword,
        Test.operands, Keyword.text, ofList_andText, ofList_argumentText]
  | isNull field =>
      simp [fragments, assembleFrom, reading, arguments, ofList_testReading, Test.keyword,
        Test.operands, Keyword.text]
  | isNotNull field =>
      simp [fragments, assembleFrom, reading, arguments, ofList_testReading, Test.keyword,
        Test.operands, Keyword.text]
  | and left right ihLeft ihRight =>
      have hnumber : before + 1 + left.arguments.length = before + left.arguments.length + 1 := by
        omega
      rw [fragments, assembleFrom_append, ihLeft before, assembleFrom, hnumber,
        ihRight (before + left.arguments.length), reading, Chain.text_append, arguments]
      simp [String.ofList_append, ofList_andText]
  | or left right ihLeft ihRight =>
      have hnumber : before + 1 + left.arguments.length = before + left.arguments.length + 1 := by
        omega
      rw [fragments, List.append_assoc, List.cons_append, assembleFrom, assembleFrom_append,
        ihLeft before, List.cons_append, assembleFrom, assembleFrom_append, hnumber,
        ihRight (before + left.arguments.length), reading, Chain.text, Factor.text, arguments]
      simp [String.ofList_append, ofList_orText, assembleFrom]

section

variable {args : List Scalar} {before : Nat}

theorem prefix_drop_of_append {xs ys : List Scalar} (h : xs ++ ys <+: args.drop before) :
    xs <+: args.drop before ∧ ys <+: args.drop (before + xs.length) := by
  refine ⟨(List.prefix_append xs ys).trans h, ?_⟩
  obtain ⟨rest, hrest⟩ := h
  rw [← List.drop_drop, ← hrest, List.append_assoc, List.drop_left]
  exact List.prefix_append ys rest

theorem argument?_of_prefix {v : Scalar} {vs : List Scalar} (h : v :: vs <+: args.drop before) :
    argument? args (before + 1) = some v := by
  obtain ⟨rest, hrest⟩ := h
  have hfirst : (args.drop before)[0]? = some v := by rw [← hrest]; rfl
  rwa [List.getElem?_drop] at hfirst

theorem resolve?_testReading {field : String} {t : Test} :
    (testReading field t).resolve? args = t.resolve? args field := by
  rw [testReading, Chain.resolve?, Factor.resolve?, Leaf.resolve?, Name.unquoted_ofField]

theorem resolve?_append {p q : Query} : ∀ {c d : Chain}, c.resolve? args = some p →
    d.resolve? args = some q →
    ∃ x, (c.append d).resolve? args = some x ∧ x.SameUpToAnd (and p q)
  | .one f, d, hc, hd => by
      rw [Chain.resolve?] at hc
      refine ⟨and p q, ?_, .refl _⟩
      simp [Chain.append, Chain.resolve?, hc, hd]
  | .and f rest, d, hc, hd => by
      simp only [Chain.resolve?, Option.bind_eq_bind, Option.bind_eq_some_iff,
        Option.pure_def, Option.some.injEq] at hc
      obtain ⟨first, hfirst, others, hothers, rfl⟩ := hc
      obtain ⟨x, hx, hsame⟩ := resolve?_append hothers hd
      refine ⟨and first x, ?_, ?_⟩
      · simp [Chain.append, Chain.resolve?, hfirst, hx]
      · exact (SameUpToAnd.and (.refl first) hsame).trans (SameUpToAnd.assoc first others q).symm

theorem resolve?_reading {q : Query} (h : q.arguments <+: args.drop before) :
    ∃ p, (q.reading before).resolve? args = some p ∧ p.SameUpToAnd q := by
  induction q generalizing before with
  | all => exact ⟨all, rfl, .refl _⟩
  | compare field comparison value =>
      refine ⟨_, ?_, .refl _⟩
      rw [reading, resolve?_testReading, Test.resolve?, argument?_of_prefix h, Option.map_some]
  | contains field value negated =>
      refine ⟨_, ?_, .refl _⟩
      rw [reading, resolve?_testReading, Test.resolve?, argument?_of_prefix h]
      simp [searchedText?_containsPattern]
  | between field least greatest =>
      refine ⟨_, ?_, .refl _⟩
      have hboth : [least] ++ [greatest] <+: args.drop before := h
      have hgreatest : argument? args (before + 2) = some greatest :=
        argument?_of_prefix (prefix_drop_of_append hboth).2
      rw [reading, resolve?_testReading, Test.resolve?, argument?_of_prefix h,
        hgreatest]
      rfl
  | isNull field =>
      refine ⟨_, ?_, .refl _⟩
      rw [reading, resolve?_testReading, Test.resolve?]
  | isNotNull field =>
      refine ⟨_, ?_, .refl _⟩
      rw [reading, resolve?_testReading, Test.resolve?]
  | and left right ihLeft ihRight =>
      obtain ⟨hleft, hright⟩ := prefix_drop_of_append h
      obtain ⟨p, hp, hpleft⟩ := ihLeft hleft
      obtain ⟨q, hq, hqright⟩ := ihRight hright
      obtain ⟨x, hx, hsame⟩ := resolve?_append hp hq
      exact ⟨x, hx, hsame.trans (.and hpleft hqright)⟩
  | or left right ihLeft ihRight =>
      obtain ⟨hleft, hright⟩ := prefix_drop_of_append h
      obtain ⟨p, hp, hpleft⟩ := ihLeft hleft
      obtain ⟨q, hq, hqright⟩ := ihRight hright
      refine ⟨or p q, ?_, .or hpleft hqright⟩
      simp [reading, Chain.resolve?, Factor.resolve?, hp, hq]

end

theorem text_toSql (q : Query) : q.toSql.text.toList = (q.reading 0).text := by
  rw [toSql, assemble, assembleFrom_fragments q 0, String.toList_ofList]

theorem arguments_toSql (q : Query) : q.toSql.arguments = q.arguments := by
  rw [toSql, assemble, assembleFrom_fragments q 0]

/-- The text of a query has one reading, and with the arguments in place this reading is the query
up to the grouping of its conjunctions. -/
theorem toSql_reads_back (q : Query) :
    ∃ c : Chain, (∀ d : Chain, d.text = q.toSql.text.toList ↔ d = c) ∧
      ∃ p, c.resolve? q.toSql.arguments = some p ∧ p.SameUpToAnd q := by
  refine ⟨q.reading 0, ?_, ?_⟩
  · intro d
    rw [text_toSql]
    constructor
    · exact Chain.text_injective
    · rintro rfl
      rfl
  · rw [arguments_toSql]
    exact resolve?_reading (List.prefix_refl _)

end Query

end RecordFilter
