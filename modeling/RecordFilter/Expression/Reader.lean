import RecordFilter.Text.Quoted
import RecordFilter.Expression.Token
import RecordFilter.Expression.Form

/-!
Filters from their text. Each level is split into tokens, its conditions are read one by one, and
the text of each group is read as a level of its own. The first fault in the order of the text is
reported.
-/

namespace RecordFilter

open Expression

inductive ReadError where
  | malformed (cause : Imbalance)
  | invalidCondition (text : String)
  | unsupportedOperator (symbol : String)
  deriving DecidableEq

def ReadError.message : ReadError → String
  | malformed cause => "Malformed expression: " ++ cause.message
  | invalidCondition text => "Invalid condition format: " ++ text
  | unsupportedOperator symbol => "Unsupported operator: " ++ symbol

/-- A text that is no filter, and why. -/
structure InvalidFilter where
  input : String
  cause : ReadError
  deriving DecidableEq

def InvalidFilter.message (e : InvalidFilter) : String :=
  "Invalid filter expression " ++ Text.quoted e.input ++ ": " ++ e.cause.message

/-- The operand of a value: quotes are taken off, and the bare word `null` in any case is null. -/
def Operand.ofValueText : ValueText → Operand
  | .quoted _ inner => .text (String.ofList inner)
  | .bare word => if Text.sameLetters word "null".toList then .null else .text (String.ofList word)

namespace Condition

def ofParts (t : ConditionText) : Except ReadError Condition :=
  match Operator.ofSymbol? (String.ofList t.symbol) with
  | some operator => .ok ⟨String.ofList t.field, operator, .ofValueText t.value, .or⟩
  | none => .error (.unsupportedOperator (String.ofList t.symbol))

def ofChars (s : List Char) : Except ReadError Condition :=
  match ConditionText.read? s with
  | some t => ofParts t
  | none => .error (.invalidCondition (String.ofList s))

def ofText (s : String) : Except ReadError Condition :=
  ofChars s.toList

end Condition

namespace Filter

/-- The clauses of one level, with `readInner` for the text of a group. `link` joins the next
clause: the connective just before it, and `|` where there is none. A group without clauses is
left out. -/
def readTokens (readInner : List Char → Except ReadError Filter) :
    Connective → List Token → Except ReadError Filter
  | _, [] => .ok []
  | _, .link l :: rest => readTokens readInner l rest
  | link, .condition text :: rest => do
      let c ← Condition.ofChars text
      return .condition { c with link } :: (← readTokens readInner .or rest)
  | link, .group text :: rest => do
      let inner ← readInner text
      let clauses ← readTokens readInner .or rest
      return if inner.isEmpty then clauses else .group link inner :: clauses

/-- Reads one level. A group is shorter than the text it stands in, so that the length of the text
bounds the nesting, and only the empty text is met without fuel. -/
def readLevel : Nat → List Char → Except ReadError Filter
  | 0, _ => .ok []
  | fuel + 1, s =>
      match splitBalanced s with
      | .error fault => .error (.malformed fault)
      | .ok tokens => readTokens (readLevel fuel) .or tokens

section

theorem bind_eq_ok_iff {α β : Type} {x : Except ReadError α} {f : α → Except ReadError β} {b : β} :
    x >>= f = .ok b ↔ ∃ a, x = .ok a ∧ f a = .ok b := by
  cases x <;> simp [bind, Except.bind]

variable {readInner : List Char → Except ReadError Filter} {link : Connective}
  {text : List Char} {rest : List Token} {f : Filter}

theorem readTokens_condition_eq_ok_iff :
    readTokens readInner link (.condition text :: rest) = .ok f ↔
      ∃ c clauses, Condition.ofChars text = .ok c ∧ readTokens readInner .or rest = .ok clauses ∧
        .condition { c with link } :: clauses = f := by
  simp only [readTokens, bind_eq_ok_iff, pure, Except.pure, Except.ok.injEq]
  constructor
  · rintro ⟨c, hc, clauses, hclauses, hf⟩
    exact ⟨c, clauses, hc, hclauses, hf⟩
  · rintro ⟨c, clauses, hc, hclauses, hf⟩
    exact ⟨c, hc, clauses, hclauses, hf⟩

theorem readTokens_group_eq_ok_iff :
    readTokens readInner link (.group text :: rest) = .ok f ↔
      ∃ inner clauses, readInner text = .ok inner ∧ readTokens readInner .or rest = .ok clauses ∧
        (if inner.isEmpty then clauses else .group link inner :: clauses) = f := by
  simp only [readTokens, bind_eq_ok_iff, pure, Except.pure, Except.ok.injEq]
  constructor
  · rintro ⟨inner, hinner, clauses, hclauses, hf⟩
    exact ⟨inner, clauses, hinner, hclauses, hf⟩
  · rintro ⟨inner, clauses, hinner, hclauses, hf⟩
    exact ⟨inner, hinner, clauses, hclauses, hf⟩

theorem readLevel_succ_eq_ok_iff {fuel : Nat} :
    readLevel (fuel + 1) text = .ok f ↔
      imbalance text = none ∧ readTokens (readLevel fuel) .or (split text) = .ok f := by
  rw [readLevel, splitBalanced]
  cases imbalance text <;> simp

end

def ofChars (s : List Char) : Except ReadError Filter :=
  let body := filterBody s
  readLevel body.length body

/-- The filter of a text; blank text, also after the word `where`, is the empty filter. -/
def ofText (s : String) : Except InvalidFilter Filter :=
  (ofChars s.toList).mapError (⟨s, ·⟩)

end Filter

end RecordFilter
