import RecordFilter.Text.Blank
import RecordFilter.Filter.Basic

/-!
Where a scan of filter text stands: inside a quotation or outside, and how many parentheses are
open. A quotation hides every character up to its closing quote.
-/

namespace RecordFilter.Expression

structure Cursor where
  quote : Option Char := none
  last : Option Char := none
  depth : Nat := 0
  deriving DecidableEq

/-- What a character does where it stands. -/
inductive Mark where
  | plain
  | opening
  | closing
  | link (c : Connective)
  deriving DecidableEq

/-- The way in which parentheses or quotes fail to pair up. -/
inductive Imbalance where
  | unopened
  | unclosed
  | openQuote (quote : Char)
  deriving DecidableEq

def Imbalance.message : Imbalance → String
  | unopened => "closing parenthesis without a matching opening one"
  | unclosed => "unbalanced parentheses"
  | openQuote q => "unterminated " ++ String.singleton q ++ " quote"

def isQuote (c : Char) : Bool :=
  c == '\'' || c == '"'

/-- The characters of operators. -/
def isOperatorChar (c : Char) : Bool :=
  c == '=' || c == '!' || c == '<' || c == '>' || c == '~'

/-- A quote opens a quotation only where a word may begin, so that an apostrophe inside a word is
an ordinary character. -/
def opensQuotation (before : Option Char) : Bool :=
  before.all fun c => Text.isBlank c || isOperatorChar c || c == '(' || c == '&' || c == '|'

namespace Cursor

def quoteAfter (k : Cursor) (c : Char) : Option Char :=
  match k.quote with
  | some q => if c = q then none else some q
  | none => if isQuote c && opensQuotation k.last then some c else none

def mark (k : Cursor) (c : Char) : Mark :=
  if k.quote.isSome then .plain
  else match c with
    | '(' => .opening
    | ')' => .closing
    | c => (Connective.ofSymbol? c).elim .plain .link

def depthAfter (k : Cursor) (c : Char) : Nat :=
  match k.mark c with
  | .opening => k.depth + 1
  | .closing => k.depth - 1
  | _ => k.depth

def advance (k : Cursor) (c : Char) : Cursor :=
  ⟨k.quoteAfter c, some c, k.depthAfter c⟩

/-- What is wrong at the end of a text, if anything is. -/
def imbalanceAtEnd (k : Cursor) : Option Imbalance :=
  match k.quote with
  | some q => some (.openQuote q)
  | none => if k.depth = 0 then none else some .unclosed

def imbalanceFrom (k : Cursor) : List Char → Option Imbalance
  | [] => k.imbalanceAtEnd
  | c :: s =>
      if k.mark c = .closing ∧ k.depth = 0 then some .unopened
      else (k.advance c).imbalanceFrom s

end Cursor

/-- The first fault in the pairing of parentheses and quotes, if there is one. -/
def imbalance (s : List Char) : Option Imbalance :=
  Cursor.imbalanceFrom {} s

end RecordFilter.Expression
