import RecordFilter.Expression.Cursor

/-!
The written form of one condition: a field, an operator and a value, with gaps between them. A
reader takes the longest text of its form from the front and gives back the rest.
-/

namespace RecordFilter.Expression

/-- The characters between the parts of a condition. Other blanks belong to the parts. -/
def isGap (c : Char) : Bool :=
  c == ' ' || c == '\t' || c == '\r' || c == '\n'

def startsName (c : Char) : Bool :=
  c.isAlpha || c == '_'

def continuesName (c : Char) : Bool :=
  c.isAlphanum || c == '_'

/-- The rest of a name whose first character has been taken. -/
def readNameRest (s : List Char) : List Char × List Char :=
  s.span continuesName

def readName : List Char → Option (List Char × List Char)
  | [] => none
  | c :: s =>
      if startsName c then
        let (more, rest) := readNameRest s
        some (c :: more, rest)
      else none

/-- The rest of a dotted name: a point belongs to it where another name follows. -/
def readFieldRest : List Char → List Char × List Char
  | '.' :: c :: s =>
      if startsName c then
        let (more, rest) := readFieldRest s
        ('.' :: c :: more, rest)
      else ([], '.' :: c :: s)
  | c :: s =>
      if continuesName c then
        let (more, rest) := readFieldRest s
        (c :: more, rest)
      else ([], c :: s)
  | [] => ([], [])

/-- Names joined by points. -/
def readField : List Char → Option (List Char × List Char)
  | [] => none
  | c :: s =>
      if startsName c then
        let (more, rest) := readFieldRest s
        some (c :: more, rest)
      else none

/-- A run of characters of a class, which may not be empty. -/
def readRun (p : Char → Bool) (s : List Char) : Option (List Char × List Char) :=
  match s.span p with
  | ([], _) => none
  | (run, rest) => some (run, rest)

def readSymbol (s : List Char) : Option (List Char × List Char) :=
  readRun isOperatorChar s

inductive ValueText where
  | quoted (quote : Char) (inner : List Char)
  | bare (text : List Char)
  deriving DecidableEq

def ValueText.chars : ValueText → List Char
  | quoted q inner => q :: inner ++ [q]
  | bare text => text

/-- Text up to the next quote of the kind that opened it. -/
def readQuoted (q : Char) : List Char → Option (ValueText × List Char)
  | [] => none
  | c :: s =>
      if c = q then
        match s.span (· != q) with
        | (_, []) => none
        | (inner, _ :: rest) => some (.quoted q inner, rest)
      else none

def readBare (s : List Char) : Option (ValueText × List Char) :=
  (readRun (fun c => !isGap c) s).map fun (run, rest) => (.bare run, rest)

/-- A quotation where one is closed, and a bare run of characters otherwise. -/
def readValue (s : List Char) : Option (ValueText × List Char) :=
  (readQuoted '\'' s).orElse fun _ => (readQuoted '"' s).orElse fun _ => readBare s

/-- A condition in its parts, gaps included. -/
structure ConditionText where
  leading : List Char
  field : List Char
  afterField : List Char
  symbol : List Char
  afterSymbol : List Char
  value : ValueText
  trailing : List Char
  deriving DecidableEq

namespace ConditionText

def chars (t : ConditionText) : List Char :=
  t.leading ++ t.field ++ t.afterField ++ t.symbol ++ t.afterSymbol ++ t.value.chars ++ t.trailing

/-- The parts of a text that is one condition from its first to its last character. -/
def read? (s : List Char) : Option ConditionText := do
  let (leading, atField) := s.span isGap
  let (field, afterField) ← readField atField
  let (fieldGap, atSymbol) := afterField.span isGap
  let (symbol, afterSymbol) ← readSymbol atSymbol
  let (symbolGap, atValue) := afterSymbol.span isGap
  let (value, afterValue) ← readValue atValue
  let (trailing, rest) := afterValue.span isGap
  if rest.isEmpty then return ⟨leading, field, fieldGap, symbol, symbolGap, value, trailing⟩
  else none

end ConditionText

/-- The forms a text can be read as. -/
inductive Form where
  | condition
  | field
  | name
  | symbol
  | value
  | singleQuoted
  | doubleQuoted
  | bare
  | gap
  | endOfText
  deriving DecidableEq

/-- A stretch of a text that has a form, by its offsets in UTF-8 bytes. -/
structure Span where
  form : Form
  start : Nat
  stop : Nat
  text : List Char
  deriving DecidableEq

def byteSize (s : List Char) : Nat :=
  s.foldr (fun c n => c.utf8Size + n) 0

def Span.at (form : Form) (start : Nat) (text : List Char) : Span :=
  ⟨form, start, start + byteSize text, text⟩

def ValueText.form : ValueText → Form
  | quoted q _ => if q = '\'' then .singleQuoted else .doubleQuoted
  | bare _ => .bare

/-- The stretches of a condition, the whole one first. -/
def ConditionText.spans (t : ConditionText) : List Span :=
  let field := Span.at .field (byteSize t.leading) t.field
  let symbol := Span.at .symbol (field.stop + byteSize t.afterField) t.symbol
  let value := Span.at t.value.form (symbol.stop + byteSize t.afterSymbol) t.value.chars
  [Span.at .condition 0 t.chars, field, symbol, value, Span.at .endOfText (byteSize t.chars) []]

/-- What a text starts with, read as a form: the stretches found, where the form itself leaves a
trace. A condition has to be the whole text, and the end is where nothing is left. -/
def Form.spans? (form : Form) (s : List Char) : Option (List Span) :=
  match form with
  | condition => (ConditionText.read? s).map ConditionText.spans
  | field => (readField s).map fun (text, _) => [Span.at .field 0 text]
  | name => (readName s).map fun _ => []
  | symbol => (readSymbol s).map fun (text, _) => [Span.at .symbol 0 text]
  | value => (readValue s).map fun (v, _) => [Span.at v.form 0 v.chars]
  | singleQuoted => (readQuoted '\'' s).map fun (v, _) => [Span.at v.form 0 v.chars]
  | doubleQuoted => (readQuoted '"' s).map fun (v, _) => [Span.at v.form 0 v.chars]
  | bare => (readBare s).map fun (v, _) => [Span.at v.form 0 v.chars]
  | gap => if (s.take 1).any isGap then some [] else none
  | endOfText => if s.isEmpty then some [Span.at .endOfText 0 []] else none

end RecordFilter.Expression
