import RecordFilter.Json.Basic

/-!
Reading JSON text: one document with blanks around it and nothing else. A reader takes what is left
of the text and gives back what it leaves in turn.
-/

namespace RecordFilter.Json

def isSpace (c : Char) : Bool :=
  c == ' ' || c == '\t' || c == '\n' || c == '\r'

def skipSpace (s : List Char) : List Char :=
  s.dropWhile isSpace

def hexValue? (c : Char) : Option Nat :=
  if c.isDigit then some (c.toNat - '0'.toNat)
  else if 'a' ≤ c ∧ c ≤ 'f' then some (c.toNat - 'a'.toNat + 10)
  else if 'A' ≤ c ∧ c ≤ 'F' then some (c.toNat - 'A'.toNat + 10)
  else none

/-- The letters after a backslash that stand for one character each. -/
def escapeValue? : Char → Option Nat
  | '"' => some '"'.toNat
  | '\\' => some '\\'.toNat
  | '/' => some '/'.toNat
  | 'b' => some 8
  | 'f' => some 12
  | 'n' => some 10
  | 'r' => some 13
  | 't' => some 9
  | _ => none

/-- The code points of a string up to its closing quote. An escape may name half of a surrogate
pair, so that these are not characters yet. -/
def readUnits : List Char → Option (List Nat × List Char)
  | [] => none
  | '"' :: s => some ([], s)
  | '\\' :: 'u' :: a :: b :: c :: d :: s => do
      let unit := (← hexValue? a) * 4096 + (← hexValue? b) * 256 + (← hexValue? c) * 16 +
        (← hexValue? d)
      let (units, rest) ← readUnits s
      return (unit :: units, rest)
  | '\\' :: c :: s => do
      let unit ← escapeValue? c
      let (units, rest) ← readUnits s
      return (unit :: units, rest)
  | c :: s =>
      if c.toNat < 0x20 || c == '\\' then none
      else do
        let (units, rest) ← readUnits s
        return (c.toNat :: units, rest)

def isHighSurrogate (n : Nat) : Bool :=
  0xD800 ≤ n && n < 0xDC00

def isLowSurrogate (n : Nat) : Bool :=
  0xDC00 ≤ n && n < 0xE000

/-- Joins the two halves of each surrogate pair; a half without its other half is no text. -/
def joinUnits? : List Nat → Option (List Char)
  | [] => some []
  | high :: low :: units =>
      if isHighSurrogate high then
        if isLowSurrogate low then
          (joinUnits? units).map
            (Char.ofNat (0x10000 + (high - 0xD800) * 0x400 + (low - 0xDC00)) :: ·)
        else none
      else if isLowSurrogate high then none
      else (joinUnits? (low :: units)).map (Char.ofNat high :: ·)
  | [unit] =>
      if isHighSurrogate unit || isLowSurrogate unit then none else some [Char.ofNat unit]

/-- The rest of a string whose opening quote has been taken; the text is missing where the string
is garbled. -/
def readString (s : List Char) : Option (Option String × List Char) :=
  (readUnits s).map fun (units, rest) => ((joinUnits? units).map String.ofList, rest)

/-- One digit, or several of which the first is not zero. -/
def readWhole (s : List Char) : Option (List Char × List Char) :=
  match s.span Char.isDigit with
  | ([], _) => none
  | ('0' :: _ :: _, _) => none
  | (digits, rest) => some (digits, rest)

def readFraction : List Char → Option (List Char × List Char)
  | '.' :: s =>
      match s.span Char.isDigit with
      | ([], _) => none
      | (digits, rest) => some (digits, rest)
  | s => some ([], s)

def readExponent : List Char → Option (Option Int × List Char)
  | [] => some (none, [])
  | c :: s =>
      if c = 'e' ∨ c = 'E' then
        let (negative, body) := Number.splitSign s
        match body.span Char.isDigit with
        | ([], _) => none
        | (digits, rest) => some (some (Number.signed negative (Number.readDigits digits)), rest)
      else some (none, c :: s)

def splitMinus : List Char → Bool × List Char
  | '-' :: s => (true, s)
  | s => (false, s)

def readNumber (s : List Char) : Option (Json × List Char) := do
  let (negative, body) := splitMinus s
  let (whole, afterWhole) ← readWhole body
  let (fraction, afterFraction) ← readFraction afterWhole
  let (exponent, rest) ← readExponent afterFraction
  return (.number ⟨negative, whole, fraction, exponent⟩, rest)

def skipColon (s : List Char) : Option (List Char) :=
  match skipSpace s with
  | ':' :: rest => some rest
  | _ => none

/-- An object whose names are all text, or `garbled` where one of them is not. -/
def ofMembers (members : List (Option String × Json)) : Json :=
  match members.mapM fun (name, value) => name.map (·, value) with
  | some named => .object named
  | none => .garbled

mutual

/-- Each step down spends one unit of fuel; twice the length of the text is always enough. -/
def readValue : Nat → List Char → Option (Json × List Char)
  | 0, _ => none
  | fuel + 1, s =>
      match skipSpace s with
      | 'n' :: 'u' :: 'l' :: 'l' :: rest => some (.null, rest)
      | 't' :: 'r' :: 'u' :: 'e' :: rest => some (.bool true, rest)
      | 'f' :: 'a' :: 'l' :: 's' :: 'e' :: rest => some (.bool false, rest)
      | '"' :: body =>
          (readString body).map fun (text, rest) => (text.elim .garbled .string, rest)
      | '[' :: body =>
          match skipSpace body with
          | ']' :: rest => some (.array [], rest)
          | _ => (readItems fuel body).map fun (items, rest) => (.array items, rest)
      | '\x7b' :: body =>
          match skipSpace body with
          | '\x7d' :: rest => some (.object [], rest)
          | _ => (readMembers fuel body).map fun (members, rest) => (ofMembers members, rest)
      | body => readNumber body

/-- The items of an array that has at least one, with the closing bracket. -/
def readItems : Nat → List Char → Option (List Json × List Char)
  | 0, _ => none
  | fuel + 1, s => do
      let (item, afterItem) ← readValue fuel s
      match skipSpace afterItem with
      | ',' :: body =>
          let (items, rest) ← readItems fuel body
          return (item :: items, rest)
      | ']' :: rest => return ([item], rest)
      | _ => none

/-- The members of an object that has at least one, with the closing brace. -/
def readMembers : Nat → List Char → Option (List (Option String × Json) × List Char)
  | 0, _ => none
  | fuel + 1, s =>
      match skipSpace s with
      | '"' :: body => do
          let (name, afterName) ← readString body
          let afterColon ← skipColon afterName
          let (value, afterValue) ← readValue fuel afterColon
          match skipSpace afterValue with
          | ',' :: next =>
              let (members, rest) ← readMembers fuel next
              return ((name, value) :: members, rest)
          | '\x7d' :: rest => return ([(name, value)], rest)
          | _ => none
      | _ => none

end

def ofChars? (s : List Char) : Option Json :=
  match readValue (2 * s.length + 2) s with
  | some (j, rest) => if (skipSpace rest).isEmpty then some j else none
  | none => none

def ofText? (s : String) : Option Json :=
  ofChars? s.toList

end RecordFilter.Json
