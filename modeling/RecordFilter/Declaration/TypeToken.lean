import RecordFilter.Text.Blank

/-!
The tokens of the written type of a member. Blanks and comments stand between tokens, and a literal
in quotes is one token, whatever brackets and quotes it holds.
-/

namespace RecordFilter.Declaration

inductive TypeToken where
  /-- A name, a number, a lifetime, or the letters that mark the kind of a literal. -/
  | word (name : String)
  /-- A character or a text in quotes. -/
  | literal
  /-- The double colon between the names of a path. -/
  | separator
  | arrow
  | mark (c : Char)
  deriving DecidableEq

/-- What ends a word. A number sign does not, so that it stays with the letters before it. -/
def isMark (c : Char) : Bool :=
  "<>()[]\x7b\x7d,:;&*!?+-=.|/%^@~$".toList.contains c

/-- Blanks, and the two marks of the direction of writing. -/
def isBetweenTokens (c : Char) : Bool :=
  Text.isBlank c || c == '\u200e' || c == '\u200f'

/-- What the scan of a type is inside of. -/
inductive TypeScan where
  /-- A word with the characters held, the last one first; without any, nothing. -/
  | word (held : List Char)
  /-- A literal up to the next such quote, where a backslash takes in the character after it. -/
  | quotation (quote : Char)
  /-- A literal without escapes, up to a double quote with as many number signs as stood before the
  first one. Of such an end, `seen` characters have been read. -/
  | rawQuotation (signs seen : Nat)
  | lineComment
  /-- A comment that stands inside of `around` others. -/
  | blockComment (around : Nat)
  deriving DecidableEq

namespace TypeScan

def start : TypeScan :=
  word []

/-- How many number signs follow the letters of a literal without escapes, where the held word is
nothing but these. -/
def rawSigns? (held : List Char) : Option Nat :=
  let letters := held.dropWhile (· == '#')
  if letters ∈ [['r'], ['r', 'b'], ['r', 'c']] then some (held.length - letters.length) else none

/-- The literal that a double quote after the held word opens. -/
def afterQuote (held : List Char) : TypeScan :=
  match rawSigns? held with
  | some signs => rawQuotation signs 0
  | none => quotation '"'

/-- How much of the end of a literal without escapes has been read with one more character. -/
def seenAfter (seen : Nat) (c : Char) : Nat :=
  if c = '"' then 1
  else if c = '#' ∧ 0 < seen then seen + 1
  else 0

end TypeScan

def wordToken (held : List Char) : List TypeToken :=
  if held.isEmpty then [] else [.word (String.ofList held.reverse)]

/-- The tokens of what is left of a text. An apostrophe opens a literal where it is closed after one
character or one escape, and a lifetime everywhere else. -/
def tokensFrom : TypeScan → List Char → List TypeToken
  | .word held, [] => wordToken held
  | .word held, ':' :: ':' :: s => wordToken held ++ .separator :: tokensFrom .start s
  | .word held, '-' :: '>' :: s => wordToken held ++ .arrow :: tokensFrom .start s
  | .word held, '/' :: '/' :: s => wordToken held ++ tokensFrom .lineComment s
  | .word held, '/' :: '*' :: s => wordToken held ++ tokensFrom (.blockComment 0) s
  | .word held, '"' :: s => wordToken held ++ tokensFrom (.afterQuote held) s
  | .word held, '\'' :: '\\' :: _ :: s => wordToken held ++ tokensFrom (.quotation '\'') s
  | .word held, '\'' :: _ :: '\'' :: s => wordToken held ++ .literal :: tokensFrom .start s
  | .word held, '\'' :: s => wordToken held ++ tokensFrom (.word ['\'']) s
  | .word held, c :: s =>
      if isBetweenTokens c then wordToken held ++ tokensFrom .start s
      else if isMark c then wordToken held ++ .mark c :: tokensFrom .start s
      else tokensFrom (.word (c :: held)) s
  | .quotation quote, '\\' :: _ :: s => tokensFrom (.quotation quote) s
  | .quotation quote, c :: s =>
      if c = quote then .literal :: tokensFrom .start s else tokensFrom (.quotation quote) s
  | .rawQuotation signs seen, c :: s =>
      let next := TypeScan.seenAfter seen c
      if next = signs + 1 then .literal :: tokensFrom .start s
      else tokensFrom (.rawQuotation signs next) s
  | .lineComment, c :: s =>
      if c = '\n' then tokensFrom .start s else tokensFrom .lineComment s
  | .blockComment around, '/' :: '*' :: s => tokensFrom (.blockComment (around + 1)) s
  | .blockComment 0, '*' :: '/' :: s => tokensFrom .start s
  | .blockComment (around + 1), '*' :: '/' :: s => tokensFrom (.blockComment around) s
  | .blockComment around, _ :: s => tokensFrom (.blockComment around) s
  | _, [] => []

/-- The tokens of a written type. -/
def typeTokens (s : String) : List TypeToken :=
  tokensFrom .start s.toList

end RecordFilter.Declaration
