import RecordFilter.Json.Basic

/-!
The compact text of a JSON document: no blanks, members in their order. A string escapes the quote,
the backslash and the controls below U+0020, and nothing else.
-/

namespace RecordFilter.Json

def hexDigit (n : Nat) : Char :=
  Nat.digitChar (n % 16)

def escapedChar (c : Char) : List Char :=
  if c = '"' then ['\\', '"']
  else if c = '\\' then ['\\', '\\']
  else if c = '\x08' then ['\\', 'b']
  else if c = '\x0c' then ['\\', 'f']
  else if c = '\n' then ['\\', 'n']
  else if c = '\r' then ['\\', 'r']
  else if c = '\t' then ['\\', 't']
  else if c.toNat < 0x20 then
    ['\\', 'u', '0', '0', hexDigit (c.toNat / 16), hexDigit c.toNat]
  else [c]

def stringChars (s : String) : List Char :=
  '"' :: s.toList.flatMap escapedChar ++ ['"']

mutual

def chars : Json → List Char
  | null => ['n', 'u', 'l', 'l']
  | bool true => ['t', 'r', 'u', 'e']
  | bool false => ['f', 'a', 'l', 's', 'e']
  | number n => n.text
  | string s => stringChars s
  | garbled => ['"', '\\', 'u', 'd', '8', '0', '0', '"']
  | array [] => ['[', ']']
  | array (v :: vs) => '[' :: (chars v ++ restOfArray vs)
  | object [] => ['\x7b', '\x7d']
  | object ((k, v) :: ms) => '\x7b' :: (stringChars k ++ ':' :: (chars v ++ restOfObject ms))

def restOfArray : List Json → List Char
  | [] => [']']
  | v :: vs => ',' :: (chars v ++ restOfArray vs)

def restOfObject : List (String × Json) → List Char
  | [] => ['\x7d']
  | (k, v) :: ms => ',' :: (stringChars k ++ ':' :: (chars v ++ restOfObject ms))

end

def text (j : Json) : String :=
  String.ofList j.chars

end RecordFilter.Json
