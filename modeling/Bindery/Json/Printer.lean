import Bindery.Json.Basic

/-! Writing JSON text, either indented by two spaces a level or without any white space. Quotes,
backslashes and control characters are escaped and every other character stands as it is. -/

set_option autoImplicit false

namespace Bindery.Json

/-- The hexadecimal digits of the code of a control character. -/
def controlDigits (code : Nat) : List Char :=
  ['0', '0', Nat.digitChar (code / 16), Nat.digitChar (code % 16)]

def escapeChar (c : Char) : List Char :=
  if c = '"' then ['\\', '"']
  else if c = '\\' then ['\\', '\\']
  else if c = '\x08' then ['\\', 'b']
  else if c = '\x0c' then ['\\', 'f']
  else if c = '\n' then ['\\', 'n']
  else if c = '\r' then ['\\', 'r']
  else if c = '\t' then ['\\', 't']
  else if c.toNat < 0x20 then '\\' :: 'u' :: controlDigits c.toNat
  else [c]

def stringChars (content : String) : List Char :=
  '"' :: content.toList.flatMap escapeChar ++ ['"']

/-- The spelling of a string. One without text is spelled as a surrogate that stands alone. -/
def textChars : Text → List Char
  | some content => stringChars content
  | none => ['"', '\\', 'u', 'd', '8', '0', '0', '"']

def naturalChars (value : Nat) : List Char := Nat.toDigits 10 value

def lineStart (depth : Nat) : List Char := '\n' :: List.replicate (2 * depth) ' '

mutual

def prettyChars (depth : Nat) : Json → List Char
  | .null => ['n', 'u', 'l', 'l']
  | .boolean true => ['t', 'r', 'u', 'e']
  | .boolean false => ['f', 'a', 'l', 's', 'e']
  | .natural value => naturalChars value
  | .decimal spelling => spelling.toList
  | .string content => textChars content
  | .array [] => ['[', ']']
  | .array (item :: items) =>
    '[' :: lineStart (depth + 1) ++ prettyChars (depth + 1) item ++ prettyItems (depth + 1) items ++
      lineStart depth ++ [']']
  | .object [] => ['\x7b', '\x7d']
  | .object ((key, value) :: members) =>
    '\x7b' :: lineStart (depth + 1) ++ textChars key ++ [':', ' '] ++
      prettyChars (depth + 1) value ++ prettyMembers (depth + 1) members ++ lineStart depth ++
      ['\x7d']

def prettyItems (depth : Nat) : List Json → List Char
  | [] => []
  | item :: items => ',' :: lineStart depth ++ prettyChars depth item ++ prettyItems depth items

def prettyMembers (depth : Nat) : List (Text × Json) → List Char
  | [] => []
  | (key, value) :: members =>
    ',' :: lineStart depth ++ textChars key ++ [':', ' '] ++ prettyChars depth value ++
      prettyMembers depth members

end

def pretty (document : Json) : String := String.ofList (prettyChars 0 document)

mutual

def compactChars : Json → List Char
  | .null => ['n', 'u', 'l', 'l']
  | .boolean true => ['t', 'r', 'u', 'e']
  | .boolean false => ['f', 'a', 'l', 's', 'e']
  | .natural value => naturalChars value
  | .decimal spelling => spelling.toList
  | .string content => textChars content
  | .array [] => ['[', ']']
  | .array (item :: items) => '[' :: compactChars item ++ compactItems items ++ [']']
  | .object [] => ['\x7b', '\x7d']
  | .object ((key, value) :: members) =>
    '\x7b' :: textChars key ++ ':' :: compactChars value ++ compactMembers members ++ ['\x7d']

def compactItems : List Json → List Char
  | [] => []
  | item :: items => ',' :: compactChars item ++ compactItems items

def compactMembers : List (Text × Json) → List Char
  | [] => []
  | (key, value) :: members =>
    ',' :: textChars key ++ ':' :: compactChars value ++ compactMembers members

end

def compact (document : Json) : String := String.ofList (compactChars document)

end Bindery.Json
