import Bindery.Json.Basic

/-! Reading JSON text. The grammar is taken strictly: one value with white space around it, no
comments, no trailing commas, no leading zeros, and no control characters inside strings. -/

set_option autoImplicit false

namespace Bindery.Json

def isSpace (c : Char) : Bool := c = ' ' || c = '\t' || c = '\n' || c = '\r'

def skipSpace (text : List Char) : List Char := text.dropWhile isSpace

def hexDigit? (c : Char) : Option Nat :=
  if '0' ≤ c ∧ c ≤ '9' then some (c.toNat - '0'.toNat)
  else if 'a' ≤ c ∧ c ≤ 'f' then some (c.toNat - 'a'.toNat + 10)
  else if 'A' ≤ c ∧ c ≤ 'F' then some (c.toNat - 'A'.toNat + 10)
  else none

/-- What a piece of a string stands for: a character, or a unit of UTF-16. -/
inductive Piece where
  | char (c : Char)
  | unit (value : Nat)

def simpleEscape? : Char → Option Char
  | '"' => some '"'
  | '\\' => some '\\'
  | '/' => some '/'
  | 'b' => some '\x08'
  | 'f' => some '\x0c'
  | 'n' => some '\n'
  | 'r' => some '\r'
  | 't' => some '\t'
  | _ => none

/-- The pieces up to the closing quote, in front of those already read back to front. -/
def readPieces (read : List Piece) : List Char → Option (List Piece × List Char)
  | [] => none
  | '"' :: rest => some (read.reverse, rest)
  | '\\' :: 'u' :: a :: b :: c :: d :: rest =>
    match hexDigit? a, hexDigit? b, hexDigit? c, hexDigit? d with
    | some a, some b, some c, some d =>
      readPieces (.unit (((a * 16 + b) * 16 + c) * 16 + d) :: read) rest
    | _, _, _, _ => none
  | '\\' :: c :: rest =>
    match simpleEscape? c with
    | some escaped => readPieces (.char escaped :: read) rest
    | none => none
  | c :: rest => if c.toNat < 0x20 ∨ c = '\\' then none else readPieces (.char c :: read) rest

def isHighSurrogate (unit : Nat) : Bool := 0xd800 ≤ unit && unit < 0xdc00

def isLowSurrogate (unit : Nat) : Bool := 0xdc00 ≤ unit && unit < 0xe000

/-- The characters in front of those already read back to front; none if a surrogate is alone. -/
def joinPieces (read : List Char) : List Piece → Text
  | [] => some (String.ofList read.reverse)
  | .char c :: rest => joinPieces (c :: read) rest
  | .unit high :: .unit low :: rest =>
    if isHighSurrogate high then
      if isLowSurrogate low then
        joinPieces (Char.ofNat (0x10000 + (high - 0xd800) * 0x400 + (low - 0xdc00)) :: read) rest
      else none
    else if isLowSurrogate high then none
    else joinPieces (Char.ofNat high :: read) (.unit low :: rest)
  | .unit unit :: rest =>
    if isHighSurrogate unit || isLowSurrogate unit then none
    else joinPieces (Char.ofNat unit :: read) rest

def readString (text : List Char) : Option (Text × List Char) :=
  (readPieces [] text).map fun (pieces, rest) => (joinPieces [] pieces, rest)

/-- At least one digit, and what follows the last one. -/
def readDigits (text : List Char) : Option (List Char × List Char) :=
  match text.takeWhile Char.isDigit with
  | [] => none
  | digits => some (digits, text.dropWhile Char.isDigit)

def readInteger : List Char → Option (List Char × List Char)
  | '0' :: rest => some (['0'], rest)
  | text => readDigits text

def readFraction : List Char → Option (List Char × List Char)
  | '.' :: rest => (readDigits rest).map fun (digits, rest) => ('.' :: digits, rest)
  | text => some ([], text)

def readExponent : List Char → Option (List Char × List Char)
  | mark :: sign :: rest =>
    if mark = 'e' ∨ mark = 'E' then
      if sign = '+' ∨ sign = '-' then
        (readDigits rest).map fun (digits, rest) => (mark :: sign :: digits, rest)
      else (readDigits (sign :: rest)).map fun (digits, rest) => (mark :: digits, rest)
    else some ([], mark :: sign :: rest)
  | [mark] => if mark = 'e' ∨ mark = 'E' then none else some ([], [mark])
  | [] => some ([], [])

def naturalOfDigits (digits : List Char) : Nat :=
  digits.foldl (fun value c => value * 10 + (c.toNat - '0'.toNat)) 0

def readUnsigned (text : List Char) : Option (Json × List Char) := do
  let (integer, rest) ← readInteger text
  let (fraction, rest) ← readFraction rest
  let (exponent, rest) ← readExponent rest
  if fraction.isEmpty && exponent.isEmpty then return (.natural (naturalOfDigits integer), rest)
  else return (.decimal (String.ofList (integer ++ fraction ++ exponent)), rest)

def readNumber : List Char → Option (Json × List Char)
  | '-' :: rest => (readUnsigned rest).map fun
    | (.natural value, rest) => (.decimal s!"-{value}", rest)
    | (.decimal spelling, rest) => (.decimal ("-" ++ spelling), rest)
    | other => other
  | text => readUnsigned text

mutual

/-- A value at the start of a text without leading white space. The first argument bounds the
number of nested and consecutive values. -/
def readValue : Nat → List Char → Option (Json × List Char)
  | 0, _ => none
  | bound + 1, text =>
    match text with
    | 'n' :: 'u' :: 'l' :: 'l' :: rest => some (.null, rest)
    | 't' :: 'r' :: 'u' :: 'e' :: rest => some (.boolean true, rest)
    | 'f' :: 'a' :: 'l' :: 's' :: 'e' :: rest => some (.boolean false, rest)
    | '"' :: rest => (readString rest).map fun (content, rest) => (.string content, rest)
    | '[' :: rest =>
      match skipSpace rest with
      | ']' :: rest => some (.array [], rest)
      | rest => (readItems bound rest).map fun (items, rest) => (.array items, rest)
    | '\x7b' :: rest =>
      match skipSpace rest with
      | '\x7d' :: rest => some (.object [], rest)
      | rest => (readMembers bound rest).map fun (members, rest) => (.object members, rest)
    | text => readNumber text

def readItems : Nat → List Char → Option (List Json × List Char)
  | 0, _ => none
  | bound + 1, text =>
    match readValue bound text with
    | none => none
    | some (item, rest) =>
      match skipSpace rest with
      | ']' :: rest => some ([item], rest)
      | ',' :: rest =>
        (readItems bound (skipSpace rest)).map fun (items, rest) => (item :: items, rest)
      | _ => none

def readMembers : Nat → List Char → Option (List (Text × Json) × List Char)
  | 0, _ => none
  | bound + 1, text =>
    match text with
    | '"' :: rest =>
      match readString rest with
      | none => none
      | some (key, rest) =>
        match skipSpace rest with
        | ':' :: rest =>
          match readValue bound (skipSpace rest) with
          | none => none
          | some (value, rest) =>
            match skipSpace rest with
            | '\x7d' :: rest => some ([(key, value)], rest)
            | ',' :: rest =>
              (readMembers bound (skipSpace rest)).map fun (members, rest) =>
                ((key, value) :: members, rest)
            | _ => none
        | _ => none
    | _ => none

end

/-- The document a text holds, if the whole text is one JSON value. -/
def parse? (text : String) : Option Json :=
  let chars := skipSpace text.toList
  match readValue (chars.length + 1) chars with
  | none => none
  | some (value, rest) => if (skipSpace rest).isEmpty then some value else none

end Bindery.Json
