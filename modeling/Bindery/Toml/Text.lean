/-! White space, line ends, strings and keys of TOML. -/

set_option autoImplicit false

namespace Bindery.Toml

def isSpace (c : Char) : Bool := c = ' ' || c = '\t'

def skipSpace (text : List Char) : List Char := text.dropWhile isSpace

def lineEnd? : List Char → Option (List Char)
  | '\n' :: rest => some rest
  | '\r' :: '\n' :: rest => some rest
  | _ => none

/-- Characters that may stand in a comment: no control but the tab. -/
def isCommentChar (c : Char) : Bool := c = '\t' || (0x20 ≤ c.toNat && c.toNat ≠ 0x7f)

def skipComment : List Char → List Char
  | '#' :: rest => rest.dropWhile isCommentChar
  | text => text

/-- What follows the line, if nothing but white space and a comment is left on it. -/
def endOfLine? (text : List Char) : Option (List Char) :=
  match skipComment (skipSpace text) with
  | [] => some []
  | rest => lineEnd? rest

def hexDigit? (c : Char) : Option Nat :=
  if '0' ≤ c ∧ c ≤ '9' then some (c.toNat - '0'.toNat)
  else if 'a' ≤ c ∧ c ≤ 'f' then some (c.toNat - 'a'.toNat + 10)
  else if 'A' ≤ c ∧ c ≤ 'F' then some (c.toNat - 'A'.toNat + 10)
  else none

/-- The character with a code point of exactly as many digits. -/
def codePoint? (digits : List Char) (count : Nat) : Option Char := do
  let values ← digits.mapM hexDigit?
  let code := values.foldl (fun code digit => code * 16 + digit) 0
  if values.length = count ∧ code.isValidChar then return Char.ofNat code else none

def simpleEscape? : Char → Option Char
  | 'b' => some '\x08'
  | 't' => some '\t'
  | 'n' => some '\n'
  | 'f' => some '\x0c'
  | 'r' => some '\r'
  | '"' => some '"'
  | '\\' => some '\\'
  | _ => none

def escape? : List Char → Option (Char × List Char)
  | 'u' :: rest => (codePoint? (rest.take 4) 4).map fun c => (c, rest.drop 4)
  | 'U' :: rest => (codePoint? (rest.take 8) 8).map fun c => (c, rest.drop 8)
  | c :: rest => (simpleEscape? c).map fun c => (c, rest)
  | [] => none

/-- The rest of a string between double quotes on one line. -/
def basicString? : Nat → List Char → List Char → Option (String × List Char)
  | 0, _, _ => none
  | bound + 1, read, text =>
    match text with
    | '"' :: rest => some (String.ofList read.reverse, rest)
    | '\\' :: rest =>
      match escape? rest with
      | some (c, rest) => basicString? bound (c :: read) rest
      | none => none
    | c :: rest => if isCommentChar c then basicString? bound (c :: read) rest else none
    | [] => none

/-- The rest of a string between single quotes on one line, where nothing is escaped. -/
def literalString? : List Char → List Char → Option (String × List Char)
  | read, '\'' :: rest => some (String.ofList read.reverse, rest)
  | read, c :: rest => if isCommentChar c then literalString? (c :: read) rest else none
  | _, [] => none

def skipBlankLines : List Char → List Char
  | ' ' :: rest => skipBlankLines rest
  | '\t' :: rest => skipBlankLines rest
  | '\n' :: rest => skipBlankLines rest
  | '\r' :: '\n' :: rest => skipBlankLines rest
  | text => text

/-- The rest of a string between three quotes of a kind. One or two quotes are content; of up to
five the last three close the string. Line ends read as line feeds, and if escapes are allowed, a
backslash at the end of a line takes the following blank space with it. -/
def multilineString? (quote : Char) (escapes : Bool) :
    Nat → List Char → List Char → Option (String × List Char)
  | 0, _, _ => none
  | bound + 1, read, text =>
    let quotes := text.takeWhile (· = quote)
    let rest := text.drop quotes.length
    if 3 ≤ quotes.length then
      if quotes.length ≤ 5 then
        some (String.ofList (quotes.drop 3 ++ read).reverse, rest)
      else none
    else
      let read := quotes ++ read
      match rest with
      | [] => none
      | '\\' :: rest =>
        if escapes then
          match lineEnd? (skipSpace rest) with
          | some rest => multilineString? quote escapes bound read (skipBlankLines rest)
          | none =>
            match escape? rest with
            | some (c, rest) => multilineString? quote escapes bound (c :: read) rest
            | none => none
        else multilineString? quote escapes bound ('\\' :: read) rest
      | c :: after =>
        match lineEnd? rest with
        | some rest => multilineString? quote escapes bound ('\n' :: read) rest
        | none =>
          if isCommentChar c then multilineString? quote escapes bound (c :: read) after else none

/-- A line end directly behind the opening quotes is no content. -/
def dropFirstLineEnd (text : List Char) : List Char := (lineEnd? text).getD text

def string? : List Char → Option (String × List Char)
  | '"' :: '"' :: '"' :: rest =>
    multilineString? '"' true (rest.length + 1) [] (dropFirstLineEnd rest)
  | '"' :: rest => basicString? (rest.length + 1) [] rest
  | '\'' :: '\'' :: '\'' :: rest =>
    multilineString? '\'' false (rest.length + 1) [] (dropFirstLineEnd rest)
  | '\'' :: rest => literalString? [] rest
  | _ => none

def isBareKeyChar (c : Char) : Bool := c.isAlphanum || c = '-' || c = '_'

/-- One part of a key: a string on one line, or a word of ASCII letters, digits, `-` and `_`. -/
def simpleKey? : List Char → Option (String × List Char)
  | '"' :: rest => basicString? (rest.length + 1) [] rest
  | '\'' :: rest => literalString? [] rest
  | text =>
    match text.takeWhile isBareKeyChar with
    | [] => none
    | word => some (String.ofList word, text.drop word.length)

/-- The parts of a key between dots, with white space around each. -/
def keyParts? : Nat → List Char → Option (List String × List Char)
  | 0, _ => none
  | bound + 1, text =>
    match simpleKey? (skipSpace text) with
    | none => none
    | some (part, rest) =>
      match skipSpace rest with
      | '.' :: rest => (keyParts? bound rest).map fun (parts, rest) => (part :: parts, rest)
      | rest => some ([part], rest)

/-- Keys and values may not be nested deeper than this. -/
def depthLimit : Nat := 80

def key? (text : List Char) : Option (List String × List Char) :=
  match keyParts? (text.length + 1) text with
  | some (parts, rest) => if parts.length < depthLimit then some (parts, rest) else none
  | none => none

end Bindery.Toml
