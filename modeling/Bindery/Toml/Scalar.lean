import Bindery.Toml.Basic

/-! Numbers, dates and times of TOML. -/

set_option autoImplicit false

namespace Bindery.Toml

/-- The outcome of reading text that may have another form altogether. -/
inductive Attempt (α : Type) where
  | otherForm
  /-- The text has the form but is not allowed. -/
  | refused
  | read (value : α) (rest : List Char)

namespace Attempt

variable {α β : Type}

/-- The outcome once the form is certain. -/
def certain : Option (α × List Char) → Attempt α
  | some (value, rest) => .read value rest
  | none => .refused

def map (f : α → β) : Attempt α → Attempt β
  | .otherForm => .otherForm
  | .refused => .refused
  | .read value rest => .read (f value) rest

def orElse (first : Attempt α) (second : Unit → Attempt α) : Attempt α :=
  match first with
  | .otherForm => second ()
  | outcome => outcome

def read? : Attempt α → Option (α × List Char)
  | .read value rest => some (value, rest)
  | _ => none

end Attempt

def digitsValue (base : Nat) (digits : List Char) : Nat :=
  digits.foldl (fun value c =>
    let digit := if c.isDigit then c.toNat - '0'.toNat else c.toLower.toNat - 'a'.toNat + 10
    value * base + digit) 0

/-- Exactly a number of decimal digits, as a value in a range. -/
def fixed? (count low high : Nat) (text : List Char) : Option (Nat × List Char) :=
  let digits := text.take count
  let value := digitsValue 10 digits
  if digits.length = count && digits.all Char.isDigit && low ≤ value && value ≤ high then
    some (value, text.drop count)
  else none

def expect? (wanted : Char) : List Char → Option (List Char)
  | c :: rest => if c = wanted then some rest else none
  | [] => none

def isLeapYear (year : Nat) : Bool := year % 4 = 0 && (year % 100 ≠ 0 || year % 400 = 0)

def daysIn (year month : Nat) : Nat :=
  if month = 2 then if isLeapYear year then 29 else 28
  else if month = 4 || month = 6 || month = 9 || month = 11 then 30
  else 31

/-- A number with leading zeros up to a width. -/
def padded (width value : Nat) : String :=
  let digits := Nat.toDigits 10 value
  String.ofList (List.replicate (width - digits.length) '0' ++ digits)

def fraction? : List Char → Option (String × List Char)
  | '.' :: rest =>
    match rest.takeWhile Char.isDigit with
    | [] => none
    | digits =>
      let kept := ((digits.take 9).reverse.dropWhile (· = '0')).reverse
      let text := if kept.isEmpty then "" else "." ++ String.ofList kept
      some (text, rest.drop digits.length)
  | _ => none

/-- The hour in front of a colon tells a time of day from a number. -/
def hourAndColon? (text : List Char) : Option (Nat × List Char) := do
  let (hour, rest) ← fixed? 2 0 23 text
  return (hour, ← expect? ':' rest)

def minutes? (text : List Char) : Option (Nat × List Char) := fixed? 2 0 59 text

/-- What follows the hour; a second may be a leap second. -/
def minutesAndSeconds? (hour : Nat) (text : List Char) : Option (String × List Char) := do
  let (minute, rest) ← minutes? text
  let rest ← expect? ':' rest
  let (second, rest) ← fixed? 2 0 60 rest
  let (fraction, rest) := (fraction? rest).getD ("", rest)
  return (s!"{padded 2 hour}:{padded 2 minute}:{padded 2 second}{fraction}", rest)

def readTime (text : List Char) : Attempt String :=
  match hourAndColon? text with
  | none => .otherForm
  | some (hour, rest) => .certain (minutesAndSeconds? hour rest)

def numericOffset? (sign : Char) (text : List Char) : Option (String × List Char) := do
  let (hour, rest) ← hourAndColon? text
  let (minute, rest) ← minutes? rest
  let shown := if hour = 0 && minute = 0 then '+' else sign
  return (s!"{shown}{padded 2 hour}:{padded 2 minute}", rest)

def readOffset : List Char → Attempt String
  | [] => .otherForm
  | mark :: rest =>
    if mark = 'Z' ∨ mark = 'z' then .read "Z" rest
    else if mark = '+' ∨ mark = '-' then .certain (numericOffset? mark rest)
    else .otherForm

/-- The part of a date and time after the date; without one the date stands alone. -/
def timeAfterDate? (date : String) (text : List Char) : Option (String × List Char) :=
  match text with
  | [] => some (date, [])
  | mark :: rest =>
    if mark = 'T' ∨ mark = 't' ∨ mark = ' ' then
      match readTime rest with
      | .otherForm => some (date, text)
      | .refused => none
      | .read time rest =>
        match readOffset rest with
        | .otherForm => some (s!"{date}T{time}", rest)
        | .refused => none
        | .read offset rest => some (s!"{date}T{time}{offset}", rest)
    else some (date, text)

/-- The year in front of a dash tells a date from a number. -/
def yearAndDash? (text : List Char) : Option (Nat × List Char) := do
  let (year, rest) ← fixed? 4 0 9999 text
  return (year, ← expect? '-' rest)

def monthAndDay? (year : Nat) (text : List Char) : Option (String × List Char) := do
  let (month, rest) ← fixed? 2 1 12 text
  let rest ← expect? '-' rest
  let (day, rest) ← fixed? 2 1 (daysIn year month) rest
  timeAfterDate? s!"{padded 4 year}-{padded 2 month}-{padded 2 day}" rest

def readDate (text : List Char) : Attempt String :=
  match yearAndDash? text with
  | none => .otherForm
  | some (year, rest) => .certain (monthAndDay? year rest)

def readDateOrTime (text : List Char) : Attempt Toml :=
  ((readDate text).orElse fun _ => readTime text).map .date

/-- Digits with single underscores between them, and what follows. The digits are returned without
the underscores; an underscore that no digit follows is an error. -/
def grouped (isDigit : Char → Bool) (read : List Char) : List Char → Option (List Char × List Char)
  | '_' :: c :: rest =>
    if isDigit c && !read.isEmpty then grouped isDigit (c :: read) rest
    else if read.isEmpty then some ([], '_' :: c :: rest) else none
  | ['_'] => if read.isEmpty then some ([], ['_']) else none
  | c :: rest =>
    if isDigit c then grouped isDigit (c :: read) rest else some (read.reverse, c :: rest)
  | [] => some (read.reverse, [])

def sign : List Char → List Char × List Char
  | '+' :: rest => (['+'], rest)
  | '-' :: rest => (['-'], rest)
  | text => ([], text)

/-- Decimal digits without a leading zero. -/
def wholeDigits? : List Char → Option (List Char × List Char)
  | '0' :: rest => some (['0'], rest)
  | c :: rest => if c.isDigit then grouped Char.isDigit [] (c :: rest) else none
  | [] => none

def someDigits? (text : List Char) : Option (List Char × List Char) :=
  match grouped Char.isDigit [] text with
  | some ([], _) | none => none
  | found => found

/-- The power of ten behind a number. -/
structure Exponent where
  sign : List Char
  digits : List Char

def readExponent : List Char → Attempt Exponent
  | [] => .otherForm
  | mark :: rest =>
    if mark = 'e' ∨ mark = 'E' then
      let (sign, rest) := sign rest
      .certain ((someDigits? rest).map fun (digits, rest) => ({ sign, digits }, rest))
    else .otherForm

/-- Whether a decimal number is too large for a double: at or above the midpoint between the largest
double and the power of two after it. -/
def overflows (digits : List Char) (fractionLength : Nat) (exponent : Exponent) : Bool :=
  let mantissa := digitsValue 10 digits
  let size : Int := (Nat.toDigits 10 mantissa).length
  let shift : Int := digitsValue 10 exponent.digits
  let power := (if exponent.sign = ['-'] then -shift else shift) - fractionLength
  if mantissa = 0 || size + power ≤ 308 then false
  else if 310 ≤ size + power then true
  else (Nat.pow 2 1024 - Nat.pow 2 970) * Nat.pow 10 (-power).toNat ≤
    mantissa * Nat.pow 10 power.toNat

/-- A decimal number above all doubles is refused; one below all of them is not. -/
def float? (sign whole fraction : List Char) (exponent : Exponent) (rest : List Char) :
    Option (Toml × List Char) :=
  if sign ≠ ['-'] && overflows (whole ++ fraction) fraction.length exponent then none
  else
    let point := if fraction.isEmpty then [] else '.' :: fraction
    let power := if exponent.digits.isEmpty then [] else 'e' :: exponent.sign ++ exponent.digits
    some (.float (String.ofList (sign ++ whole ++ point ++ power)), rest)

def readFloat (text : List Char) : Attempt Toml :=
  let (sign, unsigned) := sign text
  match wholeDigits? unsigned with
  | none => .otherForm
  | some (whole, '.' :: rest) =>
    .certain do
      let (fraction, rest) ← someDigits? rest
      match readExponent rest with
      | .otherForm => float? sign whole fraction ⟨[], []⟩ rest
      | .refused => none
      | .read exponent rest => float? sign whole fraction exponent rest
  | some (whole, rest) =>
    match readExponent rest with
    | .otherForm => .otherForm
    | .refused => .refused
    | .read exponent rest => .certain (float? sign whole [] exponent rest)

def readSpecialFloat (text : List Char) : Attempt Toml :=
  let (sign, unsigned) := sign text
  match unsigned with
  | 'i' :: 'n' :: 'f' :: rest => .read (.float (String.ofList (sign ++ ['i', 'n', 'f']))) rest
  | 'n' :: 'a' :: 'n' :: rest => .read (.float (String.ofList (sign ++ ['n', 'a', 'n']))) rest
  | _ => .otherForm

def integerLimit : Nat := Nat.pow 2 63 - 1

def isHexDigit (c : Char) : Bool :=
  c.isDigit || ('a' ≤ c && c ≤ 'f') || ('A' ≤ c && c ≤ 'F')

def isOctalDigit (c : Char) : Bool := '0' ≤ c && c ≤ '7'

def isBinaryDigit (c : Char) : Bool := c = '0' || c = '1'

def basedInteger? (base : Nat) (isDigit : Char → Bool) (text : List Char) :
    Option (Toml × List Char) :=
  match grouped isDigit [] text with
  | some ([], _) | none => none
  | some (digits, rest) =>
    let value := digitsValue base digits
    if value ≤ integerLimit then some (.integer value, rest) else none

def decimalInteger? (text : List Char) : Option (Toml × List Char) := do
  let (sign, unsigned) := sign text
  let (digits, rest) ← wholeDigits? unsigned
  let value := digitsValue 10 digits
  if sign = ['-'] then
    if value ≤ integerLimit + 1 then some (.integer (-(value : Int)), rest) else none
  else if value ≤ integerLimit then some (.integer value, rest) else none

def integer? : List Char → Option (Toml × List Char)
  | '0' :: 'x' :: rest => basedInteger? 16 isHexDigit rest
  | '0' :: 'o' :: rest => basedInteger? 8 isOctalDigit rest
  | '0' :: 'b' :: rest => basedInteger? 2 isBinaryDigit rest
  | text => decimalInteger? text

def number? (text : List Char) : Option (Toml × List Char) :=
  let found :=
    ((readDateOrTime text).orElse fun _ => readFloat text).orElse fun _ => readSpecialFloat text
  match found with
  | .otherForm => integer? text
  | outcome => outcome.read?

end Bindery.Toml
