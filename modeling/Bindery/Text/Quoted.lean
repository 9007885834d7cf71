import Bindery.Text.Unprintable

/-! Quoted text, the form in which messages show a name: between double quotes, with a backslash
before a quote or a backslash, the usual letters for line ends, tabs and the null character, and
the code point of every other character that cannot be shown. -/

set_option autoImplicit false

namespace Bindery.Text

/-- The code point in lower-case hexadecimal, without leading zeros. -/
def codePointEscape (c : Char) : List Char :=
  ['\\', 'u', '\x7b'] ++ Nat.toDigits 16 c.toNat ++ ['\x7d']

def quoteChar (c : Char) : List Char :=
  if c = '"' then ['\\', '"']
  else if c = '\\' then ['\\', '\\']
  else if c = '\n' then ['\\', 'n']
  else if c = '\r' then ['\\', 'r']
  else if c = '\t' then ['\\', 't']
  else if c = '\x00' then ['\\', '0']
  else if isUnprintable c then codePointEscape c
  else [c]

def quoted (text : String) : String :=
  String.ofList ('"' :: text.toList.flatMap quoteChar ++ ['"'])

end Bindery.Text
