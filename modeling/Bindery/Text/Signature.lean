/-! The parameter list in the display name of a callable: the last group of balanced parentheses,
so that `operator()(int)` has the parameters `int`, and what follows the group is ignored. -/

set_option autoImplicit false

namespace Bindery.Text

/-- Reads a text back to front until the parenthesis that opens the current group, with a number of
inner groups still to be opened; the text inside is returned in reading order. -/
def groupBefore (inner : Nat) (inside : List Char) : List Char → Option (List Char)
  | [] => none
  | ')' :: rest => groupBefore (inner + 1) (')' :: inside) rest
  | '(' :: rest =>
    match inner with
    | 0 => some inside
    | inner + 1 => groupBefore inner ('(' :: inside) rest
  | c :: rest => groupBefore inner (c :: inside) rest

/-- The inside of the group that the last closing parenthesis ends, if it is opened at all. -/
def lastGroup? (text : List Char) : Option (List Char) :=
  match text.reverse.dropWhile fun c => c ≠ ')' with
  | [] => none
  | _ :: before => groupBefore 0 [] before

def signature (displayName : String) : String :=
  String.ofList ((lastGroup? displayName.toList).getD [])

end Bindery.Text
