/-! White space as Unicode defines it, and trimming by it. -/

set_option autoImplicit false

namespace Bindery.Text

/-- The characters with the property `White_Space`. -/
def isBlank (c : Char) : Bool :=
  let code := c.toNat
  (0x9 ≤ code && code ≤ 0xd) || code = 0x20 || code = 0x85 || code = 0xa0 || code = 0x1680 ||
    (0x2000 ≤ code && code ≤ 0x200a) || code = 0x2028 || code = 0x2029 || code = 0x202f ||
    code = 0x205f || code = 0x3000

def dropBlanks (text : List Char) : List Char := text.dropWhile isBlank

def dropBlanksEnd (text : List Char) : List Char := (dropBlanks text.reverse).reverse

def trim (text : String) : String := String.ofList (dropBlanksEnd (dropBlanks text.toList))

def trimEnd (text : String) : String := String.ofList (dropBlanksEnd text.toList)

def isBlankText (text : String) : Bool := text.toList.all isBlank

end Bindery.Text
