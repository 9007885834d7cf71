import Bindery.OrderedSet
import Bindery.Text.Blank

/-! The umbrella header: one inclusion for each distinct header, in the order in which the headers
are first named. -/

set_option autoImplicit false

namespace Bindery.Umbrella

/-- Names are taken without the white space around them, and blank ones are left out. -/
def distinctHeaders (headers : List String) : OrderedSet String :=
  .ofList ((headers.map Text.trim).filter fun header => !header.isEmpty)

def text (headers : List String) : String :=
  String.join ((distinctHeaders headers).toList.map fun header => "#include <" ++ header ++ ">\n")

end Bindery.Umbrella
