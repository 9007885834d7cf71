/-! Qualified names: segments joined by a double colon. -/

set_option autoImplicit false

namespace Bindery.Text

/-- The parts between double colons, read from the left; a text without one is a single part. -/
def segmentChars : List Char → List (List Char)
  | [] => [[]]
  | ':' :: ':' :: rest => [] :: segmentChars rest
  | c :: rest =>
    match segmentChars rest with
    | [] => [[c]]
    | first :: others => (c :: first) :: others

def segments (path : String) : List String := (segmentChars path.toList).map String.ofList

/-- The part after the last double colon of a text, given and returned back to front. -/
def lastSegmentReversed : List Char → List Char
  | [] => []
  | ':' :: ':' :: _ => []
  | c :: rest => c :: lastSegmentReversed rest

def lastSegment (path : String) : String :=
  String.ofList (lastSegmentReversed path.toList.reverse).reverse

def qualified (names : List String) : String := "::".intercalate names

/-- A segment without a colon is its own only part. -/
theorem segmentChars_of_no_colon {text : List Char} (plain : ':' ∉ text) :
    segmentChars text = [text] := by
  induction text with
  | nil => rfl
  | cons c rest ih =>
    have head : c ≠ ':' := fun same => plain (same ▸ List.mem_cons_self)
    have tail : ':' ∉ rest := fun member => plain (List.mem_cons_of_mem c member)
    rw [segmentChars]
    · simp [ih tail]
    · intro _ same
      exact absurd same head

end Bindery.Text
