import Mathlib.Data.List.Basic

/-! The lines of a text. A text put together of lines that end in line breaks is taken apart at its line
breaks, and where no line holds one itself, these are the lines it was put together of. -/

set_option autoImplicit false

namespace Bindery.Text

/-- The parts of a text before, between and after its line breaks. -/
def lines (text : String) : List String := (text.toList.splitOn '\n').map String.ofList

/-- A text on one line. -/
def Unbroken (text : String) : Prop := '\n' ∉ text.toList

instance (text : String) : Decidable (Unbroken text) :=
  inferInstanceAs (Decidable ('\n' ∉ text.toList))

theorem lines_of_unbroken {text : String} (plain : Unbroken text) : lines text = [text] := by
  rw [lines, List.splitOn_eq_singleton plain, List.map_singleton, String.ofList_toList]

theorem lines_append_break (text rest : String) :
    lines (text ++ "\n" ++ rest) = lines text ++ lines rest := by
  have apart : (text ++ "\n" ++ rest).toList = text.toList ++ '\n' :: rest.toList := by simp
  rw [lines, apart, List.splitOn_append_cons_self, List.map_append, lines, lines]

/-- Behind the last line break there is nothing. -/
theorem lines_join (parts : List String) :
    lines (String.join (parts.map fun part => part ++ "\n")) = parts.flatMap lines ++ [""] := by
  induction parts with
  | nil => rfl
  | cons part parts ih =>
    rw [List.map_cons, String.join_cons, lines_append_break, ih, List.flatMap_cons, List.append_assoc]

theorem flatMap_lines {parts : List String} (plain : ∀ part ∈ parts, Unbroken part) :
    parts.flatMap lines = parts := by
  induction parts with
  | nil => rfl
  | cons part parts ih =>
    rw [List.flatMap_cons, lines_of_unbroken (plain part List.mem_cons_self),
      ih fun other member => plain other (List.mem_cons_of_mem part member)]
    rfl

namespace Unbroken

theorem append {text other : String} (first : Unbroken text) (second : Unbroken other) :
    Unbroken (text ++ other) := by
  rw [Unbroken, String.toList_append, List.mem_append, not_or]
  exact ⟨first, second⟩

theorem intercalate {parts : List String} (plain : ∀ part ∈ parts, Unbroken part)
    {between : String} (single : Unbroken between) : Unbroken (between.intercalate parts) := by
  induction parts with
  | nil => exact List.not_mem_nil
  | cons part parts ih =>
    have first : Unbroken part := plain part List.mem_cons_self
    by_cases more : parts = []
    · rw [more, String.intercalate_singleton]
      exact first
    · rw [String.intercalate_cons_of_ne_nil more]
      exact (first.append single).append
        (ih fun other member => plain other (List.mem_cons_of_mem part member))

end Unbroken

end Bindery.Text
