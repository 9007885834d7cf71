import Bindery.Text.Qualified
import Mathlib.Data.List.Basic

/-! Putting a qualified name together and taking it apart. Where no segment holds a colon, the segments
of a qualified name are the names that it was made of. -/

set_option autoImplicit false

namespace Bindery.Text

/-- The first double colon ends the first segment. -/
theorem segmentChars_append {name : List Char} (plain : ':' ∉ name) (rest : List Char) :
    segmentChars (name ++ ':' :: ':' :: rest) = name :: segmentChars rest := by
  induction name with
  | nil => rfl
  | cons c name ih =>
    have head : c ≠ ':' := fun same => plain (same ▸ List.mem_cons_self)
    have tail : ':' ∉ name := fun member => plain (List.mem_cons_of_mem c member)
    rw [List.cons_append, segmentChars]
    · simp [ih tail]
    · intro _ same
      exact absurd same head

theorem segments_of_no_colon {name : String} (plain : ':' ∉ name.toList) : segments name = [name] := by
  rw [segments, segmentChars_of_no_colon plain, List.map_singleton, String.ofList_toList]

theorem segments_append {name : String} (plain : ':' ∉ name.toList) (rest : String) :
    segments (name ++ "::" ++ rest) = name :: segments rest := by
  have apart : (name ++ "::" ++ rest).toList = name.toList ++ ':' :: ':' :: rest.toList := by simp
  rw [segments, apart, segmentChars_append plain, List.map_cons, String.ofList_toList, segments]

/-- A double colon in front makes an empty first segment. -/
theorem segments_anchored (path : String) : segments ("::" ++ path) = "" :: segments path := by
  have none : ':' ∉ "".toList := by simp
  simpa using segments_append none path

theorem qualified_singleton (name : String) : qualified [name] = name := String.intercalate_singleton

theorem qualified_cons {name : String} {names : List String} (more : names ≠ []) :
    qualified (name :: names) = name ++ "::" ++ qualified names :=
  String.intercalate_cons_of_ne_nil more

theorem qualified_append {names others : List String} (some : names ≠ []) (more : others ≠ []) :
    qualified (names ++ others) = qualified names ++ "::" ++ qualified others :=
  String.intercalate_append_of_ne_nil some more

/-- Taking a qualified name apart undoes putting it together. -/
theorem segments_qualified {names : List String} (some : names ≠ [])
    (plain : ∀ name ∈ names, ':' ∉ name.toList) : segments (qualified names) = names := by
  induction names with
  | nil => exact absurd rfl some
  | cons name rest ih =>
    have first : ':' ∉ name.toList := plain name List.mem_cons_self
    cases rest with
    | nil => exact segments_of_no_colon first
    | cons next others =>
      rw [qualified_cons (List.cons_ne_nil _ _), segments_append first,
        ih (List.cons_ne_nil _ _) fun other member => plain other (List.mem_cons_of_mem _ member)]

-- What holds no colon is passed over, whatever follows.
theorem lastSegmentReversed_append {name : List Char} (plain : ':' ∉ name) (before : List Char) :
    lastSegmentReversed (name ++ before) = name ++ lastSegmentReversed before := by
  induction name with
  | nil => rfl
  | cons c name ih =>
    have head : c ≠ ':' := fun same => plain (same ▸ List.mem_cons_self)
    have tail : ':' ∉ name := fun member => plain (List.mem_cons_of_mem c member)
    rw [List.cons_append, lastSegmentReversed]
    · rw [ih tail, List.cons_append]
    · intro _ same
      exact absurd same head

/-- The last segment of a qualified name is the last of the names. -/
theorem lastSegment_qualified (names : List String) {last : String} (plain : ':' ∉ last.toList) :
    lastSegment (qualified (names ++ [last])) = last := by
  have backwards : ':' ∉ last.toList.reverse := fun member => plain (List.mem_reverse.mp member)
  by_cases alone : names = []
  · rw [alone]
    have whole := lastSegmentReversed_append backwards []
    rw [List.append_nil, lastSegmentReversed, List.append_nil] at whole
    rw [List.nil_append, qualified_singleton, lastSegment, whole, List.reverse_reverse,
      String.ofList_toList]
  · have parts : qualified (names ++ [last]) = qualified names ++ "::" ++ last := by
      rw [qualified_append alone (List.cons_ne_nil _ _), qualified_singleton]
    have reversed : (qualified names ++ "::" ++ last).toList.reverse =
        last.toList.reverse ++ ':' :: ':' :: (qualified names).toList.reverse := by simp
    rw [parts, lastSegment, reversed, lastSegmentReversed_append backwards, lastSegmentReversed,
      List.append_nil, List.reverse_reverse, String.ofList_toList]

end Bindery.Text
