import Bindery.Model.Query
import Mathlib.Data.List.TakeWhile

/-! The parameter list in the display name of a callable. It is the inside of the last group of
parentheses, if every parenthesis in there has its partner; and there is none if the last closing
parenthesis has no partner itself. -/

set_option autoImplicit false

namespace Bindery.Text

/-- Texts in which every parenthesis has its partner. -/
inductive Balanced : List Char → Prop
  | nil : Balanced []
  | char {c : Char} {rest : List Char} (notOpen : c ≠ '(') (notClose : c ≠ ')')
      (balanced : Balanced rest) : Balanced (c :: rest)
  | group {inside rest : List Char} (inner : Balanced inside) (balanced : Balanced rest) :
      Balanced ('(' :: (inside ++ ')' :: rest))

/-- Texts in which a number of closing parentheses, and no other ones, lack their partners. -/
inductive Closing : Nat → List Char → Prop
  | balanced {text : List Char} (balanced : Balanced text) : Closing 0 text
  | close {text rest : List Char} {inner : Nat} (balanced : Balanced text)
      (closing : Closing inner rest) : Closing (inner + 1) (text ++ ')' :: rest)

/-- A balanced group in parentheses, behind which nothing is closed. -/
def LastGroup (text inside : String) : Prop :=
  ∃ before after : String, text = before ++ "(" ++ inside ++ ")" ++ after ∧
    Balanced inside.toList ∧ ')' ∉ after.toList

variable {inner : Nat} {inside text rest : List Char} {c : Char}

/-! ## Reading backwards -/

theorem groupBefore_char (notOpen : c ≠ '(') (notClose : c ≠ ')') :
    groupBefore inner inside (c :: rest) = groupBefore inner (c :: inside) rest := by
  rw [groupBefore]
  · exact notClose
  · exact notOpen

/-- What is balanced is read as a whole. -/
theorem groupBefore_reverse_append (balanced : Balanced text) :
    groupBefore inner inside (text.reverse ++ rest) = groupBefore inner (text ++ inside) rest := by
  induction balanced generalizing inner inside rest with
  | nil => rfl
  | @char c text notOpen notClose _ ih =>
    rw [List.reverse_cons, List.append_assoc, ih]
    exact groupBefore_char notOpen notClose
  | @group first last _ _ inward onward =>
    -- Back to front, the closing parenthesis is met before the inside and the opening one behind it.
    have split : ('(' :: (first ++ ')' :: last)).reverse ++ rest =
        last.reverse ++ ')' :: (first.reverse ++ '(' :: rest) := by simp
    rw [split, onward, groupBefore, inward, groupBefore]
    simp

namespace Closing

theorem char (notOpen : c ≠ '(') (notClose : c ≠ ')') (closing : Closing inner text) :
    Closing inner (c :: text) := by
  cases closing with
  | balanced balanced => exact .balanced (.char notOpen notClose balanced)
  | close balanced closing => exact .close (.char notOpen notClose balanced) closing

/-- An opening parenthesis is the partner of the first closing one. -/
theorem opening (closing : Closing (inner + 1) text) : Closing inner ('(' :: text) := by
  cases closing with
  | close first closing =>
    cases closing with
    | balanced balanced => exact .balanced (.group first balanced)
    | @close next rest _ balanced closing =>
      have grouped := Closing.close (.group first balanced) closing
      simpa using grouped

end Closing

/-- What is read back to front up to the parenthesis that opens it is balanced. -/
theorem exists_of_groupBefore {found : List Char} (closing : Closing inner inside)
    (read : groupBefore inner inside text = some found) :
    Balanced found ∧ ∃ front before, found = front ++ inside ∧
      text = front.reverse ++ '(' :: before := by
  -- On the way the partners of `inner` closing parentheses are still to be met.
  induction text generalizing inner inside with
  | nil => cases read
  | cons c rest ih =>
    by_cases closes : c = ')'
    · subst closes
      have further : Closing (inner + 1) (')' :: inside) := .close .nil closing
      obtain ⟨balanced, front, before, rfl, rfl⟩ := ih further read
      exact ⟨balanced, front ++ [')'], before, by simp, by simp⟩
    · by_cases opens : c = '('
      · subst opens
        cases inner with
        | zero =>
          cases read
          cases closing with
          | balanced balanced => exact ⟨balanced, [], rest, rfl, rfl⟩
        | succ inner =>
          obtain ⟨balanced, front, before, rfl, rfl⟩ := ih closing.opening read
          exact ⟨balanced, front ++ ['('], before, by simp, by simp⟩
      · rw [groupBefore_char opens closes] at read
        obtain ⟨balanced, front, before, rfl, rfl⟩ := ih (closing.char opens closes) read
        exact ⟨balanced, front ++ [c], before, by simp, by simp⟩

/-! ## The last group -/

-- Reading back to front starts behind the last closing parenthesis.
theorem lastGroup?_append {before after : List Char} (passed : ')' ∉ after) :
    lastGroup? (before ++ ')' :: after) = groupBefore 0 [] before.reverse := by
  have reversed : (before ++ ')' :: after).reverse = after.reverse ++ ')' :: before.reverse := by simp
  have skipped : ∀ c ∈ after.reverse, decide (c ≠ ')') = true := by
    intro c member
    rw [List.mem_reverse] at member
    exact decide_eq_true fun same => passed (same ▸ member)
  rw [lastGroup?, reversed, List.dropWhile_append_of_pos skipped]
  rfl

theorem lastGroup?_eq_some_iff {text inside : List Char} :
    lastGroup? text = some inside ↔ Balanced inside ∧ ∃ before after,
      text = before ++ '(' :: (inside ++ ')' :: after) ∧ ')' ∉ after := by
  constructor
  · intro found
    by_cases closed : ')' ∈ text.reverse
    · obtain ⟨back, front, split, passed⟩ := List.eq_append_cons_of_mem closed
      have whole : text = front.reverse ++ ')' :: back.reverse := by
        rw [← List.reverse_reverse text, split]
        simp
      rw [whole, lastGroup?_append (by simpa using passed), List.reverse_reverse] at found
      obtain ⟨balanced, inner, before, rfl, rfl⟩ := exists_of_groupBefore (.balanced .nil) found
      exact ⟨balanced, before.reverse, back.reverse, by simp [whole], by simpa using passed⟩
    · have none : text.reverse.dropWhile (fun c => c ≠ ')') = [] := by
        rw [List.dropWhile_eq_nil_iff]
        intro c member
        exact decide_eq_true fun same => closed (same ▸ member)
      rw [lastGroup?, none] at found
      cases found
  · rintro ⟨balanced, before, after, rfl, passed⟩
    have split : before ++ '(' :: (inside ++ ')' :: after) =
        (before ++ '(' :: inside) ++ ')' :: after := by simp
    have reversed : (before ++ '(' :: inside).reverse =
        inside.reverse ++ '(' :: before.reverse := by simp
    rw [split, lastGroup?_append passed, reversed, groupBefore_reverse_append balanced, groupBefore,
      List.append_nil]

theorem balanced_iff : Balanced text ↔ lastGroup? ('(' :: (text ++ [')'])) = some text := by
  rw [lastGroup?_eq_some_iff]
  exact ⟨fun balanced => ⟨balanced, [], [], rfl, List.not_mem_nil⟩, fun found => found.1⟩

instance : DecidablePred Balanced := fun _ => decidable_of_iff _ balanced_iff.symm

theorem lastGroup_iff {text inside : String} :
    LastGroup text inside ↔ lastGroup? text.toList = some inside.toList := by
  rw [lastGroup?_eq_some_iff]
  constructor
  · rintro ⟨before, after, rfl, balanced, passed⟩
    exact ⟨balanced, before.toList, after.toList, by simp, passed⟩
  · rintro ⟨balanced, before, after, split, passed⟩
    refine ⟨.ofList before, .ofList after, ?_, balanced, by simpa using passed⟩
    rw [← String.toList_inj, split]
    simp

theorem LastGroup.signature_eq {text inside : String} (group : LastGroup text inside) :
    signature text = inside := by
  rw [signature, lastGroup_iff.mp group, Option.getD_some, String.ofList_toList]

/-- The signature of a node is the inside of the last group of parentheses in its display name, which
is determined if it is balanced; without such a group the signature is empty. -/
theorem signature_lastGroup (m : Model) (id : NodeId) :
    (∀ inside, LastGroup (m.node id).displayName inside →
      m.signature id = inside ∧
        ∀ other, LastGroup (m.node id).displayName other → other = inside) ∧
    ((∀ inside, ¬ LastGroup (m.node id).displayName inside) → m.signature id = "") := by
  constructor
  · intro inside group
    exact ⟨group.signature_eq, fun other again => again.signature_eq.symm.trans group.signature_eq⟩
  · intro none
    cases found : lastGroup? (m.node id).displayName.toList with
    | none => rw [Model.signature, signature, found, Option.getD_none, String.ofList_nil]
    | some inside =>
      refine absurd (lastGroup_iff.mpr ?_) (none (.ofList inside))
      rw [found, String.toList_ofList]

/-- The call operator of a dial takes a function; the name of a macro has lost its opening
parenthesis. -/
def dial : Model where
  nodes := #[
    { kind := .callable .method, name := "operator()",
      displayName := "operator()(void (*)(int), int) const" },
    { kind := .callable .function, name := "ring", displayName := "ring)(" }]

theorem signature_lastGroup_dial :
    (LastGroup (dial.node ⟨0⟩).displayName "void (*)(int), int" ∧
      dial.signature ⟨0⟩ = "void (*)(int), int") ∧
    (∀ inside, ¬ LastGroup (dial.node ⟨1⟩).displayName inside) ∧ dial.signature ⟨1⟩ = "" := by
  have group : LastGroup (dial.node ⟨0⟩).displayName "void (*)(int), int" :=
    ⟨"operator()", " const", by decide +kernel, by decide +kernel, by decide +kernel⟩
  have none (inside : String) : ¬ LastGroup (dial.node ⟨1⟩).displayName inside := by
    have missing : lastGroup? (dial.node ⟨1⟩).displayName.toList = none := by decide +kernel
    rw [lastGroup_iff, missing]
    exact nofun
  exact ⟨⟨group, ((signature_lastGroup dial ⟨0⟩).1 _ group).1⟩, none,
    (signature_lastGroup dial ⟨1⟩).2 none⟩

end Bindery.Text
