import Bindery.Json.Printer
import Bindery.Json.Reader
import Mathlib.Data.List.Forall2
import Mathlib.Tactic.SplitIfs

/-! Reading undoes printing. A document that is printed with its indentation is read back as it was,
whatever characters its strings hold; only numbers that are not natural keep a spelling that may be no
number at all, and are left aside. -/

set_option autoImplicit false

namespace Bindery.Json

/-- Documents whose numbers are natural. -/
inductive Plain : Json → Prop where
  | null : Plain .null
  | boolean (value : Bool) : Plain (.boolean value)
  | natural (value : Nat) : Plain (.natural value)
  | string (content : Text) : Plain (.string content)
  | array {items : List Json} (each : ∀ item ∈ items, Plain item) : Plain (.array items)
  | object {members : List (Text × Json)} (each : ∀ member ∈ members, Plain member.2) :
    Plain (.object members)

/-! ## Numbers -/

/-- What may follow a value: nothing, a comma, or another line. -/
inductive Closing : List Char → Prop where
  | nothing : Closing []
  | comma {rest : List Char} : Closing (',' :: rest)
  | line {rest : List Char} : Closing ('\n' :: rest)

theorem Closing.head_not_digit {rest : List Char} (closing : Closing rest) :
    rest.takeWhile Char.isDigit = [] ∧ rest.dropWhile Char.isDigit = rest := by
  cases closing <;> exact ⟨rfl, rfl⟩

theorem isDigit_of_mem_naturalChars {value : Nat} {c : Char} (member : c ∈ naturalChars value) :
    c.isDigit :=
  Nat.isDigit_of_mem_toDigits (by decide) (by decide) member

theorem naturalOfDigits_naturalChars (value : Nat) :
    naturalOfDigits (naturalChars value) = value := by
  have same : naturalOfDigits (naturalChars value) = Nat.ofDigitChars 10 (naturalChars value) 0 := by
    simp only [naturalOfDigits, Nat.ofDigitChars, Nat.mul_comm]
  exact same.trans Nat.ofDigitChars_ten_toDigits

theorem readDigits_naturalChars (value : Nat) {rest : List Char} (closing : Closing rest) :
    readDigits (naturalChars value ++ rest) = some (naturalChars value, rest) := by
  have digits : ∀ c ∈ naturalChars value, c.isDigit := fun c => isDigit_of_mem_naturalChars
  obtain ⟨taken, dropped⟩ := closing.head_not_digit
  unfold readDigits
  rw [List.takeWhile_append_of_pos digits, List.dropWhile_append_of_pos digits, taken, dropped,
    List.append_nil]
  cases shown : naturalChars value with
  | nil => exact absurd shown Nat.toDigits_ne_nil
  | cons => rfl

-- Only zero is written with a zero in front.
theorem eq_nil_of_zero_in_front {value : Nat} {rest : List Char}
    (shown : naturalChars value = '0' :: rest) : rest = [] := by
  induction value using Nat.strongRecOn generalizing rest with
  | ind value ih =>
    rw [naturalChars, Nat.toDigits_eq_if (by decide)] at shown
    split at shown
    · exact (List.cons.inj shown).2.symm
    · next large =>
      cases front : naturalChars (value / 10) with
      | nil => exact absurd front Nat.toDigits_ne_nil
      | cons c others =>
        -- The digits in front spell a number above zero.
        rw [naturalChars] at front
        rw [front, List.cons_append] at shown
        obtain ⟨rfl, _⟩ := List.cons.inj shown
        obtain rfl := ih (value / 10) (by omega) front
        have spelled := naturalOfDigits_naturalChars (value / 10)
        rw [naturalChars, front] at spelled
        have zero : naturalOfDigits ['0'] = 0 := rfl
        omega

theorem readInteger_naturalChars (value : Nat) {rest : List Char} (closing : Closing rest) :
    readInteger (naturalChars value ++ rest) = some (naturalChars value, rest) := by
  cases digits : naturalChars value with
  | nil => exact absurd digits Nat.toDigits_ne_nil
  | cons c others =>
    rw [List.cons_append, readInteger.eq_def]
    split
    · next shown =>
      obtain ⟨rfl, rfl⟩ := List.cons.inj shown
      rw [eq_nil_of_zero_in_front digits, List.nil_append]
    · rw [← List.cons_append, ← digits]
      exact readDigits_naturalChars value closing

theorem readNumber_naturalChars (value : Nat) {rest : List Char} (closing : Closing rest) :
    readNumber (naturalChars value ++ rest) = some (.natural value, rest) := by
  have whole : readUnsigned (naturalChars value ++ rest) = some (.natural value, rest) := by
    have fraction : readFraction rest = some ([], rest) := by cases closing <;> rfl
    have exponent : readExponent rest = some ([], rest) := by
      cases closing with
      | nothing => rfl
      | @comma rest => cases rest <;> rfl
      | @line rest => cases rest <;> rfl
    simp [readUnsigned, readInteger_naturalChars value closing, fraction, exponent,
      naturalOfDigits_naturalChars]
  rw [readNumber.eq_def]
  split
  · next after shown =>
    have sign : '-' ∈ naturalChars value := by
      cases digits : naturalChars value with
      | nil => exact absurd digits Nat.toDigits_ne_nil
      | cons c others =>
        rw [digits, List.cons_append] at shown
        rw [(List.cons.inj shown).1]
        exact List.mem_cons_self
    exact absurd (isDigit_of_mem_naturalChars sign) (by decide)
  · exact whole

/-! ## Strings -/

/-- The three ways to write a character in a string. -/
inductive Written (c : Char) : List Char → Prop where
  | escaped {letter : Char} (simple : simpleEscape? letter = some c) : Written c ['\\', letter]
  | control (small : c.toNat < 0x20) : Written c ('\\' :: 'u' :: controlDigits c.toNat)
  | plain (quote : c ≠ '"') (backslash : c ≠ '\\') (large : ¬ c.toNat < 0x20) : Written c [c]

theorem written_escapeChar (c : Char) : Written c (escapeChar c) := by
  unfold escapeChar
  split_ifs with quote backslash backspace feed line carriage tab small
  · exact .escaped (congrArg some quote.symm)
  · exact .escaped (congrArg some backslash.symm)
  · exact .escaped (congrArg some backspace.symm)
  · exact .escaped (congrArg some feed.symm)
  · exact .escaped (congrArg some line.symm)
  · exact .escaped (congrArg some carriage.symm)
  · exact .escaped (congrArg some tab.symm)
  · exact .control small
  · exact .plain quote backslash small

/-- A piece read for a character: the character itself, or the unit of a control character. -/
inductive Piece.Spells : Piece → Char → Prop where
  | char (c : Char) : Spells (.char c) c
  | control {c : Char} (small : c.toNat < 0x20) : Spells (.unit c.toNat) c

theorem hexDigit?_digitChar : ∀ digit < 16, hexDigit? (Nat.digitChar digit) = some digit := by
  decide

/-- A character that is written in a string is read as one piece. -/
theorem Written.exists_piece {c : Char} {chars : List Char} (written : Written c chars) :
    ∃ piece : Piece, piece.Spells c ∧ ∀ (read : List Piece) (rest : List Char),
      readPieces read (chars ++ rest) = readPieces (piece :: read) rest := by
  cases written with
  | @escaped letter simple =>
    refine ⟨.char c, .char c, fun read rest => ?_⟩
    rw [List.cons_append, List.cons_append, List.nil_append, readPieces]
    · rw [simple]
    · rintro a b c d rest rfl
      cases simple
  | control small =>
    have first := hexDigit?_digitChar (c.toNat / 16) (by omega)
    have second := hexDigit?_digitChar (c.toNat % 16) (by omega)
    have zero : hexDigit? '0' = some 0 := rfl
    have whole : ((0 * 16 + 0) * 16 + c.toNat / 16) * 16 + c.toNat % 16 = c.toNat := by omega
    refine ⟨.unit c.toNat, .control small, fun read rest => ?_⟩
    simp only [controlDigits, List.cons_append, List.nil_append, readPieces, first, second, zero,
      whole]
  | plain quote backslash large =>
    refine ⟨.char c, .char c, fun read rest => ?_⟩
    rw [List.cons_append, List.nil_append, readPieces]
    · simp [large, backslash]
    · exact quote
    · exact fun _ _ _ _ _ same _ => backslash same
    · exact fun _ _ same _ => backslash same

theorem exists_pieces (chars : List Char) :
    ∃ pieces : List Piece, List.Forall₂ Piece.Spells pieces chars ∧
      ∀ (read : List Piece) (rest : List Char),
        readPieces read (chars.flatMap escapeChar ++ '"' :: rest) =
          some (read.reverse ++ pieces, rest) := by
  induction chars with
  | nil => exact ⟨[], .nil, fun read rest => by rw [List.append_nil]; rfl⟩
  | cons c chars ih =>
    obtain ⟨piece, spells, first⟩ := (written_escapeChar c).exists_piece
    obtain ⟨pieces, others, later⟩ := ih
    refine ⟨piece :: pieces, .cons spells others, fun read rest => ?_⟩
    rw [List.flatMap_cons, List.append_assoc, first, later, List.reverse_cons, List.append_assoc]
    rfl

-- A unit that is no surrogate does not wait for another.
theorem joinPieces_control {c : Char} (small : c.toNat < 0x20) (read : List Char)
    (pieces : List Piece) :
    joinPieces read (.unit c.toNat :: pieces) = joinPieces (c :: read) pieces := by
  have high : isHighSurrogate c.toNat = false := by
    simp only [isHighSurrogate, Bool.and_eq_false_iff, decide_eq_false_iff_not]
    omega
  have low : isLowSurrogate c.toNat = false := by
    simp only [isLowSurrogate, Bool.and_eq_false_iff, decide_eq_false_iff_not]
    omega
  cases pieces with
  | nil => simp [joinPieces, high, low, Char.ofNat_toNat]
  | cons piece rest => cases piece <;> simp [joinPieces, high, low, Char.ofNat_toNat]

theorem joinPieces_of_spells {pieces : List Piece} {chars : List Char}
    (spells : List.Forall₂ Piece.Spells pieces chars) (read : List Char) :
    joinPieces read pieces = some (String.ofList (read.reverse ++ chars)) := by
  induction spells generalizing read with
  | nil => simp [joinPieces]
  | @cons piece c pieces chars first _ ih =>
    have joined : joinPieces read (piece :: pieces) = joinPieces (c :: read) pieces := by
      cases first with
      | char => rw [joinPieces]
      | control small => exact joinPieces_control small read pieces
    rw [joined, ih, List.reverse_cons, List.append_assoc]
    rfl

theorem readString_stringChars (content : String) (rest : List Char) :
    readString (content.toList.flatMap escapeChar ++ '"' :: rest) = some (some content, rest) := by
  obtain ⟨pieces, spells, read⟩ := exists_pieces content.toList
  simp [readString, read, joinPieces_of_spells spells]

/-- The spelling of a string is its opening quote and what is read as the string. -/
theorem exists_textChars (content : Text) :
    ∃ chars, textChars content = '"' :: chars ∧
      ∀ rest, readString (chars ++ rest) = some (content, rest) := by
  cases content with
  | none => exact ⟨_, rfl, fun rest => rfl⟩
  | some content =>
    refine ⟨content.toList.flatMap escapeChar ++ ['"'], rfl, fun rest => ?_⟩
    rw [List.append_assoc]
    exact readString_stringChars content rest

/-! ## White space -/

theorem skipSpace_cons {c : Char} (shows : isSpace c = false) (rest : List Char) :
    skipSpace (c :: rest) = c :: rest := by
  simp [skipSpace, shows]

theorem skipSpace_lineStart (depth : Nat) {c : Char} (shows : isSpace c = false)
    (rest : List Char) : skipSpace (lineStart depth ++ c :: rest) = c :: rest := by
  have blank : ∀ d ∈ lineStart depth, isSpace d := by
    intro d member
    rcases List.mem_cons.mp member with rfl | space
    · rfl
    · rw [List.eq_of_mem_replicate space]
      rfl
  rw [skipSpace, List.dropWhile_append_of_pos blank]
  exact skipSpace_cons shows rest

/-! ## Values -/

-- A value is told from white space and from the end of an array by its first character.
theorem Plain.exists_cons {v : Json} (plain : Plain v) (depth : Nat) :
    ∃ c chars, prettyChars depth v = c :: chars ∧ isSpace c = false ∧ c ≠ ']' := by
  cases plain with
  | null => exact ⟨_, _, rfl, rfl, by decide⟩
  | boolean value => cases value <;> exact ⟨_, _, rfl, rfl, by decide⟩
  | natural value =>
    rw [prettyChars]
    cases digits : naturalChars value with
    | nil => exact absurd digits Nat.toDigits_ne_nil
    | cons c chars =>
      have digit : c.isDigit := isDigit_of_mem_naturalChars (digits ▸ List.mem_cons_self)
      refine ⟨c, chars, rfl, ?_, ?_⟩
      · cases shows : isSpace c with
        | false => rfl
        | true =>
          simp only [isSpace, Bool.or_eq_true, decide_eq_true_eq] at shows
          rcases shows with ((rfl | rfl) | rfl) | rfl <;> cases digit
      · rintro rfl
        cases digit
  | string content =>
    obtain ⟨chars, spelled, _⟩ := exists_textChars content
    exact ⟨'"', chars, by rw [prettyChars, spelled], rfl, by decide⟩
  | @array items _ => cases items <;> exact ⟨_, _, rfl, rfl, by decide⟩
  | @object members _ =>
    cases members with
    | nil => exact ⟨_, _, rfl, rfl, by decide⟩
    | cons member members => exact ⟨_, _, rfl, rfl, by decide⟩

/-- A value is read back where it is followed by what may follow a value. -/
def Reads (v : Json) : Prop :=
  ∀ (depth bound : Nat) (rest : List Char), Closing rest → (prettyChars depth v).length < bound →
    readValue bound (prettyChars depth v ++ rest) = some (v, rest)

theorem reads_natural (value : Nat) : Reads (.natural value) := by
  intro depth bound rest closing enough
  obtain ⟨bound, rfl⟩ := Nat.exists_eq_succ_of_ne_zero (Nat.ne_of_gt (Nat.zero_lt_of_lt enough))
  have read := readNumber_naturalChars value closing
  rw [prettyChars] at enough ⊢
  cases digits : naturalChars value with
  | nil => exact absurd digits Nat.toDigits_ne_nil
  | cons c chars =>
    have digit : c.isDigit := isDigit_of_mem_naturalChars (digits ▸ List.mem_cons_self)
    rw [digits, List.cons_append] at read
    rw [List.cons_append, readValue]
    · exact read
    -- No other value begins with a digit.
    all_goals
      intro _ same
      rw [(List.cons.inj same).1] at digit
      cases digit

theorem closing_lineStart (depth : Nat) (rest : List Char) : Closing (lineStart depth ++ rest) := .line

-- What follows an item is another item or the line of the closing bracket.
theorem closing_prettyItems (depth outer : Nat) (items : List Json) (rest : List Char) :
    Closing (prettyItems depth items ++ (lineStart outer ++ rest)) := by
  cases items with
  | nil => exact closing_lineStart outer rest
  | cons => exact .comma

theorem readItems_prettyItems {item : Json} {items : List Json} (first : Reads item)
    (rest : ∀ item ∈ items, Reads item ∧ Plain item) (depth outer bound : Nat) (after : List Char)
    (enough : (prettyChars depth item ++ prettyItems depth items).length + 1 < bound) :
    readItems bound (prettyChars depth item ++ (prettyItems depth items ++
      (lineStart outer ++ ']' :: after))) = some (item :: items, after) := by
  induction items generalizing item bound with
  | nil =>
    obtain ⟨bound, rfl⟩ := Nat.exists_eq_succ_of_ne_zero (Nat.ne_of_gt (Nat.zero_lt_of_lt enough))
    have read := first depth bound _ (closing_prettyItems depth outer [] (']' :: after))
      (by simp only [List.length_append] at enough; omega)
    have close : skipSpace (lineStart outer ++ ']' :: after) = ']' :: after :=
      skipSpace_lineStart outer rfl after
    rw [readItems, read]
    simp only [prettyItems, List.nil_append, close]
  | cons next items ih =>
    obtain ⟨bound, rfl⟩ := Nat.exists_eq_succ_of_ne_zero (Nat.ne_of_gt (Nat.zero_lt_of_lt enough))
    simp only [prettyItems, List.length_append, List.length_cons] at enough
    have read := first depth bound _
      (closing_prettyItems depth outer (next :: items) (']' :: after)) (by omega)
    obtain ⟨reads, plain⟩ := rest next List.mem_cons_self
    obtain ⟨c, chars, shown, visible, _⟩ := plain.exists_cons depth
    have later := ih reads (fun item member => rest item (List.mem_cons_of_mem next member)) bound
      (by simp only [List.length_append]; omega)
    have comma : skipSpace (prettyItems depth (next :: items) ++ (lineStart outer ++ ']' :: after)) =
        ',' :: (lineStart depth ++ prettyChars depth next ++ prettyItems depth items ++
          (lineStart outer ++ ']' :: after)) :=
      skipSpace_cons rfl _
    have line : skipSpace (lineStart depth ++ prettyChars depth next ++ prettyItems depth items ++
        (lineStart outer ++ ']' :: after)) = prettyChars depth next ++ (prettyItems depth items ++
          (lineStart outer ++ ']' :: after)) := by
      rw [shown, List.append_assoc, List.append_assoc]
      exact skipSpace_lineStart depth visible _
    rw [readItems, read]
    simp only [comma, line, later, Option.map_some]

-- A bracket that is not closed at once has items in it.
theorem readValue_bracket {bound : Nat} {text chars : List Char} {c : Char}
    (line : skipSpace text = c :: chars) (further : c ≠ ']') :
    readValue (bound + 1) ('[' :: text) =
      (readItems bound (c :: chars)).map fun (items, rest) => (.array items, rest) := by
  rw [readValue, line]
  split
  · next same => exact absurd (List.cons.inj same).1 further
  · rfl

theorem reads_array {items : List Json} (each : ∀ item ∈ items, Reads item ∧ Plain item) :
    Reads (.array items) := by
  intro depth bound rest closing enough
  obtain ⟨bound, rfl⟩ := Nat.exists_eq_succ_of_ne_zero (Nat.ne_of_gt (Nat.zero_lt_of_lt enough))
  cases items with
  | nil => rfl
  | cons item items =>
    obtain ⟨reads, plain⟩ := each item List.mem_cons_self
    obtain ⟨c, chars, shown, visible, further⟩ := plain.exists_cons (depth + 1)
    simp only [prettyChars, List.length_append, List.length_cons] at enough
    have read := readItems_prettyItems reads
      (fun item member => each item (List.mem_cons_of_mem _ member)) (depth + 1) depth bound rest
      (by simp only [List.length_append]; omega)
    have whole : prettyChars depth (.array (item :: items)) ++ rest =
        '[' :: (lineStart (depth + 1) ++ (prettyChars (depth + 1) item ++
          (prettyItems (depth + 1) items ++ (lineStart depth ++ ']' :: rest)))) := by
      simp [prettyChars]
    rw [whole]
    rw [shown, List.cons_append] at read ⊢
    have line := skipSpace_lineStart (depth + 1) visible
      (chars ++ (prettyItems (depth + 1) items ++ (lineStart depth ++ ']' :: rest)))
    rw [readValue_bracket line further, read]
    rfl

theorem closing_prettyMembers (depth outer : Nat) (members : List (Text × Json))
    (rest : List Char) : Closing (prettyMembers depth members ++ (lineStart outer ++ rest)) := by
  cases members with
  | nil => exact closing_lineStart outer rest
  | cons => exact .comma

/-- A member is read up to its value; a brace after it ends the members, and a comma leads to the next
one. -/
theorem readMembers_member {key : Text} {v : Json} (reads : Reads v) (plain : Plain v)
    (depth bound : Nat) {rest : List Char} (closing : Closing rest)
    (enough : (prettyChars depth v).length < bound) (after : List Char) :
    (skipSpace rest = '\x7d' :: after →
      readMembers (bound + 1) (textChars key ++ (':' :: ' ' :: (prettyChars depth v ++ rest))) =
        some ([(key, v)], after)) ∧
    (skipSpace rest = ',' :: after →
      readMembers (bound + 1) (textChars key ++ (':' :: ' ' :: (prettyChars depth v ++ rest))) =
        (readMembers bound (skipSpace after)).map fun (members, rest) =>
          ((key, v) :: members, rest)) := by
  obtain ⟨c, chars, shown, visible, _⟩ := plain.exists_cons depth
  obtain ⟨spelled, quoted, read⟩ := exists_textChars key
  have colon (text : List Char) : skipSpace (':' :: text) = ':' :: text := skipSpace_cons rfl text
  have space : skipSpace (' ' :: (prettyChars depth v ++ rest)) = prettyChars depth v ++ rest := by
    rw [shown]
    exact skipSpace_cons visible _
  have value := reads depth bound rest closing enough
  rw [quoted, List.cons_append, readMembers, read]
  constructor
  · intro close
    simp only [colon, space, value, close]
  · intro comma
    simp only [colon, space, value, comma]

theorem readMembers_prettyMembers (key : Text) {v : Json} {members : List (Text × Json)}
    (first : Reads v ∧ Plain v) (rest : ∀ member ∈ members, Reads member.2 ∧ Plain member.2)
    (depth outer bound : Nat) (after : List Char)
    (enough : (prettyChars depth v ++ prettyMembers depth members).length + 1 < bound) :
    readMembers bound (textChars key ++ (':' :: ' ' :: (prettyChars depth v ++
      (prettyMembers depth members ++ (lineStart outer ++ '\x7d' :: after))))) =
        some ((key, v) :: members, after) := by
  induction members generalizing key v bound with
  | nil =>
    obtain ⟨bound, rfl⟩ := Nat.exists_eq_succ_of_ne_zero (Nat.ne_of_gt (Nat.zero_lt_of_lt enough))
    have close : skipSpace (lineStart outer ++ '\x7d' :: after) = '\x7d' :: after :=
      skipSpace_lineStart outer rfl after
    exact (readMembers_member first.1 first.2 depth bound (closing_prettyMembers depth outer [] _)
      (by simp only [List.length_append] at enough; omega) after).1 close
  | cons next members ih =>
    obtain ⟨bound, rfl⟩ := Nat.exists_eq_succ_of_ne_zero (Nat.ne_of_gt (Nat.zero_lt_of_lt enough))
    obtain ⟨nextKey, nextValue⟩ := next
    simp only [prettyMembers, List.length_append, List.length_cons] at enough
    have later := ih nextKey (rest (nextKey, nextValue) List.mem_cons_self)
      (fun member listed => rest member (List.mem_cons_of_mem _ listed)) bound
      (by simp only [List.length_append]; omega)
    obtain ⟨chars, quoted, _⟩ := exists_textChars nextKey
    have comma : skipSpace (prettyMembers depth ((nextKey, nextValue) :: members) ++
        (lineStart outer ++ '\x7d' :: after)) =
        ',' :: (lineStart depth ++ (textChars nextKey ++ (':' :: ' ' :: (prettyChars depth nextValue
          ++ (prettyMembers depth members ++ (lineStart outer ++ '\x7d' :: after)))))) := by
      simp only [prettyMembers, List.cons_append, List.append_assoc, List.nil_append]
      exact skipSpace_cons rfl _
    have line := skipSpace_lineStart depth (c := '"') rfl (chars ++ (':' :: ' ' ::
      (prettyChars depth nextValue ++ (prettyMembers depth members ++
        (lineStart outer ++ '\x7d' :: after)))))
    rw [← List.cons_append, ← quoted] at line
    rw [(readMembers_member first.1 first.2 depth bound (closing_prettyMembers depth outer _ _)
      (by omega) _).2 comma, line, later]
    rfl

theorem reads_object {members : List (Text × Json)}
    (each : ∀ member ∈ members, Reads member.2 ∧ Plain member.2) : Reads (.object members) := by
  intro depth bound rest closing enough
  obtain ⟨bound, rfl⟩ := Nat.exists_eq_succ_of_ne_zero (Nat.ne_of_gt (Nat.zero_lt_of_lt enough))
  cases members with
  | nil => rfl
  | cons member members =>
    obtain ⟨key, v⟩ := member
    simp only [prettyChars, List.length_append, List.length_cons] at enough
    have read := readMembers_prettyMembers key (each (key, v) List.mem_cons_self)
      (fun member listed => each member (List.mem_cons_of_mem _ listed)) (depth + 1) depth bound
      rest (by simp only [List.length_append]; omega)
    have whole : prettyChars depth (.object ((key, v) :: members)) ++ rest =
        '\x7b' :: (lineStart (depth + 1) ++ (textChars key ++ (':' :: ' ' ::
          (prettyChars (depth + 1) v ++ (prettyMembers (depth + 1) members ++
            (lineStart depth ++ '\x7d' :: rest)))))) := by
      simp [prettyChars]
    obtain ⟨chars, quoted, _⟩ := exists_textChars key
    rw [whole]
    rw [quoted, List.cons_append] at read ⊢
    rw [readValue, skipSpace_lineStart (depth + 1) rfl]
    exact congrArg (Option.map fun (members, rest) => (object members, rest)) read

/-- Every plain value is read back. -/
theorem Plain.reads {v : Json} (plain : Plain v) : Reads v := by
  induction plain with
  | null =>
    intro depth bound rest closing enough
    obtain ⟨bound, rfl⟩ := Nat.exists_eq_succ_of_ne_zero (Nat.ne_of_gt (Nat.zero_lt_of_lt enough))
    rfl
  | boolean value =>
    intro depth bound rest closing enough
    obtain ⟨bound, rfl⟩ := Nat.exists_eq_succ_of_ne_zero (Nat.ne_of_gt (Nat.zero_lt_of_lt enough))
    cases value <;> rfl
  | natural value => exact reads_natural value
  | string content =>
    intro depth bound rest closing enough
    obtain ⟨bound, rfl⟩ := Nat.exists_eq_succ_of_ne_zero (Nat.ne_of_gt (Nat.zero_lt_of_lt enough))
    obtain ⟨chars, quoted, read⟩ := exists_textChars content
    rw [prettyChars, quoted, List.cons_append, readValue, read]
    rfl
  | array plain ih => exact reads_array fun item member => ⟨ih item member, plain item member⟩
  | object plain ih => exact reads_object fun member listed => ⟨ih member listed, plain member listed⟩

theorem parse?_pretty {v : Json} (plain : Plain v) : parse? (pretty v) = some v := by
  obtain ⟨c, chars, shown, visible, _⟩ := plain.exists_cons 0
  have front : skipSpace (prettyChars 0 v) = prettyChars 0 v := by
    rw [shown]
    exact skipSpace_cons visible chars
  have read := plain.reads 0 ((prettyChars 0 v).length + 1) [] .nothing (Nat.lt_succ_self _)
  rw [List.append_nil] at read
  have blank : skipSpace [] = [] := rfl
  simp only [parse?, pretty, String.toList_ofList, front, read, blank, List.isEmpty_nil, if_true]

end Bindery.Json
