import Bindery.Proofs.Lookup

/-! Paths put together. Looking up one path and then another from there is looking up both in one, and
what fails on the way fails in the same way whatever comes behind it. Errors quote the whole path that
was asked for, and apart from that text they are the same. -/

set_option autoImplicit false

namespace Bindery

open Ast (TranslationUnit)

/-- One or more names that can stand in a path. -/
structure Path where
  segments : List String
  nonempty : segments ≠ []
  proper : ∀ name ∈ segments, Text.Segment name

namespace Path

variable (p q : Path)

def text : String := Text.qualified p.segments

def append : Path where
  segments := p.segments ++ q.segments
  nonempty := List.append_ne_nil_of_left_ne_nil p.nonempty _
  proper name member := (List.mem_append.mp member).elim (p.proper name) (q.proper name)

instance : Append Path := ⟨append⟩

theorem segments_append : (p ++ q).segments = p.segments ++ q.segments := rfl

theorem text_append : (p ++ q).text = p.text ++ "::" ++ q.text :=
  Text.qualified_append p.nonempty q.nonempty

theorem exists_last : ∃ names last, p.segments = names ++ [last] :=
  ⟨_, _, (List.dropLast_append_getLast p.nonempty).symm⟩

end Path

/-- The same failure, told of another path. -/
def LookupError.withPath (path : String) : LookupError → LookupError
  | .notFound _ segment => .notFound path segment
  | .ambiguous _ segment count => .ambiguous path segment count
  | .emptyPath => .emptyPath

theorem mapError_bind {ε α β : Type} (change : ε → ε) (first : Except ε α)
    {next changed : α → Except ε β} (same : ∀ value, changed value = (next value).mapError change) :
    first.mapError change >>= changed = (first >>= next).mapError change := by
  cases first with
  | error => rfl
  | ok value => exact same value

namespace Model

variable (m : Model) (path other : String)

/-- The one node of a set that was found for a segment. -/
def single (segment : String) (set : OrderedSet NodeId) : Except LookupError NodeId :=
  match set.toList with
  | [id] => .ok id
  | _ => .error (.ambiguous path segment set.size)

theorem namedOne_eq_bind (scope : NodeId) (segment : String) :
    m.namedOne scope path segment = m.named scope path segment >>= single path segment := by
  unfold namedOne
  cases m.named scope path segment <;> rfl

theorem lookupOne_eq_bind (scope : NodeId) :
    m.lookupOne scope path = m.lookup scope path >>= single path (Text.lastSegment path) := by
  unfold lookupOne
  cases m.lookup scope path <;> rfl

/-! ## Quoting another path -/

theorem named_withPath (scope : NodeId) (segment : String) :
    m.named scope path segment = (m.named scope other segment).mapError (.withPath path) := by
  unfold named
  split
  · rfl
  · split <;> rfl

theorem single_withPath (segment : String) (set : OrderedSet NodeId) :
    single path segment set = (single other segment set).mapError (.withPath path) := by
  unfold single
  split <;> rfl

theorem namedOne_withPath (scope : NodeId) (segment : String) :
    m.namedOne scope path segment = (m.namedOne scope other segment).mapError (.withPath path) := by
  rw [namedOne_eq_bind, namedOne_eq_bind, m.named_withPath path other]
  exact mapError_bind _ _ (single_withPath path other segment)

theorem follow_cons (scope : NodeId) (segment : String) {rest : List String} (more : rest ≠ []) :
    m.follow path scope (segment :: rest) =
      m.namedOne scope path segment >>= fun next => m.follow path next rest := by
  rw [follow]
  · cases m.namedOne scope path segment <;> rfl
  · exact more

theorem follow_withPath (scope : NodeId) (segments : List String) :
    m.follow path scope segments = (m.follow other scope segments).mapError (.withPath path) := by
  induction segments generalizing scope with
  | nil => rfl
  | cons segment rest ih =>
    by_cases more : rest = []
    · subst more
      exact m.named_withPath path other scope segment
    · rw [follow_cons m path scope segment more, follow_cons m other scope segment more,
        m.namedOne_withPath path other]
      exact mapError_bind _ _ ih

/-! ## Following one path after another -/

/-- Whoever goes on behind a path makes sure that there is a single node at its end. -/
theorem follow_append (scope : NodeId) (names : List String) (last : String) {rest : List String}
    (more : rest ≠ []) :
    m.follow path scope (names ++ [last] ++ rest) =
      (m.follow path scope (names ++ [last]) >>= single path last) >>= fun next =>
        m.follow path next rest := by
  induction names generalizing scope with
  | nil =>
    rw [List.nil_append, List.singleton_append, follow_cons m path scope last more, namedOne_eq_bind]
    rfl
  | cons name names ih =>
    rw [List.cons_append, List.cons_append, follow_cons m path scope name (by simp),
      follow_cons m path scope name (by simp), bind_assoc, bind_assoc]
    refine congrArg _ (funext fun next => ?_)
    rw [ih, bind_assoc]

theorem lookup_text (p : Path) (scope : NodeId) :
    m.lookup scope p.text = m.follow p.text scope p.segments ∧
      m.lookup scope ("::" ++ p.text) = m.follow ("::" ++ p.text) root p.segments := by
  obtain ⟨names, last, split⟩ := p.exists_last
  rw [Path.text, split]
  exact lookup_qualified (fun name member => p.proper name (split ▸ member)) scope

theorem lookup_append (p q : Path) (scope : NodeId) :
    m.lookup scope (p ++ q).text =
      (m.lookupOne scope p.text >>= fun next => m.lookup next q.text).mapError
        (.withPath (p ++ q).text) := by
  obtain ⟨names, last, split⟩ := p.exists_last
  have ends : Text.lastSegment p.text = last := by
    rw [Path.text, split]
    exact Text.lastSegment_qualified names (p.proper last (by simp [split])).plain
  calc m.lookup scope (p ++ q).text
    _ = (m.follow (p ++ q).text scope p.segments >>= single (p ++ q).text last) >>=
          fun next => m.follow (p ++ q).text next q.segments := by
        rw [(m.lookup_text (p ++ q) scope).1, Path.segments_append, split]
        exact m.follow_append _ scope names last q.nonempty
    _ = (m.lookupOne scope p.text).mapError (.withPath (p ++ q).text) >>=
          fun next => m.follow (p ++ q).text next q.segments := by
        rw [m.follow_withPath (p ++ q).text p.text, lookupOne_eq_bind, (m.lookup_text p scope).1, ends,
          mapError_bind _ _ (single_withPath (p ++ q).text p.text last)]
    _ = _ := by
        refine mapError_bind _ _ fun next => ?_
        rw [m.follow_withPath (p ++ q).text q.text, (m.lookup_text q next).1]

/-- A double colon in front takes a path to the root. -/
theorem lookup_anchored (p : Path) (scope : NodeId) :
    m.lookup scope ("::" ++ p.text) =
      (m.lookup root p.text).mapError (.withPath ("::" ++ p.text)) := by
  rw [(m.lookup_text p scope).2, m.follow_withPath _ p.text, (m.lookup_text p root).1]

/-! ## Empty segments -/

theorem lookup_of_empty_last {path : String} (empty : (Text.segments path).getLast? = some "")
    (scope : NodeId) : m.lookup scope path = .error .emptyPath := by
  unfold lookup
  cases parts : Text.segments path with
  | nil => simp
  | cons first rest =>
    rw [parts] at empty
    by_cases anchor : first = ""
    · cases rest with
      | nil => simp [anchor]
      | cons =>
        rw [List.getLast?_cons_cons] at empty
        simp [anchor, empty]
    · simp [anchor, empty]

variable {m} {path} {set : OrderedSet NodeId}

/-- The segments behind an anchor are followed from the root, and all of them from the scope if there
is none. -/
theorem exists_follow_of_lookup {scope : NodeId} (found : m.lookup scope path = .ok set) :
    ∃ start segments, m.follow path start segments = .ok set ∧
      (Text.segments path = "" :: segments ∨ Text.segments path = segments) := by
  unfold lookup at found
  cases parts : Text.segments path with
  | nil => simp [parts] at found
  | cons first rest =>
    by_cases anchor : first = ""
    · simp only [parts, anchor, List.head?_cons, if_true, List.drop_one, List.tail_cons] at found
      split at found
      · cases found
      · exact ⟨root, rest, found, .inl (anchor ▸ rfl)⟩
    · simp only [parts, List.head?_cons, Option.some.injEq, anchor, if_false] at found
      split at found
      · cases found
      · exact ⟨scope, first :: rest, found, .inr rfl⟩

namespace Placed

variable (placed : m.Placed)

include placed

theorem of_named {scope : NodeId} {segment : String} (found : m.named scope path segment = .ok set) :
    segment ≠ "" ∧ set ≠ ∅ ∧ ∀ id ∈ set, m.name id = segment := by
  unfold named at found
  split at found
  · cases found
  · next listed here =>
    split at found
    · cases found
    · cases found
      have keyed := placed.keyed scope
      obtain ⟨proper, filled⟩ := keyed.ne_empty here
      refine ⟨by simpa using proper, filled, fun id member => ?_⟩
      rw [keyed.listed segment set here, OrderedSet.mem_def] at member
      simpa using (List.mem_filter.mp member).2

theorem of_follow {scope : NodeId} {segments : List String}
    (found : m.follow path scope segments = .ok set) :
    "" ∉ segments ∧ set ≠ ∅ ∧ ∀ id ∈ set, m.name id ≠ "" := by
  induction segments generalizing scope with
  | nil => cases found
  | cons segment rest ih =>
    by_cases more : rest = []
    · subst more
      obtain ⟨proper, filled, named⟩ := placed.of_named found
      exact ⟨by simpa using proper.symm, filled, fun id member => named id member ▸ proper⟩
    · rw [follow_cons m path scope segment more, namedOne_eq_bind] at found
      cases here : m.named scope path segment with
      | error => simp [here, bind, Except.bind] at found
      | ok set' =>
        cases next : single path segment set' with
        | error => simp [here, next, bind, Except.bind] at found
        | ok id =>
          obtain ⟨proper, _⟩ := placed.of_named here
          obtain ⟨others, filled, named⟩ := ih (by simpa [here, next, bind, Except.bind] using found)
          exact ⟨by simp [proper.symm, others], filled, named⟩

end Placed

end Model

open Model in
/-- Lookup goes along a path step by step. To look a path up behind another is to look it up from the
one node that the other leads to, and if the other leads to none, whatever stands behind it fails as it
does; a path behind a double colon is looked up from the root. No empty name leads anywhere, and what
is found is something, and has a name. -/
theorem lookup_composes {u : TranslationUnit} {d : Draft} (reached : Reached u d) (scope : NodeId) :
    (∀ p q : Path,
      (∀ next, d.model.lookupOne scope p.text = .ok next →
        d.model.lookup scope (p.text ++ "::" ++ q.text) =
          (d.model.lookup next q.text).mapError (.withPath (p.text ++ "::" ++ q.text))) ∧
      ∀ error, d.model.lookupOne scope p.text = .error error →
        d.model.lookup scope (p.text ++ "::" ++ q.text) =
          .error (error.withPath (p.text ++ "::" ++ q.text))) ∧
    (∀ p : Path, d.model.lookup scope ("::" ++ p.text) =
      (d.model.lookup root p.text).mapError (.withPath ("::" ++ p.text))) ∧
    ∀ path : String,
      ((Text.segments path).getLast? = some "" → d.model.lookup scope path = .error .emptyPath) ∧
      ("" ∈ (Text.segments path).tail → ∃ error, d.model.lookup scope path = .error error) ∧
      ∀ set, d.model.lookup scope path = .ok set →
        set ≠ ∅ ∧ ∀ id ∈ set, (d.model.node id).isAnonymous = false := by
  refine ⟨fun p q => ?_, fun p => d.model.lookup_anchored p scope, fun path => ⟨?_, ?_, ?_⟩⟩
  · have whole := d.model.lookup_append p q scope
    rw [Path.text_append] at whole
    refine ⟨fun next leads => ?_, fun error fails => ?_⟩
    · rw [whole, leads]
      rfl
    · rw [whole, fails]
      rfl
  · exact fun empty => d.model.lookup_of_empty_last empty scope
  · intro empty
    cases found : d.model.lookup scope path with
    | error error => exact ⟨error, rfl⟩
    | ok set =>
      obtain ⟨start, segments, follows, anchored | plain⟩ := exists_follow_of_lookup found
      · rw [anchored] at empty
        exact absurd empty (reached.placed.of_follow follows).1
      · rw [plain] at empty
        exact absurd (List.mem_of_mem_tail empty) (reached.placed.of_follow follows).1
  · intro set found
    obtain ⟨start, segments, follows, _⟩ := exists_follow_of_lookup found
    obtain ⟨_, filled, named⟩ := reached.placed.of_follow follows
    exact ⟨filled, fun id member => by simpa [Node.isAnonymous, name] using named id member⟩

/-- A path goes on behind the struct, but not behind its overloads, and not past an empty name. -/
theorem lookup_composes_bell :
    ∃ d, Reached bell d ∧ d.model.lookupOne Model.root "Bell" = .ok ⟨1⟩ ∧
      d.model.lookup Model.root "Bell::ring" =
        (d.model.lookup ⟨1⟩ "ring").mapError (.withPath "Bell::ring") ∧
      d.model.lookupOne Model.root "Bell::ring" = .error (.ambiguous "Bell::ring" "ring" 2) ∧
      d.model.lookup Model.root "Bell::ring::times" =
        .error (.ambiguous "Bell::ring::times" "ring" 2) ∧
      d.model.lookup Model.root "Bell::" = .error .emptyPath ∧
      (∃ error, d.model.lookup Model.root "Bell::::ring" = .error error) ∧
      ∃ set, d.model.lookup ⟨1⟩ "ring" = .ok set ∧ set ≠ ∅ := by
  have reached : Reached bell (Session.start bell).build.draft := .built .standard
  generalize begun : (Session.start bell).build.draft = d at reached
  have leads : d.model.lookupOne Model.root "Bell" = .ok ⟨1⟩ := by
    rw [← begun]
    decide +kernel
  have fails : d.model.lookupOne Model.root "Bell::ring" =
      .error (.ambiguous "Bell::ring" "ring" 2) := by
    rw [← begun]
    decide +kernel
  obtain ⟨behind, _, empty⟩ := lookup_composes reached Model.root
  obtain ⟨_, _, found⟩ := (lookup_composes reached ⟨1⟩).2.2 "ring"
  have step := (behind ⟨["Bell"], by decide, by decide⟩ ⟨["ring"], by decide, by decide⟩).1 _ leads
  have stop :=
    (behind ⟨["Bell", "ring"], by decide, by decide⟩ ⟨["times"], by decide, by decide⟩).2 _ fails
  have overloads : ∃ set, d.model.lookup ⟨1⟩ "ring" = .ok set := by
    rw [← begun]
    exact ⟨OrderedSet.ofList [⟨2⟩, ⟨4⟩], by decide +kernel⟩
  obtain ⟨set, listed⟩ := overloads
  exact ⟨d, reached, leads, step, fails, stop, (empty "Bell::").1 (by decide +kernel),
    (empty "Bell::::ring").2.1 (by decide +kernel), set, listed, (found set listed).1⟩

end Bindery
