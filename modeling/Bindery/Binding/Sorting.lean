import Bindery.OrderedMap

/-! Sorting a graph so that everything comes after what it depends on, or finding a ring of
dependencies that makes this impossible. Of two elements that could come next, the one that became
free first does, and of those that become free together the one listed first. -/

set_option autoImplicit false

namespace Bindery.Binding

abbrev Graph (α : Type) := List (α × List α)

structure Sorting (α : Type) where
  /-- How many dependencies of each element are to come before it still. -/
  degrees : OrderedMap α Nat
  /-- The elements that could come next. -/
  ready : List α
  done : List α := []

namespace Sorting

variable {α : Type} [DecidableEq α]

/-- Counts one dependency of an element as done; the last one makes the element ready. -/
def release (s : Sorting α) (a : α) : Sorting α :=
  match s.degrees.get? a with
  | none => s
  | some degree =>
    { s with
      degrees := s.degrees.put a (degree - 1)
      ready := if degree - 1 = 0 then s.ready ++ [a] else s.ready }

/-- The elements that depend on something that is not done, in the order of the counters. -/
def waiting (s : Sorting α) : List α := (s.degrees.entries.filter (0 < ·.2)).map Prod.fst

end Sorting

namespace Graph

variable {α : Type} [DecidableEq α] (g : Graph α)

def elements : List α := g.map Prod.fst

def dependenciesOf (a : α) : List α := (g.lookup a).getD []

def edges : List (α × α) := g.flatMap fun entry => entry.2.map fun needed => (entry.1, needed)

def dependentsOf (a : α) : List α := (g.edges.filter (·.2 = a)).map Prod.fst

/-- Before anything is done, what depends on nothing is ready. -/
def start : Sorting α :=
  let degrees := OrderedMap.ofList (g.map fun entry => (entry.1, entry.2.length))
  { degrees, ready := (degrees.entries.filter (·.2 = 0)).map Prod.fst }

/-- Takes ready elements in turn; what each of them releases waits behind the others. -/
def drain : Nat → Sorting α → Sorting α
  | 0, s => s
  | bound + 1, s =>
    match s.ready with
    | [] => s
    | a :: ready =>
      drain bound ((g.dependentsOf a).foldl .release { s with ready, done := s.done ++ [a] })

/-- Follows first dependencies within a set from the end of a path until one is on the path, and
answers the part of the path that goes around. -/
def traceRing (within : List α) : Nat → List α → α → List α
  | 0, path, _ => path
  | bound + 1, path, current =>
    match (g.dependenciesOf current).find? (· ∈ within) with
    | none => path
    | some next =>
      if next ∈ path then path.dropWhile (· ≠ next) ++ [next]
      else traceRing within bound (path ++ [next]) next

/-- A ring among the given elements, its first element again at the end. -/
def ringWithin (within : List α) : List α :=
  match within with
  | [] => []
  | start :: _ => g.traceRing within (within.length + 1) [start] start

/-- All elements, each after what it depends on; otherwise a ring. No element becomes ready twice,
so that the bound is not used up. -/
def sort : Except (List α) (List α) :=
  let s := g.drain g.length g.start
  if s.done.length = g.length then .ok s.done else .error (g.ringWithin s.waiting)

end Graph

end Bindery.Binding
