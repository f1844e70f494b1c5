import TypeEnforcement.Transition.Graph
/-!
# The search for a cycle of transitions

Whether some domain of a graph can be entered again from itself. The search goes depth first. It
sets out from each domain that has no mark yet. A domain that is entered is marked as in progress
and stands on the path until all its neighbours have been looked at; then it is done. A neighbour in
progress closes a cycle.

The search is a system of states that takes one step at a time (`CycleSearch.step`). A run has a
bound on its steps, and one that its bound cuts off is still under way; with `stepBound` steps that
never happens.
-/

namespace TypeEnforcement.TransitionGraph

/-- How far a domain has been searched. -/
inductive Mark where
  /-- The search has entered it and is behind it. -/
  | inProgress
  | done
deriving DecidableEq, Repr

/-- The state of a search for a cycle. -/
structure CycleSearch where
  /-- The domains from which the search has yet to set out. -/
  starts : List String
  /-- The marks of domains; the first one of a domain counts. -/
  marks : List (String × Mark)
  /-- The domains in progress, in the order in which they were entered. -/
  path : List String
  /-- The neighbours of each domain of the path that are left to look at, those of the domain
  entered last first. -/
  stack : List (List String)
deriving DecidableEq, Repr

namespace CycleSearch

/-- The search before its first step. -/
def initial (graph : TransitionGraph) : CycleSearch :=
  { starts := graph.domains, marks := [], path := [], stack := [] }

/-- The mark of a domain, if it has been entered. -/
def mark? (search : CycleSearch) (domain : String) : Option Mark :=
  search.marks.lookup domain

/-- Enters a domain. -/
def enter (graph : TransitionGraph) (search : CycleSearch) (domain : String) : CycleSearch :=
  { search with
    marks := (domain, .inProgress) :: search.marks
    path := search.path ++ [domain]
    stack := graph.neighbours domain :: search.stack }

/-- Leaves the domain that was entered last, which is done. -/
def leave (search : CycleSearch) : CycleSearch :=
  { search with
    marks := (search.path.getLast?.map (·, Mark.done)).toList ++ search.marks
    path := search.path.dropLast
    stack := search.stack.tail }

/-- The cycle that a domain closes: the path from where the domain stands on it, and the domain
again. There is none if the domain is not on the path. -/
def closing? (search : CycleSearch) (domain : String) : Option (List String) :=
  (search.path.idxOf? domain).map fun place => search.path.drop place ++ [domain]

/-- What a step leads to. -/
inductive Progress where
  | underWay (search : CycleSearch)
  | ended (cycle : Option (List String))
deriving DecidableEq, Repr

/-- Takes a step. With nothing left to look at, the search sets out from the next domain. Else it
looks at the next neighbour of the domain entered last, or leaves that domain. -/
def step (graph : TransitionGraph) (search : CycleSearch) : Progress :=
  match search.stack with
  | [] =>
    match search.starts with
    | [] => .ended none
    | start :: starts =>
      if (search.mark? start).isSome then .underWay { search with starts }
      else .underWay (enter graph { search with starts, path := [] } start)
  | [] :: _ => .underWay search.leave
  | (next :: left) :: below =>
    match search.mark? next with
    | some .inProgress => .ended (search.closing? next)
    | some .done => .underWay { search with stack := left :: below }
    | none => .underWay (enter graph { search with stack := left :: below } next)

/-- Takes steps until the search ends, but no more than a bound. -/
def run (graph : TransitionGraph) : (bound : Nat) → CycleSearch → Progress
  | 0, search => .underWay search
  | bound + 1, search =>
    match search.step graph with
    | .underWay next => run graph bound next
    | .ended cycle => .ended cycle

end CycleSearch

/-- A number of steps that no search for a cycle exceeds: it sets out from each domain, looks at
each of its neighbours and leaves it. -/
def stepBound (graph : TransitionGraph) : Nat :=
  2 * (graph.domains.length + (graph.domains.flatMap graph.neighbours).length) + 1

/-- A cycle of transitions, its first domain repeated at the end. -/
def findCycle? (graph : TransitionGraph) : Option (List String) :=
  match CycleSearch.run graph graph.stepBound (.initial graph) with
  | .ended cycle => cycle
  | .underWay _ => none

end TypeEnforcement.TransitionGraph
