import TypeEnforcement.Policy
/-!
# The graph of domain transitions

Domains and the transitions between them, as a directed graph. The graph answers which domains can
be reached and by which shortest path.

A search goes by layers: the domains that are one transition further than the last layer and have
not been met before, in the order in which the last layer finds them. It ends with an empty layer.
The number of its layers is bounded, and a search that its bound cuts off has no answer; with more
layers than the graph has domains that never happens.
-/

namespace TypeEnforcement

/-- A transition from one domain to another. -/
structure TransitionEdge where
  source : String
  target : String
deriving DecidableEq, Repr

namespace TransitionEdge

instance : Ord TransitionEdge where
  compare := compareLex (compareOn (·.source)) (compareOn (·.target))

end TransitionEdge

/-- The transitions between domains, as a canonical list. -/
structure TransitionGraph where
  edges : List TransitionEdge
deriving DecidableEq, Repr

namespace TransitionGraph

/-! ## Edges -/

/-- The graph without transitions. -/
def empty : TransitionGraph :=
  { edges := [] }

/-- Adds a transition. -/
def addEdge (graph : TransitionGraph) (edge : TransitionEdge) : TransitionGraph :=
  { edges := Canonical.insert edge graph.edges }

/-- The graph of inferred transitions. -/
def ofTransitions (transitions : List DomainTransition) : TransitionGraph :=
  (transitions.map fun t => TransitionEdge.mk t.source t.target).foldl addEdge empty

/-- Whether there is a transition from one domain to another. -/
def hasEdge (graph : TransitionGraph) (source target : String) : Bool :=
  graph.edges.contains ⟨source, target⟩

/-- The domains of a graph, in order. -/
def domains (graph : TransitionGraph) : List String :=
  Canonical.ofList (graph.edges.flatMap fun edge => [edge.source, edge.target])

/-- The domains that a domain has a transition to, in order. -/
def neighbours (graph : TransitionGraph) (domain : String) : List String :=
  (graph.edges.filter (·.source == domain)).map (·.target)

/-- Whether each domain of a list has a transition to the next. -/
def isWalk (graph : TransitionGraph) : List String → Bool
  | source :: target :: rest => graph.hasEdge source target && graph.isWalk (target :: rest)
  | _ => true

/-- Whether a list of domains is a path: it has two domains and each has a transition to the
next. -/
def isPath (graph : TransitionGraph) (path : List String) : Bool :=
  2 ≤ path.length && graph.isWalk path

/-! ## Search -/

/-- A walk that a search has made: the domain that it has reached, and those that it came through,
the latest first. -/
structure Trail where
  domain : String
  earlier : List String
deriving DecidableEq, Repr

namespace Trail

/-- A walk with one more transition. -/
def extend (trail : Trail) (next : String) : Trail :=
  { domain := next, earlier := trail.domain :: trail.earlier }

/-- The domains of a walk, from its start. -/
def path (trail : Trail) : List String :=
  (trail.domain :: trail.earlier).reverse

end Trail

/-- The walks one transition longer than those of a layer, to domains not met before, one for each
such domain. -/
def nextLayer (graph : TransitionGraph) (met : List String) (layer : List Trail) : List Trail :=
  Canonical.firstPerKey (·.domain)
    ((layer.flatMap fun trail => (graph.neighbours trail.domain).map trail.extend).filter
      fun trail => !met.contains trail.domain)

/-- The walks of a layer and of those after it, up to the first empty one. There is no answer if
this takes more layers than the bound allows. -/
def layers (graph : TransitionGraph) :
    (bound : Nat) → (met : List String) → List Trail → Option (List Trail)
  | _, _, [] => some []
  | 0, _, _ :: _ => none
  | bound + 1, met, trail :: rest =>
    let met := met ++ (trail :: rest).map (·.domain)
    (graph.layers bound met (graph.nextLayer met (trail :: rest))).map ((trail :: rest) ++ ·)

/-- A shortest walk from a domain to each one that it leads to, itself included, by length. -/
def trails (graph : TransitionGraph) (start : String) : List Trail :=
  (graph.layers (graph.domains.length + 1) [] [{ domain := start, earlier := [] }]).getD []

/-- A shortest path from one domain to another, both included; from a domain to itself a shortest
cycle. -/
def shortestPath? (graph : TransitionGraph) (source target : String) : Option (List String) :=
  ((graph.trails source).find? fun trail => graph.hasEdge trail.domain target).map fun trail =>
    (trail.extend target).path

/-- The domains that a domain leads to in one transition or more, in order. -/
def reachable (graph : TransitionGraph) (start : String) : List String :=
  Canonical.ofList ((graph.trails start).flatMap fun trail => graph.neighbours trail.domain)

end TransitionGraph

end TypeEnforcement
