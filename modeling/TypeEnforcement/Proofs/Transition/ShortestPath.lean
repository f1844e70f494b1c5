import TypeEnforcement.Policy.Order
import TypeEnforcement.Proofs.Transition.Reachability
/-!
# Shortest paths

A search goes by layers, and the layer at a depth holds the domains that take exactly so many
transitions to reach. The invariant (`IsLevel`) says it by walks: those of the layer have as many
transitions as its depth, and whatever a shorter walk reaches has been met before. So a walk of a
search is no longer than any other to the same domain, and a search lists its walks by length. The
first of them that is one transition short of a target makes a shortest path.

## Main results

* `isShortest_of_mem_trails`: each walk of a search is a shortest one.
* `isShortestPath_of_shortestPath?`: what is found is a shortest path.
* `shortestPath?_ofEdges`: the answers of a graph in terms of the transitions it was built from.
-/

namespace TypeEnforcement.TransitionGraph

open Relation

variable {graph : TransitionGraph} {start source target domain : String} {met path : List String}
  {layer found : List Trail} {trail : Trail} {depth bound : Nat}

/-! ## Walks -/

/-- A trail that follows the transitions of a graph from a start. -/
inductive Trail.IsFrom (graph : TransitionGraph) (start : String) : Trail → Prop where
  | start : IsFrom graph start { domain := start, earlier := [] }
  | extend {trail : Trail} {next : String} : IsFrom graph start trail →
      graph.Leads trail.domain next → IsFrom graph start (trail.extend next)

namespace Trail

@[simp] theorem length_earlier_extend :
    (trail.extend domain).earlier.length = trail.earlier.length + 1 := rfl

theorem path_eq (trail : Trail) : trail.path = trail.earlier.reverse ++ [trail.domain] :=
  List.reverse_cons

theorem path_extend (trail : Trail) (next : String) :
    (trail.extend next).path = trail.path ++ [next] :=
  List.reverse_cons

@[simp] theorem length_path (trail : Trail) : trail.path.length = trail.earlier.length + 1 := by
  rw [path, List.length_reverse, List.length_cons]

theorem getLast?_path (trail : Trail) : trail.path.getLast? = some trail.domain := by
  rw [path_eq, List.getLast?_concat]

namespace IsFrom

theorem head?_path (h : trail.IsFrom graph start) : trail.path.head? = some start := by
  induction h with
  | start => rfl
  | @extend trail next _ _ ih => rw [path_extend, List.head?_append, ih, Option.some_or]

theorem reflTransGen (h : trail.IsFrom graph start) :
    ReflTransGen graph.Leads start trail.domain := by
  induction h with
  | start => exact .refl
  | extend _ hleads ih => exact ih.tail hleads

theorem isChain_path (h : trail.IsFrom graph start) : trail.path.IsChain graph.Leads := by
  induction h with
  | start => exact List.isChain_singleton _
  | @extend trail next _ hleads ih =>
    have hjoint : ∀ last ∈ trail.path.getLast?, ∀ first ∈ [next].head?,
        graph.Leads last first := by
      rw [getLast?_path]
      intro last hlast first hfirst
      cases hlast
      cases hfirst
      exact hleads
    rw [path_extend]
    exact List.isChain_append.mpr ⟨ih, List.isChain_singleton _, hjoint⟩

/-- A list of domains in which each has a transition to the next is the path of a trail. -/
theorem exists_path_eq (hhead : path.head? = some start) (hchain : path.IsChain graph.Leads) :
    ∃ trail : Trail, trail.IsFrom graph start ∧ trail.path = path := by
  induction path using List.reverseRecOn with
  | nil => cases hhead
  | append_singleton before last ih =>
    obtain ⟨hbefore, -, hjoint⟩ := List.isChain_append.mp hchain
    cases before with
    | nil =>
      cases hhead
      exact ⟨_, .start, rfl⟩
    | cons first rest =>
      obtain ⟨trail, htrail, hpath⟩ := ih hhead hbefore
      have hlast : trail.domain ∈ (first :: rest).getLast? := by
        rw [← hpath, getLast?_path]
        exact rfl
      have hleads : graph.Leads trail.domain last := hjoint _ hlast last rfl
      exact ⟨trail.extend last, htrail.extend hleads, by rw [path_extend, hpath]⟩

end IsFrom

end Trail

/-! ## Levels -/

/-- A frontier at a depth: the walks of the layer have as many transitions, and what a shorter walk
reaches has been met before. -/
structure IsLevel (graph : TransitionGraph) (start : String) (met : List String)
    (layer : List Trail) (depth : Nat) : Prop where
  frontier : graph.IsFrontier start met layer
  isFrom : ∀ trail ∈ layer, trail.IsFrom graph start
  length_eq : ∀ trail ∈ layer, trail.earlier.length = depth
  nearer : ∀ trail : Trail, trail.IsFrom graph start → trail.earlier.length < depth →
    trail.domain ∈ met

namespace IsLevel

theorem initial (graph : TransitionGraph) (start : String) :
    graph.IsLevel start [] [{ domain := start, earlier := [] }] 0 where
  frontier := .initial graph start
  isFrom := by
    intro trail htrail
    rw [List.mem_singleton.mp htrail]
    exact .start
  length_eq := by
    intro trail htrail
    rw [List.mem_singleton.mp htrail]
    rfl
  nearer := fun _ _ hless => absurd hless (Nat.not_lt_zero _)

/-- What a walk reaches that is no longer than those of the layer has been met or lies in the
layer. -/
theorem mem_append (h : graph.IsLevel start met layer depth) (htrail : trail.IsFrom graph start)
    (hlength : trail.earlier.length ≤ depth) : trail.domain ∈ met ++ layer.map (·.domain) := by
  cases htrail with
  | start => exact h.frontier.start_mem
  | @extend last next hlast hleads =>
    have hless : last.earlier.length < depth := hlength
    exact h.frontier.closed last.domain (h.nearer last hlast hless) next hleads

theorem next (h : graph.IsLevel start met layer depth) :
    graph.IsLevel start (met ++ layer.map (·.domain))
      (graph.nextLayer (met ++ layer.map (·.domain)) layer) (depth + 1) where
  frontier := h.frontier.next
  isFrom := by
    intro trail htrail
    obtain ⟨last, hlast, hleads, heq⟩ := exists_of_mem_nextLayer htrail
    rw [heq]
    exact (h.isFrom last hlast).extend hleads
  length_eq := by
    intro trail htrail
    obtain ⟨last, hlast, -, heq⟩ := exists_of_mem_nextLayer htrail
    rw [heq, Trail.length_earlier_extend, h.length_eq last hlast]
  nearer := fun _ htrail hless => h.mem_append htrail (Nat.le_of_lt_succ hless)

/-- No walk to a domain of the layer is shorter than the one of the layer, for else the domain would
have been met before. -/
theorem length_le_of_mem (h : graph.IsLevel start met layer depth) (htrail : trail ∈ layer)
    {other : Trail} (hother : other.IsFrom graph start) (hdomain : other.domain = trail.domain) :
    trail.earlier.length ≤ other.earlier.length := by
  rw [h.length_eq trail htrail]
  by_contra hless
  have hmet : other.domain ∈ met := h.nearer other hother (Nat.lt_of_not_le hless)
  exact h.frontier.fresh trail htrail (hdomain ▸ hmet)

end IsLevel

/-! ## The walks of a search -/

/-- A walk to which no other walk from the same start to the same domain is preferable. -/
structure Trail.IsShortest (graph : TransitionGraph) (start : String) (trail : Trail) : Prop where
  isFrom : trail.IsFrom graph start
  length_le : ∀ other : Trail, other.IsFrom graph start → other.domain = trail.domain →
    trail.earlier.length ≤ other.earlier.length

/-- From a level on, a search makes shortest walks only, and none with fewer transitions than the
level is deep. -/
theorem IsLevel.isShortest_of_mem_layers (h : graph.IsLevel start met layer depth)
    (hfound : graph.layers bound met layer = some found) (htrail : trail ∈ found) :
    trail.IsShortest graph start ∧ depth ≤ trail.earlier.length := by
  induction bound generalizing met layer depth found with
  | zero =>
    obtain ⟨-, rfl⟩ | ⟨_, _, heq, -⟩ := layers_cases hfound
    · exact absurd htrail List.not_mem_nil
    · cases heq
  | succ bound ih =>
    obtain ⟨-, rfl⟩ | ⟨_, later, heq, rfl, hlater⟩ := layers_cases hfound
    · exact absurd htrail List.not_mem_nil
    · cases heq
      rcases List.mem_append.mp htrail with hlayer | hrest
      · have hshortest : trail.IsShortest graph start :=
          ⟨h.isFrom trail hlayer, fun _ hother => h.length_le_of_mem hlayer hother⟩
        exact ⟨hshortest, (h.length_eq trail hlayer).ge⟩
      · obtain ⟨hshortest, hdeeper⟩ := ih h.next hlater hrest
        exact ⟨hshortest, Nat.le_of_succ_le hdeeper⟩

/-- From a level on, a search lists its walks by length. -/
theorem IsLevel.pairwise_layers (h : graph.IsLevel start met layer depth)
    (hfound : graph.layers bound met layer = some found) :
    found.Pairwise fun trail later => trail.earlier.length ≤ later.earlier.length := by
  induction bound generalizing met layer depth found with
  | zero =>
    obtain ⟨-, rfl⟩ | ⟨_, _, heq, -⟩ := layers_cases hfound
    · exact List.Pairwise.nil
    · cases heq
  | succ bound ih =>
    obtain ⟨-, rfl⟩ | ⟨_, later, heq, rfl, hlater⟩ := layers_cases hfound
    · exact List.Pairwise.nil
    · cases heq
      refine List.pairwise_append.mpr ⟨?within, ih h.next hlater, ?across⟩
      case within =>
        refine List.pairwise_of_forall_mem_list fun trail htrail later hlater => ?_
        rw [h.length_eq trail htrail, h.length_eq later hlater]
      case across =>
        intro trail htrail other hother
        have hdeeper : depth + 1 ≤ other.earlier.length :=
          (h.next.isShortest_of_mem_layers hlater hother).2
        rw [h.length_eq trail htrail]
        exact Nat.le_of_succ_le hdeeper

theorem isShortest_of_mem_trails (h : trail ∈ graph.trails start) :
    trail.IsShortest graph start :=
  ((IsLevel.initial graph start).isShortest_of_mem_layers
    (layers_eq_some_trails graph start (Nat.lt_succ_self _)) h).1

theorem pairwise_trails (graph : TransitionGraph) (start : String) :
    (graph.trails start).Pairwise fun trail later =>
      trail.earlier.length ≤ later.earlier.length :=
  (IsLevel.initial graph start).pairwise_layers
    (layers_eq_some_trails graph start (Nat.lt_succ_self _))

/-! ## Paths -/

/-- A path from one domain to another than which no other such path is shorter. -/
structure IsShortestPath (graph : TransitionGraph) (source target : String)
    (path : List String) : Prop where
  head : path.head? = some source
  last : path.getLast? = some target
  isPath : graph.isPath path = true
  length_le : ∀ other : List String, other.head? = some source → other.getLast? = some target →
    graph.isPath other = true → path.length ≤ other.length

/-- What is found goes by way of the first walk of a search that is one transition short of the
target. -/
theorem exists_trail_of_shortestPath? (h : graph.shortestPath? source target = some path) :
    ∃ trail ∈ graph.trails source, graph.Leads trail.domain target
      ∧ (trail.extend target).path = path
      ∧ ∀ other ∈ graph.trails source, graph.Leads other.domain target →
          trail.earlier.length ≤ other.earlier.length := by
  obtain ⟨trail, hfound, hpath⟩ := Option.map_eq_some_iff.mp h
  obtain ⟨hleads, before, after, hsplit, hbefore⟩ := List.find?_eq_some_iff_append.mp hfound
  refine ⟨trail, List.mem_of_find?_eq_some hfound, hleads, hpath, ?_⟩
  intro other hother hreaches
  have hordered := pairwise_trails graph source
  rw [hsplit] at hother hordered
  rcases List.mem_append.mp hother with hearlier | hlater
  · have hmissed := hbefore other hearlier
    rw [show graph.hasEdge other.domain target = true from hreaches] at hmissed
    exact absurd hmissed (by decide)
  · rcases List.mem_cons.mp hlater with hsame | hrest
    · rw [hsame]
    · exact (List.pairwise_cons.mp (List.pairwise_append.mp hordered).2.1).1 other hrest

/-- What is found is a shortest path. -/
theorem isShortestPath_of_shortestPath? (h : graph.shortestPath? source target = some path) :
    graph.IsShortestPath source target path := by
  obtain ⟨trail, htrail, hleads, rfl, hfirst⟩ := exists_trail_of_shortestPath? h
  have hfrom : (trail.extend target).IsFrom graph source :=
    (isShortest_of_mem_trails htrail).isFrom.extend hleads
  refine
    { head := hfrom.head?_path
      last := Trail.getLast?_path _
      isPath := isPath_iff.mpr ⟨by simp, hfrom.isChain_path⟩
      length_le := ?_ }
  intro other hhead hlast hother
  obtain ⟨hlength, hchain⟩ := isPath_iff.mp hother
  obtain ⟨walk, hwalk, rfl⟩ := Trail.IsFrom.exists_path_eq hhead hchain
  rw [Trail.getLast?_path, Option.some.injEq] at hlast
  cases hwalk with
  | start => exact absurd hlength (by simp)
  | @extend last next hbefore hleads' =>
    -- A search has a walk to the domain before the target, and it is no longer than this one.
    obtain ⟨found, hfound, hdomain⟩ := exists_trail_iff.mpr hbefore.reflTransGen
    have hshort : found.earlier.length ≤ last.earlier.length :=
      (isShortest_of_mem_trails hfound).length_le last hbefore hdomain.symm
    have hfirst' : trail.earlier.length ≤ found.earlier.length := by
      refine hfirst found hfound ?_
      rw [hdomain]
      exact hlast ▸ hleads'
    simp only [Trail.length_path, Trail.length_earlier_extend]
    omega

theorem exists_shortestPath?_iff :
    (∃ path, graph.shortestPath? source target = some path) ↔ target ∈ graph.reachable source := by
  rw [← Option.ne_none_iff_exists', mem_reachable_iff, ne_eq, shortestPath?_eq_none_iff, not_not]

/-! ## Graphs that are built -/

/-- The graph to which transitions are added, one after the other. -/
def ofEdges (added : List TransitionEdge) : TransitionGraph :=
  added.foldl addEdge empty

theorem leads_addEdge {edge : TransitionEdge} :
    (graph.addEdge edge).Leads source target ↔
      ⟨source, target⟩ = edge ∨ graph.Leads source target := by
  rw [leads_iff, leads_iff, addEdge, Canonical.mem_insert]

theorem leads_foldl_addEdge {added : List TransitionEdge} :
    (added.foldl addEdge graph).Leads source target ↔
      ⟨source, target⟩ ∈ added ∨ graph.Leads source target := by
  induction added generalizing graph with
  | nil => simp
  | cons edge rest ih =>
    rw [List.foldl_cons, ih, leads_addEdge, List.mem_cons, or_left_comm, or_assoc]

/-- A graph has the transitions that were added to it. -/
theorem leads_ofEdges {added : List TransitionEdge} :
    (ofEdges added).Leads source target ↔ ⟨source, target⟩ ∈ added := by
  have hempty : ¬ empty.Leads source target := by
    rw [leads_iff]
    exact List.not_mem_nil
  rw [ofEdges, leads_foldl_addEdge, or_iff_left hempty]

/-- The searches of a graph are correct, whatever transitions it was built from. A search ends by
itself: no bound above the number of domains cuts it off, and all of them leave the same walks. The
reachable domains are those that lie one added transition or more ahead; there is a path to exactly
these, to the start itself as to any other domain; and the path that is found is a shortest one. -/
theorem shortestPath?_ofEdges (added : List TransitionEdge) (source target : String) :
    (∀ bound, (ofEdges added).domains.length < bound →
        (ofEdges added).layers bound [] [{ domain := source, earlier := [] }]
          = some ((ofEdges added).trails source))
      ∧ (∀ domain, domain ∈ (ofEdges added).reachable source ↔
          TransGen (fun first second => ⟨first, second⟩ ∈ added) source domain)
      ∧ ((∃ path, (ofEdges added).shortestPath? source target = some path) ↔
          target ∈ (ofEdges added).reachable source)
      ∧ ∀ path, (ofEdges added).shortestPath? source target = some path →
          (ofEdges added).IsShortestPath source target path := by
  have hleads : (ofEdges added).Leads = fun first second => ⟨first, second⟩ ∈ added := by
    funext first second
    exact propext leads_ofEdges
  refine ⟨fun bound hbound => layers_eq_some_trails _ source hbound, ?_,
    exists_shortestPath?_iff, ?_⟩
  · intro domain
    rw [mem_reachable_iff, hleads]
  · exact fun path hpath => isShortestPath_of_shortestPath? hpath

/-- A shortest cycle, where the way out is shorter by one transition than the one that was added
first. -/
example :
    (ofEdges [⟨"a_t", "b_t"⟩, ⟨"b_t", "c_t"⟩, ⟨"c_t", "a_t"⟩, ⟨"a_t", "c_t"⟩]).shortestPath?
      "a_t" "a_t" = some ["a_t", "c_t", "a_t"] := by
  decide +kernel

end TypeEnforcement.TransitionGraph
