import Mathlib.Data.List.Chain
import Mathlib.Logic.Relation
import TypeEnforcement.Canonical.Lemmas
import TypeEnforcement.Transition.Graph
/-!
# Which domains can be reached

A search by layers meets exactly the domains that its start leads to. Between two layers a frontier
separates the domains met before from those that are left: whatever a domain met before leads to has
been met or lies in the layer (`IsFrontier`). Each layer that is not empty meets some domain for the
first time, so a search with more layers than the graph has domains is never cut off by its bound
(`layers_eq_some_trails`).

## Main results

* `layers_eq_some_trails`: a search ends, with the same walks whatever its bound.
* `exists_trail_iff`: a search makes a walk to each domain that its start leads to, and to no other.
* `mem_reachable_iff`, `shortestPath?_eq_none_iff`: the domains that are reachable, and those to
  which there is a shortest path, are the ones that lie one transition or more ahead.
-/

namespace TypeEnforcement.TransitionGraph

open Canonical Relation

variable {graph : TransitionGraph} {start source target domain : String} {met : List String}
  {layer found : List Trail} {bound : Nat}

/-! ## Transitions -/

/-- Whether a domain has a transition to another. -/
def Leads (graph : TransitionGraph) (source target : String) : Prop :=
  graph.hasEdge source target = true

theorem leads_iff : graph.Leads source target ↔ ⟨source, target⟩ ∈ graph.edges := by
  rw [Leads, hasEdge, List.contains_iff_mem]

theorem mem_neighbours : target ∈ graph.neighbours source ↔ graph.Leads source target := by
  simp only [neighbours, List.mem_map, List.mem_filter, beq_iff_eq, leads_iff]
  constructor
  · intro hexists
    obtain ⟨edge, ⟨hedge, rfl⟩, rfl⟩ := hexists
    exact hedge
  · intro hedge
    exact ⟨⟨source, target⟩, ⟨hedge, rfl⟩, rfl⟩

theorem mem_domains :
    domain ∈ graph.domains ↔ ∃ edge ∈ graph.edges, domain = edge.source ∨ domain = edge.target := by
  simp only [domains, mem_ofList, List.mem_flatMap, List.mem_cons, List.not_mem_nil, or_false]

theorem Leads.source_mem_domains (h : graph.Leads source target) : source ∈ graph.domains :=
  mem_domains.mpr ⟨_, leads_iff.mp h, Or.inl rfl⟩

theorem Leads.target_mem_domains (h : graph.Leads source target) : target ∈ graph.domains :=
  mem_domains.mpr ⟨_, leads_iff.mp h, Or.inr rfl⟩

/-- A domain that can be reached is the start or a domain of the graph. -/
theorem mem_cons_domains_of_reflTransGen (h : ReflTransGen graph.Leads start domain) :
    domain ∈ start :: graph.domains := by
  cases h with
  | refl => exact List.mem_cons_self
  | tail _ hlast => exact List.mem_cons_of_mem _ hlast.target_mem_domains

/-! ## Paths -/

theorem isWalk_iff {path : List String} :
    graph.isWalk path = true ↔ path.IsChain graph.Leads := by
  induction path with
  | nil => simp [isWalk]
  | cons source rest ih =>
    cases rest with
    | nil => simp [isWalk]
    | cons target rest =>
      rw [isWalk, Bool.and_eq_true, ih, List.isChain_cons_cons]
      rfl

theorem isPath_iff {path : List String} :
    graph.isPath path = true ↔ 2 ≤ path.length ∧ path.IsChain graph.Leads := by
  rw [isPath, Bool.and_eq_true, decide_eq_true_eq, isWalk_iff]

/-! ## Layers -/

/-- A search that ends has come to an empty layer, or has its walks from this layer and the next. -/
theorem layers_cases (h : graph.layers bound met layer = some found) :
    (layer = [] ∧ found = [])
      ∨ ∃ left later, bound = left + 1 ∧ found = layer ++ later
        ∧ graph.layers left (met ++ layer.map (·.domain))
            (graph.nextLayer (met ++ layer.map (·.domain)) layer) = some later := by
  cases layer with
  | nil =>
    rw [layers, Option.some.injEq] at h
    exact Or.inl ⟨rfl, h.symm⟩
  | cons trail rest =>
    cases bound with
    | zero => cases h
    | succ left =>
      obtain ⟨later, hlater, rfl⟩ := Option.map_eq_some_iff.mp h
      exact Or.inr ⟨left, later, rfl, rfl, hlater⟩

/-- A greater bound changes nothing for a search that ends. -/
theorem layers_mono (h : graph.layers bound met layer = some found) {other : Nat}
    (hle : bound ≤ other) : graph.layers other met layer = some found := by
  induction bound generalizing met layer found other with
  | zero =>
    obtain ⟨rfl, rfl⟩ | ⟨_, _, heq, -⟩ := layers_cases h
    · rw [layers]
    · cases heq
  | succ bound ih =>
    cases layer with
    | nil => simpa only [layers] using h
    | cons trail rest =>
      obtain ⟨later, hlater, hfound⟩ := Option.map_eq_some_iff.mp h
      obtain ⟨other, rfl⟩ := Nat.exists_eq_add_of_le' (Nat.le_trans (Nat.succ_pos bound) hle)
      exact Option.map_eq_some_iff.mpr ⟨later, ih hlater (Nat.le_of_succ_le_succ hle), hfound⟩

theorem exists_of_mem_nextLayer {trail : Trail} (h : trail ∈ graph.nextLayer met layer) :
    ∃ last ∈ layer, graph.Leads last.domain trail.domain ∧ trail = last.extend trail.domain := by
  have hmem := (firstPerKey_sublist _ _).mem h
  rw [List.mem_filter, List.mem_flatMap] at hmem
  obtain ⟨⟨last, hlast, hextend⟩, -⟩ := hmem
  obtain ⟨next, hnext, rfl⟩ := List.mem_map.mp hextend
  exact ⟨last, hlast, mem_neighbours.mp hnext, rfl⟩

/-- The next layer holds what the layer leads to, unless it has been met. -/
theorem mem_map_nextLayer :
    domain ∈ (graph.nextLayer met layer).map (·.domain) ↔
      domain ∉ met ∧ ∃ last ∈ layer, graph.Leads last.domain domain := by
  rw [nextLayer, map_firstPerKey, mem_distinct]
  simp only [List.mem_map, List.mem_filter, List.mem_flatMap, Bool.not_eq_true',
    List.contains_eq_mem, decide_eq_false_iff_not]
  constructor
  · intro hexists
    obtain ⟨_, ⟨⟨last, hlast, next, hnext, rfl⟩, hfresh⟩, rfl⟩ := hexists
    exact ⟨hfresh, last, hlast, mem_neighbours.mp hnext⟩
  · intro hboth
    obtain ⟨hfresh, last, hlast, hleads⟩ := hboth
    exact ⟨last.extend domain, ⟨⟨last, hlast, domain, mem_neighbours.mpr hleads, rfl⟩, hfresh⟩, rfl⟩

/-- What holds between two layers of a search. -/
structure IsFrontier (graph : TransitionGraph) (start : String) (met : List String)
    (layer : List Trail) : Prop where
  /-- The start leads to the domains of the layer. -/
  reached : ∀ trail ∈ layer, ReflTransGen graph.Leads start trail.domain
  /-- The domains of the layer have not been met before. -/
  fresh : ∀ trail ∈ layer, trail.domain ∉ met
  start_mem : start ∈ met ++ layer.map (·.domain)
  /-- No transition leads from a domain met before past the layer. -/
  closed : ∀ domain ∈ met, ∀ next, graph.Leads domain next → next ∈ met ++ layer.map (·.domain)

namespace IsFrontier

theorem initial (graph : TransitionGraph) (start : String) :
    graph.IsFrontier start [] [{ domain := start, earlier := [] }] where
  reached := by
    intro trail htrail
    rw [List.mem_singleton.mp htrail]
  fresh := fun _ _ => List.not_mem_nil
  start_mem := List.mem_cons_self
  closed := fun domain hdomain => absurd hdomain List.not_mem_nil

theorem next (h : graph.IsFrontier start met layer) :
    graph.IsFrontier start (met ++ layer.map (·.domain))
      (graph.nextLayer (met ++ layer.map (·.domain)) layer) where
  reached := by
    intro trail htrail
    obtain ⟨last, hlast, hleads, -⟩ := exists_of_mem_nextLayer htrail
    exact (h.reached last hlast).tail hleads
  fresh := fun trail htrail => (mem_map_nextLayer.mp (List.mem_map_of_mem htrail)).1
  start_mem := List.mem_append_left _ h.start_mem
  closed := by
    intro domain hdomain next hleads
    by_cases hmet : next ∈ met ++ layer.map (·.domain)
    · exact List.mem_append_left _ hmet
    · refine List.mem_append_right _ (mem_map_nextLayer.mpr ⟨hmet, ?_⟩)
      rcases List.mem_append.mp hdomain with hbefore | hlayer
      · exact absurd (h.closed domain hbefore next hleads) hmet
      · obtain ⟨last, hlast, rfl⟩ := List.mem_map.mp hlayer
        exact ⟨last, hlast, hleads⟩

/-- Behind an empty layer nothing is left. -/
theorem mem_met_of_nil (h : graph.IsFrontier start met [])
    (hreached : ReflTransGen graph.Leads start domain) : domain ∈ met := by
  induction hreached with
  | refl => simpa using h.start_mem
  | tail _ hleads ih => simpa using h.closed _ ih _ hleads

end IsFrontier

/-! ## The bound of a search -/

/-- The domains that a search from a start has not met. -/
def unmet (graph : TransitionGraph) (start : String) (met : List String) : List String :=
  (start :: graph.domains).filter fun domain => !met.contains domain

theorem mem_unmet :
    domain ∈ graph.unmet start met ↔ domain ∈ start :: graph.domains ∧ domain ∉ met := by
  rw [unmet, List.mem_filter, Bool.not_eq_true', List.contains_eq_mem, decide_eq_false_iff_not]

/-- To meet more leaves less. -/
theorem length_unmet_append_lt {more : List String} (hunmet : domain ∈ graph.unmet start met)
    (hmore : domain ∈ more) :
    (graph.unmet start (met ++ more)).length < (graph.unmet start met).length := by
  have hnested : graph.unmet start (met ++ more)
      = (graph.unmet start met).filter fun domain => !more.contains domain := by
    rw [unmet, unmet, List.filter_filter]
    refine List.filter_congr ?_
    intro other _
    simp only [List.contains_eq_mem, List.mem_append, Bool.decide_or, Bool.not_or, Bool.and_comm]
  rw [hnested, List.length_filter_lt_length_iff_exists]
  exact ⟨domain, hunmet, by simpa using hmore⟩

theorem IsFrontier.mem_unmet (h : graph.IsFrontier start met layer) {trail : Trail}
    (htrail : trail ∈ layer) : trail.domain ∈ graph.unmet start met :=
  TransitionGraph.mem_unmet.mpr
    ⟨mem_cons_domains_of_reflTransGen (h.reached trail htrail), h.fresh trail htrail⟩

/-- A search from a frontier ends, if its bound is no less than the number of domains that are
left. -/
theorem IsFrontier.exists_layers (h : graph.IsFrontier start met layer)
    (hbound : (graph.unmet start met).length ≤ bound) :
    ∃ found, graph.layers bound met layer = some found := by
  induction bound generalizing met layer with
  | zero =>
    -- Nothing is left, so the layer is empty.
    cases layer with
    | nil => exact ⟨[], rfl⟩
    | cons trail rest =>
      have hpos := List.length_pos_of_mem (h.mem_unmet (List.mem_cons_self (l := rest)))
      omega
  | succ bound ih =>
    cases layer with
    | nil => exact ⟨[], by rw [layers]⟩
    | cons trail rest =>
      have hfirst : trail.domain ∈ (trail :: rest).map (·.domain) := List.mem_cons_self
      have hless := length_unmet_append_lt (h.mem_unmet List.mem_cons_self) hfirst
      obtain ⟨later, hlater⟩ := ih h.next (by omega)
      exact ⟨(trail :: rest) ++ later, Option.map_eq_some_iff.mpr ⟨later, hlater, rfl⟩⟩

/-- A search ends if it may have more layers than the graph has domains. -/
theorem layers_eq_some_trails (graph : TransitionGraph) (start : String)
    (hbound : graph.domains.length < bound) :
    graph.layers bound [] [{ domain := start, earlier := [] }] = some (graph.trails start) := by
  have hunmet : (graph.unmet start []).length ≤ graph.domains.length + 1 :=
    List.length_filter_le _ _
  obtain ⟨found, hfound⟩ := (IsFrontier.initial graph start).exists_layers hunmet
  have htrails : graph.trails start = found := by
    rw [trails, hfound, Option.getD_some]
  rw [htrails]
  exact layers_mono hfound hbound

/-! ## What a search meets -/

/-- A search from a frontier that ends reaches whatever the start leads to. -/
theorem IsFrontier.mem_layers (h : graph.IsFrontier start met layer)
    (hfound : graph.layers bound met layer = some found)
    (hreached : ReflTransGen graph.Leads start domain) :
    domain ∈ met ++ found.map (·.domain) := by
  induction bound generalizing met layer found with
  | zero =>
    obtain ⟨rfl, rfl⟩ | ⟨_, _, heq, -⟩ := layers_cases hfound
    · exact List.mem_append_left _ (h.mem_met_of_nil hreached)
    · cases heq
  | succ bound ih =>
    obtain ⟨rfl, rfl⟩ | ⟨_, later, heq, rfl, hlater⟩ := layers_cases hfound
    · exact List.mem_append_left _ (h.mem_met_of_nil hreached)
    · cases heq
      have hrest := ih h.next hlater
      rwa [List.append_assoc, ← List.map_append] at hrest

/-- A search from a frontier reaches nothing that the start does not lead to. -/
theorem IsFrontier.reached_of_mem_layers (h : graph.IsFrontier start met layer)
    (hfound : graph.layers bound met layer = some found) {trail : Trail} (htrail : trail ∈ found) :
    ReflTransGen graph.Leads start trail.domain := by
  induction bound generalizing met layer found with
  | zero =>
    obtain ⟨-, rfl⟩ | ⟨_, _, heq, -⟩ := layers_cases hfound
    · exact absurd htrail List.not_mem_nil
    · cases heq
  | succ bound ih =>
    obtain ⟨-, rfl⟩ | ⟨_, later, heq, rfl, hlater⟩ := layers_cases hfound
    · exact absurd htrail List.not_mem_nil
    · cases heq
      rcases List.mem_append.mp htrail with hlayer | hrest
      · exact h.reached trail hlayer
      · exact ih h.next hlater hrest

/-! ## What a search answers -/

/-- A search makes a walk to each domain that its start leads to, and to no other. -/
theorem exists_trail_iff :
    (∃ trail ∈ graph.trails start, trail.domain = domain) ↔
      ReflTransGen graph.Leads start domain := by
  have hfrontier := IsFrontier.initial graph start
  have hfound := layers_eq_some_trails graph start (Nat.lt_succ_self _)
  constructor
  · intro hexists
    obtain ⟨trail, htrail, rfl⟩ := hexists
    exact hfrontier.reached_of_mem_layers hfound htrail
  · intro hreached
    exact List.mem_map.mp (hfrontier.mem_layers hfound hreached)

/-- Some walk of a search ends one transition before a domain if the start leads to it. -/
theorem exists_trail_leads_iff :
    (∃ trail ∈ graph.trails source, graph.Leads trail.domain target) ↔
      TransGen graph.Leads source target := by
  rw [TransGen.tail'_iff]
  constructor
  · intro hexists
    obtain ⟨trail, htrail, hleads⟩ := hexists
    exact ⟨trail.domain, exists_trail_iff.mp ⟨trail, htrail, rfl⟩, hleads⟩
  · intro hexists
    obtain ⟨last, hreached, hleads⟩ := hexists
    obtain ⟨trail, htrail, rfl⟩ := exists_trail_iff.mpr hreached
    exact ⟨trail, htrail, hleads⟩

/-- The reachable domains are those that lie one transition or more ahead. -/
theorem mem_reachable_iff :
    target ∈ graph.reachable source ↔ TransGen graph.Leads source target := by
  simp only [reachable, mem_ofList, List.mem_flatMap, mem_neighbours, exists_trail_leads_iff]

/-- There is no shortest path exactly where no path is. -/
theorem shortestPath?_eq_none_iff :
    graph.shortestPath? source target = none ↔ ¬ TransGen graph.Leads source target := by
  rw [shortestPath?, Option.map_eq_none_iff, List.find?_eq_none, ← exists_trail_leads_iff]
  simp only [Leads, not_exists, not_and]

end TypeEnforcement.TransitionGraph
