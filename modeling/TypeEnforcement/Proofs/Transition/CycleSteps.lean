import Mathlib.Algebra.BigOperators.Ring.List
import Mathlib.Algebra.Order.BigOperators.Group.List
import Mathlib.Algebra.Order.Group.Nat
import Mathlib.Algebra.Ring.Nat
import TypeEnforcement.Proofs.Transition.Reachability
import TypeEnforcement.Transition.Cycle
/-!
# The search for a cycle ends

A step of a search for a cycle is one of seven (`CycleSearch.Takes`). Each that does not end the
search leaves less to do. A domain that is entered puts its neighbours on the stack, but each domain
is entered once, and they were to be looked at before as well. So the potential of a search falls
with each step (`CycleSearch.potential_lt`), and the bound of `findCycle?` is never what ends it.

## Main results

* `CycleSearch.takes_step`: what a step does.
* `CycleSearch.run_initial_eq_ended`: a search ends, with the same answer whatever its bound.
-/

namespace TypeEnforcement.TransitionGraph.CycleSearch

/-! ## Steps -/

/-- What a step does, by what is left to look at. -/
inductive Takes (graph : TransitionGraph) : CycleSearch → Progress → Prop where
  | finish {marks path} :
    Takes graph { starts := [], marks, path, stack := [] } (.ended none)
  | skip {start starts marks path} (hmark : marks.lookup start ≠ none) :
    Takes graph { starts := start :: starts, marks, path, stack := [] }
      (.underWay { starts, marks, path, stack := [] })
  | setOut {start starts marks path} (hmark : marks.lookup start = none) :
    Takes graph { starts := start :: starts, marks, path, stack := [] }
      (.underWay (CycleSearch.enter graph { starts, marks, path := [], stack := [] } start))
  | leave {starts marks path below} :
    Takes graph { starts, marks, path, stack := [] :: below }
      (.underWay (CycleSearch.leave { starts, marks, path, stack := [] :: below }))
  | close {next starts marks path left below} (hmark : marks.lookup next = some .inProgress) :
    Takes graph { starts, marks, path, stack := (next :: left) :: below }
      (.ended (closing? { starts, marks, path, stack := (next :: left) :: below } next))
  | pass {next starts marks path left below} (hmark : marks.lookup next = some .done) :
    Takes graph { starts, marks, path, stack := (next :: left) :: below }
      (.underWay { starts, marks, path, stack := left :: below })
  | enter {next starts marks path left below} (hmark : marks.lookup next = none) :
    Takes graph { starts, marks, path, stack := (next :: left) :: below }
      (.underWay (CycleSearch.enter graph { starts, marks, path, stack := left :: below } next))

variable {graph : TransitionGraph} {search later : CycleSearch} {cycle : Option (List String)}
  {marks : List (String × Mark)} {domain next : String} {bound : Nat}

theorem takes_step (graph : TransitionGraph) (search : CycleSearch) :
    Takes graph search (search.step graph) := by
  obtain ⟨starts, marks, path, stack⟩ := search
  match stack with
  | [] =>
    match starts with
    | [] => exact .finish
    | start :: starts =>
      rw [step]
      dsimp only
      by_cases hmark : marks.lookup start = none
      · rw [if_neg (by simp [mark?, hmark])]
        exact .setOut hmark
      · rw [if_pos (by simpa [mark?, Option.isSome_iff_ne_none] using hmark)]
        exact .skip hmark
  | [] :: below => exact .leave
  | (next :: left) :: below =>
    rw [step]
    dsimp only [mark?]
    split
    · next hmark => exact .close hmark
    · next hmark => exact .pass hmark
    · next hmark => exact .enter hmark

/-! ## The end of a search -/

/-- What a search has to pay for the neighbours of a domain that it has not entered yet. -/
def cost (graph : TransitionGraph) (marks : List (String × Mark)) (domain : String) : Nat :=
  if marks.lookup domain = none then 2 * (graph.neighbours domain).length else 0

/-- What is left to do in a search. -/
def potential (graph : TransitionGraph) (search : CycleSearch) : Nat :=
  2 * search.starts.length + (search.stack.map fun left => 2 * left.length + 1).sum
    + (graph.domains.map (cost graph search.marks)).sum

theorem lookup_cons_ne_none {mark : Mark} (h : marks.lookup next ≠ none) :
    List.lookup next ((domain, mark) :: marks) ≠ none := by
  rw [Canonical.lookup_cons]
  split
  · exact Option.some_ne_none _
  · exact h

theorem cost_cons_le {mark : Mark} :
    cost graph ((domain, mark) :: marks) next ≤ cost graph marks next := by
  rw [cost, cost]
  by_cases hmark : marks.lookup next = none
  · rw [if_pos hmark]
    split <;> omega
  · rw [if_neg (lookup_cons_ne_none hmark)]
    exact Nat.zero_le _

theorem sum_cost_cons_le (graph : TransitionGraph) (marks : List (String × Mark)) (domain : String)
    (mark : Mark) :
    (graph.domains.map (cost graph ((domain, mark) :: marks))).sum
      ≤ (graph.domains.map (cost graph marks)).sum :=
  List.sum_le_sum fun _ _ => cost_cons_le

/-- To enter a domain pays for its neighbours. -/
theorem sum_cost_enter_le (graph : TransitionGraph) (mark : Mark)
    (hmark : marks.lookup domain = none) :
    (graph.domains.map (cost graph ((domain, mark) :: marks))).sum
        + 2 * (graph.neighbours domain).length
      ≤ (graph.domains.map (cost graph marks)).sum := by
  by_cases hdomain : domain ∈ graph.domains
  · have hrest : ((graph.domains.erase domain).map (cost graph ((domain, mark) :: marks))).sum
        ≤ ((graph.domains.erase domain).map (cost graph marks)).sum :=
      List.sum_le_sum fun _ _ => cost_cons_le
    have hpaid : cost graph ((domain, mark) :: marks) domain = 0 :=
      if_neg (by rw [Canonical.lookup_cons, if_pos rfl]; exact Option.some_ne_none _)
    have hcost : cost graph marks domain = 2 * (graph.neighbours domain).length := if_pos hmark
    rw [← List.sum_map_erase _ hdomain, ← List.sum_map_erase (cost graph marks) hdomain]
    omega
  · -- Only a domain of the graph has neighbours.
    have hnone : graph.neighbours domain = [] := by
      rw [List.eq_nil_iff_forall_not_mem]
      exact fun next hnext => hdomain (mem_neighbours.mp hnext).source_mem_domains
    have hle := sum_cost_cons_le graph marks domain mark
    rw [hnone, List.length_nil]
    omega

/-- Each step leaves less to do. -/
theorem potential_lt (h : search.step graph = .underWay later) :
    potential graph later < potential graph search := by
  have htakes := takes_step graph search
  rw [h] at htakes
  cases htakes with
  | skip hmark =>
    simp only [potential, List.length_cons]
    omega
  | setOut hmark =>
    have hpaid := sum_cost_enter_le graph .inProgress hmark
    simp only [potential, enter, List.length_cons, List.map_cons, List.sum_cons]
    omega
  | @leave starts marks path below =>
    have hle : (graph.domains.map (cost graph
        ((path.getLast?.map (·, Mark.done)).toList ++ marks))).sum
          ≤ (graph.domains.map (cost graph marks)).sum := by
      cases path.getLast? with
      | none => exact Nat.le_refl _
      | some last => exact sum_cost_cons_le graph marks last .done
    simp only [potential, leave, List.tail_cons, List.map_cons, List.sum_cons, List.length_nil]
    omega
  | pass hmark =>
    simp only [potential, List.length_cons, List.map_cons, List.sum_cons]
    omega
  | enter hmark =>
    have hpaid := sum_cost_enter_le graph .inProgress hmark
    simp only [potential, enter, List.length_cons, List.map_cons, List.sum_cons]
    omega

/-- A search ends within its potential. -/
theorem exists_run_eq_ended (hbound : potential graph search < bound) :
    ∃ cycle, run graph bound search = .ended cycle := by
  induction bound generalizing search with
  | zero => omega
  | succ bound ih =>
    rw [run]
    split
    · next later hstep =>
      have hless := potential_lt hstep
      exact ih (by omega)
    · next cycle _ => exact ⟨cycle, rfl⟩

/-- A greater bound changes nothing for a search that ends. -/
theorem run_mono (h : run graph bound search = .ended cycle) {other : Nat} (hle : bound ≤ other) :
    run graph other search = .ended cycle := by
  induction bound generalizing search other with
  | zero => cases h
  | succ bound ih =>
    obtain ⟨other, rfl⟩ := Nat.exists_eq_add_of_le' (Nat.le_trans (Nat.succ_pos bound) hle)
    rw [run] at h ⊢
    split at h
    · exact ih h (Nat.le_of_succ_le_succ hle)
    · exact h

theorem potential_initial (graph : TransitionGraph) :
    potential graph (initial graph) < graph.stepBound := by
  have hcost : cost graph [] = fun domain => 2 * (graph.neighbours domain).length :=
    funext fun _ => if_pos rfl
  simp only [potential, initial, stepBound, hcost, List.map_nil, List.sum_nil, List.length_flatMap,
    List.sum_map_mul_left]
  omega

/-- The search for a cycle ends within its bound. -/
theorem run_initial_eq_ended (graph : TransitionGraph) (hbound : graph.stepBound ≤ bound) :
    run graph bound (initial graph) = .ended graph.findCycle? := by
  obtain ⟨cycle, hcycle⟩ := exists_run_eq_ended (potential_initial graph)
  have hfound : graph.findCycle? = cycle := by
    rw [findCycle?, hcycle]
  rw [hfound]
  exact run_mono hcycle hbound

end TypeEnforcement.TransitionGraph.CycleSearch
