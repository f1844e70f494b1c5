import Mathlib.Data.List.Nodup
import TypeEnforcement.Proofs.Transition.CycleSteps
/-!
# The search for a cycle is sound and complete

A search for a cycle keeps its marks, its path and its stack in step (`CycleSearch.IsInStep`). The
domains on the path are those in progress, and each leads to the next. Of the neighbours of each of
them, those that are not left on the stack are done, but for the next one on the path. The domains
that are done lead to done domains only and lie on no cycle (`AreDone`).

So a neighbour in progress stands on the path and closes a cycle, and a domain with nothing left to
look at leads to done domains only, and is done in its turn. Each step keeps this
(`CycleSearch.IsInStep.step`), and what ends a search is an answer
(`CycleSearch.IsInStep.isAnswer_of_step`).

## Main results

* `CycleSearch.IsInStep.isAnswer_of_run`: what a search that ends says about its graph.
* `findCycle?_eq_none_iff_and_isCycle`: the search for a cycle is sound and complete.
-/

namespace TypeEnforcement.TransitionGraph

open Relation

variable {graph : TransitionGraph} {domain next : String}

/-! ## Cycles -/

/-- The first domain of a path leads to the last. -/
theorem transGen_of_isChain {path : List String}
    (h : (domain :: path ++ [next]).IsChain graph.Leads) : TransGen graph.Leads domain next := by
  have hchain := h.imp fun _ _ hleads => TransGen.single hleads
  have hpairs := hchain.pairwise
  rw [List.cons_append, List.pairwise_cons] at hpairs
  exact hpairs.1 next (by simp)

/-- A path that comes back to its first domain and to no other. -/
structure IsCycle (graph : TransitionGraph) (cycle : List String) : Prop where
  two_le_length : 2 ≤ cycle.length
  head_eq_last : cycle.head? = cycle.getLast?
  nodup : cycle.dropLast.Nodup
  isPath : graph.isPath cycle = true

theorem IsCycle.exists_transGen {cycle : List String} (h : graph.IsCycle cycle) :
    ∃ domain, TransGen graph.Leads domain domain := by
  obtain ⟨hlength, hends, -, hpath⟩ := h
  cases cycle with
  | nil => simp at hlength
  | cons first rest =>
    rcases List.eq_nil_or_concat' rest with rfl | ⟨inner, last, rfl⟩
    · simp at hlength
    · rw [← List.cons_append, List.getLast?_concat, List.cons_append, List.head?_cons,
        Option.some.injEq] at hends
      subst hends
      exact ⟨first, transGen_of_isChain (isPath_iff.mp hpath).2⟩

/-! ## Domains that are done -/

/-- Domains that lead to one another only and lie on no cycle. -/
structure AreDone (graph : TransitionGraph) (done : String → Prop) : Prop where
  closed : ∀ domain, done domain → ∀ next, graph.Leads domain next → done next
  acyclic : ∀ domain, done domain → ¬ TransGen graph.Leads domain domain

namespace AreDone

variable {done : String → Prop}

theorem of_reflTransGen (h : graph.AreDone done) (hdomain : done domain)
    (hreached : ReflTransGen graph.Leads domain next) : done next := by
  induction hreached with
  | refl => exact hdomain
  | tail _ hleads ih => exact h.closed _ ih _ hleads

/-- A domain that leads to done domains only is done: it lies on no cycle, or else it would have
been done before. -/
theorem extend (h : graph.AreDone done) (hnext : ∀ next, graph.Leads domain next → done next) :
    graph.AreDone fun other => other = domain ∨ done other where
  closed := by
    rintro other (rfl | hother) next hleads
    · exact Or.inr (hnext next hleads)
    · exact Or.inr (h.closed other hother next hleads)
  acyclic := by
    rintro other (rfl | hother) hcycle
    · obtain ⟨next, hleads, hback⟩ := TransGen.head'_iff.mp hcycle
      exact h.acyclic other (h.of_reflTransGen (hnext next hleads) hback) hcycle
    · exact h.acyclic other hother hcycle

end AreDone

namespace CycleSearch

variable {search later : CycleSearch} {cycle : Option (List String)}
  {marks : List (String × Mark)} {starts path trail left : List String}
  {below : List (List String)} {child : Option String} {bound : Nat}

/-! ## Marks, path and stack -/

/-- Whether a search is done with a domain. -/
def IsDone (search : CycleSearch) (domain : String) : Prop :=
  search.mark? domain = some .done

/-- The stack holds for each domain of the path, the latest first, some of its neighbours, and its
other neighbours are done, but for the one that was entered from it. -/
inductive IsWork (graph : TransitionGraph) (done : String → Prop) :
    (child : Option String) → (trail : List String) → (stack : List (List String)) → Prop where
  | nil {child : Option String} : IsWork graph done child [] []
  | cons {child : Option String} {last : String} {trail left : List String}
    {below : List (List String)} (leads : ∀ next ∈ left, graph.Leads last next)
    (looked : ∀ next, graph.Leads last next → next ∈ left ∨ done next ∨ child = some next)
    (rest : IsWork graph done (some last) trail below) :
    IsWork graph done child (last :: trail) (left :: below)

namespace IsWork

variable {done after : String → Prop}

/-- The domain that was entered from the last one is done, too. -/
theorem settle (h : IsWork graph done (some domain) trail below)
    (hafter : ∀ other, done other → after other) (hdomain : after domain) :
    IsWork graph after none trail below := by
  have hmono : ∀ {child trail below}, IsWork graph done child trail below →
      IsWork graph after child trail below := by
    intro child trail below hwork
    induction hwork with
    | nil => exact .nil
    | cons leads looked _ ih =>
      refine .cons leads (fun next hleads => ?_) ih
      exact (looked next hleads).imp_right (Or.imp_left (hafter next))
  cases h with
  | nil => exact .nil
  | cons leads looked rest =>
    refine .cons leads (fun next hleads => ?_) (hmono rest)
    rcases looked next hleads with hleft | hdone | hchild
    · exact Or.inl hleft
    · exact Or.inr (Or.inl (hafter next hdone))
    · exact Or.inr (Or.inl (Option.some.inj hchild ▸ hdomain))

/-- A neighbour is taken from the stack. -/
theorem take (h : IsWork graph done none (domain :: trail) ((next :: left) :: below)) :
    graph.Leads domain next ∧ IsWork graph done (some next) (domain :: trail) (left :: below) := by
  cases h with
  | cons leads looked rest =>
    rw [List.forall_mem_cons] at leads
    refine ⟨leads.1, .cons leads.2 (fun other hleads => ?_) rest⟩
    rcases looked other hleads with hleft | hdone | hchild
    · rcases List.mem_cons.mp hleft with rfl | hleft
      · exact Or.inr (Or.inr rfl)
      · exact Or.inl hleft
    · exact Or.inr (Or.inl hdone)
    · cases hchild

end IsWork

/-- Marks, path and stack of a search are in step with each other and with the graph. A domain may
have been taken from the stack to be entered next (`child`). -/
structure IsInStep (graph : TransitionGraph) (child : Option String) (search : CycleSearch) :
    Prop where
  inProgress_iff : ∀ domain, search.mark? domain = some .inProgress ↔ domain ∈ search.path
  nodup : search.path.Nodup
  chain : search.path.IsChain graph.Leads
  work : IsWork graph search.IsDone child search.path.reverse search.stack
  done : graph.AreDone search.IsDone
  known : ∀ domain ∈ graph.domains,
    domain ∈ search.starts ∨ search.mark? domain ≠ none ∨ child = some domain

/-- What the end of a search says about its graph. -/
def IsAnswer (graph : TransitionGraph) : (cycle : Option (List String)) → Prop
  | some cycle => graph.IsCycle cycle
  | none => ∀ domain, ¬ TransGen graph.Leads domain domain

namespace IsInStep

theorem initial (graph : TransitionGraph) : IsInStep graph none (initial graph) where
  inProgress_iff := fun _ => ⟨fun h => (nomatch h), fun h => (nomatch h)⟩
  nodup := List.nodup_nil
  chain := List.isChain_nil
  work := .nil
  done := ⟨fun _ h => (nomatch h), fun _ h => (nomatch h)⟩
  known := fun _ hdomain => Or.inl hdomain

/-- With an empty stack no domain is in progress. -/
theorem path_eq_nil (h : IsInStep graph child { starts, marks, path, stack := [] }) :
    path = [] := by
  have hwork := h.work
  generalize htrail : path.reverse = trail at hwork
  cases hwork with
  | nil => exact List.reverse_eq_nil_iff.mp htrail

/-- The domain entered last stands at the end of the path. -/
theorem exists_path_eq (h : IsInStep graph child { starts, marks, path, stack := left :: below }) :
    ∃ before last, path = before ++ [last] := by
  have hwork := h.work
  generalize htrail : path.reverse = trail at hwork
  cases hwork with
  | @cons _ last trail _ _ _ _ _ =>
    exact ⟨trail.reverse, last, by rw [List.reverse_eq_iff.mp htrail, List.reverse_cons]⟩

/-- To enter a domain keeps a search in step. -/
theorem enter (h : IsInStep graph (some domain) search) (hmark : search.mark? domain = none)
    (hleads : ∀ last ∈ search.path.getLast?, graph.Leads last domain) :
    IsInStep graph none (CycleSearch.enter graph search domain) := by
  have hmarks : ∀ other, (CycleSearch.enter graph search domain).mark? other
      = if other = domain then some .inProgress else search.mark? other :=
    fun other => Canonical.lookup_cons
  have hfresh : domain ∉ search.path := by
    rw [← h.inProgress_iff, hmark]
    exact fun heq => nomatch heq
  have hdone : (CycleSearch.enter graph search domain).IsDone = search.IsDone := by
    funext other
    rw [IsDone, hmarks, IsDone]
    split
    · next heq => simp [heq, hmark]
    · rfl
  constructor
  · intro other
    rw [hmarks, CycleSearch.enter, List.mem_append, List.mem_singleton, ← h.inProgress_iff]
    by_cases hother : other = domain <;> simp [hother]
  · exact List.Nodup.append h.nodup (List.nodup_singleton domain)
      (List.disjoint_singleton.mpr hfresh)
  · exact List.isChain_append.mpr ⟨h.chain, List.isChain_singleton domain, by simpa using hleads⟩
  · rw [hdone, CycleSearch.enter, List.reverse_concat]
    exact .cons (fun next => mem_neighbours.mp)
      (fun next hnext => Or.inl (mem_neighbours.mpr hnext)) h.work
  · rw [hdone]
    exact h.done
  · intro other hother
    rw [hmarks]
    refine (h.known other hother).imp_right fun hknown => Or.inl ?_
    by_cases hsame : other = domain
    · rw [if_pos hsame]
      exact Option.some_ne_none _
    · rw [if_neg hsame]
      exact hknown.resolve_right fun hchild => hsame (Option.some.inj hchild).symm

/-- To leave a domain whose neighbours have all been looked at keeps a search in step. -/
theorem leave (h : IsInStep graph none { starts, marks, path, stack := [] :: below }) :
    IsInStep graph none
      (CycleSearch.leave { starts, marks, path, stack := [] :: below }) := by
  obtain ⟨before, last, rfl⟩ := h.exists_path_eq
  obtain ⟨hprogress, hnodup, hchain, hwork, hdone, hknown⟩ := h
  have hleave : CycleSearch.leave
      { starts, marks, path := before ++ [last], stack := [] :: below }
        = { starts, marks := (last, .done) :: marks, path := before, stack := below } := by
    simp [CycleSearch.leave]
  rw [hleave]
  have hmarks : ∀ other, List.lookup other ((last, Mark.done) :: marks)
      = if other = last then some .done else marks.lookup other :=
    fun other => Canonical.lookup_cons
  have hlast : last ∉ before :=
    List.disjoint_singleton.mp (List.disjoint_of_nodup_append hnodup)
  rw [List.reverse_concat] at hwork
  cases hwork with
  | cons _ looked rest =>
    have hall : ∀ next, graph.Leads last next →
        IsDone { starts, marks, path := before ++ [last], stack := [] :: below } next := by
      intro next hleads
      rcases looked next hleads with hnone | hnext | hnone
      · exact absurd hnone List.not_mem_nil
      · exact hnext
      · cases hnone
    have hafter : ∀ other,
        IsDone { starts, marks := (last, .done) :: marks, path := before, stack := below } other ↔
          other = last
            ∨ IsDone { starts, marks, path := before ++ [last], stack := [] :: below } other := by
      intro other
      simp only [IsDone, mark?, hmarks]
      by_cases hother : other = last <;> simp [hother]
    constructor
    · intro other
      simp only [mark?, hmarks]
      have hbefore := hprogress other
      by_cases hother : other = last
      · simp [hother, hlast]
      · simpa [mark?, hother] using hbefore
    · exact hnodup.of_append_left
    · exact (List.isChain_append.mp hchain).1
    · exact rest.settle (fun other hother => (hafter other).mpr (Or.inr hother))
        ((hafter last).mpr (Or.inl rfl))
    · rw [show IsDone _ = _ from funext fun other => propext (hafter other)]
      exact hdone.extend hall
    · intro other hother
      refine (hknown other hother).imp_right (Or.imp_left fun hmark => ?_)
      exact lookup_cons_ne_none hmark

/-- The neighbour looked at next is one of the domain entered last. -/
theorem take (h : IsInStep graph none { starts, marks, path, stack := (next :: left) :: below }) :
    (∀ last ∈ path.getLast?, graph.Leads last next)
      ∧ IsInStep graph (some next) { starts, marks, path, stack := left :: below } := by
  obtain ⟨before, last, rfl⟩ := h.exists_path_eq
  have hwork := h.work
  rw [List.reverse_concat] at hwork
  obtain ⟨hleads, hrest⟩ := hwork.take
  refine ⟨by simpa using hleads, { h with work := ?_, known := fun domain hdomain => ?_ }⟩
  · rw [List.reverse_concat]
    exact hrest
  · exact (h.known domain hdomain).imp_right (Or.imp_right fun hnone => nomatch hnone)

/-- A step keeps a search in step. -/
theorem step (h : IsInStep graph none search) (hstep : search.step graph = .underWay later) :
    IsInStep graph none later := by
  have htakes := takes_step graph search
  rw [hstep] at htakes
  cases htakes with
  | skip hmark =>
    refine { h with known := fun domain hdomain => ?_ }
    rcases h.known domain hdomain with hstart | hmarked
    · rcases List.mem_cons.mp hstart with rfl | hlater
      · exact Or.inr (Or.inl hmark)
      · exact Or.inl hlater
    · exact Or.inr hmarked
  | @setOut start starts marks path hmark =>
    obtain rfl := h.path_eq_nil
    have hstart : IsInStep graph (some start) { starts, marks, path := [], stack := [] } := by
      refine { h with work := .nil, known := fun domain hdomain => ?_ }
      rcases h.known domain hdomain with hstart | hmarked
      · rcases List.mem_cons.mp hstart with rfl | hlater
        · exact Or.inr (Or.inr rfl)
        · exact Or.inl hlater
      · exact Or.inr (hmarked.imp_right fun hnone => nomatch hnone)
    exact hstart.enter hmark fun last hlast => nomatch hlast
  | leave => exact h.leave
  | pass hmark =>
    obtain ⟨-, hrest⟩ := h.take
    exact { hrest with work := hrest.work.settle (fun _ hdone => hdone) hmark, known := h.known }
  | enter hmark =>
    obtain ⟨hleads, hrest⟩ := h.take
    exact hrest.enter hmark hleads

/-- A domain in progress stands on the path and closes a cycle. -/
theorem exists_closing? (h : IsInStep graph child search)
    (hmark : search.mark? domain = some .inProgress)
    (hleads : ∀ last ∈ search.path.getLast?, graph.Leads last domain) :
    ∃ cycle, search.closing? domain = some cycle ∧ graph.IsCycle cycle := by
  have hmem : domain ∈ search.path := (h.inProgress_iff domain).mp hmark
  obtain ⟨before, after, hpath, hbefore⟩ := List.eq_append_cons_of_mem hmem
  have hplace : search.path.idxOf? domain = some before.length := by
    rw [hpath, List.idxOf?, List.findIdx?_eq_some_iff_getElem]
    refine ⟨by simp, by simp, fun place hplace => ?_⟩
    rw [List.getElem_append_left hplace, beq_iff_eq]
    exact fun heq => hbefore (heq ▸ List.getElem_mem hplace)
  have hclosing : search.closing? domain = some (domain :: after ++ [domain]) := by
    rw [closing?, hplace, Option.map_some, hpath, List.drop_left]
  refine ⟨_, hclosing, by simp, by rw [List.getLast?_concat]; rfl, ?_, isPath_iff.mpr ⟨by simp, ?_⟩⟩
  · have hnodup := h.nodup
    rw [hpath] at hnodup
    rw [List.dropLast_concat]
    exact hnodup.of_append_right
  · have hchain := h.chain
    rw [hpath] at hchain hleads
    refine List.isChain_append.mpr
      ⟨(List.isChain_append.mp hchain).2.1, List.isChain_singleton domain, ?_⟩
    intro last hlast first hfirst
    cases hfirst
    exact hleads last (by rwa [List.getLast?_append_of_ne_nil _ (List.cons_ne_nil _ _)])

/-- What ends a search is an answer: a cycle that a domain in progress closes, or none where all
domains are done. -/
theorem isAnswer_of_step (h : IsInStep graph none search)
    (hstep : search.step graph = .ended cycle) : IsAnswer graph cycle := by
  have htakes := takes_step graph search
  rw [hstep] at htakes
  cases htakes with
  | @finish marks path =>
    obtain rfl := h.path_eq_nil
    intro domain hcycle
    obtain ⟨next, hleads, -⟩ := TransGen.head'_iff.mp hcycle
    have hmarked : marks.lookup domain ≠ none := by
      rcases h.known domain hleads.source_mem_domains with hstart | hmark | hnone
      · exact absurd hstart List.not_mem_nil
      · exact hmark
      · cases hnone
    have hprogress : marks.lookup domain ≠ some .inProgress :=
      fun hmark => List.not_mem_nil ((h.inProgress_iff domain).mp hmark)
    have hdone : marks.lookup domain = some .done := by
      cases hmark : marks.lookup domain with
      | none => exact absurd hmark hmarked
      | some mark =>
        cases mark with
        | inProgress => exact absurd hmark hprogress
        | done => rfl
    exact h.done.acyclic domain hdone hcycle
  | close hmark =>
    obtain ⟨hleads, -⟩ := h.take
    obtain ⟨cycle, hclosing, hcycle⟩ := h.exists_closing? hmark hleads
    rw [hclosing]
    exact hcycle

/-- What a run ends with is an answer. -/
theorem isAnswer_of_run (h : IsInStep graph none search)
    (hrun : run graph bound search = .ended cycle) : IsAnswer graph cycle := by
  induction bound generalizing search with
  | zero => cases hrun
  | succ bound ih =>
    rw [run] at hrun
    split at hrun
    · next later hstep => exact ih (h.step hstep) hrun
    · next found hstep =>
      cases hrun
      exact h.isAnswer_of_step hstep

end IsInStep

end CycleSearch

/-! ## The search -/

theorem isAnswer_findCycle? (graph : TransitionGraph) :
    CycleSearch.IsAnswer graph graph.findCycle? :=
  (CycleSearch.IsInStep.initial graph).isAnswer_of_run
    (CycleSearch.run_initial_eq_ended graph (Nat.le_refl _))

theorem isCycle_of_findCycle?_eq_some {cycle : List String} (h : graph.findCycle? = some cycle) :
    graph.IsCycle cycle := by
  have hanswer := isAnswer_findCycle? graph
  rwa [h] at hanswer

/-- No cycle is found exactly where no domain leads back to itself. -/
theorem findCycle?_eq_none_iff :
    graph.findCycle? = none ↔ ∀ domain, ¬ TransGen graph.Leads domain domain := by
  constructor
  · intro hnone
    have hanswer := isAnswer_findCycle? graph
    rwa [hnone] at hanswer
  · intro hacyclic
    rw [Option.eq_none_iff_forall_ne_some]
    intro cycle hsome
    obtain ⟨domain, hcycle⟩ := (isCycle_of_findCycle?_eq_some hsome).exists_transGen
    exact hacyclic domain hcycle

/-- The search for a cycle is sound and complete. It ends by itself: no bound from `stepBound` on
cuts it off, and all of them leave the same answer. It finds no cycle exactly where no domain is
reachable from itself, and that is where no domain has a path to itself; and what it finds is a
cycle. -/
theorem findCycle?_eq_none_iff_and_isCycle (graph : TransitionGraph) :
    (∀ bound, graph.stepBound ≤ bound →
        CycleSearch.run graph bound (.initial graph) = .ended graph.findCycle?)
      ∧ (graph.findCycle? = none ↔ ∀ domain, domain ∉ graph.reachable domain)
      ∧ (graph.findCycle? = none ↔ ∀ domain, graph.shortestPath? domain domain = none)
      ∧ ∀ cycle, graph.findCycle? = some cycle →
          2 ≤ cycle.length ∧ cycle.head? = cycle.getLast? ∧ cycle.dropLast.Nodup
            ∧ graph.isPath cycle = true := by
  refine ⟨fun bound hbound => CycleSearch.run_initial_eq_ended graph hbound, ?_, ?_, ?_⟩
  · simp only [findCycle?_eq_none_iff, mem_reachable_iff]
  · simp only [findCycle?_eq_none_iff, shortestPath?_eq_none_iff]
  · intro cycle hsome
    obtain ⟨hlength, hends, hnodup, hpath⟩ := isCycle_of_findCycle?_eq_some hsome
    exact ⟨hlength, hends, hnodup, hpath⟩

/-- Three domains in a ring, which a fourth one leads into. The cycle that is found does not hold
the fourth, from which the search sets out. -/
def ringed : TransitionGraph :=
  [TransitionEdge.mk "a_t" "b_t", ⟨"b_t", "c_t"⟩, ⟨"c_t", "d_t"⟩, ⟨"d_t", "b_t"⟩].foldl addEdge
    empty

theorem findCycle?_ringed :
    (ringed.stepBound ≤ 20
        ∧ CycleSearch.run ringed 20 (.initial ringed) = .ended ringed.findCycle?)
      ∧ (∃ domain, domain ∈ ringed.reachable domain)
      ∧ ringed.findCycle? = some ["b_t", "c_t", "d_t", "b_t"]
      ∧ ringed.isPath ["b_t", "c_t", "d_t", "b_t"] = true := by
  have hbound : ringed.stepBound ≤ 20 := by decide +kernel
  have hfound : ringed.findCycle? = some ["b_t", "c_t", "d_t", "b_t"] := by decide +kernel
  have hmember : "b_t" ∈ ringed.reachable "b_t" := by decide +kernel
  obtain ⟨hends, -, -, hcycle⟩ := findCycle?_eq_none_iff_and_isCycle ringed
  obtain ⟨-, -, -, hpath⟩ := hcycle _ hfound
  exact ⟨⟨hbound, hends 20 hbound⟩, ⟨"b_t", hmember⟩, hfound, hpath⟩

end TypeEnforcement.TransitionGraph
