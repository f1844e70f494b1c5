import TypeEnforcement.Proofs.Compilation.Labels
import TypeEnforcement.Proofs.Generation.Fragments
import TypeEnforcement.Proofs.Rule.Objects
/-!
# Objects of a compilation

The reader of rows and the check of rules agree on what each object is, so the generator is never
given a port that is no number: the ports of a policy come from the network objects and the bare
ports of its table (`Generator.exists_rule_of_mem_portBindings`), and those that pass are numerals.

## Main result

* `isClassified_of_ofRows`: what the objects of a table are, and the ports of its policy.
-/

namespace TypeEnforcement

variable {generator : Generator} {set : RuleSet} {rule : Rule} {binding : PortBinding}

/-! ## Ports of objects -/

/-- The port that an object names, if it names one. -/
def ObjectRef.port? : ObjectRef → Option String
  | .network _ n => some n
  | .port n => some n
  | .path _ => none
  | .token _ => none

/-- The port of an object that passes is a numeral. -/
theorem Object.IsClassified.isNumeral_port {extended : Bool} {object : String} {ref : ObjectRef}
    (h : IsClassified extended object ref) {port : String} (hport : ref.port? = some port) :
    Text.isNumeral port = true := by
  cases ref with
  | path p => cases hport
  | token t => cases hport
  | network protocol n =>
    obtain rfl : n = port := Option.some.inj hport
    exact ((h.network protocol n).mp rfl).2.2
  | port n =>
    obtain rfl : n = port := Option.some.inj hport
    obtain rfl : n = object := h.text
    exact h.port.mp rfl

namespace Generator

theorem portBindings_roleFragment (role : Role) : (roleFragment role).portBindings = [] :=
  congrArg Fragment.portBindings (roleFragment_eq role)

theorem portBindings_transitionFragment (generator : Generator) (rule : Rule)
    (clause : TransitionClause) :
    (generator.transitionFragment rule clause).portBindings = [] := by
  have hobject : (generator.transitionObject rule).portBindings = [] := by
    unfold transitionObject
    split <;> rfl
  unfold transitionFragment
  split <;> exact hobject

/-- The ports that an object contributes are the one that it names. -/
theorem port?_of_mem_objectFragment {attributes : List String} {objectClass : String}
    (h : binding ∈ (generator.objectFragment attributes rule objectClass).portBindings) :
    rule.objectRef.port? = some binding.port := by
  unfold objectFragment at h
  split at h
  · cases h
  · next href =>
    cases List.mem_singleton.mp h
    rw [href]
    rfl
  · next href =>
    cases List.mem_singleton.mp h
    rw [href]
    rfl
  · cases h

theorem port?_of_mem_ruleFragment {attributes : List String}
    (h : binding ∈ (generator.ruleFragment attributes rule).portBindings) :
    rule.objectRef.port? = some binding.port := by
  unfold ruleFragment at h
  split at h
  · split at h
    · cases h
    · exact port?_of_mem_objectFragment h
  · cases h

/-- The ports of a policy are named by the objects of its table. -/
theorem exists_rule_of_mem_portBindings (h : binding ∈ (generator.generate set).portBindings) :
    ∃ rule ∈ set.rules, rule.objectRef.port? = some binding.port := by
  have hfragment : binding ∈ (generator.fragments set).flatMap (·.portBindings) := h
  rw [mem_flatMap_fragments portBindings_roleFragment] at hfragment
  rcases hfragment with ⟨rule, hrule, -, hmem⟩ | ⟨rule, -, clause, -, hmem⟩
  · exact ⟨rule, hrule, port?_of_mem_ruleFragment hmem⟩
  · rw [portBindings_transitionFragment] at hmem
    cases hmem

end Generator

theorem Options.mem_portBindings_policyOf {options : Options} :
    binding ∈ (options.policyOf generator set).portBindings ↔
      binding ∈ (generator.generate set).portBindings := by
  rcases options.policyOf_cases generator set with heq | ⟨optimizer, heq⟩
  · rw [heq]
  · rw [heq, (Optimizer.sorted_run optimizer _).2.2.1, Canonical.mem_ofList]

/-! ## Compilations -/

/-- The ports of the result of a compilation are numerals. -/
theorem isNumeral_of_compile {options : Options} {model : Model} {rows : List Row}
    {result : Compiled} (h : compile options model rows = .ok result) :
    ∀ binding ∈ result.policy.portBindings, Text.isNumeral binding.port = true := by
  obtain ⟨generator, set, -, hset, ⟨-, hcheck⟩, hpolicy⟩ := exists_compile_iff.mp ⟨result, h, rfl⟩
  rw [← hpolicy]
  intro binding hbinding
  obtain ⟨rule, hrule, hport⟩ := Generator.exists_rule_of_mem_portBindings
    (Options.mem_portBindings_policyOf.mp hbinding)
  have hclassified := Rule.isClassified_of_check (RuleSet.isDecoded_of_mem hset rule hrule)
    (hcheck rule hrule)
  exact hclassified.isNumeral_port hport

/-- The reader of rows and the check of rules agree on what an object is: a rule of a table that
passes has an object of the kind that its text says. So the ports of every result of a compilation
are numerals, and a rule that passes in the plain spelling passes in the extended one. -/
theorem isClassified_of_ofRows :
    (∀ rows set, RuleSet.ofRows rows = .ok set → ∀ rule ∈ set.rules, ∀ extended,
        rule.check extended = .ok () →
          Object.IsClassified extended rule.object rule.objectRef)
      ∧ (∀ options model rows result, compile options model rows = .ok result →
          ∀ binding ∈ result.policy.portBindings, Text.isNumeral binding.port = true)
      ∧ ∀ rule : Rule, rule.check false = .ok () → rule.check true = .ok () := by
  refine ⟨?_, fun _ _ _ _ => isNumeral_of_compile, fun _ => Rule.check_extended⟩
  intro rows set hset rule hrule extended hcheck
  exact Rule.isClassified_of_check (RuleSet.isDecoded_of_mem hset rule hrule) hcheck

/-- A network object, a bare port and a token in the extended spelling. -/
def portRows : List Row := [
  ⟨"p", ["web_t", "tcp:443", "connect", "allow"], some 1⟩,
  ⟨"p", ["web_t", "53", "bind", "allow"], some 2⟩,
  ⟨"p", ["web_t", "etc_t", "read", "allow"], some 3⟩]

theorem isClassified_of_ofRows_portRows :
    ∃ set result, RuleSet.ofRows portRows = .ok set
      ∧ compile { extendedGlobs := true } .standard portRows = .ok result
      ∧ (∀ rule ∈ set.rules, Object.IsClassified true rule.object rule.objectRef)
      ∧ result.policy.portBindings.map (·.port) = ["443", "53"]
      ∧ ∀ binding ∈ result.policy.portBindings, Text.isNumeral binding.port = true := by
  have hrows : ((RuleSet.ofRows portRows).toOption.map fun set =>
      set.rules.all fun rule => (rule.check true).isOk) = some true := by decide +kernel
  have hcompile : ((compile { extendedGlobs := true } .standard portRows).toOption.map fun result =>
      result.policy.portBindings.map (·.port)) = some ["443", "53"] := by decide +kernel
  obtain ⟨set, hset, hall⟩ := Option.map_eq_some_iff.mp hrows
  obtain ⟨result, hresult, hports⟩ := Option.map_eq_some_iff.mp hcompile
  obtain ⟨hclassified, hnumeral, -⟩ := isClassified_of_ofRows
  have hread := toOption_eq_some_iff.mp hset
  have hdone := toOption_eq_some_iff.mp hresult
  refine ⟨set, result, hread, hdone, ?_, hports, hnumeral _ _ _ _ hdone⟩
  intro rule hrule
  obtain ⟨⟨⟩, hcheck⟩ := exists_of_isOk (List.all_eq_true.mp hall rule hrule)
  exact hclassified _ _ hread rule hrule true hcheck

end TypeEnforcement
