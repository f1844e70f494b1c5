import TypeEnforcement.Proofs.Compilation.Labels
import TypeEnforcement.Proofs.Generation.References
/-!
# The result of a compilation has no dangling references

A generated policy is closed and anchored, and its normal form is closed. So whatever the options
ask for, the parts of the result mention nothing that is not declared, but for attributes.

## Main result

* `isClosed_of_compile`: the result of a compilation is closed.
-/

namespace TypeEnforcement

variable {options : Options} {model : Model} {rows : List Row} {result : Compiled}

namespace Generator

/-- The attributes that roles introduce are the names of memberships that have a word. -/
theorem mem_roleAttributes {roles : List Role} {name : String} :
    name ∈ roleAttributes roles ↔
      name ≠ "" ∧ ∃ member role,
        .membership member role ∈ roles ∧ TypeName.sanitize role = name := by
  simp only [roleAttributes, List.mem_filter, List.mem_filterMap, decide_eq_true_eq]
  constructor
  · intro hboth
    obtain ⟨⟨entry, hentry, hname⟩, hsome⟩ := hboth
    cases entry with
    | membership member role => exact ⟨hsome, member, role, hentry, Option.some.inj hname⟩
    | boolean => cases hname
  · intro hboth
    obtain ⟨hsome, member, role, hentry, hname⟩ := hboth
    exact ⟨⟨_, hentry, congrArg some hname⟩, hsome⟩

end Generator

theorem Options.isClosed_policyOf {generator : Generator} {set : RuleSet}
    (hspelled : ∀ rule ∈ set.rules, rule.IsSpelled) :
    (options.policyOf generator set).IsClosed (Generator.roleAttributes set.roles) := by
  obtain ⟨hclosed, hanchored⟩ := generator.isClosed_generate hspelled
  rcases options.policyOf_cases generator set with heq | ⟨optimizer, heq⟩
  · rw [heq]
    exact hclosed
  · rw [heq]
    exact hclosed.run hanchored optimizer

/-- A compilation that succeeds, under whatever options, gives a policy without dangling
references, where the known attributes are those that the role rows introduce. -/
theorem isClosed_of_compile (h : compile options model rows = .ok result) :
    ∃ attributes,
      (∀ name, name ∈ attributes ↔
        name ≠ "" ∧ ∃ row ∈ rows, ∃ member role,
          Statement.ofRow row = .ok (.role (.membership member role))
            ∧ TypeName.sanitize role = name)
      ∧ result.policy.IsClosed attributes := by
  obtain ⟨generator, set, -, hset, ⟨-, hcheck⟩, hpolicy⟩ := exists_compile_iff.mp ⟨result, h, rfl⟩
  have hspelled : ∀ rule ∈ set.rules, rule.IsSpelled := RuleSet.isSpelled_of_mem hset hcheck
  refine ⟨Generator.roleAttributes set.roles, fun name => ?_, ?_⟩
  · rw [Generator.mem_roleAttributes]
    refine and_congr Iff.rfl ?_
    constructor
    · intro hexists
      obtain ⟨member, role, hmem, hname⟩ := hexists
      obtain ⟨row, hrow, hread⟩ := (RuleSet.mem_roles_iff hset).mp hmem
      exact ⟨row, hrow, member, role, hread, hname⟩
    · intro hexists
      obtain ⟨row, hrow, member, role, hread, hname⟩ := hexists
      exact ⟨member, role, (RuleSet.mem_roles_iff hset).mpr ⟨row, hrow, hread⟩, hname⟩
  · rw [← hpolicy]
    exact Options.isClosed_policyOf hspelled

/-- Rows that refer to a path, a port, a capability, an attribute, a boolean and an entry point. -/
def referringRows : List Row := [
  ⟨"p", ["web", "/srv/www/*", "read", "", "allow", "!strict"], some 1⟩,
  ⟨"p", ["web", "8080", "bind", "allow"], some 2⟩,
  ⟨"p", ["web", "web_t", "net_admin", "capability", "allow"], some 3⟩,
  ⟨"p", ["web", "clients_t", "read", "allow"], some 4⟩,
  ⟨"g", ["browser", "clients_t"], some 5⟩,
  ⟨"g", ["bool:strict", "true"], some 6⟩,
  ⟨"p2", ["init", "/usr/sbin/web_bin", "transition", "web", "strict"], some 7⟩]

theorem isClosed_of_compile_referringRows :
    ∃ result attributes, compile {} .standard referringRows = .ok result
      ∧ "clients_t" ∈ attributes ∧ result.policy.IsClosed attributes := by
  have hok : (compile {} .standard referringRows).isOk = true := by decide +kernel
  obtain ⟨result, hresult⟩ := exists_of_isOk hok
  obtain ⟨attributes, hattributes, hclosed⟩ := isClosed_of_compile hresult
  have hread : Statement.ofRow ⟨"g", ["browser", "clients_t"], some 5⟩
      = .ok (.role (.membership "browser" "clients_t")) := by
    decide +kernel
  have hintroduced : "clients_t" ∈ attributes := (hattributes _).mpr
    ⟨by decide, _, by simp [referringRows], _, _, hread, by decide +kernel⟩
  exact ⟨result, attributes, hresult, hintroduced, hclosed⟩

end TypeEnforcement
