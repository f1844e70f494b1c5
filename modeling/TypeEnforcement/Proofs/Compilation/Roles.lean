import TypeEnforcement.Proofs.Compilation.Labels
import TypeEnforcement.Proofs.Generation.Roles
import TypeEnforcement.Proofs.Rule.Objects
/-!
# Rules on roles

A role row gives the type of its member an attribute, and a row whose object is the role allows
something on that attribute. The attribute is the sanitized role, though, and the object is taken
as it is spelled. So the rule reaches the member just when the role is tidy: then sanitizing leaves
it alone, and the rule keeps the type of the member from being pruned; else no type at all has an
attribute that is spelled like the object.

## Main result

* `hasAttribute_of_compile_iff`: when a rule on a role reaches the members of the role.
-/

namespace TypeEnforcement

variable {options : Options} {generator : Generator} {set : RuleSet} {member role : String}

namespace Options

theorem areTidy_policyOf (options : Options) (generator : Generator) (set : RuleSet) :
    TypeDecl.AreTidy (options.policyOf generator set).types := by
  rcases options.policyOf_cases generator set with heq | ⟨optimizer, heq⟩
  · rw [heq]
    exact generator.areTidy_generate set
  · rw [heq]
    exact optimizer.areTidy_run (generator.areTidy_generate set)

/-- The type of the member of a role stays declared with the attribute of the role, if the policy
refers to it. -/
theorem exists_member_policyOf (options : Options)
    (hrole : .membership member role ∈ set.roles) (hsome : TypeName.sanitize role ≠ "")
    (hreferred : TypeName.sanitize role ∈ (generator.generate set).references) :
    ∃ decl ∈ (options.policyOf generator set).types,
      decl.name = TypeName.ensureEnding member ∧ TypeName.sanitize role ∈ decl.attributes := by
  obtain ⟨decl, hdecl, hname, hlabel⟩ :=
    generator.exists_decl_of_mem_roles hrole hsome
  rcases options.policyOf_cases generator set with heq | ⟨optimizer, heq⟩
  · exact ⟨decl, heq ▸ hdecl, hname, hlabel⟩
  · rw [heq]
    obtain ⟨kept, hkept, hsame, hkeeps⟩ :=
      optimizer.exists_decl_run_of_attribute hdecl hlabel hreferred
    exact ⟨kept, hkept, hsame.trans hname, hkeeps⟩

end Options

/-- A rule on a role reaches the members of the role just if the role is tidy. Each allow row on a
token that is a role, and whose class is none of capabilities, has a rule in the result that allows
what the row allows, on the token; and for each role row of the role, the type of the member is
declared with the token as an attribute if and only if the token has underscores between other
characters only, one at a time. -/
theorem hasAttribute_of_compile_iff {model : Model} {rows : List Row} {result : Compiled}
    (h : compile options model rows = .ok result) :
    ∃ generator, options.generator = .ok generator
      ∧ ∀ roleRow ∈ rows, ∀ member role,
          Statement.ofRow roleRow = .ok (.role (.membership member role)) →
        ∀ row ∈ rows, ∀ rule, Statement.ofRow row = .ok (.rule rule) →
          rule.effect? = some .allow → rule.objectRef = .token role →
          ObjectClass.isCapability (generator.meaningOf rule).objectClass = false →
            (∃ allow ∈ result.policy.allRules,
              allow.key = ⟨Generator.domainOf rule.subject, role,
                  (generator.meaningOf rule).objectClass⟩
                ∧ ∀ permission ∈ (generator.meaningOf rule).permissions,
                    permission ∈ allow.permissions)
              ∧ ((∃ decl ∈ result.policy.types, decl.name = TypeName.ensureEnding member
                    ∧ decl.hasAttribute role = true)
                  ↔ TypeName.IsTidy role) := by
  obtain ⟨generator, set, hgenerator, hset, ⟨-, hcheck⟩, hpolicy⟩ :=
    exists_compile_iff.mp ⟨result, h, rfl⟩
  rw [← hpolicy]
  refine ⟨generator, hgenerator, ?_⟩
  intro roleRow hroleRow member role hreadRole row hrow rule hread hallow htoken hobject
  have hrole : .membership member role ∈ set.roles :=
    (RuleSet.mem_roles_iff hset).mpr ⟨roleRow, hroleRow, hreadRole⟩
  have hrule : rule ∈ set.rules := (RuleSet.mem_rules_iff hset).mpr ⟨row, hrow, hread⟩
  have hsome : (generator.meaningOf rule).permissions ≠ [] :=
    (Options.isEffective_of_generator hgenerator).meaning _ _
  have htarget : generator.targetOf rule.objectRef = role := by
    rw [htoken]
    rfl
  refine ⟨htarget ▸ options.exists_rule_policyOf hrule hallow hobject hsome, ?_⟩
  constructor
  · intro hexists
    obtain ⟨decl, hdecl, -, hlabel⟩ := hexists
    exact options.areTidy_policyOf generator set decl hdecl role (List.contains_iff_mem.mp hlabel)
  · intro htidy
    obtain ⟨hunderscore, hname⟩ := Object.isIdentifier_iff.mp
      (Rule.isIdentifier_of_token (RuleSet.isDecoded_of_mem hset rule hrule) (hcheck rule hrule)
        htoken)
    have hself : TypeName.sanitize role = role := (TypeName.sanitize_eq_self_iff hname).mpr htidy
    have hnonempty : TypeName.sanitize role ≠ "" := by
      rw [hself]
      rintro rfl
      exact absurd hunderscore (by decide)
    -- The rule refers to the attribute, which keeps the type of the member.
    obtain ⟨allow, hmem, hkey, -⟩ := Generator.exists_rule_generate hrule hallow hobject hsome
    have hreferred : TypeName.sanitize role ∈ (generator.generate set).references := by
      simp only [AllowRule.key, AccessKey.mk.injEq, htarget] at hkey
      exact Policy.mem_references.mpr
        (Or.inl ⟨allow, hmem, Or.inr (hself.trans hkey.2.1.symm)⟩)
    obtain ⟨decl, hdecl, hsame, hlabel⟩ :=
      options.exists_member_policyOf hrole hnonempty hreferred
    exact ⟨decl, hdecl, hsame, List.contains_iff_mem.mpr (hself ▸ hlabel)⟩

/-- A role, its member and a rule on it. -/
def roleRows (role : String) : List Row := [
  ⟨"g", ["alice_t", role], some 1⟩,
  ⟨"p", ["httpd_t", role, "read", "file", "allow"], some 2⟩]

theorem hasAttribute_of_compile_webRole :
    ∃ result, compile {} .standard (roleRows "web_app") = .ok result
      ∧ (∃ allow ∈ result.policy.allRules, allow.key = ⟨"httpd_t", "web_app", "file"⟩)
      ∧ ∃ decl ∈ result.policy.types, decl.name = "alice_t"
          ∧ decl.hasAttribute "web_app" = true := by
  have hok : (compile {} .standard (roleRows "web_app")).isOk = true := by decide +kernel
  obtain ⟨result, hresult⟩ := exists_of_isOk hok
  obtain ⟨generator, hgenerator, hreaches⟩ := hasAttribute_of_compile_iff hresult
  cases hgenerator
  have hrole : Statement.ofRow ⟨"g", ["alice_t", "web_app"], some 1⟩
      = .ok (.role (.membership "alice_t" "web_app")) := by
    decide +kernel
  have hread : Statement.ofRow ⟨"p", ["httpd_t", "web_app", "read", "file", "allow"], some 2⟩
      = .ok (.rule (.ofPolicyFields "httpd_t" "web_app" "read" "file" "allow" "" (some 2))) := by
    decide +kernel
  obtain ⟨⟨allow, hallow, hkey, -⟩, hmember⟩ := hreaches _ (by simp [roleRows]) _ _ hrole
    _ (by simp [roleRows]) _ hread (by decide +kernel) (by decide +kernel) (by decide +kernel)
  have htidy : TypeName.IsTidy "web_app" := by decide
  obtain ⟨decl, hdecl, hname, hlabel⟩ := hmember.mpr htidy
  exact ⟨result, hresult, ⟨allow, hallow, hkey.trans (by decide +kernel)⟩, decl, hdecl,
    hname.trans (by decide), hlabel⟩

/-- Of a role with two underscores side by side, the rule allows something on an attribute that no
type has, and the type of the member is pruned. -/
theorem not_hasAttribute_doubledUnderscore :
    ∃ result, compile {} .standard (roleRows "web__app") = .ok result
      ∧ (∃ allow ∈ result.policy.allRules, allow.key = ⟨"httpd_t", "web__app", "file"⟩)
      ∧ ¬ ∃ decl ∈ result.policy.types, decl.hasAttribute "web__app" = true := by
  have hcompile : ((compile {} .standard (roleRows "web__app")).toOption.map fun result =>
      decide ((∃ allow ∈ result.policy.allRules, allow.key = ⟨"httpd_t", "web__app", "file"⟩)
        ∧ ¬ ∃ decl ∈ result.policy.types, decl.hasAttribute "web__app" = true)) = some true := by
    decide +kernel
  obtain ⟨result, hresult, hall⟩ := Option.map_eq_some_iff.mp hcompile
  exact ⟨result, toOption_eq_some_iff.mp hresult, of_decide_eq_true hall⟩

end TypeEnforcement
