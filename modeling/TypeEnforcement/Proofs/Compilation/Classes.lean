import TypeEnforcement.Proofs.Compilation.Labels
/-!
# Classes of rows that give none

The class of an action is looked up twice. A row on a token that gives no class gets one when it is
read, from the table of known actions (`Action.tableClass`); and what the action means is asked of
the actions of the generator, under the class that the row has by then. So an override changes the
permissions of such a row, but its class never counts: the class of the row is that which the
overrides give its action only if no override in force has another (`fileClass_servingRow`).

## Main result

* `objectClass_of_compile`: the class of a row on a token that gives none.
-/

namespace TypeEnforcement

/-! ## Classes of actions -/

/-- The class of an action in the table of known actions; an unknown one is on files. -/
def Action.tableClass (action : String) : String :=
  (defaultClass? action).getD ObjectClass.file

/-- What holds of the class of files and of the classes of known actions. -/
theorem Action.tableClass_induction {p : String → Prop} (hfile : p ObjectClass.file)
    (hdefaults : ∀ entry ∈ defaults, p entry.2.objectClass) (action : String) :
    p (tableClass action) := by
  rw [tableClass, defaultClass?]
  cases hlookup : defaults.lookup action with
  | none => exact hfile
  | some meaning =>
    exact hdefaults (action, meaning) (ActionTable.mem_of_lookup_eq_some hlookup)

theorem Action.isCapability_tableClass (action : String) :
    ObjectClass.isCapability (tableClass action) = false :=
  tableClass_induction (p := fun c => ObjectClass.isCapability c = false) rfl (by decide) action

namespace ActionTable

variable {table : ActionTable} {action : String}

theorem requested?_tableClass (action : String) :
    requested? (some (Action.tableClass action)) = some (Action.tableClass action) :=
  Action.tableClass_induction (p := fun c => requested? (some c) = some c) (by decide)
    (by decide +kernel) action

/-- A class that a rule asks for is the class of its meaning. -/
theorem objectClass_meaning_of_requested {objectClass : Option String} {asked : String}
    (h : requested? objectClass = some asked) :
    (table.meaning action objectClass).objectClass = asked := by
  rw [meaning, h]
  split
  · rfl
  · next hnone => cases hnone
  · next base found _ hfound =>
    obtain rfl : asked = found := Option.some.inj hfound
    split
    · next hsame => exact hsame.symm
    split <;> rfl

/-- Where a rule asks for no class, an override in force gives the class, else the table of known
actions. -/
theorem objectClass_meaning_none (table : ActionTable) (action : String) :
    (table.meaning action none).objectClass
      = ((table.overrides.lookup action).map (·.objectClass)).getD (Action.tableClass action) := by
  rw [meaning, known?, Action.tableClass, Action.defaultClass?]
  cases table.overrides.lookup action with
  | some meaning => rfl
  | none => cases Action.defaults.lookup action <;> rfl

/-- The two tables agree on the class of an action if no override in force has another class. -/
theorem tableClass_eq_iff :
    Action.tableClass action = (table.meaning action none).objectClass ↔
      ∀ meaning, table.overrides.lookup action = some meaning →
        meaning.objectClass = Action.tableClass action := by
  rw [objectClass_meaning_none]
  cases table.overrides.lookup action with
  | none => simp
  | some meaning => simp [eq_comm]

end ActionTable

/-! ## Rows that give no class -/

/-- A row that allows an action on an object and gives no class for it: the field of the class is
left out or empty. -/
inductive Row.OmitsClass : Row → (subject object action : String) → Prop where
  | short (subject object action : String) (line : Option Nat) :
      OmitsClass ⟨"p", [subject, object, action, "allow"], line⟩ subject object action
  | plain (subject object action : String) (line : Option Nat) :
      OmitsClass ⟨"p", [subject, object, action, "", "allow"], line⟩ subject object action
  | guarded (subject object action condition : String) (line : Option Nat) :
      OmitsClass ⟨"p", [subject, object, action, "", "allow", condition], line⟩ subject object
        action

/-- Such a row is read as a rule with the class of its action in the table of known actions, if its
object is a token and its action encodes no class. -/
theorem Row.OmitsClass.exists_rule {row : Row} {subject object action token : String}
    (h : row.OmitsClass subject object action) (htoken : ObjectRef.ofText object = .token token)
    (hencoded : (Action.split action).2 = none) :
    ∃ rule, Statement.ofRow row = .ok (.rule rule) ∧ rule.subject = subject
      ∧ rule.objectRef = .token token ∧ rule.action = (Action.split action).1
      ∧ rule.effect? = some .allow
      ∧ rule.objectClass = Action.tableClass (Action.split action).1 := by
  have hread : ∃ condition line, Statement.ofRow row
      = .ok (.rule (.ofPolicyFields subject object action "" "allow" condition line)) := by
    cases h with
    | short _ _ _ line | plain _ _ _ line => exact ⟨"", line, rfl⟩
    | guarded _ _ _ condition line => exact ⟨condition, line, rfl⟩
  obtain ⟨condition, line, hrow⟩ := hread
  refine ⟨_, hrow, rfl, htoken, rfl, rfl, ?_⟩
  simp only [Rule.ofPolicyFields, Rule.classOf, hencoded, htoken]
  rfl

/-! ## Compilations -/

namespace Generator

variable {generator : Generator} {rule : Rule} {token : String}

theorem objectClass_meaningOf (hclass : rule.objectClass = Action.tableClass rule.action) :
    (generator.meaningOf rule).objectClass = Action.tableClass rule.action := by
  rw [meaningOf, hclass]
  exact ActionTable.objectClass_meaning_of_requested (ActionTable.requested?_tableClass rule.action)

end Generator

/-- A row on a token that gives no class is compiled with the class of its action in the table of
known actions: so is the rule that is generated for it, and the result of the compilation allows
the permissions of the action under it. It is the class that the actions of the generator give to
the action exactly if no override in force has another class. -/
theorem objectClass_of_compile {options : Options} {model : Model} {rows : List Row}
    {result : Compiled} (h : compile options model rows = .ok result) {row : Row}
    (hrow : row ∈ rows) {subject object action token : String}
    (homits : row.OmitsClass subject object action)
    (htoken : ObjectRef.ofText object = .token token)
    (hencoded : (Action.split action).2 = none) :
    ∃ generator rule, options.generator = .ok generator
      ∧ Statement.ofRow row = .ok (.rule rule) ∧ rule.action = (Action.split action).1
      ∧ (∀ attributes, (generator.ruleFragment attributes rule).rules
          = [Generator.grant rule (TypeName.ensureEnding subject) token
              (Action.tableClass rule.action) (generator.meaningOf rule).permissions])
      ∧ (∃ allow ∈ result.policy.allRules,
          allow.key = ⟨TypeName.ensureEnding subject, token, Action.tableClass rule.action⟩
            ∧ ∀ permission ∈ (generator.meaningOf rule).permissions,
                permission ∈ allow.permissions)
      ∧ (Action.tableClass rule.action = (generator.actions.meaning rule.action none).objectClass ↔
          ∀ meaning, generator.actions.overrides.lookup rule.action = some meaning →
            meaning.objectClass = Action.tableClass rule.action) := by
  obtain ⟨generator, set, hgenerator, hset, -, hpolicy⟩ := exists_compile_iff.mp ⟨result, h, rfl⟩
  obtain ⟨rule, hread, rfl, hobject, haction, hallow, hclass⟩ := homits.exists_rule htoken hencoded
  rw [← haction] at hclass
  have hmeaning : (generator.meaningOf rule).objectClass = Action.tableClass rule.action :=
    Generator.objectClass_meaningOf hclass
  have hplain : ObjectClass.isCapability (generator.meaningOf rule).objectClass = false := by
    rw [hmeaning, Action.isCapability_tableClass]
  have htarget : generator.targetOf rule.objectRef = token := by rw [hobject, Generator.targetOf]
  refine ⟨generator, rule, hgenerator, hread, haction, fun attributes => ?generated, ?compiled,
    ActionTable.tableClass_eq_iff⟩
  case generated =>
    rw [Generator.rules_ruleFragment, if_pos hallow, hplain, if_neg Bool.false_ne_true, htarget,
      hmeaning]
    rfl
  case compiled =>
    have hrule : rule ∈ set.rules := (RuleSet.mem_rules_iff hset).mpr ⟨row, hrow, hread⟩
    have hsome : (generator.meaningOf rule).permissions ≠ [] :=
      (Options.isEffective_of_generator hgenerator).meaning _ _
    obtain ⟨allow, hmem, hkey, hpermissions⟩ :=
      options.exists_rule_policyOf hrule hallow hplain hsome
    rw [htarget, hmeaning] at hkey
    rw [← hpolicy]
    exact ⟨allow, hmem, hkey, hpermissions⟩

/-- Options that override an action that the table of known actions does not have. -/
def servingOptions : Options where
  actionOverrides := [("serve", ⟨"dbus", ["send_msg"]⟩)]

/-- A row that gives no class for that action. -/
def servingRow : Row :=
  ⟨"p", ["web_t", "bus_t", "serve", "allow"], some 1⟩

theorem objectClass_of_compile_servingRow :
    ∃ result, compile servingOptions .standard [servingRow] = .ok result
      ∧ ∃ allow ∈ result.policy.allRules, allow.key = ⟨"web_t", "bus_t", "file"⟩ := by
  have hok : (compile servingOptions .standard [servingRow]).isOk = true := by decide +kernel
  obtain ⟨result, hresult⟩ := exists_of_isOk hok
  have homits : servingRow.OmitsClass "web_t" "bus_t" "serve" := .short _ _ _ _
  have htoken : ObjectRef.ofText "bus_t" = .token "bus_t" := by decide +kernel
  obtain ⟨_, rule, -, -, haction, -, ⟨allow, hallow, hkey, -⟩, -⟩ :=
    objectClass_of_compile hresult (List.mem_singleton_self _) homits htoken (by decide +kernel)
  have hname : rule.action = "serve" := haction.trans (by decide +kernel)
  have hsubject : TypeName.ensureEnding "web_t" = "web_t" := by decide +kernel
  have hclass : Action.tableClass "serve" = "file" := by decide +kernel
  rw [hname, hsubject, hclass] at hkey
  exact ⟨result, hresult, allow, hallow, hkey⟩

/-- The override gives the action another class than the row is compiled with. -/
theorem fileClass_servingRow :
    ∃ generator result, servingOptions.generator = .ok generator
      ∧ compile servingOptions .standard [servingRow] = .ok result
      ∧ (generator.actions.meaning "serve" none).objectClass = "dbus"
      ∧ result.policy.allRules.map (·.objectClass) = ["file"] := by
  have hgenerates : (servingOptions.generator.toOption.map fun generator =>
      decide ((generator.actions.meaning "serve" none).objectClass = "dbus")) = some true := by
    decide +kernel
  have hcompiles : ((compile servingOptions .standard [servingRow]).toOption.map fun result =>
      decide (result.policy.allRules.map (·.objectClass) = ["file"])) = some true := by
    decide +kernel
  obtain ⟨generator, hgenerator, hmeaning⟩ := Option.map_eq_some_iff.mp hgenerates
  obtain ⟨result, hresult, hclasses⟩ := Option.map_eq_some_iff.mp hcompiles
  exact ⟨generator, result, toOption_eq_some_iff.mp hgenerator, toOption_eq_some_iff.mp hresult,
    of_decide_eq_true hmeaning, of_decide_eq_true hclasses⟩

end TypeEnforcement
