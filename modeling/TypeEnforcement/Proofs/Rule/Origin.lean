import Mathlib.Data.List.Forall2
import TypeEnforcement.Proofs.Action.Overriding
import TypeEnforcement.Proofs.Rule.Objects
import TypeEnforcement.Proofs.Text.Trimming
/-!
# Rules and the rows that they are read from

The rules of a table are those of its rows that are not about roles, one for each and in their
order (`Statement.forall₂_rules`). `Row.Carries` says which field of such a row stands for what, and
`Rule.IsReadFrom` what the rule makes of the fields: above all which class it has and where the
class comes from (`Rule.HasClass`), and that it changes a type if its row has the tag for that.

Reading a row puts up with empty fields and unknown effects. The analysis does not, so the rules of
a table that passes are complete (`Rule.IsComplete`).

## Main result

* `RuleSet.isReadFrom_and_isComplete`: the rules of a table, as they are read and as they pass.
-/

namespace TypeEnforcement

/-! ## Classes in actions -/

namespace Action

/-- An action encodes a class: the text behind the first separator is not blank, and the class is
that text without the blanks around it. -/
def Encodes (action objectClass : String) : Prop :=
  ∃ name text, Text.IsFirstCut "::".toList action.toList name text
    ∧ text.all Text.isBlank = false ∧ objectClass = String.ofList (Text.trimChars text)

theorem split_eq_some_iff {action objectClass : String} :
    (split action).2 = some objectClass ↔ Encodes action objectClass := by
  have hmark : "::".toList = [':', ':'] := rfl
  simp only [Encodes, ← Text.cutAt?_eq_some_iff, hmark, split]
  cases Text.cutAt? [':', ':'] action.toList with
  | none => simp
  | some parts =>
    obtain ⟨name, text⟩ := parts
    constructor
    · intro hsome
      by_cases hblank : text.all Text.isBlank = true
      · simp only [if_pos hblank, reduceCtorEq] at hsome
      · simp only [if_neg hblank, Option.some.injEq] at hsome
        exact ⟨name, text, rfl, Bool.eq_false_of_not_eq_true hblank, hsome.symm⟩
    · intro hexists
      obtain ⟨_, _, heq, hblank, rfl⟩ := hexists
      cases heq
      simp only [if_neg (Bool.eq_false_iff.mp hblank)]

theorem Encodes.ne_empty {action objectClass : String} (h : Encodes action objectClass) :
    objectClass ≠ "" := by
  obtain ⟨name, text, -, hblank, rfl⟩ := h
  rw [ne_eq, String.ofList_eq_empty_iff, Text.trimChars_eq_nil_iff, hblank]
  exact Bool.false_ne_true

theorem not_encodes_of_split {action : String} (h : (split action).2 = none)
    (objectClass : String) : ¬Encodes action objectClass := by
  rw [← split_eq_some_iff, h]
  exact Option.some_ne_none objectClass ∘ Eq.symm

theorem defaultClass?_ne_empty {action objectClass : String}
    (h : defaultClass? action = some objectClass) : objectClass ≠ "" := by
  obtain ⟨meaning, hmeaning, rfl⟩ := Option.map_eq_some_iff.mp h
  have hmem := ActionTable.mem_of_lookup_eq_some hmeaning
  exact (ActionTable.isSound_of_mem_defaults _ hmem).objectClass_ne_empty

end Action

/-- Some class is inferred for every object. -/
theorem ObjectRef.inferClass_ne_empty (object : ObjectRef) (action : String) :
    object.inferClass action ≠ "" := by
  cases object with
  | path path =>
    rw [inferClass]
    split <;> decide
  | network protocol port =>
    rw [inferClass]
    cases protocol <;> decide
  | port port =>
    rw [inferClass]
    cases hfilter : (Action.defaultClass? action).filter (Text.endsWith · "_socket") with
    | none => decide
    | some objectClass =>
      exact Action.defaultClass?_ne_empty (Option.filter_eq_some_iff.mp hfilter).1
  | token name =>
    rw [inferClass]
    cases hdefault : Action.defaultClass? action with
    | none => decide
    | some objectClass => exact Action.defaultClass?_ne_empty hdefault

/-! ## Rows -/

/-- What stands in the fields of a row that makes a rule. -/
structure RuleFields where
  subject : String
  object : String
  action : String
  /-- Empty where the row has no field for the class. -/
  objectClass : String
  /-- The effect, or the new type where the row changes a type. -/
  effect : String
  /-- Empty where the row has no field for a condition. -/
  condition : String

/-- The rows that make a rule, and the order of their fields. -/
inductive Row.Carries : Row → RuleFields → Prop where
  | plain (subject object action effect : String) (line : Option Nat) :
      Carries ⟨"p", [subject, object, action, effect], line⟩
        ⟨subject, object, action, "", effect, ""⟩
  | classed (subject object action objectClass effect : String) (line : Option Nat) :
      Carries ⟨"p", [subject, object, action, objectClass, effect], line⟩
        ⟨subject, object, action, objectClass, effect, ""⟩
  | guarded (subject object action objectClass effect condition : String) (line : Option Nat) :
      Carries ⟨"p", [subject, object, action, objectClass, effect, condition], line⟩
        ⟨subject, object, action, objectClass, effect, condition⟩
  | transition (subject object action newType : String) (line : Option Nat) :
      Carries ⟨"p2", [subject, object, action, newType], line⟩
        ⟨subject, object, action, "", newType, ""⟩
  | guardedTransition (subject object action newType condition : String) (line : Option Nat) :
      Carries ⟨"p2", [subject, object, action, newType, condition], line⟩
        ⟨subject, object, action, "", newType, condition⟩

theorem Row.Carries.tag_ne {row : Row} {fields : RuleFields} (h : row.Carries fields) :
    row.tag ≠ "g" := by
  cases h <;> simp

/-! ## Rules -/

namespace Rule

variable {rule : Rule} {row : Row} {fields : RuleFields}

/-- The class of a rule and where it comes from: the action, else the field for the class, else the
object and the action. Rows that change a type have no field for the class and are about processes
unless their action says otherwise. -/
inductive HasClass (rule : Rule) (row : Row) (fields : RuleFields) :
    String → ClassSource → Prop where
  | encoded (objectClass : String) : Action.Encodes fields.action objectClass →
      HasClass rule row fields objectClass .encoded
  | explicit : (∀ objectClass, ¬Action.Encodes fields.action objectClass) →
      fields.objectClass ≠ "" → HasClass rule row fields fields.objectClass .explicit
  | inferred : (∀ objectClass, ¬Action.Encodes fields.action objectClass) →
      fields.objectClass = "" → row.tag = "p" →
      HasClass rule row fields (rule.objectRef.inferClass rule.action) .inferred
  | process : (∀ objectClass, ¬Action.Encodes fields.action objectClass) → row.tag = "p2" →
      HasClass rule row fields "process" .inferred

/-- What a rule makes of the fields of its row. -/
structure IsReadFrom (rule : Rule) (row : Row) (fields : RuleFields) : Prop where
  subject : rule.subject = fields.subject
  object : rule.object = fields.object
  action : rule.action = (Action.split fields.action).1
  effect : rule.effect = fields.effect
  condition : rule.condition = Condition.ofText? fields.condition
  line : rule.line = row.line
  objectRef : rule.objectRef = .ofText rule.object
  text_objectRef : rule.objectRef.text = rule.object
  objectClass_ne_empty : rule.objectClass ≠ ""
  hasClass : rule.HasClass row fields rule.objectClass rule.classSource
  isSome_transition : rule.transition.isSome = true ↔ row.tag = "p2"
  transition : ∀ clause, rule.transition = some clause → rule.action = "transition"
    ∧ clause.sourceType = rule.subject ∧ clause.targetType = rule.object
    ∧ clause.objectClass = rule.objectClass ∧ clause.newType = rule.effect

variable {subject object action objectClass effect newType condition : String} {line : Option Nat}
  {texts : List String}

theorem isReadFrom_ofPolicyFields :
    (ofPolicyFields subject object action objectClass effect condition line).IsReadFrom
      ⟨"p", texts, line⟩ ⟨subject, object, action, objectClass, effect, condition⟩ := by
  have hclass : ∃ found source, classOf (.ofText object) (Action.split action).1
        (Action.split action).2 objectClass = (found, source) ∧ found ≠ ""
      ∧ (ofPolicyFields subject object action objectClass effect condition line).HasClass
          ⟨"p", texts, line⟩ ⟨subject, object, action, objectClass, effect, condition⟩
          found source := by
    cases hsplit : (Action.split action).2 with
    | some encoded =>
      have hencodes := Action.split_eq_some_iff.mp hsplit
      exact ⟨encoded, .encoded, rfl, hencodes.ne_empty, .encoded encoded hencodes⟩
    | none =>
      have hnone := Action.not_encodes_of_split hsplit
      by_cases hfield : objectClass = ""
      · exact ⟨_, .inferred, if_pos hfield, ObjectRef.inferClass_ne_empty _ _,
          .inferred hnone hfield rfl⟩
      · exact ⟨_, .explicit, if_neg hfield, hfield, .explicit hnone hfield⟩
  obtain ⟨found, source, hfound, hsome, hhas⟩ := hclass
  have hplain : (ofPolicyFields subject object action objectClass effect condition
      line).transition.isSome = true ↔ "p" = "p2" := by
    simp [ofPolicyFields]
  refine ⟨rfl, rfl, rfl, rfl, rfl, rfl, rfl, (ObjectRef.ofText_spec object).1, ?_, ?_, hplain, ?_⟩
  · simpa only [ofPolicyFields, hfound] using hsome
  · simpa only [ofPolicyFields, hfound] using hhas
  · intro clause hclause
    cases hclause

theorem isReadFrom_of_ofTransitionFields
    (h : ofTransitionFields subject object action newType condition line = .ok rule) :
    rule.IsReadFrom ⟨"p2", texts, line⟩ ⟨subject, object, action, "", newType, condition⟩ := by
  rw [ofTransitionFields] at h
  split at h
  · cases h
  next haction =>
  cases h
  have hname : (Action.split action).1 = "transition" := not_not.mp haction
  refine ⟨rfl, rfl, rfl, rfl, rfl, rfl, rfl, (ObjectRef.ofText_spec object).1, ?_, ?_,
    iff_of_true rfl rfl, ?_⟩
  · cases hsplit : (Action.split action).2 with
    | some encoded => exact (Action.split_eq_some_iff.mp hsplit).ne_empty
    | none => exact (by decide : ObjectClass.process ≠ "")
  · cases hsplit : (Action.split action).2 with
    | some encoded => exact .encoded encoded (Action.split_eq_some_iff.mp hsplit)
    | none => exact .process (Action.not_encodes_of_split hsplit) rfl
  · intro clause hclause
    cases hclause
    exact ⟨hname, rfl, rfl, rfl, rfl⟩

end Rule

theorem RowKind.tag_of_ofTag? {tag : String} {kind : RowKind} (h : ofTag? tag = some kind) :
    kind.tag = tag := by
  have hfound := List.find?_some h
  exact eq_of_beq hfound

namespace Statement

/-- Where a statement comes from: a rule from a row that carries the fields of one, and a statement
about a role from a row with the tag for that. -/
def IsReadFrom (row : Row) : Statement → Prop
  | rule r => ∃ fields, row.Carries fields ∧ r.IsReadFrom row fields
  | role _ => row.tag = "g"

variable {statement : Statement} {row : Row} {rows : List Row} {statements : List Statement}

theorem isReadFrom_of_ofFields {kind : RowKind} {texts : List String} {line : Option Nat}
    (h : ofFields kind texts line = .ok statement) :
    statement.IsReadFrom ⟨kind.tag, texts, line⟩ := by
  rw [ofFields.eq_def] at h
  split at h
  case h_1 =>
    cases h
    exact ⟨_, .plain .., Rule.isReadFrom_ofPolicyFields⟩
  case h_2 =>
    cases h
    exact ⟨_, .classed .., Rule.isReadFrom_ofPolicyFields⟩
  case h_3 =>
    cases h
    exact ⟨_, .guarded .., Rule.isReadFrom_ofPolicyFields⟩
  case h_4 =>
    obtain ⟨found, hfound, rfl⟩ := map_eq_ok_iff.mp h
    exact ⟨_, .transition .., Rule.isReadFrom_of_ofTransitionFields hfound⟩
  case h_5 =>
    obtain ⟨found, hfound, rfl⟩ := map_eq_ok_iff.mp h
    exact ⟨_, .guardedTransition .., Rule.isReadFrom_of_ofTransitionFields hfound⟩
  case h_6 =>
    cases h
    rfl
  case h_7 => cases h

theorem isReadFrom_of_ofRow (h : ofRow row = .ok statement) : statement.IsReadFrom row := by
  obtain ⟨tag, texts, line⟩ := row
  rw [ofRow] at h
  split at h
  · cases h
  split at h
  · cases h
  next kind hkind =>
  obtain rfl := RowKind.tag_of_ofTag? hkind
  exact isReadFrom_of_ofFields h

/-- Each rule stands at the place of its row among the rows that are not about roles. -/
theorem forall₂_rules (h : rows.mapM ofRow = .ok statements) :
    List.Forall₂ (fun row rule => ∃ fields, row.Carries fields ∧ rule.IsReadFrom row fields)
      (rows.filter (·.tag ≠ "g")) (statements.filterMap rule?) := by
  induction rows generalizing statements with
  | nil =>
    cases h
    exact .nil
  | cons row rows ih =>
    obtain ⟨statement, rest, hrow, hrest, rfl⟩ := mapM_cons_eq_ok_iff.mp h
    have hread := isReadFrom_of_ofRow hrow
    cases statement with
    | rule rule =>
      obtain ⟨fields, hcarries, hrule⟩ := hread
      rw [List.filter_cons, if_pos (decide_eq_true hcarries.tag_ne)]
      exact .cons ⟨fields, hcarries, hrule⟩ (ih hrest)
    | role role =>
      have htag : ¬ decide (row.tag ≠ "g") = true := by
        rw [decide_eq_true_iff]
        exact not_not.mpr hread
      rw [List.filter_cons, if_neg htag, List.filterMap_cons_none rfl]
      exact ih hrest

end Statement

/-! ## Rules that pass -/

theorem Effect.isSome_ofWord?_iff {text : String} :
    (ofWord? text).isSome = true ↔ text = "allow" ∨ text = "deny" := by
  simp [ofWord?, List.find?_isSome, word, @eq_comm _ text]

/-- A rule that passes leaves nothing out: a change of type gives all its types and its class, and
any other rule an effect. -/
structure Rule.IsComplete (rule : Rule) : Prop where
  transition : ∀ clause, rule.transition = some clause → clause.sourceType ≠ ""
    ∧ clause.targetType ≠ "" ∧ clause.objectClass ≠ "" ∧ clause.newType ≠ ""
  effect : rule.transition = none → rule.effect = "allow" ∨ rule.effect = "deny"

theorem Rule.isComplete_of_check {rule : Rule} {extended : Bool} (hdecoded : rule.IsDecoded)
    (hcheck : rule.check extended = .ok ()) : rule.IsComplete := by
  obtain ⟨hfields, heffect, -⟩ := check_eq_ok_iff.mp hcheck
  simp only [requiredFields, List.forall_mem_cons] at hfields
  obtain ⟨hsubject, hobject, -, hclass, -⟩ := hfields
  constructor
  · intro clause hclause
    rw [hclause, Option.isSome_some, if_pos rfl] at heffect
    rw [hdecoded.clause clause hclause]
    exact ⟨hsubject, hobject, hclass, heffect⟩
  · intro hnone
    rw [effect?, hnone] at heffect
    exact Effect.isSome_ofWord?_iff.mp heffect

namespace RuleSet

variable {rows : List Row} {set : RuleSet}

/-- The rules of a table are read from its rows that are not about roles, one from each and in their
order; and if the table passes, they are complete. -/
theorem isReadFrom_and_isComplete (h : ofRows rows = .ok set) :
    List.Forall₂ (fun row rule => ∃ fields, row.Carries fields ∧ rule.IsReadFrom row fields)
        (rows.filter (·.tag ≠ "g")) set.rules
      ∧ ∀ extended model analysis, Analysis.run extended model set = .ok analysis →
          ∀ rule ∈ set.rules, rule.IsComplete := by
  constructor
  · obtain ⟨statements, hstatements, rfl⟩ := map_eq_ok_iff.mp h
    exact Statement.forall₂_rules hstatements
  · intro extended model analysis hanalysis rule hrule
    obtain ⟨_, hcheck, -⟩ := map_eq_ok_iff.mp hanalysis
    exact Rule.isComplete_of_check (isDecoded_of_mem h rule hrule)
      ((Analysis.check_eq_ok_iff.mp hcheck).2 rule hrule)

/-- A class in the action, beside another one in its field, a role, a change of type, and a class
that is inferred. -/
def mixedRows : List Row := [
  ⟨"p", ["httpd_t", "/srv/www", "read :: dir", "file", "allow", "!locked"], some 1⟩,
  ⟨"g", ["httpd_t", "web_domain"], some 2⟩,
  ⟨"p2", ["init_t", "httpd_exec_t", "transition", "httpd_t"], some 3⟩,
  ⟨"p", ["httpd_t", "53", "sendto", "deny"], some 4⟩]

theorem isReadFrom_and_isComplete_mixedRows :
    ∃ set, ofRows mixedRows = .ok set
      ∧ (∃ analysis, Analysis.run false .standard set = .ok analysis)
      ∧ set.rules.map (·.objectClass) = ["dir", "process", "udp_socket"]
      ∧ List.Forall₂ (fun row rule => ∃ fields, row.Carries fields ∧ rule.IsReadFrom row fields)
        (mixedRows.eraseIdx 1) set.rules
      ∧ ∀ rule ∈ set.rules, rule.IsComplete := by
  have hrows : ((ofRows mixedRows).toOption.map fun set =>
      ((Analysis.run false .standard set).isOk, set.rules.map (·.objectClass)))
        = some (true, ["dir", "process", "udp_socket"]) := by
    decide +kernel
  obtain ⟨set, hset, hparts⟩ := Option.map_eq_some_iff.mp hrows
  obtain ⟨hpasses, hclasses⟩ := Prod.mk.inj hparts
  have hread := toOption_eq_some_iff.mp hset
  obtain ⟨analysis, hanalysis⟩ := exists_of_isOk hpasses
  obtain ⟨hfrom, hcomplete⟩ := isReadFrom_and_isComplete hread
  exact ⟨set, hread, ⟨analysis, hanalysis⟩, hclasses, hfrom, hcomplete _ _ _ hanalysis⟩

end RuleSet

end TypeEnforcement
