import TypeEnforcement.Proofs.Glob.Groups
import TypeEnforcement.Rule.Decoding
import TypeEnforcement.Rule.Validation
import TypeEnforcement.Text.Lemmas
/-!
# Rules that are read and pass

The rules and roles of a table are those of its rows. What the later proofs rely on is known of a
rule then: it is as its row was read (`Rule.IsDecoded`), and where it passes, its path is absolute
and spelled from the accepted characters (`Rule.IsSpelled`).

The first section has laws of the runs that may fail, of which a table is read and checked.

## Main results

* `RuleSet.mem_rules_iff`, `RuleSet.mem_roles_iff`: the rules and the roles of a table.
* `Rule.check_eq_ok_iff`: which rules pass.
* `Rule.isSpelled_of_check`: what a check of a rule says about a path.
-/

namespace TypeEnforcement

/-! ## Runs that may fail -/

section Runs

variable {α β ε : Type} {f : α → Except ε β} {xs : List α} {ys : List β}

theorem mapM_cons_eq_ok_iff {x : α} :
    (x :: xs).mapM f = .ok ys ↔
      ∃ y rest, f x = .ok y ∧ xs.mapM f = .ok rest ∧ ys = y :: rest := by
  rw [List.mapM_cons]
  cases hx : f x with
  | error e => simp [bind, Except.bind]
  | ok y =>
    cases hrest : xs.mapM f with
    | error e => simp [bind, Except.bind]
    | ok rest => simp [bind, Except.bind, pure, Except.pure, eq_comm]

/-- The members of the result of a run are the results of the members. -/
theorem mem_of_mapM_eq_ok (h : xs.mapM f = .ok ys) (y : β) : y ∈ ys ↔ ∃ x ∈ xs, f x = .ok y := by
  induction xs generalizing ys with
  | nil =>
    cases h
    simp
  | cons x xs ih =>
    obtain ⟨first, rest, hfirst, hrest, rfl⟩ := mapM_cons_eq_ok_iff.mp h
    rw [List.mem_cons, ih hrest, List.exists_mem_cons_iff, hfirst, Except.ok.injEq, eq_comm]

/-- A run succeeds if it does so at each member. -/
theorem exists_mapM_eq_ok_iff :
    (∃ ys, xs.mapM f = .ok ys) ↔ ∀ x ∈ xs, ∃ y, f x = .ok y := by
  induction xs with
  | nil => exact ⟨fun _ x hx => absurd hx List.not_mem_nil, fun _ => ⟨[], rfl⟩⟩
  | cons x xs ih =>
    rw [List.forall_mem_cons, ← ih]
    constructor
    · intro hexists
      obtain ⟨ys, hys⟩ := hexists
      obtain ⟨y, rest, hy, hrest, -⟩ := mapM_cons_eq_ok_iff.mp hys
      exact ⟨⟨y, hy⟩, rest, hrest⟩
    · intro hboth
      obtain ⟨⟨y, hy⟩, rest, hrest⟩ := hboth
      exact ⟨y :: rest, mapM_cons_eq_ok_iff.mpr ⟨y, rest, hy, hrest, rfl⟩⟩

theorem mapError_eq_ok_iff {δ : Type} {convert : ε → δ} {result : Except ε β} {y : β} :
    result.mapError convert = .ok y ↔ result = .ok y := by
  cases result <;> simp [Except.mapError]

theorem bind_eq_ok_iff {γ : Type} {result : Except ε β} {next : β → Except ε γ} {z : γ} :
    (result >>= next) = .ok z ↔ ∃ y, result = .ok y ∧ next y = .ok z := by
  cases result <;> simp [bind, Except.bind]

/-- A run over two lists is a run over each. -/
theorem mapM_append_eq_ok_iff {others : List α} :
    (xs ++ others).mapM f = .ok ys ↔
      ∃ first rest, xs.mapM f = .ok first ∧ others.mapM f = .ok rest ∧ ys = first ++ rest := by
  rw [List.mapM_append, bind_eq_ok_iff]
  refine exists_congr fun first => ?_
  rw [bind_eq_ok_iff, ← exists_and_left]
  refine exists_congr fun rest => and_congr_right fun _ => and_congr_right fun _ => ?_
  exact ⟨fun heq => (Except.ok.inj heq).symm, fun heq => congrArg Except.ok heq.symm⟩

theorem check_bind_eq_ok_iff {check : Except ε Unit} {next : Except ε β} {y : β} :
    (check >>= fun _ => next) = .ok y ↔ check = .ok () ∧ next = .ok y := by
  cases check <;> simp [bind, Except.bind]

theorem map_eq_ok_iff {γ : Type} {result : Except ε β} {g : β → γ} {z : γ} :
    result.map g = .ok z ↔ ∃ y, result = .ok y ∧ g y = z := by
  cases result <;> simp [Except.map]

theorem exists_of_isOk {result : Except ε β} (h : result.isOk = true) : ∃ y, result = .ok y := by
  cases result with
  | error e => cases h
  | ok y => exact ⟨y, rfl⟩

theorem toOption_eq_some_iff {result : Except ε β} {y : β} :
    result.toOption = some y ↔ result = .ok y := by
  cases result <;> simp [Except.toOption]

theorem toOption_map {γ : Type} (g : β → γ) (result : Except ε β) :
    (result.map g).toOption = result.toOption.map g := by
  cases result <;> rfl

/-- A check of all members passes if that of each member does. -/
theorem forM_eq_ok_iff {check : α → Except ε Unit} :
    xs.forM check = .ok () ↔ ∀ x ∈ xs, check x = .ok () := by
  induction xs with
  | nil => exact ⟨fun _ x hx => absurd hx List.not_mem_nil, fun _ => rfl⟩
  | cons x xs ih =>
    have hstep : (x :: xs).forM check = (check x >>= fun _ => xs.forM check) := rfl
    rw [hstep, check_bind_eq_ok_iff, List.forall_mem_cons, ← ih]

end Runs

/-! ## Rows -/

namespace RuleSet

variable {rows : List Row} {set : RuleSet}

theorem exists_ofRows_iff :
    (∃ set, ofRows rows = .ok set) ↔
      ∀ row ∈ rows, ∃ statement, Statement.ofRow row = .ok statement := by
  simp only [ofRows, map_eq_ok_iff, ← exists_mapM_eq_ok_iff]
  constructor
  · intro hexists
    obtain ⟨_, statements, hstatements, -⟩ := hexists
    exact ⟨statements, hstatements⟩
  · intro hexists
    obtain ⟨statements, hstatements⟩ := hexists
    exact ⟨_, statements, hstatements, rfl⟩

theorem mem_rules_iff (h : ofRows rows = .ok set) {rule : Rule} :
    rule ∈ set.rules ↔ ∃ row ∈ rows, Statement.ofRow row = .ok (.rule rule) := by
  obtain ⟨statements, hstatements, rfl⟩ := map_eq_ok_iff.mp h
  have hrule : ∀ statement : Statement, statement.rule? = some rule ↔ statement = .rule rule := by
    intro statement
    cases statement <;> simp [Statement.rule?]
  simp only [ofStatements, List.mem_filterMap, hrule, exists_eq_right,
    mem_of_mapM_eq_ok hstatements]

/-- Some rule of a table has a property if some row is read as such a rule. -/
theorem exists_mem_rules_iff (h : ofRows rows = .ok set) {P : Rule → Prop} :
    (∃ rule ∈ set.rules, P rule) ↔
      ∃ row ∈ rows, ∃ rule, Statement.ofRow row = .ok (.rule rule) ∧ P rule := by
  constructor
  · intro hexists
    obtain ⟨rule, hrule, hP⟩ := hexists
    obtain ⟨row, hrow, hread⟩ := (mem_rules_iff h).mp hrule
    exact ⟨row, hrow, rule, hread, hP⟩
  · intro hexists
    obtain ⟨row, hrow, rule, hread, hP⟩ := hexists
    exact ⟨rule, (mem_rules_iff h).mpr ⟨row, hrow, hread⟩, hP⟩

theorem mem_roles_iff (h : ofRows rows = .ok set) {role : Role} :
    role ∈ set.roles ↔ ∃ row ∈ rows, Statement.ofRow row = .ok (.role role) := by
  obtain ⟨statements, hstatements, rfl⟩ := map_eq_ok_iff.mp h
  have hrole : ∀ statement : Statement, statement.role? = some role ↔ statement = .role role := by
    intro statement
    cases statement <;> simp [Statement.role?]
  simp only [ofStatements, List.mem_filterMap, hrole, exists_eq_right,
    mem_of_mapM_eq_ok hstatements]

end RuleSet

/-! ## Rules -/

namespace Rule

variable {rule : Rule} {row : Row}

/-- How the parts of a rule that is read from a row belong together. -/
structure IsDecoded (rule : Rule) : Prop where
  objectRef : rule.objectRef = .ofText rule.object
  clause : ∀ clause, rule.transition = some clause →
    clause = ⟨rule.subject, rule.object, rule.objectClass, rule.effect⟩

theorem isDecoded_ofPolicyFields (subject object action classField effect condition : String)
    (line : Option Nat) :
    (ofPolicyFields subject object action classField effect condition line).IsDecoded where
  objectRef := rfl
  clause := fun _ hclause => by cases hclause

theorem isDecoded_of_transitionFields {subject object action newType condition : String}
    {line : Option Nat}
    (h : ofTransitionFields subject object action newType condition line = .ok rule) :
    rule.IsDecoded := by
  rw [ofTransitionFields] at h
  split at h
  · cases h
  · cases h
    exact ⟨rfl, fun clause hclause => (Option.some.inj hclause).symm⟩

theorem isDecoded_of_ofRow (h : Statement.ofRow row = .ok (.rule rule)) : rule.IsDecoded := by
  rw [Statement.ofRow] at h
  split at h
  · cases h
  split at h
  · cases h
  rw [Statement.ofFields.eq_def] at h
  split at h
  case h_1 | h_2 | h_3 =>
    cases h
    exact isDecoded_ofPolicyFields ..
  case h_4 | h_5 =>
    obtain ⟨found, hfound, hrule⟩ := map_eq_ok_iff.mp h
    cases hrule
    exact isDecoded_of_transitionFields hfound
  case h_6 | h_7 => cases h

theorem checkFields_eq_ok_iff :
    rule.checkFields = .ok () ↔ ∀ field ∈ rule.requiredFields, field.2 ≠ "" := by
  have hnone : rule.requiredFields.find? (·.2 == "") = none ↔
      ∀ field ∈ rule.requiredFields, field.2 ≠ "" := by
    simp only [List.find?_eq_none, beq_iff_eq, ne_eq]
  rw [checkFields, ← hnone]
  cases rule.requiredFields.find? (·.2 == "") <;> simp

theorem checkEffect_eq_ok_iff :
    rule.checkEffect = .ok () ↔
      if rule.transition.isSome then rule.effect ≠ "" else rule.effect?.isSome = true := by
  rw [checkEffect]
  split
  · split <;> simp_all
  · cases rule.effect? <;> simp

theorem checkObject_eq_ok_iff {extended : Bool} :
    rule.checkObject extended = .ok () ↔ Object.fault? extended rule.object = none := by
  rw [checkObject]
  cases Object.fault? extended rule.object <;> simp

/-- A rule passes if its fields, its effect and its object do. -/
theorem check_eq_ok_iff {extended : Bool} :
    rule.check extended = .ok () ↔
      (∀ field ∈ rule.requiredFields, field.2 ≠ "")
        ∧ (if rule.transition.isSome then rule.effect ≠ "" else rule.effect?.isSome = true)
        ∧ Object.fault? extended rule.object = none := by
  rw [check, check_bind_eq_ok_iff, check_bind_eq_ok_iff, checkFields_eq_ok_iff,
    checkEffect_eq_ok_iff, checkObject_eq_ok_iff]

/-! ### Paths -/

/-- The path of a rule, if it has one, is absolute and spelled from accepted characters. -/
structure IsSpelled (rule : Rule) : Prop where
  absolute : ∀ path, rule.objectRef = .path path → Text.startsWith path "/" = true
  plain : ∀ path, rule.objectRef = .path path → ∀ c ∈ path.toList, ¬Glob.IsMark c

theorem eq_of_ofText_eq_path {object path : String} (h : ObjectRef.ofText object = .path path) :
    object = path ∧ Text.startsWith path "/" = true := by
  rw [ObjectRef.ofText] at h
  split at h
  · next hstarts =>
    cases h
    exact ⟨rfl, hstarts⟩
  split at h
  · cases h
  split at h
  · cases h
  split at h <;> cases h

/-- The characters that stand for marks in a path are not accepted. -/
theorem not_isMark_of_accepts {extended : Bool} {c : Char} (h : Object.accepts extended c = true) :
    ¬Glob.IsMark c := by
  rintro (rfl | rfl | rfl) <;> cases extended <;> exact absurd h (by decide)

/-- The object of a rule that passes is spelled from accepted characters. -/
theorem accepts_of_check {extended : Bool} (hcheck : rule.check extended = .ok ()) :
    ∀ c ∈ rule.object.toList, Object.accepts extended c = true := by
  intro c hc
  have hfault := (check_eq_ok_iff.mp hcheck).2.2
  rw [Object.fault?] at hfault
  split at hfault
  · cases hfault
  · next hnone => simpa using List.find?_eq_none.mp hnone c hc

/-- None of the characters that stand for marks is in an accepted object. -/
theorem not_isMark_of_check {extended : Bool} (hcheck : rule.check extended = .ok ()) :
    ∀ c ∈ rule.object.toList, ¬Glob.IsMark c :=
  fun c hc => not_isMark_of_accepts (accepts_of_check hcheck c hc)

theorem isSpelled_of_check {extended : Bool} (hdecoded : rule.IsDecoded)
    (hcheck : rule.check extended = .ok ()) : rule.IsSpelled where
  absolute := fun path hpath => (eq_of_ofText_eq_path (hdecoded.objectRef ▸ hpath)).2
  plain := by
    intro path hpath
    obtain ⟨rfl, -⟩ := eq_of_ofText_eq_path (hdecoded.objectRef ▸ hpath)
    exact not_isMark_of_check hcheck

end Rule

theorem RuleSet.isDecoded_of_mem {rows : List Row} {set : RuleSet} (hset : ofRows rows = .ok set) :
    ∀ rule ∈ set.rules, rule.IsDecoded := by
  intro rule hrule
  obtain ⟨row, -, hrow⟩ := (mem_rules_iff hset).mp hrule
  exact Rule.isDecoded_of_ofRow hrow

theorem RuleSet.isSpelled_of_mem {rows : List Row} {set : RuleSet} {extended : Bool}
    (hset : ofRows rows = .ok set) (hcheck : ∀ rule ∈ set.rules, rule.check extended = .ok ()) :
    ∀ rule ∈ set.rules, rule.IsSpelled :=
  fun rule hrule => Rule.isSpelled_of_check (isDecoded_of_mem hset rule hrule) (hcheck rule hrule)

end TypeEnforcement
