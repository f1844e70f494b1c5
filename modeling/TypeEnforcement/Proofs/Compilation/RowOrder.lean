import TypeEnforcement.Proofs.Compilation.Labels
import TypeEnforcement.Proofs.Generation.Congruence
/-!
# Order of rows

With the optimizer on, a compilation depends on the rows of its table as a set (`SameRows`). A row
is read in the same way on every line, and it is accepted or not whatever the others are, so the
tables of two compilations have the same content. Then the generated policies have the same parts,
their file contexts are unambiguous, and there is one normal form.

## Main result

* `compile_congr`: tables with the same rows compile alike.
-/

namespace TypeEnforcement

variable {options : Options} {generator : Generator} {set other : RuleSet} {rows others : List Row}

/-! ## Lines -/

/-- A row without the number of its line. -/
def Row.withoutLine (row : Row) : Row :=
  { row with line := none }

/-- Whether two tables have the same rows, whatever their order, their repetition and their
lines. -/
def SameRows (rows others : List Row) : Prop :=
  ∀ row, row ∈ rows.map (·.withoutLine) ↔ row ∈ others.map (·.withoutLine)

theorem SameRows.symm (h : SameRows rows others) : SameRows others rows :=
  fun row => (h row).symm

theorem SameRows.exists_row (h : SameRows rows others) {row : Row} (hrow : row ∈ rows) :
    ∃ found ∈ others, found.withoutLine = row.withoutLine :=
  List.mem_map.mp ((h _).mp (List.mem_map_of_mem hrow))

theorem Rule.toOption_ofTransitionFields (subject object action newType condition : String)
    (line : Option Nat) :
    (ofTransitionFields subject object action newType condition none).toOption
      = (ofTransitionFields subject object action newType condition line).toOption.map
          withoutLine := by
  simp only [ofTransitionFields]
  split <;> rfl

namespace Statement

/-- A statement without the line on which it stands. -/
def withoutLine : Statement → Statement
  | rule r => .rule r.withoutLine
  | role r => .role r

theorem toOption_ofFields (kind : RowKind) (fields : List String) (line : Option Nat) :
    (ofFields kind fields none).toOption
      = (ofFields kind fields line).toOption.map withoutLine := by
  rw [ofFields.eq_def, ofFields.eq_def]
  split
  case h_1 | h_2 | h_3 | h_6 | h_7 => rfl
  case h_4 | h_5 =>
    rw [toOption_map, toOption_map, Rule.toOption_ofTransitionFields _ _ _ _ _ line,
      Option.map_map, Option.map_map]
    rfl

/-- A row is read in the same way on every line. -/
theorem toOption_ofRow (row : Row) :
    (ofRow row.withoutLine).toOption = (ofRow row).toOption.map withoutLine := by
  have htag : row.withoutLine.tag = row.tag := rfl
  rw [ofRow, ofRow, htag]
  by_cases hblank : row.tag = ""
  · rw [if_pos hblank, if_pos hblank]
    rfl
  · rw [if_neg hblank, if_neg hblank]
    cases RowKind.ofTag? row.tag with
    | none => rfl
    | some kind => exact toOption_ofFields ..

theorem exists_ofRow {row found : Row} (h : found.withoutLine = row.withoutLine)
    {statement : Statement} (hread : ofRow row = .ok statement) :
    ∃ same, ofRow found = .ok same ∧ same.withoutLine = statement.withoutLine := by
  have hfound : (ofRow found).toOption.map withoutLine = some statement.withoutLine := by
    rw [← toOption_ofRow, h, toOption_ofRow, hread]
    rfl
  obtain ⟨same, hsame, heq⟩ := Option.map_eq_some_iff.mp hfound
  exact ⟨same, toOption_eq_some_iff.mp hsame, heq⟩

end Statement

/-! ## Tables -/

namespace SameRows

/-- A table can be read if another with the same rows can. -/
theorem exists_ofRows (h : SameRows rows others) (hset : RuleSet.ofRows rows = .ok set) :
    ∃ other, RuleSet.ofRows others = .ok other := by
  refine RuleSet.exists_ofRows_iff.mpr fun row hrow => ?_
  obtain ⟨found, hfound, hsame⟩ := h.symm.exists_row hrow
  obtain ⟨statement, hread⟩ := RuleSet.exists_ofRows_iff.mp ⟨set, hset⟩ found hfound
  obtain ⟨read, hok, -⟩ := Statement.exists_ofRow hsame.symm hread
  exact ⟨read, hok⟩

theorem exists_rule (h : SameRows rows others) (hset : RuleSet.ofRows rows = .ok set)
    (hother : RuleSet.ofRows others = .ok other) {rule : Rule} (hrule : rule ∈ set.rules) :
    ∃ found ∈ other.rules, found.withoutLine = rule.withoutLine := by
  obtain ⟨row, hrow, hread⟩ := (RuleSet.mem_rules_iff hset).mp hrule
  obtain ⟨found, hfound, hsame⟩ := h.exists_row hrow
  obtain ⟨statement, hok, heq⟩ := Statement.exists_ofRow hsame hread
  cases statement with
  | rule same =>
    exact ⟨same, (RuleSet.mem_rules_iff hother).mpr ⟨found, hfound, hok⟩, Statement.rule.inj heq⟩
  | role => cases heq

theorem mem_roles (h : SameRows rows others) (hset : RuleSet.ofRows rows = .ok set)
    (hother : RuleSet.ofRows others = .ok other) {role : Role} (hrole : role ∈ set.roles) :
    role ∈ other.roles := by
  obtain ⟨row, hrow, hread⟩ := (RuleSet.mem_roles_iff hset).mp hrole
  obtain ⟨found, hfound, hsame⟩ := h.exists_row hrow
  obtain ⟨statement, hok, heq⟩ := Statement.exists_ofRow hsame hread
  cases statement with
  | rule => cases heq
  | role same =>
    cases heq
    exact (RuleSet.mem_roles_iff hother).mpr ⟨found, hfound, hok⟩

/-- Tables with the same rows have the same content. -/
theorem sameContent (h : SameRows rows others) (hset : RuleSet.ofRows rows = .ok set)
    (hother : RuleSet.ofRows others = .ok other) : set.SameContent other where
  rules := by
    intro rule
    simp only [List.mem_map]
    constructor
    · intro hexists
      obtain ⟨original, horiginal, rfl⟩ := hexists
      exact h.exists_rule hset hother horiginal
    · intro hexists
      obtain ⟨original, horiginal, rfl⟩ := hexists
      exact h.symm.exists_rule hother hset horiginal
  roles := fun role => ⟨h.mem_roles hset hother, h.symm.mem_roles hother hset⟩

end SameRows

/-- Whether a rule passes does not depend on its line. -/
theorem Rule.check_eq_ok_of_withoutLine {extended : Bool} {rule found : Rule}
    (h : found.withoutLine = rule.withoutLine) (hcheck : rule.check extended = .ok ()) :
    found.check extended = .ok () := by
  have hline : ∀ rule : Rule, rule.withoutLine.check extended = .ok () ↔
      rule.check extended = .ok () := by
    intro rule
    rw [check_eq_ok_iff, check_eq_ok_iff]
    exact Iff.rfl
  rwa [← hline, h, hline]

/-! ## Compilations -/

/-- The file contexts of a generated policy are unambiguous, but for their comments. -/
theorem Generator.areUnambiguous_generate (hspelled : ∀ rule ∈ set.rules, rule.IsSpelled) :
    FileContext.AreUnambiguous (generator.generate set).withoutComments.fileContexts := by
  intro entry hentry other hother hkey
  obtain ⟨entry, hmem, rfl⟩ := List.mem_map.mp hentry
  obtain ⟨other, hmem', rfl⟩ := List.mem_map.mp hother
  rw [FileContext.key_withoutComment, FileContext.key_withoutComment] at hkey
  obtain ⟨hpattern, hkind⟩ := FileContextKey.mk.inj hkey
  have htarget := targetType_eq_of_pattern_eq hspelled hmem hmem' hpattern
  simp only [FileContext.withoutComment, hpattern, hkind, htarget]

/-- With the optimizer on, the policy of a table depends on its rules and roles as sets. -/
theorem Options.policyOf_congr (hoptimizes : options.optimizes = true)
    (h : set.SameContent other) (hspelled : ∀ rule ∈ set.rules, rule.IsSpelled)
    (hagree : BooleanDecl.Agree (generator.fragment set).booleans) :
    (options.policyOf generator set).withoutComments
      = (options.policyOf generator other).withoutComments := by
  have hnormal : ∀ set, options.policyOf generator set
      = Optimizer.run ⟨options.eliminatesRedundant, options.prunesTypes⟩ (generator.generate set) :=
    fun set => by rw [policyOf, optimizer?, if_pos hoptimizes]; rfl
  rw [hnormal, hnormal, ← Optimizer.run_withoutComments, ← Optimizer.run_withoutComments]
  exact Optimizer.run_congr _ (generator.sameParts_generate h hagree)
    (fun _ => TypeDecl.comment_of_mem_withoutComment) (Generator.areUnambiguous_generate hspelled)

/-- The boolean that a row declares, if it is a role on one. -/
def Row.boolean? (row : Row) : Option BooleanDecl :=
  match Statement.ofRow row with
  | .ok (.role (.boolean name default)) => some { name, default }
  | _ => none

theorem agree_of_ofRows (hset : RuleSet.ofRows rows = .ok set)
    (h : BooleanDecl.Agree (rows.filterMap (·.boolean?))) :
    BooleanDecl.Agree (generator.fragment set).booleans := by
  have hdeclared : ∀ decl ∈ (generator.fragment set).booleans,
      decl ∈ rows.filterMap (·.boolean?) := by
    intro decl hdecl
    have hrole := Generator.role_of_mem_booleans_fragment hdecl
    obtain ⟨row, hrow, hread⟩ := (RuleSet.mem_roles_iff hset).mp hrole
    exact List.mem_filterMap.mpr ⟨row, hrow, by rw [Row.boolean?, hread]⟩
  exact fun decl hdecl other hother => h decl (hdeclared decl hdecl) other (hdeclared other hother)

theorem exists_result_of_sameRows {model : Model} {result : Compiled} (h : SameRows rows others)
    (hresult : compile options model rows = .ok result) :
    ∃ other, compile options model others = .ok other := by
  obtain ⟨generator, set, hgenerator, hset, ⟨hmodel, hcheck⟩, -⟩ :=
    exists_compile_iff.mp ⟨result, hresult, rfl⟩
  obtain ⟨other, hother⟩ := h.exists_ofRows hset
  have hchecks : ∀ rule ∈ other.rules, rule.check options.extendedGlobs = .ok () := by
    intro rule hrule
    obtain ⟨found, hfound, hsame⟩ := h.symm.exists_rule hother hset hrule
    exact Rule.check_eq_ok_of_withoutLine hsame.symm (hcheck found hfound)
  obtain ⟨compiled, hcompiled, -⟩ :=
    exists_compile_iff.mpr ⟨generator, other, hgenerator, hother, ⟨hmodel, hchecks⟩, rfl⟩
  exact ⟨compiled, hcompiled⟩

/-- With the optimizer on, a compilation depends on the rows of its table as a set: tables with the
same rows, whatever their order, their repetition and their lines, both compile or both fail; and
where no boolean has two defaults, the policies are the same, but for the comments on their types
and their file contexts. -/
theorem compile_congr (hoptimizes : options.optimizes = true) (model : Model)
    (h : SameRows rows others) :
    ((∃ result, compile options model rows = .ok result) ↔
        ∃ other, compile options model others = .ok other)
      ∧ ∀ result other, compile options model rows = .ok result →
          compile options model others = .ok other →
          BooleanDecl.Agree (rows.filterMap (·.boolean?)) →
            result.policy.withoutComments = other.policy.withoutComments := by
  constructor
  · exact ⟨fun ⟨_, hresult⟩ => exists_result_of_sameRows h hresult,
      fun ⟨_, hother⟩ => exists_result_of_sameRows h.symm hother⟩
  · intro result other hresult hother hagree
    obtain ⟨generator, set, hgenerator, hset, ⟨-, hcheck⟩, hpolicy⟩ :=
      exists_compile_iff.mp ⟨result, hresult, rfl⟩
    obtain ⟨generator', set', hgenerator', hset', -, hpolicy'⟩ :=
      exists_compile_iff.mp ⟨other, hother, rfl⟩
    obtain rfl : generator = generator' := by
      rw [hgenerator] at hgenerator'
      exact Except.ok.inj hgenerator'
    rw [← hpolicy, ← hpolicy']
    exact Options.policyOf_congr hoptimizes (h.sameContent hset hset')
      (RuleSet.isSpelled_of_mem hset hcheck) (agree_of_ofRows hset hagree)

/-- Two paths with one pattern, the program of a domain and a boolean. -/
def orderedRows : List Row := [
  ⟨"p", ["web", "/srv/www/*", "read", "", "allow", "!strict"], some 1⟩,
  ⟨"p", ["web", "/srv/www/**", "write", "allow"], some 2⟩,
  ⟨"g", ["bool:strict", "true"], some 3⟩,
  ⟨"p2", ["init", "/usr/sbin/web_bin", "transition", "web"], some 4⟩]

/-- The rows of `orderedRows` in another order and on other lines, one of them twice. -/
def shuffledRows : List Row := [
  ⟨"p2", ["init", "/usr/sbin/web_bin", "transition", "web"], some 1⟩,
  ⟨"p", ["web", "/srv/www/**", "write", "allow"], none⟩,
  ⟨"g", ["bool:strict", "true"], some 3⟩,
  ⟨"p", ["web", "/srv/www/**", "write", "allow"], some 4⟩,
  ⟨"p", ["web", "/srv/www/*", "read", "", "allow", "!strict"], some 5⟩]

theorem compile_congr_shuffledRows :
    ∃ result other, compile {} .standard orderedRows = .ok result
      ∧ compile {} .standard shuffledRows = .ok other
      ∧ result.policy.withoutComments = other.policy.withoutComments := by
  have hsame : SameRows orderedRows shuffledRows := by
    intro row
    simp only [orderedRows, shuffledRows, Row.withoutLine, List.map_cons, List.map_nil,
      List.mem_cons, List.not_mem_nil, or_false]
    constructor
    · rintro (rfl | rfl | rfl | rfl) <;> simp
    · rintro (rfl | rfl | rfl | rfl | rfl) <;> simp
  have hdeclared : orderedRows.filterMap (·.boolean?) = [⟨"strict", true⟩] := by decide +kernel
  have hagree : BooleanDecl.Agree (orderedRows.filterMap (·.boolean?)) := by
    simp [hdeclared, BooleanDecl.Agree]
  have hoptimizes : Options.optimizes {} = true := rfl
  obtain ⟨hsucceeds, hequal⟩ := compile_congr hoptimizes .standard hsame
  have hok : (compile {} .standard orderedRows).isOk = true := by decide +kernel
  obtain ⟨result, hresult⟩ := exists_of_isOk hok
  obtain ⟨other, hother⟩ := hsucceeds.mp ⟨result, hresult⟩
  exact ⟨result, other, hresult, hother, hequal result other hresult hother hagree⟩

end TypeEnforcement
