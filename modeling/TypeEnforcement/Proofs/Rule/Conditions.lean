import TypeEnforcement.Proofs.Rule.Reading
import TypeEnforcement.Proofs.Text.Trimming
/-!
# Conditions of rows

A row of six fields that allows or denies, and a row of five that changes a type, end in a condition
(`Row.HasCondition`). What is read from it is a condition unless the field is blank or holds a lone
`!`, which negates nothing; and the rule of the row carries what is read.

## Main results

* `Condition.ofText?_eq_none_iff`: the texts that are no condition.
* `Row.HasCondition.exists_condition`: a row whose field is a condition makes a rule with one.
-/

namespace TypeEnforcement

/-! ## Texts of conditions -/

/-- A text is no condition if it is blank or a lone `!`. -/
theorem Condition.ofText?_eq_none_iff {text : String} :
    ofText? text = none ↔ Text.allBlank text = true ∨ Text.trim text = "!" := by
  have hblank : Text.allBlank text = true ↔ Text.trimChars text.toList = [] :=
    Text.trimChars_eq_nil_iff.symm
  have hword : "!" = String.ofList ['!'] := rfl
  have hlone : Text.trim text = "!" ↔ Text.trimChars text.toList = ['!'] := by
    rw [hword, Text.trim, String.ofList_inj]
  rw [hblank, hlone, ofText?]
  split
  · next hnil => simp [hnil]
  · next rest hnegated =>
    rw [hnegated]
    by_cases hrest : rest.all Text.isBlank = true
    · have hnil : rest = [] := Text.eq_nil_of_trimChars_eq_cons hnegated hrest
      simp [hnil]
    · have hcons : rest ≠ [] := by
        intro hnil
        exact hrest (by rw [hnil]; rfl)
      simp [hrest, hcons]
  · next hsome hplain =>
    constructor
    · intro hnone
      cases hnone
    · intro hcases
      rcases hcases with hnil | hmark
      · exact absurd hnil hsome
      · exact absurd hmark (hplain [])

/-! ## Rows with a condition -/

/-- A row with a field for a condition, and the text of that field. -/
inductive Row.HasCondition : Row → String → Prop where
  | policy (subject object action objectClass effect condition : String) (line : Option Nat) :
      HasCondition ⟨"p", [subject, object, action, objectClass, effect, condition], line⟩ condition
  | transition (subject object action newType condition : String) (line : Option Nat) :
      HasCondition ⟨"p2", [subject, object, action, newType, condition], line⟩ condition

theorem Rule.condition_of_ofTransitionFields {subject object action newType condition : String}
    {line : Option Nat} {rule : Rule}
    (h : ofTransitionFields subject object action newType condition line = .ok rule) :
    rule.condition = Condition.ofText? condition := by
  rw [ofTransitionFields] at h
  split at h
  · cases h
  · cases h
    rfl

namespace Row.HasCondition

variable {row : Row} {text : String} {statement : Statement}

/-- Such a row makes a rule, if it can be read, and the rule has the condition of the field. -/
theorem exists_rule (h : row.HasCondition text) (hread : Statement.ofRow row = .ok statement) :
    ∃ rule, statement = .rule rule ∧ rule.condition = Condition.ofText? text := by
  cases h with
  | policy subject object action objectClass effect _ line =>
    have hrow : Statement.ofRow ⟨"p", [subject, object, action, objectClass, effect, text], line⟩
        = .ok (.rule (.ofPolicyFields subject object action objectClass effect text line)) :=
      rfl
    rw [hrow] at hread
    cases hread
    exact ⟨_, rfl, rfl⟩
  | transition subject object action newType _ line =>
    have hrow : Statement.ofRow ⟨"p2", [subject, object, action, newType, text], line⟩
        = (Rule.ofTransitionFields subject object action newType text line).map .rule :=
      rfl
    rw [hrow] at hread
    obtain ⟨rule, hrule, heq⟩ := map_eq_ok_iff.mp hread
    exact ⟨rule, heq.symm, Rule.condition_of_ofTransitionFields hrule⟩

/-- A row whose field is a condition makes a rule with a condition. -/
theorem exists_condition (h : row.HasCondition text) (hblank : Text.allBlank text = false)
    (hlone : Text.trim text ≠ "!") (hread : Statement.ofRow row = .ok statement) :
    ∃ rule condition, statement = .rule rule ∧ rule.condition = some condition := by
  obtain ⟨rule, hrule, hsame⟩ := h.exists_rule hread
  have hsome : Condition.ofText? text ≠ none := by
    intro hnone
    rcases Condition.ofText?_eq_none_iff.mp hnone with hempty | hmark
    · exact Bool.false_ne_true (hblank.symm.trans hempty)
    · exact hlone hmark
  obtain ⟨condition, hcondition⟩ := Option.ne_none_iff_exists'.mp hsome
  exact ⟨rule, condition, hrule, hsame.trans hcondition⟩

end Row.HasCondition

end TypeEnforcement
