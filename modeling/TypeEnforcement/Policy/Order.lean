import TypeEnforcement.Policy
import TypeEnforcement.Transition.Graph
/-!
# The orders of the parts of a policy

Every order by which a collection is put into normal form is a linear one: it is transitive, and
only equal parts compare as equal. Each is lexicographic in the fields of the part, so both facts
come field by field.
-/

namespace TypeEnforcement

open Std

/-! ## Combining orders -/

/-- Two parts are equal by a lexicographic order if they are so by both of its orders. -/
theorem compareLex_eq_eq {α : Type} {first second : α → α → Ordering} {a b : α} :
    compareLex first second a b = .eq ↔ first a b = .eq ∧ second a b = .eq := by
  unfold compareLex
  cases first a b <;> simp

/-- Two parts are equal by the order of a field if the fields are equal. -/
theorem compareOn_eq_eq {α β : Type} [Ord β] [LawfulEqOrd β] {field : α → β} {a b : α} :
    compareOn field a b = .eq ↔ field a = field b :=
  compare_eq_iff_eq

/-! ## The parts -/

instance : TransOrd Condition :=
  inferInstanceAs (TransCmp
    (compareLex (compareOn Condition.boolean) (compareOn Condition.negated)))

instance : LawfulEqOrd Condition where
  compare_self := ReflCmp.compare_self
  eq_of_compare := by
    intro a b h
    have h' := compareLex_eq_eq.mp h
    simp only [compareOn_eq_eq] at h'
    cases a; cases b; simp_all

instance : TransOrd Protocol :=
  inferInstanceAs (TransCmp (compareOn Protocol.ctorIdx))

instance : LawfulEqOrd Protocol where
  compare_self := ReflCmp.compare_self
  eq_of_compare := by
    intro a b
    cases a <;> cases b <;> decide

instance : TransOrd FileKind :=
  inferInstanceAs (TransCmp (compareOn FileKind.ctorIdx))

instance : LawfulEqOrd FileKind where
  compare_self := ReflCmp.compare_self
  eq_of_compare := by
    intro a b
    cases a <;> cases b <;> decide

instance : TransOrd AccessKey :=
  inferInstanceAs (TransCmp (compareLex (compareOn AccessKey.source)
    (compareLex (compareOn AccessKey.target) (compareOn AccessKey.objectClass))))

instance : LawfulEqOrd AccessKey where
  compare_self := ReflCmp.compare_self
  eq_of_compare := by
    intro a b h
    have h' := compareLex_eq_eq.mp h
    simp only [compareLex_eq_eq, compareOn_eq_eq] at h'
    cases a; cases b; simp_all

instance : TransOrd TypeTransition :=
  inferInstanceAs (TransCmp (compareLex (compareOn TypeTransition.source)
    (compareLex (compareOn TypeTransition.target)
    (compareLex (compareOn TypeTransition.objectClass) (compareOn TypeTransition.newType)))))

instance : LawfulEqOrd TypeTransition where
  compare_self := ReflCmp.compare_self
  eq_of_compare := by
    intro a b h
    have h' := compareLex_eq_eq.mp h
    simp only [compareLex_eq_eq, compareOn_eq_eq] at h'
    cases a; cases b; simp_all

instance : TransOrd DomainTransition :=
  inferInstanceAs (TransCmp (compareLex (compareOn DomainTransition.source)
    (compareLex (compareOn DomainTransition.target)
    (compareLex (compareOn DomainTransition.entryPoint)
    (compareLex (compareOn DomainTransition.inferred) (compareOn DomainTransition.conditions))))))

instance : LawfulEqOrd DomainTransition where
  compare_self := ReflCmp.compare_self
  eq_of_compare := by
    intro a b h
    have h' := compareLex_eq_eq.mp h
    simp only [compareLex_eq_eq, compareOn_eq_eq] at h'
    cases a; cases b; simp_all

instance : TransOrd FileContextKey :=
  inferInstanceAs (TransCmp
    (compareLex (compareOn FileContextKey.pattern) (compareOn FileContextKey.kind)))

instance : LawfulEqOrd FileContextKey where
  compare_self := ReflCmp.compare_self
  eq_of_compare := by
    intro a b h
    have h' := compareLex_eq_eq.mp h
    simp only [compareOn_eq_eq] at h'
    cases a; cases b; simp_all

instance : TransOrd CapabilityGrant :=
  inferInstanceAs (TransCmp
    (compareLex (compareOn CapabilityGrant.domain) (compareOn CapabilityGrant.capability)))

instance : LawfulEqOrd CapabilityGrant where
  compare_self := ReflCmp.compare_self
  eq_of_compare := by
    intro a b h
    have h' := compareLex_eq_eq.mp h
    simp only [compareOn_eq_eq] at h'
    cases a; cases b; simp_all

instance : TransOrd PortBinding :=
  inferInstanceAs (TransCmp (compareLex (compareOn PortBinding.protocol)
    (compareLex (compareOn PortBinding.port) (compareOn PortBinding.typeName))))

instance : LawfulEqOrd PortBinding where
  compare_self := ReflCmp.compare_self
  eq_of_compare := by
    intro a b h
    have h' := compareLex_eq_eq.mp h
    simp only [compareLex_eq_eq, compareOn_eq_eq] at h'
    cases a; cases b; simp_all

instance : TransOrd BooleanDecl :=
  inferInstanceAs (TransCmp
    (compareLex (compareOn BooleanDecl.name) (compareOn BooleanDecl.default)))

instance : LawfulEqOrd BooleanDecl where
  compare_self := ReflCmp.compare_self
  eq_of_compare := by
    intro a b h
    have h' := compareLex_eq_eq.mp h
    simp only [compareOn_eq_eq] at h'
    cases a; cases b; simp_all

instance : TransOrd TransitionEdge :=
  inferInstanceAs (TransCmp
    (compareLex (compareOn TransitionEdge.source) (compareOn TransitionEdge.target)))

instance : LawfulEqOrd TransitionEdge where
  compare_self := ReflCmp.compare_self
  eq_of_compare := by
    intro a b h
    have h' := compareLex_eq_eq.mp h
    simp only [compareOn_eq_eq] at h'
    cases a; cases b; simp_all

end TypeEnforcement
