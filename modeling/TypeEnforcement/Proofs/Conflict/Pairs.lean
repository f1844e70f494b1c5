import Mathlib.Data.Multiset.Bind
import TypeEnforcement.Canonical.Lemmas
import TypeEnforcement.Conflict
/-!
# The pairs that are reported as conflicts

Conflicts are looked for subject by subject, among the allow rules and the deny rules of one subject
at a time. What is found is what a look at all pairs of rules finds (`Conflict.detect_perm`): a pair
conflicts if its rules clash (`Conflict.clash?`), whatever other rules there are, and each pair of
places is met once. The places say in which order the conflicts come (`Conflict.pairwise_located`).

Whether two objects overlap does not depend on their order (`Object.isSome_overlap?_comm`), though
the reason that is given may. So a table with allow and deny exchanged has the same conflicts, with
the two rules of each exchanged.

## Main result

* `Conflict.exists_located_detect`: the conflicts by the places of their rules, in another order of
  the rules, and under the exchanged effects.
-/

namespace TypeEnforcement

/-! ## Overlap -/

namespace Object

/-- When objects overlap: they are the same, one covers the other, or they share a directory and
one has a wildcard. -/
theorem isSome_overlap?_iff {a b : String} :
    (overlap? a b).isSome = true
      ↔ a = b ∨ isCover a.toList b.toList = true ∨ isCover b.toList a.toList = true
        ∨ (∃ directory, directory? a.toList = some directory
            ∧ directory? b.toList = some directory)
          ∧ (hasWildcard a.toList = true ∨ hasWildcard b.toList = true) := by
  rw [overlap?]
  split
  · next heq => simp [heq]
  split
  · next hcover => simp [hcover]
  split
  · next hcover => simp [hcover]
  · next hne hab hba =>
    simp only [hne, hab, hba, Bool.false_eq_true, false_or]
    cases directory? a.toList with
    | none => simp
    | some d =>
      cases directory? b.toList with
      | none => simp
      | some e =>
        by_cases hde : d = e
        · simp [hde]
        · simp [hde, Ne.symm hde]

/-- Whether objects overlap does not depend on which of them comes first. -/
theorem isSome_overlap?_comm (a b : String) :
    (overlap? a b).isSome = (overlap? b a).isSome := by
  have hswap : ∀ a b, (overlap? a b).isSome = true → (overlap? b a).isSome = true := by
    intro a b h
    rw [isSome_overlap?_iff] at h ⊢
    rcases h with rfl | hab | hba | ⟨⟨directory, ha, hb⟩, hwild⟩
    · exact Or.inl rfl
    · exact Or.inr (Or.inr (Or.inl hab))
    · exact Or.inr (Or.inl hba)
    · exact Or.inr (Or.inr (Or.inr ⟨⟨directory, hb, ha⟩, hwild.symm⟩))
  exact Bool.eq_iff_iff.mpr ⟨hswap a b, hswap b a⟩

end Object

namespace Conflict

variable {rules others : List Rule} {allowRule denyRule : Rule} {conflict : Conflict}

/-! ## Two rules -/

/-- Whether one rule allows and another denies a subject the same action on the same class. -/
structure Opposes (allowRule denyRule : Rule) : Prop where
  allow : allowRule.effect? = some .allow
  deny : denyRule.effect? = some .deny
  subject : allowRule.subject = denyRule.subject
  action : allowRule.action = denyRule.action
  objectClass : allowRule.objectClass = denyRule.objectClass

/-- Whether opposing rules are about objects that overlap. -/
structure Clashes (allowRule denyRule : Rule) : Prop extends Opposes allowRule denyRule where
  overlap : (Object.overlap? allowRule.object denyRule.object).isSome = true

/-- The rules of a conflict. -/
def pair (conflict : Conflict) : Rule × Rule :=
  (conflict.allowRule, conflict.denyRule)

/-- Whether a conflict is one of two rules and says how their objects overlap. -/
def IsOf (conflict : Conflict) (allowRule denyRule : Rule) : Prop :=
  conflict.pair = (allowRule, denyRule)
    ∧ Object.overlap? allowRule.object denyRule.object = some conflict.overlap

/-- The conflict of any two rules, if there is one. -/
def clash? (allowRule denyRule : Rule) : Option Conflict :=
  if allowRule.subject = denyRule.subject ∧ allowRule.effect? = some .allow
      ∧ denyRule.effect? = some .deny then
    between? allowRule denyRule
  else none

theorem clash?_eq_some_iff :
    clash? allowRule denyRule = some conflict
      ↔ Clashes allowRule denyRule ∧ conflict.IsOf allowRule denyRule := by
  constructor
  · intro h
    rw [clash?, Option.ite_none_right_eq_some] at h
    obtain ⟨⟨hsubject, hallow, hdeny⟩, hbetween⟩ := h
    rw [between?, Option.ite_none_right_eq_some, Option.map_eq_some_iff] at hbetween
    obtain ⟨⟨haction, hclass⟩, overlap, hoverlap, rfl⟩ := hbetween
    exact ⟨⟨⟨hallow, hdeny, hsubject, haction, hclass⟩, Option.isSome_of_mem hoverlap⟩, rfl,
      hoverlap⟩
  · intro h
    obtain ⟨hclashes, hpair, hoverlap⟩ := h
    obtain ⟨rfl, rfl⟩ := Prod.mk.inj hpair
    rw [clash?, if_pos ⟨hclashes.subject, hclashes.allow, hclashes.deny⟩, between?,
      if_pos ⟨hclashes.action, hclashes.objectClass⟩, hoverlap]
    rfl

/-- Two rules that clash have a conflict. -/
theorem Clashes.exists_isOf (h : Clashes allowRule denyRule) :
    ∃ conflict : Conflict, conflict.IsOf allowRule denyRule := by
  obtain ⟨overlap, hoverlap⟩ := Option.isSome_iff_exists.mp h.overlap
  exact ⟨{ allowRule, denyRule, overlap }, rfl, hoverlap⟩

theorem map_pair_clash? {rules : Rule × Rule} :
    (clash? allowRule denyRule).map pair = some rules
      ↔ Clashes allowRule denyRule ∧ (allowRule, denyRule) = rules := by
  rw [Option.map_eq_some_iff]
  simp only [clash?_eq_some_iff]
  constructor
  · intro hexists
    obtain ⟨conflict, ⟨hclashes, hpair, -⟩, rfl⟩ := hexists
    exact ⟨hclashes, hpair.symm⟩
  · intro hboth
    obtain ⟨hclashes, rfl⟩ := hboth
    obtain ⟨conflict, hconflict⟩ := hclashes.exists_isOf
    exact ⟨conflict, ⟨hclashes, hconflict⟩, hconflict.1⟩

/-! ## Places -/

/-- The rules of a subject with an effect, with their places. -/
def placesOf (rules : List Rule) (subject : String) (effect : Effect) : List (Rule × Nat) :=
  rules.zipIdx.filter fun placed =>
    placed.1.subject == subject && placed.1.effect? == some effect

theorem map_fst_placesOf (rules : List Rule) (subject : String) (effect : Effect) :
    (placesOf rules subject effect).map Prod.fst = rulesOf rules subject effect := by
  have hrules : rulesOf rules subject effect
      = rulesOf (rules.zipIdx.map Prod.fst) subject effect := by
    rw [List.zipIdx_map_fst]
  rw [hrules, rulesOf, List.filter_map]
  rfl

theorem mem_placesOf {subject : String} {effect : Effect} {rule : Rule} {place : Nat} :
    (rule, place) ∈ placesOf rules subject effect
      ↔ rules[place]? = some rule ∧ rule.subject = subject ∧ rule.effect? = some effect := by
  rw [placesOf, List.mem_filter, List.mem_zipIdx_iff_getElem?]
  simp

/-- Whether the places of rules increase. -/
def AreIncreasing (placed : List (Rule × Nat)) : Prop :=
  placed.Pairwise fun first second => first.2 < second.2

theorem areIncreasing_zipIdx (rules : List Rule) : AreIncreasing rules.zipIdx := by
  have hplaces : (rules.zipIdx.map Prod.snd).Pairwise (· < ·) := by
    rw [List.zipIdx_map_snd]
    exact List.pairwise_lt_range'
  exact List.pairwise_map.mp hplaces

theorem areIncreasing_placesOf (rules : List Rule) (subject : String) (effect : Effect) :
    AreIncreasing (placesOf rules subject effect) :=
  (areIncreasing_zipIdx rules).sublist List.filter_sublist

/-! ## Pairs of places -/

/-- The conflicts that are found among pairs of rules, with their places. -/
def among (find? : Rule → Rule → Option Conflict) (allowed denied : List (Rule × Nat)) :
    List ((Nat × Nat) × Conflict) :=
  allowed.flatMap fun allowRule => denied.filterMap fun denyRule =>
    (find? allowRule.1 denyRule.1).map ((allowRule.2, denyRule.2), ·)

/-- Whether a pair of places stands before another: by its first place, then by its second. -/
def IsBefore (first second : Nat × Nat) : Prop :=
  first.1 < second.1 ∨ first.1 = second.1 ∧ first.2 < second.2

section Among

variable {find? : Rule → Rule → Option Conflict} {allowed denied : List (Rule × Nat)}

theorem map_snd_among :
    (among find? allowed denied).map Prod.snd
      = (allowed.map Prod.fst).flatMap fun allowRule =>
          (denied.map Prod.fst).filterMap (find? allowRule) := by
  rw [among, List.map_flatMap, List.flatMap_map]
  refine List.flatMap_congr fun allowRule _ => ?_
  rw [List.map_filterMap, List.filterMap_map]
  refine List.filterMap_congr fun denyRule _ => ?_
  rw [Option.map_map]
  exact Option.map_id'

theorem mem_among {places : Nat × Nat} :
    (places, conflict) ∈ among find? allowed denied
      ↔ ∃ allowRule denyRule, (allowRule, places.1) ∈ allowed ∧ (denyRule, places.2) ∈ denied
        ∧ find? allowRule denyRule = some conflict := by
  simp only [among, List.mem_flatMap, List.mem_filterMap, Option.map_eq_some_iff]
  constructor
  · intro hexists
    obtain ⟨⟨allowRule, i⟩, hallowed, ⟨denyRule, j⟩, hdenied, found, hfound, heq⟩ := hexists
    obtain ⟨rfl, rfl⟩ := Prod.mk.inj heq
    exact ⟨allowRule, denyRule, hallowed, hdenied, hfound⟩
  · intro hexists
    obtain ⟨allowRule, denyRule, hallowed, hdenied, hfound⟩ := hexists
    exact ⟨_, hallowed, _, hdenied, conflict, hfound, rfl⟩

/-- Where places increase, the pairs of places do. -/
theorem pairwise_among (hallowed : AreIncreasing allowed) (hdenied : AreIncreasing denied) :
    (among find? allowed denied).Pairwise fun first second => IsBefore first.1 second.1 := by
  rw [among, List.pairwise_flatMap]
  constructor
  · intro allowRule _
    rw [List.pairwise_filterMap]
    refine hdenied.imp fun hlt first hfirst second hsecond => ?_
    obtain ⟨_, -, rfl⟩ := Option.map_eq_some_iff.mp hfirst
    obtain ⟨_, -, rfl⟩ := Option.map_eq_some_iff.mp hsecond
    exact Or.inr ⟨rfl, hlt⟩
  · refine hallowed.imp fun hlt first hfirst second hsecond => ?_
    obtain ⟨_, -, hfound⟩ := List.mem_filterMap.mp hfirst
    obtain ⟨_, -, rfl⟩ := Option.map_eq_some_iff.mp hfound
    obtain ⟨_, -, hfound'⟩ := List.mem_filterMap.mp hsecond
    obtain ⟨_, -, rfl⟩ := Option.map_eq_some_iff.mp hfound'
    exact Or.inl hlt

end Among

/-! ## Conflicts and their places -/

/-- The conflicts among rules, each with the places of its allow rule and its deny rule. -/
def located (rules : List Rule) : List ((Nat × Nat) × Conflict) :=
  (Canonical.ofList (rules.map (·.subject))).flatMap fun subject =>
    among between? (placesOf rules subject .allow) (placesOf rules subject .deny)

theorem map_snd_located (rules : List Rule) : (located rules).map Prod.snd = detect rules := by
  rw [located, detect, List.map_flatMap]
  refine List.flatMap_congr fun subject _ => ?_
  rw [map_snd_among, map_fst_placesOf, map_fst_placesOf, detectFor]

/-- The conflict of two places is that of their rules. -/
theorem mem_located {places : Nat × Nat} :
    (places, conflict) ∈ located rules
      ↔ ∃ allowRule denyRule, rules[places.1]? = some allowRule ∧ rules[places.2]? = some denyRule
        ∧ clash? allowRule denyRule = some conflict := by
  simp only [located, List.mem_flatMap, Canonical.mem_ofList, List.mem_map, mem_among, mem_placesOf]
  constructor
  · intro hexists
    obtain ⟨_, -, allowRule, denyRule, ⟨hi, rfl, hallow⟩, ⟨hj, hsubject, hdeny⟩, hbetween⟩ :=
      hexists
    exact ⟨allowRule, denyRule, hi, hj, by rwa [clash?, if_pos ⟨hsubject.symm, hallow, hdeny⟩]⟩
  · intro hexists
    obtain ⟨allowRule, denyRule, hi, hj, hclash⟩ := hexists
    rw [clash?, Option.ite_none_right_eq_some] at hclash
    obtain ⟨⟨hsubject, hallow, hdeny⟩, hbetween⟩ := hclash
    exact ⟨allowRule.subject, ⟨allowRule, List.mem_of_getElem? hi, rfl⟩, allowRule, denyRule,
      ⟨hi, rfl, hallow⟩, ⟨hj, hsubject.symm, hdeny⟩, hbetween⟩

/-- Whether a located conflict stands before another: by the subject of its rules, then by the place
of the allow rule, then by the place of the deny rule. -/
def Precedes (first second : (Nat × Nat) × Conflict) : Prop :=
  first.2.allowRule.subject < second.2.allowRule.subject
    ∨ first.2.allowRule.subject = second.2.allowRule.subject ∧ IsBefore first.1 second.1

/-- The conflicts of one subject are about it. -/
theorem subject_of_mem_among {subject : String} {located : (Nat × Nat) × Conflict}
    (h : located ∈ among between? (placesOf rules subject .allow) (placesOf rules subject .deny)) :
    located.2.allowRule.subject = subject := by
  obtain ⟨allowRule, denyRule, hallowed, -, hbetween⟩ := mem_among.mp h
  rw [between?, Option.ite_none_right_eq_some, Option.map_eq_some_iff] at hbetween
  obtain ⟨-, overlap, -, hconflict⟩ := hbetween
  rw [← hconflict]
  exact (mem_placesOf.mp hallowed).2.1

/-- Conflicts come in the order of their places. -/
theorem pairwise_located (rules : List Rule) : (located rules).Pairwise Precedes := by
  rw [located, List.pairwise_flatMap]
  constructor
  · intro subject _
    refine (pairwise_among (areIncreasing_placesOf rules subject .allow)
      (areIncreasing_placesOf rules subject .deny)).imp_of_mem ?_
    intro first second hfirst hsecond hbefore
    exact Or.inr ⟨(subject_of_mem_among hfirst).trans (subject_of_mem_among hsecond).symm, hbefore⟩
  · refine (Canonical.strictlyIncreasing_ofList (rules.map (·.subject))).imp ?_
    intro subject other hcompare first hfirst second hsecond
    refine Or.inl ?_
    rw [subject_of_mem_among hfirst, subject_of_mem_among hsecond]
    exact compareOfLessAndEq_eq_lt.mp hcompare

theorem IsBefore.irrefl (places : Nat × Nat) : ¬ IsBefore places places := by
  rintro (h | ⟨-, h⟩)
  · exact lt_irrefl _ h
  · exact lt_irrefl _ h

theorem nodup_located (rules : List Rule) : (located rules).Nodup := by
  refine (pairwise_located rules).imp ?_
  rintro first _ (hlt | ⟨-, hbefore⟩) rfl
  · exact String.lt_irrefl _ hlt
  · exact IsBefore.irrefl _ hbefore

/-! ## All pairs -/

/-- The conflicts are those of all pairs of rules. -/
theorem detect_perm (rules : List Rule) :
    (detect rules).Perm (rules.flatMap fun allowRule => rules.filterMap (clash? allowRule)) := by
  have hpairs : (among clash? rules.zipIdx rules.zipIdx).map Prod.snd
      = rules.flatMap fun allowRule => rules.filterMap (clash? allowRule) := by
    rw [map_snd_among, List.zipIdx_map_fst]
  have hnodup : (among clash? rules.zipIdx rules.zipIdx).Nodup := by
    refine (pairwise_among (areIncreasing_zipIdx rules) (areIncreasing_zipIdx rules)).imp ?_
    rintro first _ hbefore rfl
    exact IsBefore.irrefl _ hbefore
  have hperm : (located rules).Perm (among clash? rules.zipIdx rules.zipIdx) := by
    rw [List.perm_ext_iff_of_nodup (nodup_located rules) hnodup]
    rintro ⟨places, conflict⟩
    simp only [mem_located, mem_among, List.mem_zipIdx_iff_getElem?]
  rw [← map_snd_located, ← hpairs]
  exact hperm.map Prod.snd

theorem mem_detect :
    conflict ∈ detect rules ↔ ∃ allowRule ∈ rules, ∃ denyRule ∈ rules,
      Clashes allowRule denyRule ∧ conflict.IsOf allowRule denyRule := by
  rw [(detect_perm rules).mem_iff]
  simp only [List.mem_flatMap, List.mem_filterMap, clash?_eq_some_iff]

/-- In another order of the rules the same conflicts are found. -/
theorem detect_perm_of_perm (h : rules.Perm others) : (detect rules).Perm (detect others) := by
  have hpairs : (rules.flatMap fun allowRule => rules.filterMap (clash? allowRule)).Perm
      (others.flatMap fun allowRule => others.filterMap (clash? allowRule)) :=
    h.flatMap fun allowRule _ => h.filterMap (clash? allowRule)
  exact (detect_perm rules).trans (hpairs.trans (detect_perm others).symm)

end Conflict

/-! ## Exchanged effects -/

/-- The other effect. -/
def Effect.opposite : Effect → Effect
  | allow => deny
  | deny => allow

theorem Effect.ofWord?_word (effect : Effect) : ofWord? effect.word = some effect := by
  cases effect <;> decide

namespace Rule

/-- A rule that denies what it allowed, and allows what it denied. -/
def exchanged (rule : Rule) : Rule :=
  { rule with effect := (rule.effect?.map (·.opposite.word)).getD rule.effect }

theorem effect?_exchanged (rule : Rule) :
    rule.exchanged.effect? = rule.effect?.map Effect.opposite := by
  cases heffect : rule.effect? with
  | none =>
    have hsame : rule.exchanged = rule := by
      rw [exchanged, heffect, Option.map_none, Option.getD_none]
    rw [hsame, heffect, Option.map_none]
  | some effect =>
    have hplain : rule.transition = none := by
      cases htransition : rule.transition with
      | none => rfl
      | some clause => simp [effect?, htransition] at heffect
    rw [exchanged, heffect, effect?, hplain]
    exact Effect.ofWord?_word effect.opposite

theorem effect?_exchanged_eq_some_iff {rule : Rule} {effect : Effect} :
    rule.exchanged.effect? = some effect ↔ rule.effect? = some effect.opposite := by
  rw [effect?_exchanged]
  cases rule.effect? with
  | none => simp
  | some other => cases other <;> cases effect <;> decide

end Rule

namespace Conflict

theorem opposes_exchanged_iff {first second : Rule} :
    Opposes first.exchanged second.exchanged ↔ Opposes second first := by
  constructor
  · intro h
    exact ⟨Rule.effect?_exchanged_eq_some_iff.mp h.deny,
      Rule.effect?_exchanged_eq_some_iff.mp h.allow,
      h.subject.symm, h.action.symm, h.objectClass.symm⟩
  · intro h
    exact ⟨Rule.effect?_exchanged_eq_some_iff.mpr h.deny,
      Rule.effect?_exchanged_eq_some_iff.mpr h.allow,
      h.subject.symm, h.action.symm, h.objectClass.symm⟩

/-- Rules with exchanged effects clash in the exchanged order. -/
theorem clashes_exchanged_iff {first second : Rule} :
    Clashes first.exchanged second.exchanged ↔ Clashes second first := by
  have hoverlap : (Object.overlap? first.object second.object).isSome
      = (Object.overlap? second.object first.object).isSome := Object.isSome_overlap?_comm _ _
  constructor
  · intro h
    exact ⟨opposes_exchanged_iff.mp h.toOpposes, hoverlap.symm.trans h.overlap⟩
  · intro h
    exact ⟨opposes_exchanged_iff.mpr h.toOpposes, hoverlap.trans h.overlap⟩

/-- The rules of a conflict with their effects exchanged, the one that allows now first. -/
def exchangedPair (conflict : Conflict) : Rule × Rule :=
  (conflict.denyRule.exchanged, conflict.allowRule.exchanged)

theorem map_pair_clash?_exchanged (first second : Rule) :
    (clash? first.exchanged second.exchanged).map pair
      = (clash? second first).map exchangedPair := by
  by_cases h : Clashes second first
  · obtain ⟨conflict, hconflict⟩ := h.exists_isOf
    obtain ⟨hdeny, hallow⟩ := Prod.mk.inj hconflict.1
    rw [map_pair_clash?.mpr ⟨clashes_exchanged_iff.mpr h, rfl⟩,
      clash?_eq_some_iff.mpr ⟨h, hconflict⟩, Option.map_some, exchangedPair, hdeny, hallow]
  · have hleft : clash? first.exchanged second.exchanged = none := by
      rw [Option.eq_none_iff_forall_ne_some]
      intro conflict hconflict
      exact h (clashes_exchanged_iff.mp (clash?_eq_some_iff.mp hconflict).1)
    have hright : clash? second first = none := by
      rw [Option.eq_none_iff_forall_ne_some]
      intro conflict hconflict
      exact h (clash?_eq_some_iff.mp hconflict).1
    rw [hleft, hright, Option.map_none, Option.map_none]

/-- It does not matter in which of two lists pairs are looked for first. -/
theorem flatMap_filterMap_comm {α β γ : Type} (f : α → β → Option γ) (xs : List α) (ys : List β) :
    (xs.flatMap fun x => ys.filterMap fun y => f x y).Perm
      (ys.flatMap fun y => xs.filterMap fun x => f x y) := by
  rw [← Multiset.coe_eq_coe]
  simp only [List.filterMap_eq_flatMap_toList, ← Multiset.coe_bind]
  exact Multiset.bind_bind _ _

/-- The conflicts of a table with exchanged effects are its conflicts, with exchanged rules. -/
theorem map_pair_detect_exchanged (rules : List Rule) :
    ((detect (rules.map Rule.exchanged)).map pair).Perm ((detect rules).map exchangedPair) := by
  have hleft : ((detect (rules.map Rule.exchanged)).map pair).Perm
      (rules.flatMap fun first => rules.filterMap fun second =>
        (clash? second first).map exchangedPair) := by
    refine ((detect_perm _).map pair).trans (List.Perm.of_eq ?_)
    rw [List.map_flatMap, List.flatMap_map]
    refine List.flatMap_congr fun first _ => ?_
    rw [List.map_filterMap, List.filterMap_map]
    exact List.filterMap_congr fun second _ => map_pair_clash?_exchanged first second
  have hright : ((detect rules).map exchangedPair).Perm
      (rules.flatMap fun second => rules.filterMap fun first =>
        (clash? second first).map exchangedPair) := by
    refine ((detect_perm _).map exchangedPair).trans (List.Perm.of_eq ?_)
    rw [List.map_flatMap]
    exact List.flatMap_congr fun second _ => List.map_filterMap
  exact hleft.trans ((flatMap_filterMap_comm _ rules rules).trans hright.symm)

/-! ## The report -/

/-- One conflict is reported for each two places of an allow rule and a deny rule that clash, in the
order of the places. In another order of the rules the conflicts are the same, and if allow and deny
are exchanged, they are the same with their rules exchanged: whether objects overlap does not depend
on which of them comes first. -/
theorem exists_located_detect (rules : List Rule) :
    (∃ located : List ((Nat × Nat) × Conflict),
        located.map Prod.snd = detect rules ∧ located.Pairwise Precedes
          ∧ ∀ i j conflict, ((i, j), conflict) ∈ located
            ↔ ∃ allowRule denyRule, rules[i]? = some allowRule ∧ rules[j]? = some denyRule
              ∧ Clashes allowRule denyRule ∧ conflict.IsOf allowRule denyRule)
      ∧ (∀ others, rules.Perm others → (detect rules).Perm (detect others))
      ∧ ((detect (rules.map Rule.exchanged)).map pair).Perm ((detect rules).map exchangedPair)
      ∧ ∀ a b, (Object.overlap? a b).isSome = (Object.overlap? b a).isSome := by
  refine ⟨⟨located rules, map_snd_located rules, pairwise_located rules, ?_⟩,
    fun others => detect_perm_of_perm, map_pair_detect_exchanged rules,
    Object.isSome_overlap?_comm⟩
  intro i j conflict
  simp only [mem_located, clash?_eq_some_iff]

end Conflict

end TypeEnforcement
