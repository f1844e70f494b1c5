import Mathlib.Computability.Language
import Mathlib.Data.List.Infix
/-!
# What a glob matches

The texts that a glob stands for, said from its characters alone. A glob is a row of parts: plain
characters and brace groups, whose alternatives are rows of parts again (`parts`). A row matches
what its parts match one after the other (`sequence`); a glob matches what its row does, unless its
end stands for a subtree (`language`). Bracket classes are left out: here a bracket is a plain
character.

## Main results

* `group?_sublist`: what a brace group is read into stands in the glob.
* `parts_induction`: induction along the reading of a glob into parts.
-/

namespace TypeEnforcement.Glob

/-! ## Brace groups -/

/-- The texts of a brace group, and what follows its closing brace. -/
structure Group where
  first : List Char
  others : List (List Char)
  after : List Char
deriving DecidableEq, Repr

namespace Group

/-- The texts that a group has been read into. -/
def texts (group : Group) : List (List Char) :=
  group.after :: group.first :: group.others

/-- The group with a character more at the start of the first alternative. -/
def consChar (c : Char) (group : Group) : Group :=
  { group with first := c :: group.first }

/-- The group with an empty alternative more in front. -/
def consEmpty (group : Group) : Group :=
  { group with first := [], others := group.first :: group.others }

variable {group : Group} {cs : List Char}

theorem sublist_consChar (c : Char) (h : ∀ text ∈ group.texts, text.Sublist cs) :
    ∀ text ∈ (group.consChar c).texts, text.Sublist (c :: cs) := by
  simp only [texts, consChar, List.forall_mem_cons] at h ⊢
  obtain ⟨hafter, hfirst, hothers⟩ := h
  exact ⟨hafter.cons c, hfirst.cons_cons c, fun text htext => (hothers text htext).cons c⟩

theorem sublist_consEmpty (c : Char) (h : ∀ text ∈ group.texts, text.Sublist cs) :
    ∀ text ∈ group.consEmpty.texts, text.Sublist (c :: cs) := by
  simp only [texts, consEmpty, List.forall_mem_cons] at h ⊢
  obtain ⟨hafter, hfirst, hothers⟩ := h
  exact ⟨hafter.cons c, List.nil_sublist _, hfirst.cons c,
    fun text htext => (hothers text htext).cons c⟩

end Group

/-- Reads a brace group from behind its opening brace, if it is closed. The depth counts the groups
inside it that are open; only a comma outside them separates alternatives. -/
def group? : (depth : Nat) → List Char → Option Group
  | _, [] => none
  | 0, c :: cs =>
    if c = '{' then (group? 1 cs).map (.consChar c)
    else if c = '}' then some { first := [], others := [], after := cs }
    else if c = ',' then (group? 0 cs).map .consEmpty
    else (group? 0 cs).map (.consChar c)
  | depth + 1, c :: cs =>
    if c = '{' then (group? (depth + 2) cs).map (.consChar c)
    else if c = '}' then (group? depth cs).map (.consChar c)
    else (group? (depth + 1) cs).map (.consChar c)

/-- What a group is read into stands in the text behind its opening brace. -/
theorem group?_sublist {depth : Nat} {cs : List Char} {group : Group}
    (h : group? depth cs = some group) : ∀ text ∈ group.texts, text.Sublist cs := by
  fun_induction group? depth cs generalizing group with
  | case1 => cases h
  | case2 cs ih | case5 c cs _ _ _ ih | case6 depth cs ih | case7 depth cs _ ih
  | case8 depth c cs _ _ ih =>
    obtain ⟨inner, hinner, rfl⟩ := Option.map_eq_some_iff.mp h
    exact Group.sublist_consChar _ (ih hinner)
  | case3 cs =>
    cases h
    simp [Group.texts]
  | case4 cs _ _ ih =>
    obtain ⟨inner, hinner, rfl⟩ := Option.map_eq_some_iff.mp h
    exact Group.sublist_consEmpty _ (ih hinner)

theorem length_le_of_group? {depth : Nat} {cs : List Char} {group : Group}
    (h : group? depth cs = some group) (text : List Char) (htext : text ∈ group.texts) :
    text.length ≤ cs.length :=
  (group?_sublist h text htext).length_le

/-! ## Parts -/

/-- A part of a glob. -/
inductive Part where
  | char (c : Char)
  /-- A brace group with at least one alternative. -/
  | group (first : List Part) (others : List (List Part))

/-- The parts of a glob. A brace that is not closed is a plain character, and so is a closing brace
outside all groups. -/
def parts : List Char → List Part
  | [] => []
  | c :: cs =>
    if c = '{' then
      match _hgroup : group? 0 cs with
      | none => .char c :: parts cs
      | some group =>
        .group (parts group.first) (group.others.attach.map fun other => parts other.1)
          :: parts group.after
    else .char c :: parts cs
termination_by path => path.length
decreasing_by
  · simp
  · have hlength := length_le_of_group? _hgroup group.first (by simp [Group.texts])
    simp only [List.length_cons]
    omega
  · have hlength := length_le_of_group? _hgroup other.1 (by simp [Group.texts, other.2])
    simp only [List.length_cons]
    omega
  · have hlength := length_le_of_group? _hgroup group.after (by simp [Group.texts])
    simp only [List.length_cons]
    omega
  · simp

theorem parts_nil : parts [] = [] := by
  rw [parts]

theorem parts_char {c : Char} {cs : List Char} (h : c = '{' → group? 0 cs = none) :
    parts (c :: cs) = .char c :: parts cs := by
  rw [parts]
  by_cases hc : c = '{'
  · rw [if_pos hc]
    split
    · rfl
    · next group hgroup => simp [h hc] at hgroup
  · rw [if_neg hc]

theorem parts_group {cs : List Char} {group : Group} (h : group? 0 cs = some group) :
    parts ('{' :: cs)
      = .group (parts group.first) (group.others.map parts) :: parts group.after := by
  rw [parts, if_pos rfl]
  split
  · next hgroup => simp [h] at hgroup
  · next inner hgroup =>
    obtain rfl : inner = group := Option.some.inj (hgroup.symm.trans h)
    rw [List.attach_map_val]

/-- Induction along the reading of a glob into parts. -/
theorem parts_induction {motive : List Char → Prop} (nil : motive [])
    (char : ∀ c cs, (c = '{' → group? 0 cs = none) → motive cs → motive (c :: cs))
    (group : ∀ cs group, group? 0 cs = some group → (∀ text ∈ group.texts, motive text) →
      motive ('{' :: cs)) (path : List Char) : motive path := by
  induction hn : path.length using Nat.strong_induction_on generalizing path with
  | _ n ih =>
    subst hn
    cases path with
    | nil => exact nil
    | cons c cs =>
      have hlater : ∀ text : List Char, text.length ≤ cs.length → motive text :=
        fun text hle => ih text.length (by simp only [List.length_cons]; omega) text rfl
      by_cases hplain : c = '{' → group? 0 cs = none
      · exact char c cs hplain (hlater cs le_rfl)
      · obtain ⟨rfl, hsome⟩ := Classical.not_imp.mp hplain
        obtain ⟨inner, hinner⟩ := Option.ne_none_iff_exists'.mp hsome
        exact group cs inner hinner fun text htext =>
          hlater text (length_le_of_group? hinner text htext)

/-! ## Languages -/

/-- A separator and anything after it. -/
def deep : Language Char :=
  { text | ∃ rest, text = '/' :: rest }

/-- Some characters of a segment. -/
def segment : Language Char :=
  { text | text ≠ [] ∧ '/' ∉ text }

/-- Any one character. -/
def anyOne : Language Char :=
  { text | ∃ c, text = [c] }

/-- One character and no other. -/
def itself (c : Char) : Language Char :=
  { [c] }

/-- The texts that a character of a glob stands for. -/
def textsOf (c : Char) : Language Char :=
  if c = '*' then segment else if c = '?' then anyOne else itself c

mutual

/-- What parts match one after the other, where `/**` is read as a whole. -/
def sequence : List Part → Language Char
  | [] => 1
  | .char '/' :: .char '*' :: .char '*' :: rest => deep * sequence rest
  | .char c :: rest => textsOf c * sequence rest
  | .group first others :: rest => (sequence first + union others) * sequence rest

/-- What any one of some alternatives matches. -/
def union : List (List Part) → Language Char
  | [] => 0
  | alternative :: others => sequence alternative + union others

end

/-- What precedes the end of a glob that stands for a subtree: `/**`, or `/*` in a glob without
`/**`. -/
def stem? (path : List Char) : Option (List Char) :=
  if "/**".toList <:+ path then some (path.take (path.length - 3))
  else if "/**".toList <:+: path then none
  else if "/*".toList <:+ path then some (path.take (path.length - 2))
  else none

theorem prefix_of_stem? {path stem : List Char} (h : stem? path = some stem) : stem <+: path := by
  rw [stem?] at h
  split at h
  · cases h
    exact List.take_prefix _ _
  split at h
  · cases h
  split at h
  · cases h
    exact List.take_prefix _ _
  · cases h

/-- The texts that a glob matches. -/
def language (path : List Char) : Language Char :=
  match stem? path with
  | some [] => deep
  | some stem => sequence (parts stem) * (1 + deep)
  | none => sequence (parts path)

end TypeEnforcement.Glob
