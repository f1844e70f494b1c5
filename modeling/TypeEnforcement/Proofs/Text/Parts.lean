import Mathlib.Data.List.Infix
import TypeEnforcement.Text.Lemmas
/-!
# Heads and parts that lack a character

A head or a part of a text that lacks a character cannot reach over it: a head ends before it
(`prefix_append_cons_iff`), and a part lies on one of its sides (`infix_append_cons_iff`).
-/

namespace TypeEnforcement.Text

/-! ## Lists -/

section Lists

variable {α : Type} [DecidableEq α] {x : α} {head part xs ys : List α}

theorem isSome_stripHead?_iff : (stripHead? head xs).isSome = true ↔ head <+: xs := by
  rw [Option.isSome_iff_exists]
  exact exists_congr fun rest => stripHead?_eq_some_iff.trans eq_comm

theorem occursIn_iff_isInfix : occursIn part xs = true ↔ part <:+: xs := by
  rw [occursIn_iff]
  exact exists_congr fun _ => exists_congr fun _ => eq_comm

omit [DecidableEq α] in
/-- A head without a member ends before it. -/
theorem prefix_append_cons_iff (hx : x ∉ head) : head <+: xs ++ x :: ys ↔ head <+: xs := by
  constructor
  · intro hprefix
    rcases List.prefix_or_prefix_of_prefix hprefix (List.prefix_append xs (x :: ys)) with h | h
    · exact h
    · obtain ⟨rest, rfl⟩ := h
      have hrest : rest <+: x :: ys := (List.prefix_append_right_inj xs).mp hprefix
      cases rest with
      | nil => rw [List.append_nil]
      | cons y rest =>
        obtain rfl : y = x := (List.cons_prefix_cons.mp hrest).1
        exact absurd (List.mem_append_right xs List.mem_cons_self) hx
  · intro hprefix
    exact hprefix.trans (List.prefix_append xs (x :: ys))

omit [DecidableEq α] in
/-- A part without a member lies before it or behind it. -/
theorem infix_append_cons_iff (hx : x ∉ part) :
    part <:+: xs ++ x :: ys ↔ part <:+: xs ∨ part <:+: ys := by
  induction xs with
  | nil =>
    -- A head without the member that a list starts with is empty.
    have hnil : part <+: [] ++ x :: ys ↔ part <+: [] := prefix_append_cons_iff hx
    rw [List.nil_append] at hnil ⊢
    rw [List.infix_cons_iff, hnil, List.prefix_nil, List.infix_nil]
  | cons y xs ih =>
    have hcons : part <+: (y :: xs) ++ x :: ys ↔ part <+: y :: xs := prefix_append_cons_iff hx
    rw [List.cons_append] at hcons ⊢
    rw [List.infix_cons_iff, hcons, ih, List.infix_cons_iff, or_assoc]

end Lists

/-! ## Texts -/

variable {s t head part : String} {c : Char}

theorem startsWith_iff_isPrefix : startsWith s head = true ↔ head.toList <+: s.toList :=
  isSome_stripHead?_iff

theorem hasPart_iff_isInfix : hasPart s part = true ↔ part.toList <:+: s.toList :=
  occursIn_iff_isInfix

/-- A text does not start with what holds a character that it lacks. -/
theorem startsWith_eq_false (hhead : c ∈ head.toList) (hs : c ∉ s.toList) :
    startsWith s head = false := by
  rw [Bool.eq_false_iff]
  intro hstarts
  exact hs ((startsWith_iff_isPrefix.mp hstarts).mem hhead)

theorem stripHead?_eq_none_iff :
    stripHead? head.toList s.toList = none ↔ startsWith s head = false := by
  rw [startsWith, Option.isSome_eq_false_iff, Option.isNone_iff_eq_none]

end TypeEnforcement.Text
