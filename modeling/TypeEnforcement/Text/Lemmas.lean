import Mathlib.Data.List.DropRight
import TypeEnforcement.Text
/-!
# Laws of text

What the functions on heads, tails and parts of lists answer, in terms of `++`: `stripHead?` and
`stripTail?` undo an append (`stripHead?_eq_some_iff`, `stripTail?_eq_some_iff`), `cutAt?` cuts
where its mark stands first (`cutAt?_eq_some_iff`), `splitWhere` loses nothing
(`intercalate_splitWhere`), and a trimmed text is trimmed (`trimChars_trimChars`).
-/

namespace TypeEnforcement.Text

/-! ## Pieces -/

theorem splitWhere_ne_nil {α : Type} (separator : α → Bool) (xs : List α) :
    splitWhere separator xs ≠ [] := by
  cases xs with
  | nil => simp [splitWhere]
  | cons x xs =>
    rw [splitWhere]
    split
    · simp
    · split <;> simp

/-! ## Heads and tails -/

section Parts

variable {α : Type} [DecidableEq α]

theorem stripHead?_eq_some_iff {head xs rest : List α} :
    stripHead? head xs = some rest ↔ xs = head ++ rest := by
  induction head generalizing xs with
  | nil =>
    rw [stripHead?, Option.some.injEq, List.nil_append]
  | cons h hs ih =>
    cases xs with
    | nil => simp [stripHead?]
    | cons x xs =>
      by_cases heq : h = x
      · subst heq
        simp [stripHead?, ih]
      · simp [stripHead?, heq, Ne.symm heq]

theorem stripTail?_eq_some_iff {tail xs before : List α} :
    stripTail? tail xs = some before ↔ xs = before ++ tail := by
  simp only [stripTail?, Option.map_eq_some_iff, stripHead?_eq_some_iff]
  constructor
  · intro hexists
    obtain ⟨r, hr, rfl⟩ := hexists
    have h := congrArg List.reverse hr
    simpa using h
  · rintro rfl
    exact ⟨before.reverse, by simp, by simp⟩

theorem occursIn_iff {part xs : List α} :
    occursIn part xs = true ↔ ∃ before after, xs = before ++ part ++ after := by
  induction xs with
  | nil =>
    rw [occursIn, List.isEmpty_iff]
    constructor
    · rintro rfl
      exact ⟨[], [], rfl⟩
    · intro hexists
      obtain ⟨before, after, h⟩ := hexists
      have h' := congrArg List.length h
      simp only [List.length_append, List.length_nil] at h'
      exact List.eq_nil_of_length_eq_zero (by omega)
  | cons x xs ih =>
    rw [occursIn, Bool.or_eq_true, ih, Option.isSome_iff_exists]
    constructor
    · intro hcases
      rcases hcases with ⟨rest, h⟩ | ⟨before, after, rfl⟩
      · exact ⟨[], rest, stripHead?_eq_some_iff.mp h⟩
      · exact ⟨x :: before, after, rfl⟩
    · intro hexists
      obtain ⟨before, after, h⟩ := hexists
      cases before with
      | nil => exact Or.inl ⟨after, stripHead?_eq_some_iff.mpr h⟩
      | cons b bs =>
        refine Or.inr ⟨bs, after, ?_⟩
        simp only [List.cons_append, List.cons.injEq] at h
        exact h.2

/-! ## Cutting -/

theorem eq_append_of_cutAt? {mark xs before after : List α}
    (h : cutAt? mark xs = some (before, after)) : xs = before ++ mark ++ after := by
  induction xs generalizing before with
  | nil =>
    simp only [cutAt?, Option.map_eq_some_iff, Prod.mk.injEq] at h
    obtain ⟨rest, hrest, rfl, rfl⟩ := h
    exact stripHead?_eq_some_iff.mp hrest
  | cons x xs ih =>
    rw [cutAt?] at h
    split at h
    · next rest hrest =>
      simp only [Option.some.injEq, Prod.mk.injEq] at h
      obtain ⟨rfl, rfl⟩ := h
      exact stripHead?_eq_some_iff.mp hrest
    · simp only [Option.map_eq_some_iff, Prod.mk.injEq] at h
      obtain ⟨⟨b, a⟩, hcut, rfl, rfl⟩ := h
      exact congrArg (x :: ·) (ih hcut)

variable {mark xs before after before' after' : List α}

/-- A list is cut at a mark, and the mark stands nowhere before. -/
structure IsFirstCut (mark xs before after : List α) : Prop where
  eq_append : xs = before ++ mark ++ after
  length_le : ∀ before' after', xs = before' ++ mark ++ after' → before.length ≤ before'.length

/-- No cut is before that at the first mark. -/
theorem length_le_of_cutAt? (h : cutAt? mark xs = some (before, after))
    (heq : xs = before' ++ mark ++ after') : before.length ≤ before'.length := by
  induction xs generalizing before before' with
  | nil =>
    have hnil : before = [] := by
      have hall := (eq_append_of_cutAt? h).symm
      simp only [List.append_eq_nil_iff] at hall
      exact hall.1.1
    rw [hnil]
    exact Nat.zero_le _
  | cons x xs ih =>
    rw [cutAt?] at h
    cases hstrip : stripHead? mark (x :: xs) with
    | some rest =>
      rw [hstrip] at h
      cases h
      exact Nat.zero_le _
    | none =>
      rw [hstrip] at h
      obtain ⟨⟨first, rest⟩, hcut, hcons⟩ := Option.map_eq_some_iff.mp h
      cases hcons
      cases before' with
      | nil =>
        have hsome := stripHead?_eq_some_iff.mpr heq
        rw [List.nil_append, hstrip] at hsome
        cases hsome
      | cons y before' =>
        exact Nat.succ_le_succ (ih hcut (List.cons.inj heq).2)

theorem exists_cutAt?_of_eq_append (h : xs = before ++ mark ++ after) :
    ∃ parts, cutAt? mark xs = some parts := by
  induction xs generalizing before with
  | nil =>
    have hall := h.symm
    simp only [List.append_eq_nil_iff] at hall
    rw [cutAt?, hall.1.2]
    exact ⟨_, rfl⟩
  | cons x xs ih =>
    rw [cutAt?]
    cases hstrip : stripHead? mark (x :: xs) with
    | some rest => exact ⟨_, rfl⟩
    | none =>
      cases before with
      | nil =>
        have hsome := stripHead?_eq_some_iff.mpr h
        rw [List.nil_append, hstrip] at hsome
        cases hsome
      | cons y before =>
        obtain ⟨parts, hparts⟩ := ih (List.cons.inj h).2
        rw [hparts]
        exact ⟨_, rfl⟩

theorem cutAt?_eq_some_iff :
    cutAt? mark xs = some (before, after) ↔ IsFirstCut mark xs before after := by
  constructor
  · exact fun h => ⟨eq_append_of_cutAt? h, fun _ _ heq => length_le_of_cutAt? h heq⟩
  · intro h
    obtain ⟨⟨first, rest⟩, hcut⟩ := exists_cutAt?_of_eq_append h.eq_append
    have hfirst := eq_append_of_cutAt? hcut
    have hlength : before.length = first.length :=
      Nat.le_antisymm (h.length_le _ _ hfirst) (length_le_of_cutAt? hcut h.eq_append)
    rw [h.eq_append, List.append_assoc, List.append_assoc] at hfirst
    obtain ⟨rfl, hmark⟩ := List.append_inj hfirst hlength
    obtain rfl := List.append_cancel_left hmark
    exact hcut

/-- The pieces between the occurrences of a member, with that member between them, are the list. -/
theorem intercalate_splitWhere (x : α) (xs : List α) :
    [x].intercalate (splitWhere (· == x) xs) = xs := by
  induction xs with
  | nil => rfl
  | cons y ys ih =>
    cases hs : splitWhere (· == x) ys with
    | nil => exact absurd hs (splitWhere_ne_nil _ ys)
    | cons piece pieces =>
      rw [hs] at ih
      by_cases hy : y = x
      · subst hy
        simpa [splitWhere, hs, List.intercalate, List.intersperse] using ih
      · have hne : (y == x) = false := by simpa using hy
        rw [splitWhere, hne, hs]
        simp only [Bool.false_eq_true, if_false]
        rw [← ih]
        cases pieces with
        | nil => simp [List.intercalate, List.intersperse]
        | cons p ps => simp [List.intercalate, List.intersperse]

end Parts

/-! ## Texts -/

theorem startsWith_iff {s head : String} :
    startsWith s head = true ↔ ∃ rest, s.toList = head.toList ++ rest := by
  rw [startsWith, Option.isSome_iff_exists]
  exact exists_congr fun _ => stripHead?_eq_some_iff

theorem endsWith_iff {s tail : String} :
    endsWith s tail = true ↔ ∃ before, s.toList = before ++ tail.toList := by
  rw [endsWith, Option.isSome_iff_exists]
  exact exists_congr fun _ => stripTail?_eq_some_iff

/-! ## Trimming -/

/-- Cutting blanks off the end leaves a start that is no blank. -/
theorem dropWhile_reverse_dropWhile {α : Type} (p : α → Bool) {xs : List α}
    (h : xs.dropWhile p = xs) :
    (xs.reverse.dropWhile p).reverse.dropWhile p = (xs.reverse.dropWhile p).reverse := by
  cases hd : (xs.reverse.dropWhile p).reverse with
  | nil => rfl
  | cons y ys =>
    have hpre : (xs.reverse.dropWhile p).reverse <+: xs := by
      have hsuf := List.dropWhile_suffix (l := xs.reverse) p
      simpa using List.reverse_prefix.mpr hsuf
    rw [hd] at hpre
    obtain ⟨rest, hrest⟩ := hpre
    have hy : p y = false := by
      cases hp : p y with
      | false => rfl
      | true =>
        have hlen := congrArg List.length h
        rw [← hrest, List.cons_append, List.dropWhile_cons, if_pos hp] at hlen
        have hle := (List.dropWhile_suffix (l := ys ++ rest) p).length_le
        simp only [List.length_cons] at hlen
        omega
    rw [List.dropWhile_cons, hy]
    rfl

/-- A trimmed text is trimmed. -/
theorem trimChars_trimChars (cs : List Char) : trimChars (trimChars cs) = trimChars cs := by
  have hstart := dropWhile_reverse_dropWhile isBlank (List.dropWhile_idempotent isBlank cs)
  rw [trimChars, trimChars, hstart, List.reverse_reverse, List.dropWhile_idempotent]

theorem trim_trim (s : String) : trim (trim s) = trim s := by
  simp [trim, trimChars_trimChars]

end TypeEnforcement.Text
