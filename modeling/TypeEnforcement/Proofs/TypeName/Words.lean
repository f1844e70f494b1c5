import Mathlib.Data.List.Infix
import TypeEnforcement.Proofs.Text.Parts
import TypeEnforcement.TypeName
/-!
# Words of names

A sanitized name is its words with an underscore between each two. Words are never empty and hold
no separator, so a sanitized name has no underscore at its ends and no two side by side; it is tidy
(`TypeName.isTidy_sanitize`). A tidy name without other separators is made of its words in just
this way, so sanitizing leaves it alone (`TypeName.sanitize_eq_self_iff`). The bridge between the
two is when a text has an empty piece between its separators (`Text.nil_mem_splitWhere`).

## Main results

* `TypeName.isTidy_sanitize`: a sanitized name is tidy.
* `TypeName.sanitize_eq_self_iff`: sanitizing leaves the tidy names alone.
-/

namespace TypeEnforcement

/-! ## Pieces -/

namespace Text

variable {α : Type} {separator : α → Bool} {xs piece : List α}

theorem splitWhere_eq_splitOnP (separator : α → Bool) (xs : List α) :
    splitWhere separator xs = xs.splitOnP separator := by
  induction xs with
  | nil => rfl
  | cons x xs ih =>
    rw [splitWhere, ih, List.splitOnP_cons_eq_if_modifyHead]
    cases hpieces : xs.splitOnP separator with
    | nil => exact absurd hpieces (List.splitOnP_ne_nil separator xs)
    | cons piece pieces => rfl

theorem exists_splitWhere_eq_cons (separator : α → Bool) (xs : List α) :
    ∃ piece pieces, splitWhere separator xs = piece :: pieces :=
  List.exists_cons_of_ne_nil (splitWhere_ne_nil separator xs)

theorem splitWhere_cons_of_not {x : α} {pieces : List (List α)} (hx : separator x = false)
    (hpieces : splitWhere separator xs = piece :: pieces) :
    splitWhere separator (x :: xs) = (x :: piece) :: pieces := by
  rw [splitWhere, hpieces, hx]
  rfl

/-- The pieces of a text hold no separator. -/
theorem not_separator_of_mem_splitWhere (h : piece ∈ splitWhere separator xs) :
    ∀ x ∈ piece, separator x = false := by
  induction xs generalizing piece with
  | nil =>
    obtain rfl : piece = [] := List.mem_singleton.mp h
    exact fun x hx => absurd hx List.not_mem_nil
  | cons y ys ih =>
    cases hy : separator y with
    | true =>
      rw [splitWhere, hy] at h
      rcases List.mem_cons.mp h with rfl | h
      · exact fun x hx => absurd hx List.not_mem_nil
      · exact ih h
    | false =>
      obtain ⟨first, others, hpieces⟩ := exists_splitWhere_eq_cons separator ys
      rw [splitWhere_cons_of_not hy hpieces] at h
      rw [hpieces] at ih
      rcases List.mem_cons.mp h with rfl | h
      · intro x hx
        rcases List.mem_cons.mp hx with rfl | hx
        · exact hy
        · exact ih List.mem_cons_self x hx
      · exact ih (List.mem_cons_of_mem _ h)

/-- Where a text has an empty piece, and where it has one behind its first: next to a separator at
its end or between two of them. -/
theorem nil_mem_splitWhere [DecidableEq α] (x : α) (xs : List α) :
    ([] ∈ splitWhere (· == x) xs ↔ xs = [] ∨ [x] <+: xs ∨ [x] <:+ xs ∨ [x, x] <:+: xs)
      ∧ ([] ∈ (splitWhere (· == x) xs).tail ↔ [x] <:+ xs ∨ [x, x] <:+: xs) := by
  induction xs with
  | nil => simp [splitWhere]
  | cons y ys ih =>
    obtain ⟨hwhole, htail⟩ := ih
    by_cases hy : y = x
    · subst hy
      have hpieces : splitWhere (· == y) (y :: ys) = [] :: splitWhere (· == y) ys := by
        simp [splitWhere]
      rw [hpieces, List.tail_cons, hwhole]
      constructor
      · simp
      · rw [List.infix_cons_iff, List.cons_prefix_cons, List.suffix_cons_iff]
        simp only [List.cons.injEq, true_and, eq_comm (a := []), or_assoc]
        exact or_congr_right or_left_comm
    · -- The first piece starts with the character in front, so it is not empty.
      obtain ⟨piece, pieces, hrest⟩ := exists_splitWhere_eq_cons (· == x) ys
      have hpieces : splitWhere (· == x) (y :: ys) = (y :: piece) :: pieces :=
        splitWhere_cons_of_not (beq_false_of_ne hy) hrest
      rw [hrest, List.tail_cons] at htail
      rw [hpieces, List.tail_cons, htail, List.mem_cons]
      have hprefix : ∀ zs, ¬ x :: zs <+: y :: ys := by
        intro zs hlies
        exact hy (List.cons_prefix_cons.mp hlies).1.symm
      rw [List.infix_cons_iff, List.suffix_cons_iff]
      simp [htail, hprefix, Ne.symm hy]

end Text

namespace TypeName

open Text

variable {name : String}

/-! ## Words -/

/-- The words of a text are not empty and hold no separator. -/
theorem of_mem_words {cs word : List Char} (h : word ∈ words cs) :
    word ≠ [] ∧ ∀ c ∈ word, isSeparator c = false := by
  obtain ⟨hpiece, hsome⟩ := List.mem_filter.mp h
  exact ⟨of_decide_eq_true hsome, not_separator_of_mem_splitWhere hpiece⟩

theorem words_eq_filter_splitOnP (cs : List Char) :
    words cs = (cs.splitOnP isSeparator).filter (· ≠ []) := by
  rw [words, splitWhere_eq_splitOnP]

/-- The words on both sides of a separator. -/
theorem words_append_cons {c : Char} (hc : isSeparator c = true) (cs ds : List Char) :
    words (cs ++ c :: ds) = words cs ++ words ds := by
  rw [words_eq_filter_splitOnP, List.splitOnP_append_cons cs ds hc, List.filter_append,
    ← words_eq_filter_splitOnP, ← words_eq_filter_splitOnP]

/-- The name of a path type depends on the words of the literal base only. -/
theorem Scope.pathType_congr (scope : Scope) {path other : String}
    (h : words (literalBase path.toList) = words (literalBase other.toList)) :
    scope.pathType path = scope.pathType other := by
  have hsanitize : sanitize (String.ofList (literalBase path.toList))
      = sanitize (String.ofList (literalBase other.toList)) := by
    rw [sanitize, sanitize, String.toList_ofList, String.toList_ofList, h]
  rw [pathType, pathType, hsanitize]

/-! ## Tidy names -/

/-- Whether a name has underscores between other characters only, and one at a time. -/
def IsTidy (name : String) : Prop :=
  startsWith name "_" = false ∧ endsWith name "_" = false ∧ hasPart name "__" = false

instance (name : String) : Decidable (IsTidy name) := by
  unfold IsTidy
  infer_instance

/-- A name is tidy if there is something between each two underscores, and at the ends. -/
theorem isTidy_iff : IsTidy name ↔ name = "" ∨ [] ∉ splitWhere (· == '_') name.toList := by
  have hhead : startsWith name "_" = true ↔ ['_'] <+: name.toList := startsWith_iff_isPrefix
  have htail : endsWith name "_" = true ↔ ['_'] <:+ name.toList :=
    endsWith_iff.trans (exists_congr fun _ => eq_comm)
  have hpart : hasPart name "__" = true ↔ ['_', '_'] <:+: name.toList := hasPart_iff_isInfix
  by_cases hnone : name = ""
  · subst hnone
    decide
  · have hsome : name.toList ≠ [] := by simpa using hnone
    rw [(nil_mem_splitWhere '_' name.toList).1, ← hhead, ← htail, ← hpart, IsTidy]
    simp [hnone, hsome]

/-- A sanitized name is tidy. -/
theorem isTidy_sanitize (name : String) : IsTidy (sanitize name) := by
  rw [isTidy_iff]
  by_cases hnone : words name.toList = []
  · left
    rw [sanitize, hnone]
    rfl
  · right
    have hbare : ∀ word ∈ words name.toList, '_' ∉ word := by
      intro word hword hmem
      exact absurd ((of_mem_words hword).2 '_' hmem) (by decide)
    -- The words are what stands between the underscores that are put between them.
    have hpieces : splitWhere (· == '_') (sanitize name).toList = words name.toList := by
      rw [sanitize, String.toList_ofList, splitWhere_eq_splitOnP, ← List.splitOn_eq_splitOnP]
      exact List.splitOn_intercalate '_' hbare hnone
    rw [hpieces]
    intro hnil
    exact (of_mem_words hnil).1 rfl

/-- Without other separators, the words of a name are the pieces between its underscores. -/
theorem splitWhere_isSeparator {cs : List Char} (h : ∀ c ∈ cs, isNameChar c = true) :
    splitWhere isSeparator cs = splitWhere (· == '_') cs := by
  induction cs with
  | nil => rfl
  | cons c cs ih =>
    have hc : isNameChar c = true := h c List.mem_cons_self
    have hother : ∀ d, isNameChar d = false → (c == d) = false := by
      intro d hd
      rw [beq_eq_false_iff_ne]
      rintro rfl
      rw [hd] at hc
      cases hc
    have hsame : isSeparator c = (c == '_') := by
      rw [isSeparator, hother '/' (by decide), hother '-' (by decide), hother '.' (by decide)]
      rfl
    rw [splitWhere, splitWhere, hsame, ih fun d hd => h d (List.mem_cons_of_mem c hd)]

/-- Sanitizing leaves the tidy ones alone among the names without other separators. -/
theorem sanitize_eq_self_iff (hname : ∀ c ∈ name.toList, isNameChar c = true) :
    sanitize name = name ↔ IsTidy name := by
  constructor
  · intro heq
    exact heq ▸ isTidy_sanitize name
  · intro htidy
    rcases isTidy_iff.mp htidy with rfl | hpieces
    · rfl
    · apply String.toList_injective
      have hwords : words name.toList = splitWhere (· == '_') name.toList := by
        rw [words, splitWhere_isSeparator hname, List.filter_eq_self]
        intro piece hpiece
        exact decide_eq_true fun hnil => hpieces (hnil ▸ hpiece)
      rw [sanitize, String.toList_ofList, hwords, intercalate_splitWhere]

end TypeName

end TypeEnforcement
