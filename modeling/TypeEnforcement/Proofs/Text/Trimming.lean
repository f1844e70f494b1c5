import Mathlib.Data.List.TakeWhile
import TypeEnforcement.Text.Lemmas
/-!
# What trimming leaves

Trimming leaves nothing of a blank text (`trimChars_eq_nil_iff`), and what it leaves of any other
starts with a character that is no blank (`head?_trimChars_cons`) and ends in one
(`eq_nil_of_trimChars_eq_cons`). So a test that a field is blank and a test that the trimmed field
is empty are the same test. What it cuts off is blank (`exists_trimChars`), and blanks around a text
are cut off with it (`trimChars_blank_append`, `trimChars_append_blank`).
-/

namespace TypeEnforcement.Text

/-- What cutting off blanks leaves of a text without another character is nothing. -/
theorem trimChars_eq_nil_iff {cs : List Char} : trimChars cs = [] ↔ cs.all isBlank = true := by
  have hstart : cs.dropWhile isBlank = [] ↔ cs.all isBlank = true := by
    rw [List.dropWhile_eq_nil_iff, List.all_eq_true]
  rw [trimChars, List.reverse_eq_nil_iff, List.dropWhile_eq_nil_iff, ← hstart]
  constructor
  · intro hblank
    have hall : ∀ c ∈ cs.dropWhile isBlank, isBlank c = true :=
      fun c hc => hblank c (List.mem_reverse.mpr hc)
    rw [← List.dropWhile_idempotent]
    exact List.dropWhile_eq_nil_iff.mpr hall
  · intro hnil
    rw [hnil]
    exact fun c hc => absurd hc List.not_mem_nil

/-- What is cut off a text is blank. -/
theorem exists_trimChars (cs : List Char) :
    ∃ before after, cs = before ++ trimChars cs ++ after
      ∧ before.all isBlank = true ∧ after.all isBlank = true := by
  have hend : cs.dropWhile isBlank
      = trimChars cs ++ ((cs.dropWhile isBlank).reverse.takeWhile isBlank).reverse := by
    rw [trimChars, ← List.reverse_append, List.takeWhile_append_dropWhile, List.reverse_reverse]
  refine ⟨cs.takeWhile isBlank, ((cs.dropWhile isBlank).reverse.takeWhile isBlank).reverse, ?_,
    List.all_takeWhile, ?_⟩
  · rw [List.append_assoc, ← hend, List.takeWhile_append_dropWhile]
  · rw [List.all_reverse]
    exact List.all_takeWhile

theorem trimChars_blank_append {blanks : List Char} (h : blanks.all isBlank = true)
    (cs : List Char) : trimChars (blanks ++ cs) = trimChars cs := by
  rw [trimChars, List.dropWhile_append_of_pos (List.all_eq_true.mp h), trimChars]

theorem trimChars_append_blank {blanks : List Char} (h : blanks.all isBlank = true)
    (cs : List Char) : trimChars (cs ++ blanks) = trimChars cs := by
  by_cases hcs : cs.all isBlank = true
  · rw [trimChars_eq_nil_iff.mpr hcs, trimChars_eq_nil_iff, List.all_append, hcs, h]
    rfl
  · have hsome : cs.dropWhile isBlank ≠ [] := by
      rwa [ne_eq, List.dropWhile_eq_nil_iff, ← List.all_eq_true]
    have hback : ∀ c ∈ blanks.reverse, isBlank c = true :=
      fun c hc => List.all_eq_true.mp h c (List.mem_reverse.mp hc)
    have hempty : (cs.dropWhile isBlank).isEmpty = false := List.isEmpty_eq_false_iff.mpr hsome
    rw [trimChars, List.dropWhile_append, hempty, if_neg Bool.false_ne_true, List.reverse_append,
      List.dropWhile_append_of_pos hback, trimChars]

/-- A text that does not start with a blank keeps its start. -/
theorem head?_trimChars_cons {c : Char} (hblank : isBlank c = false) (cs : List Char) :
    (trimChars (c :: cs)).head? = some c := by
  have hsome : trimChars (c :: cs) ≠ [] := by
    rw [ne_eq, trimChars_eq_nil_iff, List.all_cons, hblank, Bool.false_and]
    exact Bool.false_ne_true
  have hprefix : trimChars (c :: cs) <+: c :: cs := by
    have hstart : (c :: cs).dropWhile isBlank = c :: cs :=
      List.dropWhile_cons_of_neg (Bool.eq_false_iff.mp hblank)
    have hsuffix := List.dropWhile_suffix (l := (c :: cs).reverse) isBlank
    rw [trimChars, hstart]
    simpa using List.reverse_prefix.mpr hsuffix
  obtain ⟨d, rest, hcons⟩ := List.exists_cons_of_ne_nil hsome
  rw [hcons] at hprefix ⊢
  rw [(List.cons_prefix_cons.mp hprefix).1, List.head?_cons]

/-- What is left of a text does not start with a blank. -/
theorem isBlank_of_trimChars_eq_cons {cs rest : List Char} {c : Char}
    (h : trimChars cs = c :: rest) : isBlank c = false := by
  have hstart : (trimChars cs).dropWhile isBlank = trimChars cs :=
    dropWhile_reverse_dropWhile isBlank (List.dropWhile_idempotent isBlank cs)
  rw [h, List.dropWhile_eq_self_iff] at hstart
  exact Bool.eq_false_iff.mpr (hstart (Nat.zero_lt_succ _))

theorem trim_eq_empty_iff {s : String} : trim s = "" ↔ allBlank s = true := by
  rw [trim, String.ofList_eq_empty_iff, trimChars_eq_nil_iff, allBlank]

/-- A trimmed text does not end in blanks. -/
theorem eq_nil_of_trimChars_eq_cons {cs rest : List Char} {c : Char}
    (h : trimChars cs = c :: rest) (hblank : rest.all isBlank = true) : rest = [] := by
  have hrest : ∀ d ∈ rest.reverse, isBlank d = true :=
    fun d hd => List.all_eq_true.mp hblank d (List.mem_reverse.mp hd)
  -- Read backwards, the text is what is left behind its trailing blanks.
  have hback : rest.reverse ++ [c] = (cs.dropWhile isBlank).reverse.dropWhile isBlank := by
    rw [← List.reverse_cons, ← h, trimChars, List.reverse_reverse]
  have hself : (rest.reverse ++ [c]).dropWhile isBlank = rest.reverse ++ [c] := by
    rw [hback, List.dropWhile_idempotent]
  rw [List.dropWhile_append_of_pos hrest] at hself
  have hlength := (List.dropWhile_suffix (l := [c]) isBlank).length_le
  rw [hself, List.length_append, List.length_reverse, List.length_singleton] at hlength
  exact List.eq_nil_of_length_eq_zero (by omega)

end TypeEnforcement.Text
