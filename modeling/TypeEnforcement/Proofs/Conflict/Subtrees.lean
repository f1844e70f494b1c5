import TypeEnforcement.Proofs.Conflict.Pairs
import TypeEnforcement.Proofs.Glob.Literals
/-!
# Conflicts inside a subtree

The test for overlap looks at the spelling of objects: it cuts the stars off `d/*` or `d/**` and
asks whether the other object starts with `d/`. A file is labelled by the pattern of its glob. Where
the directory is literal, the two agree: what the pattern matches, other than the directory itself,
is found to overlap (`Conflict.areFlagged_below`). So an allow rule on a subtree and a deny rule on
anything inside it are always reported.

## Main result

* `Conflict.areFlagged_of_mem_subtree`: what lies in a literal subtree conflicts with it.
-/

namespace TypeEnforcement

open Glob (subtree IsLiteral)

variable {directory object : String}

/-! ## Covers -/

namespace Object

theorem withoutStars_subtree (directory : String) (stars : Nat) :
    withoutStars (subtree directory (stars + 1)).toList = (directory ++ "/").toList := by
  have hstars : ∀ c ∈ List.replicate (stars + 1) '*', (c == '*') = true := by
    intro c hc
    rw [List.eq_of_mem_replicate hc]
    rfl
  have hslash : (directory ++ "/").toList = directory.toList ++ ['/'] := String.toList_append
  rw [withoutStars, Glob.toList_subtree, ← List.replicate_succ, List.reverse_append,
    List.reverse_replicate, List.dropWhile_append_of_pos hstars, hslash, List.reverse_concat,
    List.dropWhile_cons_of_neg (by decide), List.reverse_cons, List.reverse_reverse]

/-- A subtree covers what starts with its directory and a separator. -/
theorem isCover_subtree (stars : Nat) {narrow : List Char} :
    isCover (subtree directory (stars + 1)).toList narrow = true
      ↔ (directory ++ "/").toList <+: narrow := by
  have hlast : (subtree directory (stars + 1)).toList.getLast? = some '*' := by
    rw [Glob.toList_subtree, ← List.replicate_succ, List.replicate_succ', ← List.append_assoc,
      List.getLast?_concat]
  rw [isCover, hlast, withoutStars_subtree, Bool.and_eq_true, Text.isSome_stripHead?_iff]
  exact and_iff_right rfl

end Object

namespace Conflict

/-! ## Flagged objects -/

/-- Whether rules that oppose each other are always reported if one is about the first of two
objects and the other about the second. -/
structure AreFlagged (first second : String) : Prop where
  overlap : (Object.overlap? first second).isSome = true
  overlap_symm : (Object.overlap? second first).isSome = true
  detected : ∀ rules, ∀ allowRule ∈ rules, ∀ denyRule ∈ rules, Opposes allowRule denyRule →
    (allowRule.object, denyRule.object) ∈ [(first, second), (second, first)] →
    ∃ conflict ∈ detect rules, conflict.pair = (allowRule, denyRule)

theorem areFlagged_of_overlap {first second : String}
    (h : (Object.overlap? first second).isSome = true) : AreFlagged first second := by
  have hsymm : (Object.overlap? second first).isSome = true :=
    (Object.isSome_overlap?_comm second first).trans h
  refine ⟨h, hsymm, ?_⟩
  intro rules allowRule hallow denyRule hdeny hopposes hobjects
  have hoverlap : (Object.overlap? allowRule.object denyRule.object).isSome = true := by
    simp only [List.mem_cons, List.not_mem_nil, or_false, Prod.mk.injEq] at hobjects
    rcases hobjects with ⟨hfirst, hsecond⟩ | ⟨hsecond, hfirst⟩
    · rwa [hfirst, hsecond]
    · rwa [hfirst, hsecond]
  obtain ⟨conflict, hconflict⟩ := Clashes.exists_isOf ⟨hopposes, hoverlap⟩
  exact ⟨conflict, mem_detect.mpr ⟨allowRule, hallow, denyRule, hdeny, ⟨hopposes, hoverlap⟩,
    hconflict⟩, hconflict.1⟩

/-- What starts with a directory and a separator conflicts with the subtree. -/
theorem areFlagged_below (stars : Nat) {rest : List Char}
    (h : object.toList = directory.toList ++ '/' :: rest) :
    AreFlagged (subtree directory (stars + 1)) object := by
  have hbelow : (directory ++ "/").toList <+: object.toList := by
    rw [h, String.toList_append]
    exact ⟨rest, List.append_assoc _ _ _⟩
  apply areFlagged_of_overlap
  rw [Object.isSome_overlap?_iff]
  exact Or.inr (Or.inl ((Object.isCover_subtree stars).mpr hbelow))

/-- The pattern of a literal subtree matches the directory, if it has a name, and what lies below it
on one line. What it matches, other than the directory, conflicts with the subtree. -/
theorem areFlagged_of_mem_subtree (directory : String) (hliteral : IsLiteral directory) :
    ∃ regex : Pattern,
      (∀ text, text ∈ regex.language
        ↔ directory ≠ "" ∧ text = directory.toList
          ∨ ∃ rest, text = directory.toList ++ '/' :: rest ∧ '\n' ∉ rest)
      ∧ ∀ glob ∈ [directory ++ "/*", directory ++ "/**"],
          Pattern.read? (Glob.pattern glob).toList = some regex
            ∧ ∀ object : String, object ≠ directory → object.toList ∈ regex.language →
                AreFlagged glob object := by
  obtain ⟨regex, hread, hlanguage⟩ := Glob.exists_language_subtree_iff hliteral
  have hflagged : ∀ stars, ∀ object : String, object ≠ directory → object.toList ∈ regex.language →
      AreFlagged (subtree directory (stars + 1)) object := by
    intro stars object hne hmem
    rcases (hlanguage _).mp hmem with ⟨-, hsame⟩ | ⟨rest, hrest, -⟩
    · exact absurd (String.toList_injective hsame) hne
    · exact areFlagged_below stars hrest
  refine ⟨regex, hlanguage, ?_⟩
  rw [← Glob.subtree_one, ← Glob.subtree_two]
  intro glob hglob
  rcases List.mem_pair.mp hglob with rfl | rfl
  · exact ⟨hread, hflagged 0⟩
  · rw [Glob.pattern_subtree_two (hliteral.not_mem (by decide))]
    exact ⟨hread, hflagged 1⟩

/-- A rule of a web server on an object. -/
def webRule (object : String) (effect : Effect) : Rule where
  subject := "httpd_t"
  object := object
  objectRef := .ofText object
  action := "read"
  objectClass := "file"
  classSource := .explicit
  effect := effect.word
  condition := none
  transition := none
  line := none

theorem areFlagged_of_mem_subtree_content :
    IsLiteral "/srv//www/"
      ∧ AreFlagged "/srv//www//**" "/srv//www//a.html"
      ∧ ∃ conflict ∈ detect [webRule "/srv//www//a.html" .deny, webRule "/srv//www//**" .allow],
          conflict.pair = (webRule "/srv//www//**" .allow, webRule "/srv//www//a.html" .deny) := by
  have hliteral : IsLiteral "/srv//www/" := by
    simp [IsLiteral, TypeName.isGlobChar, Glob.IsMark]
  obtain ⟨regex, hlanguage, hglobs⟩ := areFlagged_of_mem_subtree "/srv//www/" hliteral
  have hmem : "/srv//www//a.html".toList ∈ regex.language :=
    (hlanguage _).mpr (Or.inr ⟨"a.html".toList, by decide, by decide⟩)
  have hflagged := (hglobs "/srv//www//**" (by decide)).2 "/srv//www//a.html" (by decide) hmem
  refine ⟨hliteral, hflagged, hflagged.detected _ _ ?_ _ ?_ ?_ ?_⟩
  · simp
  · simp
  · exact ⟨by decide, by decide, rfl, rfl, rfl⟩
  · simp [webRule]

end Conflict

end TypeEnforcement
