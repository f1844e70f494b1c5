import TypeEnforcement.Proofs.Glob.Meaning
import TypeEnforcement.Proofs.Glob.Subtrees
/-!
# Patterns of literal directories

Where no character of a directory means something in a glob, the pattern of the subtree below it is
read as the characters of the directory and a group that may be left out. So what the pattern
matches can be said for all texts, those with line ends included: the directory, which may have line
ends itself, and what continues it behind a separator without another line end.

## Main result

* `Glob.exists_language_subtree_iff`: what the pattern of a literal subtree matches.
-/

namespace TypeEnforcement

namespace Pattern

/-! ## Literal tokens -/

/-- The tokens of characters that stand for themselves. -/
def literalTokens (cs : List Char) : List Token :=
  cs.map fun c => .char (.only c)

theorem singleton_mul_singleton (cs ds : List Char) :
    ({cs} : Language Char) * {ds} = {cs ++ ds} :=
  Set.image2_singleton

/-- Literal tokens are read as their characters. -/
theorem run_literalTokens (cs : List Char) (outer : List Frame) (frame : Frame) :
    ∃ after : Frame,
      Reader.run { outer, frame } (literalTokens cs) = some { outer, frame := after }
        ∧ after.earlier = frame.earlier
        ∧ after.current.language = frame.current.language * {cs} := by
  induction cs generalizing frame with
  | nil => exact ⟨frame, rfl, rfl, (mul_one _).symm⟩
  | cons c cs ih =>
    obtain ⟨after, hrun, hearlier, hcurrent⟩ := ih (frame.push (.char (.only c)))
    refine ⟨after, hrun, hearlier, ?_⟩
    have hpush : (frame.push (.char (.only c))).current.language
        = frame.current.language * {[c]} := by
      rw [← oneOf_only]
      rfl
    rw [hcurrent, hpush, mul_assoc, singleton_mul_singleton, List.singleton_append]

/-- The tokens of a literal and of the subtree below it are read as such. -/
theorem exists_pattern_subtree (cs : List Char) :
    ∃ regex, (Reader.run {} (literalTokens cs ++ Glob.Piece.subtree.tokens)).bind Reader.pattern?
        = some regex
      ∧ regex.language = {cs} * (1 + descent) := by
  obtain ⟨after, hrun, hearlier, hcurrent⟩ := run_literalTokens cs [] {}
  rw [Reader.run_append, hrun]
  refine ⟨_, rfl, ?_⟩
  have hcs : after.current.language = {cs} := hcurrent.trans (one_mul _)
  show after.earlier.language + after.current.language * (1 + (0 + 1 * _ * _)) = _
  rw [hearlier, hcs, zero_add, one_mul]
  exact zero_add _

/-- The tokens of all that is below the root are read as such. -/
theorem exists_pattern_anyDepth :
    ∃ regex, (Reader.run {} Glob.Piece.anyDepth.tokens).bind Reader.pattern? = some regex
      ∧ regex.language = descent := by
  refine ⟨_, rfl, ?_⟩
  show 0 + 1 * _ * _ = _
  rw [zero_add, one_mul]
  rfl

end Pattern

namespace Glob

variable {directory : String}

/-! ## Literal directories -/

/-- Whether all characters of a text stand for themselves in a glob. -/
def IsLiteral (text : String) : Prop :=
  ∀ c ∈ text.toList, TypeName.isGlobChar c = false ∧ ¬ IsMark c

theorem IsLiteral.not_mem (h : IsLiteral directory) {c : Char} (hc : TypeName.isGlobChar c = true) :
    c ∉ directory.toList := by
  intro hmem
  rw [(h c hmem).1] at hc
  cases hc

theorem parts_of_notMem {cs : List Char} (h : '{' ∉ cs) : parts cs = cs.map .char := by
  induction cs with
  | nil => exact parts_nil
  | cons c cs ih =>
    rw [List.mem_cons, not_or] at h
    rw [parts_char fun hc => absurd hc.symm h.1, ih h.2, List.map_cons]

theorem written_of_notMem {cs : List Char} (hstar : '*' ∉ cs) (hany : '?' ∉ cs) :
    written (cs.map .char) = cs.map .literal := by
  induction cs with
  | nil => rw [List.map_nil, written, List.map_nil]
  | cons c cs ih =>
    have hpiece : pieceOf (.char c) = .literal c := by
      rw [pieceOf, if_neg (List.ne_of_not_mem_cons hstar).symm,
        if_neg (List.ne_of_not_mem_cons hany).symm]
    rw [List.map_cons, written, hpiece, ih (List.not_mem_of_not_mem_cons hstar)
      (List.not_mem_of_not_mem_cons hany), List.map_cons]
    -- No two stars follow.
    intro rest hrest _
    have hmem : Part.char '*' ∈ cs.map Part.char := by simp [hrest]
    obtain ⟨d, hd, hstar'⟩ := List.mem_map.mp hmem
    cases hstar'
    exact hstar (List.mem_cons_of_mem _ hd)

theorem tokens_literal (cs : List Char) :
    (cs.map Piece.literal).flatMap Piece.tokens = Pattern.literalTokens cs := by
  rw [List.flatMap_map, Pattern.literalTokens, List.map_eq_flatMap]
  rfl

/-- A literal directory makes a plain glob of the subtree below it. -/
theorem IsLiteral.isPlain_subtree (h : IsLiteral directory) :
    IsPlain (subtree directory 1).toList := by
  have hmarks : ∀ c ∈ "/*".toList, ¬ IsMark c := by simp [IsMark]
  rw [subtree_one, String.toList_append]
  constructor
  · rw [List.mem_append, not_or]
    exact ⟨h.not_mem (by decide), by decide⟩
  · rw [List.forall_mem_append]
    exact ⟨fun c hc => (h c hc).2, hmarks⟩

/-- The pieces of a literal subtree. -/
theorem IsLiteral.pieces_subtree (h : IsLiteral directory) :
    pieces (glyphs (subtree directory 1).toList)
      = if directory = "" then [.anyDepth]
        else directory.toList.map .literal ++ [.subtree] := by
  have hwritten : written (parts directory.toList) = directory.toList.map .literal := by
    rw [parts_of_notMem (h.not_mem (by decide)),
      written_of_notMem (h.not_mem (by decide)) (h.not_mem (by decide))]
  rw [h.isPlain_subtree.pieces_glyphs, stem?_subtree_one (h.not_mem (by decide))]
  split
  · next hnil =>
    rw [if_pos (by simpa using hnil)]
  · next stem hsome hstem =>
    obtain rfl : stem = directory.toList := (Option.some.inj hstem).symm
    rw [if_neg (fun hempty => hsome (by rw [hempty]; rfl)), hwritten]
  · next hnone => cases hnone

/-- What the pattern of a literal subtree matches: the directory, and what continues it behind a
separator on one line. -/
theorem exists_language_subtree_iff (h : IsLiteral directory) :
    ∃ regex, Pattern.read? (pattern (subtree directory 1)).toList = some regex
      ∧ ∀ text, text ∈ regex.language
        ↔ directory ≠ "" ∧ text = directory.toList
          ∨ ∃ rest, text = directory.toList ++ '/' :: rest ∧ '\n' ∉ rest := by
  have htokens := (spells_flatMap_text (isReadable_pieces h.isPlain_subtree)).tokens?_eq
  rw [pattern, String.toList_ofList, Pattern.read?, htokens, Option.bind_some, h.pieces_subtree]
  by_cases hempty : directory = ""
  · subst hempty
    obtain ⟨regex, hregex, hlanguage⟩ := Pattern.exists_pattern_anyDepth
    refine ⟨regex, hregex, fun text => ?_⟩
    rw [hlanguage, Pattern.mem_descent]
    simp
  · obtain ⟨regex, hregex, hlanguage⟩ := Pattern.exists_pattern_subtree directory.toList
    rw [if_neg hempty, List.flatMap_append, tokens_literal]
    refine ⟨regex, hregex, fun text => ?_⟩
    rw [hlanguage, mul_add, mul_one, Language.mem_add, Language.mem_mul]
    simp only [Pattern.mem_descent]
    constructor
    · intro hcases
      rcases hcases with htext | ⟨_, rfl, _, ⟨rest, rfl, hrest⟩, rfl⟩
      · exact Or.inl ⟨hempty, htext⟩
      · exact Or.inr ⟨rest, rfl, hrest⟩
    · intro hcases
      rcases hcases with ⟨-, htext⟩ | ⟨rest, rfl, hrest⟩
      · exact Or.inl htext
      · exact Or.inr ⟨directory.toList, rfl, _, ⟨rest, rfl, hrest⟩, rfl⟩

end Glob

end TypeEnforcement
