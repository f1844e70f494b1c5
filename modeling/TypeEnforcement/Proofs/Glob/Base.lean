import Mathlib.Data.List.TakeWhile
import TypeEnforcement.Proofs.Glob.Ends
import TypeEnforcement.Proofs.Glob.Pieces
import TypeEnforcement.Proofs.TypeName.Words
/-!
# The type of a path from its pattern

A file context has a pattern and a type, both made from one path: the pattern by `Glob.pattern`, the
type from the literal base of the path. Two paths with one pattern have one type, for the base can
be read off the pattern. A pattern spells the base literally and goes on with what no literal
starts with (`Opens`); only the subtree at its end needs care, for `/d/*` has the base `/d/` and its
pattern starts with `/d`. The words of the two are the same.

## Main results

* `Glob.exists_opens_pattern`: how a pattern starts, by the literal base of its glob.
* `Glob.startsWith_pattern`: the pattern of an absolute path starts at the root.
* `TypeName.Scope.pathType_eq_of_pattern_eq`: paths with one pattern have one type.
-/

namespace TypeEnforcement.Glob

open TypeEnforcement.TypeName (isGlobChar literalBase throughLastSlash words)

/-! ## Literal starts of patterns -/

/-- Whether a pattern is at its end or goes on with a wildcard. Escaped brackets and braces count,
if they end the literal base of a glob: they are those without a partner. -/
inductive StopsLiteral : List Char → Prop where
  | nil : StopsLiteral []
  | wildcard {c : Char} {rest : List Char} : c ∈ ['[', '.', '('] → StopsLiteral (c :: rest)
  | unmatched {c : Char} {rest : List Char} : isGlobChar c = true →
      StopsLiteral ('\\' :: c :: rest)

/-- A pattern starts with a literal text and goes on with what is no part of it. -/
inductive Opens : (pattern literal rest : List Char) → Prop where
  | stop {rest : List Char} : StopsLiteral rest → Opens rest [] rest
  | escaped {c : Char} {pattern literal rest : List Char} : isGlobChar c = false →
      Opens pattern literal rest → Opens ('\\' :: c :: pattern) (c :: literal) rest
  | plain {c : Char} {pattern literal rest : List Char} : c ∉ metacharacters →
      Opens pattern literal rest → Opens (c :: pattern) (c :: literal) rest

theorem not_stopsLiteral_plain {c : Char} {rest : List Char} (h : c ∉ metacharacters) :
    ¬ StopsLiteral (c :: rest) := by
  intro hstops
  cases hstops with
  | wildcard hc =>
    have hmeta : ∀ d ∈ ['[', '.', '('], d ∈ metacharacters := by simp [metacharacters]
    exact h (hmeta c hc)
  | unmatched _ => exact h (by decide)

theorem not_stopsLiteral_escaped {c : Char} {rest : List Char} (h : isGlobChar c = false) :
    ¬ StopsLiteral ('\\' :: c :: rest) := by
  intro hstops
  cases hstops with
  | wildcard hc => exact absurd hc (by decide)
  | unmatched hc =>
    rw [h] at hc
    cases hc

/-- A pattern starts in one way. -/
theorem Opens.unique {pattern literal rest literal' rest' : List Char}
    (h : Opens pattern literal rest) (h' : Opens pattern literal' rest') :
    literal = literal' ∧ rest = rest' := by
  induction h generalizing literal' rest' with
  | stop hstops =>
    cases h' with
    | stop _ => exact ⟨rfl, rfl⟩
    | escaped hc _ => exact absurd hstops (not_stopsLiteral_escaped hc)
    | plain hc _ => exact absurd hstops (not_stopsLiteral_plain hc)
  | escaped hc _ ih =>
    cases h' with
    | stop hstops => exact absurd hstops (not_stopsLiteral_escaped hc)
    | escaped _ hrest =>
      obtain ⟨rfl, rfl⟩ := ih hrest
      exact ⟨rfl, rfl⟩
    | plain hmeta _ => exact absurd (by decide) hmeta
  | plain hc _ ih =>
    cases h' with
    | stop hstops => exact absurd hstops (not_stopsLiteral_plain hc)
    | escaped _ _ => exact absurd (by decide) hc
    | plain _ hrest =>
      obtain ⟨rfl, rfl⟩ := ih hrest
      exact ⟨rfl, rfl⟩

/-! ## Texts of glyphs -/

/-- The text of glyphs of which no end stands for a subtree. -/
def innerText (gs : List Glyph) : List Char :=
  (innerPieces gs).flatMap Piece.text

theorem innerText_nil : innerText [] = [] := by
  rw [innerText, innerPieces_nil, List.flatMap_nil]

theorem innerText_deep (rest : List Glyph) :
    innerText (.char '/' :: .char '*' :: .char '*' :: rest)
      = '/' :: '.' :: '*' :: innerText rest := by
  rw [innerText, innerPieces_deep, List.flatMap_cons]
  rfl

theorem innerText_cons {glyph : Glyph} {rest : List Glyph} (hbracket : glyph ≠ .char '[')
    (hdeep : ∀ after, glyph :: rest ≠ .char '/' :: .char '*' :: .char '*' :: after) :
    innerText (glyph :: rest) = (pieceOf glyph).text ++ innerText rest := by
  rw [innerText, innerPieces_cons hbracket hdeep, List.flatMap_cons]
  rfl

/-- An opening bracket is copied if it starts a class, and escaped if it does not. -/
theorem exists_innerText_bracket (rest : List Glyph) :
    ∃ more, innerText (.char '[' :: rest) = '[' :: more
      ∨ innerText (.char '[' :: rest) = '\\' :: '[' :: more := by
  have hsegment : ∀ first, ∃ piece others,
      segmentPieces 0 false (.char '[' :: first) = piece :: others
        ∧ (piece = .inBracket (.char '[') ∨ piece = .literal '[') := by
    intro first
    rw [segmentPieces]
    cases bracketLength? first with
    | some length => exact ⟨_, _, rfl, Or.inl rfl⟩
    | none => exact ⟨_, _, rfl, Or.inr rfl⟩
  have hsplit : ∃ first others, splitDeep (.char '[' :: rest) = (.char '[' :: first) :: others := by
    rw [splitDeep.eq_3 _ _ (by simp)]
    cases hrest : splitDeep rest with
    | nil => exact absurd hrest (splitDeep_ne_nil rest)
    | cons first others => exact ⟨first, others, rfl⟩
  obtain ⟨first, others, hsplit⟩ := hsplit
  obtain ⟨piece, pieces, hpieces, hpiece⟩ := hsegment first
  have hinner : ∃ more, innerPieces (.char '[' :: rest) = piece :: more := by
    rw [innerPieces, hsplit, List.map_cons, hpieces]
    cases others with
    | nil => exact ⟨pieces, by simp⟩
    | cons second others => exact ⟨_, by rw [List.map_cons, List.intercalate_cons_cons]; rfl⟩
  obtain ⟨more, hinner⟩ := hinner
  rw [innerText, hinner, List.flatMap_cons]
  rcases hpiece with rfl | rfl
  · exact ⟨_, Or.inl rfl⟩
  · exact ⟨_, Or.inr rfl⟩

/-- A glyph outside bracket classes is written as one character, as an escape or as `[^/]+`. -/
theorem text_pieceOf (glyph : Glyph) :
    (∃ c, (pieceOf glyph).text = [c] ∧ c ≠ '*' ∧ c ≠ '?')
      ∨ (∃ c, (pieceOf glyph).text = ['\\', c]) ∨ ∃ more, (pieceOf glyph).text = '[' :: more := by
  cases glyph with
  | char c =>
    by_cases hstar : c = '*'
    · subst hstar
      exact Or.inr (Or.inr ⟨_, rfl⟩)
    by_cases hany : c = '?'
    · subst hany
      exact Or.inl ⟨'.', rfl, by decide⟩
    rw [pieceOf, if_neg hstar, if_neg hany]
    by_cases hmeta : c ∈ metacharacters
    · exact Or.inr (Or.inl ⟨c, Piece.text_literal_of_mem hmeta⟩)
    · exact Or.inl ⟨c, Piece.text_literal_of_notMem hmeta, hstar, hany⟩
  | groupOpen => exact Or.inl ⟨'(', rfl, by decide⟩
  | alternative => exact Or.inl ⟨'|', rfl, by decide⟩
  | groupClose => exact Or.inl ⟨')', rfl, by decide⟩

/-- What follows the first character of a text, unless that starts an escape or a class. -/
theorem tail_of_innerText_eq_cons {gs : List Glyph} {c : Char} {more : List Char}
    (h : innerText gs = c :: more) (hescape : c ≠ '\\') (hclass : c ≠ '[') :
    (c ≠ '*' ∧ c ≠ '?')
      ∧ ((∃ rest, more = '.' :: '*' :: innerText rest) ∨ ∃ rest, more = innerText rest) := by
  cases gs with
  | nil =>
    rw [innerText_nil] at h
    cases h
  | cons glyph rest =>
    by_cases hbracket : glyph = .char '['
    · obtain ⟨others, hothers | hothers⟩ := exists_innerText_bracket rest
      · rw [hbracket, hothers] at h
        exact absurd (List.cons_eq_cons.mp h).1.symm hclass
      · rw [hbracket, hothers] at h
        exact absurd (List.cons_eq_cons.mp h).1.symm hescape
    by_cases hdeep : ∃ after, glyph :: rest = .char '/' :: .char '*' :: .char '*' :: after
    · obtain ⟨after, heq⟩ := hdeep
      rw [heq, innerText_deep] at h
      obtain ⟨rfl, rfl⟩ := List.cons_eq_cons.mp h
      exact ⟨by decide, Or.inl ⟨after, rfl⟩⟩
    · rw [innerText_cons hbracket (not_exists.mp hdeep)] at h
      rcases text_pieceOf glyph with ⟨d, hd, hplain⟩ | ⟨d, hd⟩ | ⟨others, hd⟩
      · rw [hd] at h
        obtain ⟨rfl, rfl⟩ := List.cons_eq_cons.mp h
        exact ⟨hplain, Or.inr ⟨rest, rfl⟩⟩
      · rw [hd] at h
        exact absurd (List.cons_eq_cons.mp h).1.symm hescape
      · rw [hd] at h
        exact absurd (List.cons_eq_cons.mp h).1.symm hclass

/-- No group is written like the subtree at the end of a pattern. -/
theorem innerText_ne_subtree (gs : List Glyph) : innerText gs ≠ ['/', '.', '*', ')', '?'] := by
  intro h
  obtain ⟨-, ⟨rest, hrest⟩ | ⟨rest, hrest⟩⟩ :=
    tail_of_innerText_eq_cons h (by decide) (by decide)
  · -- `/.*` is a separator and anything after it, and nothing is left for the question mark.
    have htext : innerText rest = ')' :: ['?'] := by simpa using hrest.symm
    obtain ⟨-, ⟨after, hafter⟩ | ⟨after, hafter⟩⟩ :=
      tail_of_innerText_eq_cons htext (by decide) (by decide)
    · cases hafter
    · have hnone := tail_of_innerText_eq_cons hafter.symm (by decide) (by decide)
      exact hnone.1.2 rfl
  · -- `/` is a separator and `.` any one character, and nothing is left for the star.
    have htext : innerText rest = '.' :: ['*', ')', '?'] := hrest.symm
    obtain ⟨-, ⟨after, hafter⟩ | ⟨after, hafter⟩⟩ :=
      tail_of_innerText_eq_cons htext (by decide) (by decide)
    · cases hafter
    · have hnone := tail_of_innerText_eq_cons hafter.symm (by decide) (by decide)
      exact hnone.1.1 rfl

/-! ## Patterns of globs -/

/-- The text of a subtree at the end of a pattern. -/
def subtreeText : List Char :=
  ['(', '/', '.', '*', ')', '?']

theorem eq_of_glyphs_eq_cons {c d : Char} {cs : List Char} {after : List Glyph}
    (h : glyphs (c :: cs) = .char d :: after) : c = d := by
  rw [glyphs, glyphsWithin] at h
  split at h
  · cases (List.cons_eq_cons.mp h).1
  · exact Glyph.eq_of_ofChar_eq (List.cons_eq_cons.mp h).1

/-- Where the literal base of a glob ends, its pattern has no literal; and it is not at the subtree
at its end. -/
theorem stopsLiteral_innerText {c : Char} (hglob : isGlobChar c = true) (cs : List Char) :
    innerText (glyphs (c :: cs)) ≠ [] ∧ innerText (glyphs (c :: cs)) ≠ subtreeText
      ∧ ∀ tail, StopsLiteral (innerText (glyphs (c :: cs)) ++ tail) := by
  have hwildcard : ∀ d ∈ ['[', '.', '('], ∀ more, innerText (glyphs (c :: cs)) = d :: more →
      d :: more ≠ subtreeText → innerText (glyphs (c :: cs)) ≠ []
        ∧ innerText (glyphs (c :: cs)) ≠ subtreeText
        ∧ ∀ tail, StopsLiteral (innerText (glyphs (c :: cs)) ++ tail) := by
    intro d hd more htext hne
    rw [htext]
    exact ⟨List.cons_ne_nil d more, hne, fun tail => .wildcard hd⟩
  have hunmatched : ∀ more, innerText (glyphs (c :: cs)) = '\\' :: c :: more →
      innerText (glyphs (c :: cs)) ≠ [] ∧ innerText (glyphs (c :: cs)) ≠ subtreeText
        ∧ ∀ tail, StopsLiteral (innerText (glyphs (c :: cs)) ++ tail) := by
    intro more htext
    rw [htext]
    exact ⟨List.cons_ne_nil _ _, by simp [subtreeText], fun tail => .unmatched hglob⟩
  have hchar : (c = '*' ∨ c = '?') ∨ c = '[' ∨ c = '{' := by
    simpa [isGlobChar, or_assoc] using hglob
  rcases hchar with hplain | rfl | rfl
  · have hmark : ¬IsMark c := by rcases hplain with rfl | rfl <;> simp [IsMark]
    have hbrace : c ≠ '{' := by rcases hplain with rfl | rfl <;> decide
    have hglyphs : glyphs (c :: cs) = .char c :: glyphs cs :=
      glyphs_char (fun hc => absurd hc hbrace) hmark
    have htext : innerText (glyphs (c :: cs))
        = (pieceOf (.char c)).text ++ innerText (glyphs cs) := by
      rw [hglyphs]
      refine innerText_cons ?_ ?_ <;> rcases hplain with rfl | rfl <;> simp
    rcases hplain with rfl | rfl
    · exact hwildcard '[' (by decide) _ htext (by simp [subtreeText])
    · exact hwildcard '.' (by decide) _ htext (by simp [subtreeText])
  · have hglyphs : glyphs ('[' :: cs) = .char '[' :: glyphs cs :=
      glyphs_char (by simp) (by simp [IsMark])
    obtain ⟨more, hmore | hmore⟩ := exists_innerText_bracket (glyphs cs)
    · exact hwildcard '[' (by decide) more (hglyphs ▸ hmore) (by simp [subtreeText])
    · exact hunmatched more (hglyphs ▸ hmore)
  · by_cases hcloses : closes 1 cs = true
    · have hglyphs : glyphs ('{' :: cs) = .groupOpen :: glyphsWithin 1 cs := by
        rw [glyphs, glyphsWithin, if_pos ⟨rfl, hcloses⟩]
      have htext : innerText (glyphs ('{' :: cs)) = '(' :: innerText (glyphsWithin 1 cs) := by
        rw [hglyphs]
        exact innerText_cons (by simp) (by simp)
      refine hwildcard '(' (by decide) _ htext fun heq => ?_
      exact innerText_ne_subtree _ (List.cons_eq_cons.mp heq).2
    · have hglyphs : glyphs ('{' :: cs) = .char '{' :: glyphs cs := by
        rw [glyphs, glyphsWithin, if_neg fun h => hcloses h.2]
        rfl
      refine hunmatched (innerText (glyphs cs)) ?_
      rw [hglyphs]
      exact innerText_cons (by simp) (by simp)

/-- The text of a glob starts with its literal base, which ends at the end of the text or at a
wildcard. -/
theorem exists_opens_innerText {path tail : List Char} (hmark : ∀ c ∈ path, ¬IsMark c)
    (htail : StopsLiteral tail) :
    ∃ rest, Opens (innerText (glyphs path) ++ tail) (path.takeWhile (! isGlobChar ·)) rest
      ∧ if path.any isGlobChar then
          ∃ wild, wild ≠ [] ∧ wild ≠ subtreeText ∧ rest = wild ++ tail
        else rest = tail := by
  induction path with
  | nil =>
    refine ⟨tail, ?_, rfl⟩
    rw [show glyphs [] = [] from rfl, innerText_nil]
    exact .stop htail
  | cons c cs ih =>
    rw [List.forall_mem_cons] at hmark
    obtain ⟨rest, hopens, hrest⟩ := ih hmark.2
    by_cases hglob : isGlobChar c = true
    · obtain ⟨hne, hsubtree, hstops⟩ := stopsLiteral_innerText hglob cs
      refine ⟨innerText (glyphs (c :: cs)) ++ tail, ?_, ?_⟩
      · rw [List.takeWhile_cons_of_neg (by simpa using hglob)]
        exact .stop (hstops tail)
      · rw [List.any_cons, hglob, Bool.true_or, if_pos rfl]
        exact ⟨_, hne, hsubtree, rfl⟩
    · rw [Bool.not_eq_true] at hglob
      have hglyphs : glyphs (c :: cs) = .char c :: glyphs cs := by
        refine glyphs_char (fun hc => ?_) hmark.1
        rw [hc] at hglob
        cases hglob
      rw [List.takeWhile_cons_of_pos (by simpa using hglob), List.any_cons, hglob, Bool.false_or,
        hglyphs]
      by_cases hdeep : ∃ after,
          Glyph.char c :: glyphs cs = .char '/' :: .char '*' :: .char '*' :: after
      · -- The separator is the last character before the wildcard.
        obtain ⟨after, hafter⟩ := hdeep
        obtain ⟨hc, hstars⟩ := List.cons_eq_cons.mp hafter
        cases hc
        have htext : innerText (.char '/' :: glyphs cs) = '/' :: '.' :: '*' :: innerText after := by
          rw [hafter, innerText_deep]
        obtain ⟨ds, rfl⟩ : ∃ ds, cs = '*' :: ds := by
          cases cs with
          | nil => cases hstars
          | cons d ds => exact ⟨ds, by rw [eq_of_glyphs_eq_cons hstars]⟩
        refine ⟨'.' :: '*' :: innerText after ++ tail, ?_, ?_⟩
        · rw [htext]
          exact .plain (by decide) (.stop (.wildcard (by decide)))
        · rw [List.any_cons, show isGlobChar '*' = true from rfl, Bool.true_or, if_pos rfl]
          exact ⟨_, List.cons_ne_nil _ _, by simp [subtreeText], rfl⟩
      · have hclass : Glyph.char c ≠ .char '[' := by
          intro hc
          cases hc
          cases hglob
        have hpiece : pieceOf (.char c) = .literal c := by
          rw [pieceOf, if_neg, if_neg]
          · intro hc
            rw [hc] at hglob
            cases hglob
          · intro hc
            rw [hc] at hglob
            cases hglob
        refine ⟨rest, ?_, hrest⟩
        rw [innerText_cons hclass (not_exists.mp hdeep), hpiece]
        by_cases hmeta : c ∈ metacharacters
        · rw [Piece.text_literal_of_mem hmeta]
          exact .escaped hglob hopens
        · rw [Piece.text_literal_of_notMem hmeta]
          exact .plain hmeta hopens

/-! ## Literal bases -/

/-- The literal base of a glob from how its pattern starts: where a subtree follows, the whole of
it, and else up to its last separator. -/
def baseOf (literal rest : List Char) : List Char :=
  if rest = [] ∨ rest = subtreeText then literal else throughLastSlash literal

theorem eq_append_of_stem? {path stem : List Char} (h : stem? path = some stem) :
    ∃ more, path = stem ++ '/' :: '*' :: more := by
  have htake : ∀ tail : List Char, tail <:+ path →
      path = path.take (path.length - tail.length) ++ tail := by
    intro tail hsuffix
    obtain ⟨before, rfl⟩ := hsuffix
    rw [List.length_append, Nat.add_sub_cancel, List.take_left]
  rw [stem?] at h
  split at h
  · next hsuffix =>
    cases h
    exact ⟨['*'], htake _ hsuffix⟩
  split at h
  · cases h
  split at h
  · next hsuffix =>
    cases h
    exact ⟨[], htake _ hsuffix⟩
  · cases h

/-- The separator at the end of a base adds no word. -/
theorem words_append_slash (cs : List Char) : words (cs ++ ['/']) = words cs := by
  have hnone : words [] = [] := rfl
  rw [TypeName.words_append_cons (by decide), hnone, List.append_nil]

theorem throughLastSlash_append_slash (cs : List Char) :
    throughLastSlash (cs ++ ['/']) = cs ++ ['/'] := by
  simp [throughLastSlash]

theorem takeWhile_append_of_any {path : List Char} (h : path.any isGlobChar = true)
    (after : List Char) :
    (path ++ after).takeWhile (! isGlobChar ·) = path.takeWhile (! isGlobChar ·) := by
  rw [List.takeWhile_append, if_neg]
  intro hlength
  have hall := List.takeWhile_eq_self_iff.mp ((List.takeWhile_prefix _).eq_of_length hlength)
  obtain ⟨c, hc, hglob⟩ := List.any_eq_true.mp h
  simpa [hglob] using hall c hc

/-- The text of a pattern, by how its glob ends. -/
theorem toList_pattern (path : String) :
    (pattern path).toList = match stem? path.toList with
      | none => innerText (glyphs path.toList)
      | some [] => ['/', '.', '*']
      | some stem => innerText (glyphs stem) ++ subtreeText := by
  rw [pattern, String.toList_ofList, pieces, beforeSubtree?_glyphs]
  cases stem? path.toList with
  | none => rfl
  | some stem =>
    cases stem with
    | nil => rfl
    | cons c cs =>
      have hsome : glyphs (c :: cs) ≠ [] := by
        rw [← List.length_pos_iff, length_glyphs]
        exact Nat.zero_lt_succ _
      obtain ⟨glyph, gs, hglyphs⟩ := List.exists_cons_of_ne_nil hsome
      show _ = innerText (glyphs (c :: cs)) ++ subtreeText
      rw [Option.map_some, hglyphs]
      exact List.flatMap_append

/-- How a pattern starts, by the words of the literal base of its glob. -/
theorem exists_opens_pattern {path : String} (hmark : ∀ c ∈ path.toList, ¬IsMark c) :
    ∃ literal rest, Opens (pattern path).toList literal rest
      ∧ words (literalBase path.toList) = words (baseOf literal rest) := by
  rw [toList_pattern]
  generalize path.toList = path at hmark
  cases hstem : stem? path with
  | none =>
    obtain ⟨rest, hopens, hrest⟩ := exists_opens_innerText hmark .nil
    rw [List.append_nil] at hopens
    refine ⟨_, rest, hopens, ?_⟩
    rw [literalBase]
    by_cases hglob : path.any isGlobChar = true
    · rw [if_pos hglob] at hrest ⊢
      obtain ⟨wild, hne, hsubtree, rfl⟩ := hrest
      rw [baseOf, List.append_nil, if_neg (by simp [hne, hsubtree])]
    · rw [if_neg hglob] at hrest ⊢
      rw [baseOf, if_pos (Or.inl hrest), List.takeWhile_eq_self_iff.mpr]
      simpa using hglob
  | some stem =>
    obtain ⟨more, rfl⟩ := eq_append_of_stem? hstem
    have hglob : (stem ++ '/' :: '*' :: more).any isGlobChar = true := by simp [isGlobChar]
    rw [literalBase, if_pos hglob]
    cases stem with
    | nil => exact ⟨['/'], ['.', '*'], .plain (by decide) (.stop (.wildcard (by decide))), rfl⟩
    | cons c cs =>
      have hstemmark : ∀ d ∈ c :: cs, ¬IsMark d :=
        fun d hd => hmark d (List.mem_append_left _ hd)
      have hsubtree : StopsLiteral subtreeText := .wildcard (by decide)
      obtain ⟨rest, hopens, hrest⟩ := exists_opens_innerText hstemmark hsubtree
      refine ⟨_, rest, hopens, ?_⟩
      by_cases hstemglob : (c :: cs).any isGlobChar = true
      · rw [if_pos hstemglob] at hrest
        obtain ⟨wild, hne, -, rfl⟩ := hrest
        rw [takeWhile_append_of_any hstemglob, baseOf, if_neg]
        simp [hne, subtreeText]
      · rw [if_neg hstemglob] at hrest
        have hliteral : ∀ d ∈ c :: cs, (! isGlobChar d) = true := by simpa using hstemglob
        rw [List.takeWhile_append_of_pos hliteral, List.takeWhile_eq_self_iff.mpr hliteral, baseOf,
          if_pos (Or.inr hrest)]
        exact (congrArg words (throughLastSlash_append_slash _)).trans (words_append_slash _)

/-! ## Patterns of absolute paths -/

theorem exists_innerText_slash (cs : List Char) :
    ∃ more, innerText (glyphs ('/' :: cs)) = '/' :: more := by
  have hglyphs : glyphs ('/' :: cs) = .char '/' :: glyphs cs :=
    glyphs_char (by simp) (by simp [IsMark])
  rw [hglyphs]
  by_cases hdeep : ∃ after,
      Glyph.char '/' :: glyphs cs = .char '/' :: .char '*' :: .char '*' :: after
  · obtain ⟨after, hafter⟩ := hdeep
    exact ⟨_, by rw [hafter, innerText_deep]⟩
  · exact ⟨_, innerText_cons (by simp) (not_exists.mp hdeep)⟩

/-- The pattern of an absolute path starts at the root. -/
theorem startsWith_pattern {path : String} (h : Text.startsWith path "/" = true) :
    Text.startsWith (pattern path) "/" = true := by
  rw [Text.startsWith_iff] at h ⊢
  obtain ⟨cs, hcs⟩ := h
  rw [toList_pattern, hcs]
  cases hstem : stem? ("/".toList ++ cs) with
  | none => exact exists_innerText_slash cs
  | some stem =>
    cases stem with
    | nil => exact ⟨['.', '*'], rfl⟩
    | cons c stem =>
      obtain ⟨more, hpath⟩ := eq_append_of_stem? hstem
      obtain ⟨rfl, -⟩ := List.cons_eq_cons.mp hpath
      obtain ⟨text, htext⟩ := exists_innerText_slash stem
      exact ⟨text ++ subtreeText, congrArg (· ++ subtreeText) htext⟩

end TypeEnforcement.Glob

namespace TypeEnforcement.TypeName.Scope

open Glob (IsMark Opens baseOf)

/-- Paths with one pattern have one type. -/
theorem pathType_eq_of_pattern_eq {path other : String} (scope : Scope)
    (hpath : ∀ c ∈ path.toList, ¬IsMark c) (hother : ∀ c ∈ other.toList, ¬IsMark c)
    (h : Glob.pattern path = Glob.pattern other) : scope.pathType path = scope.pathType other := by
  obtain ⟨literal, rest, hopens, hwords⟩ := Glob.exists_opens_pattern hpath
  obtain ⟨literal', rest', hopens', hwords'⟩ := Glob.exists_opens_pattern hother
  obtain ⟨rfl, rfl⟩ := hopens.unique (h ▸ hopens')
  exact scope.pathType_congr (hwords.trans hwords'.symm)

end TypeEnforcement.TypeName.Scope
