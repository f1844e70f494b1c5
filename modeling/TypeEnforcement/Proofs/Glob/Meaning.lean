import TypeEnforcement.Proofs.Glob.Ends
import TypeEnforcement.Proofs.Glob.Pieces
/-!
# The pattern of a glob means what the glob means

`Glob.pattern` writes a regular expression without ever building one: it makes out glyphs, cuts them
at `/**` and at the ends, and writes pieces. Here the text that comes out is read as a regular
expression, and its language is the language of the glob. Every piece is read by itself, wherever it
stands, so the pieces of parts are read as what the parts match (`reads_written`).

## Main result

* `Glob.exists_language_pattern_iff`: a pattern matches the texts of its glob.
-/

namespace TypeEnforcement.Glob

open Pattern (Reads ReadsMore)

/-! ## Languages of pieces -/

theorem agree_deep : Pattern.AgreeOnLines Pattern.descent deep := by
  intro text hline
  rw [Pattern.mem_descent]
  constructor
  · intro hexists
    obtain ⟨rest, rfl, -⟩ := hexists
    exact ⟨rest, rfl⟩
  · intro hexists
    obtain ⟨rest, rfl⟩ := hexists
    exact ⟨rest, rfl, List.not_mem_of_not_mem_cons hline⟩

theorem reads_deep : Reads Piece.anyDepth.tokens deep :=
  ((Reads.char (.only '/')).append (Reads.star .notLineEnd)).congr agree_deep

/-- The text of a subtree is a group of one alternative that may be left out. -/
theorem reads_subtree : Reads Piece.subtree.tokens (1 + deep) := by
  have hreads : Reads Piece.subtree.tokens
      (Pattern.language (.optional (.either .never
        (.seq (.seq .empty (.char (.only '/'))) (.star (.char .notLineEnd)))))) :=
    .of_pattern _ fun _ _ => ⟨_, rfl, rfl, rfl⟩
  refine hreads.congr ?_
  simp only [Pattern.language, one_mul, zero_add]
  exact .add (.refl 1) agree_deep

theorem reads_segment : Reads Piece.segmentPart.tokens segment := by
  refine (Reads.plus (.allBut '/')).congr fun text _ => ?_
  rw [Pattern.mem_plus_oneOf]
  have hall : (∀ c ∈ text, (CharSet.allBut '/').has c = true) ↔ '/' ∉ text := by
    simp only [CharSet.has, bne_iff_ne]
    exact List.forall_mem_ne'
  rw [hall]
  rfl

theorem reads_anyOne : Reads Piece.anyChar.tokens anyOne := by
  refine (Reads.char .notLineEnd).congr fun text hline => ?_
  constructor
  · intro hexists
    obtain ⟨c, -, rfl⟩ := hexists
    exact ⟨c, rfl⟩
  · intro hexists
    obtain ⟨c, rfl⟩ := hexists
    exact ⟨c, bne_iff_ne.mpr fun hc => hline (List.mem_singleton.mpr hc.symm), rfl⟩

theorem reads_itself (c : Char) : Reads (Piece.literal c).tokens (itself c) := by
  have hreads := Reads.char (.only c)
  rw [Pattern.oneOf_only] at hreads
  exact hreads

theorem reads_pieceOf (c : Char) : Reads (pieceOf (.char c)).tokens (textsOf c) := by
  rw [pieceOf, textsOf]
  by_cases hstar : c = '*'
  · rw [if_pos hstar, if_pos hstar]
    exact reads_segment
  by_cases hany : c = '?'
  · rw [if_neg hstar, if_pos hany, if_neg hstar, if_pos hany]
    exact reads_anyOne
  · rw [if_neg hstar, if_neg hany, if_neg hstar, if_neg hany]
    exact reads_itself c

/-- The pieces of parts are read as what the parts match. -/
theorem reads_written :
    (∀ ps, Reads ((written ps).flatMap Piece.tokens) (sequence ps))
      ∧ ∀ others, ReadsMore ((writtenMore others).flatMap Piece.tokens) (union others) := by
  refine written.mutual_induct _ _ ?nil ?deep ?char ?group ?last ?more
  case nil =>
    rw [written, sequence]
    exact .nil
  case deep =>
    intro rest ih
    rw [written, sequence]
    exact reads_deep.append ih
  case char =>
    intro c rest hdeep ih
    rw [written, sequence]
    · exact (reads_pieceOf c).append ih
    · exact hdeep
    · exact hdeep
  case group =>
    intro first others rest ihfirst ihothers ihrest
    rw [written, sequence]
    have happend := (ihfirst.group ihothers).append ihrest
    simpa [Piece.tokens, markToken] using happend
  case last =>
    rw [writtenMore, union]
    exact .nil
  case more =>
    intro alternative others ihalternative ihothers
    rw [writtenMore, union, List.flatMap_cons, List.flatMap_append]
    have hcons := ReadsMore.cons ihalternative ihothers
    exact hcons

/-! ## Patterns of globs -/

/-- The globs whose characters all mean what a glob makes of them: none opens a bracket class, and
none stands for a mark. -/
def IsPlain (path : List Char) : Prop :=
  '[' ∉ path ∧ ∀ c ∈ path, ¬IsMark c

theorem IsPlain.stem {path stem : List Char} (h : IsPlain path) (hstem : stem? path = some stem) :
    IsPlain stem := by
  have hsubset := (prefix_of_stem? hstem).subset
  exact ⟨fun hmem => h.1 (hsubset hmem), fun c hc => h.2 c (hsubset hc)⟩

theorem IsPlain.innerPieces_glyphs {path : List Char} (h : IsPlain path) :
    innerPieces (glyphs path) = written (parts path) := by
  have hbracket : .char '[' ∉ flat (parts path) := by
    rw [← glyphs_eq_flat h.2]
    exact mt mem_of_char_mem_glyphsWithin h.1
  rw [glyphs_eq_flat h.2, innerPieces_flat hbracket]

/-- The pieces of a glob are those of its parts and of the subtree at its end. -/
theorem IsPlain.pieces_glyphs {path : List Char} (h : IsPlain path) :
    pieces (glyphs path) =
      match stem? path with
      | some [] => [.anyDepth]
      | some stem => written (parts stem) ++ [.subtree]
      | none => written (parts path) := by
  rw [pieces, beforeSubtree?_glyphs]
  cases hstem : stem? path with
  | none => exact h.innerPieces_glyphs
  | some stem =>
    cases stem with
    | nil => rfl
    | cons c cs =>
      cases hglyphs : glyphs (c :: cs) with
      | nil => simpa [hglyphs] using length_glyphs (c :: cs)
      | cons glyph gs =>
        rw [Option.map_some, hglyphs]
        show innerPieces (glyph :: gs) ++ [.subtree] = _
        rw [← hglyphs, (h.stem hstem).innerPieces_glyphs]

theorem isReadable_pieces {path : List Char} (h : IsPlain path) :
    ∀ piece ∈ pieces (glyphs path), piece.IsReadable := by
  rw [h.pieces_glyphs]
  split
  · simp [Piece.IsReadable]
  · rw [List.forall_mem_append]
    exact ⟨isReadable_written.1 _, by simp [Piece.IsReadable]⟩
  · exact isReadable_written.1 _

theorem reads_pieces {path : List Char} (h : IsPlain path) :
    Reads ((pieces (glyphs path)).flatMap Piece.tokens) (language path) := by
  rw [h.pieces_glyphs, language]
  cases stem? path with
  | none => exact reads_written.1 _
  | some stem =>
    cases stem with
    | nil => exact reads_deep
    | cons c cs =>
      have happend := (reads_written.1 (parts (c :: cs))).append reads_subtree
      rw [List.flatMap_append]
      exact happend

/-- The pattern of a glob, read as a regular expression, matches the texts that the glob matches, as
far as texts without a line end go. -/
theorem exists_language_pattern_iff (path : String) (h : IsPlain path.toList) :
    ∃ regex, Pattern.read? (pattern path).toList = some regex
      ∧ ∀ text, '\n' ∉ text → (text ∈ regex.language ↔ text ∈ language path.toList) := by
  have htext : (pattern path).toList = (pieces (glyphs path.toList)).flatMap Piece.text := by
    rw [pattern, String.toList_ofList]
  rw [htext]
  exact Pattern.read?_of_spells (spells_flatMap_text (isReadable_pieces h)) (reads_pieces h)

theorem exists_language_pattern_nested :
    IsPlain "/srv/{a.b,{c,}d}?/*/**".toList
      ∧ ∃ regex, Pattern.read? (pattern "/srv/{a.b,{c,}d}?/*/**").toList = some regex
        ∧ ∀ text, '\n' ∉ text →
          (text ∈ regex.language ↔ text ∈ language "/srv/{a.b,{c,}d}?/*/**".toList) := by
  have hplain : IsPlain "/srv/{a.b,{c,}d}?/*/**".toList := by
    simp [IsPlain, IsMark]
  exact ⟨hplain, exists_language_pattern_iff _ hplain⟩

end TypeEnforcement.Glob
