import TypeEnforcement.Proofs.Glob.Groups
import TypeEnforcement.Proofs.Glob.Pattern
/-!
# The pieces of a glob and their tokens

The pieces of a glob are those of its parts (`written`): a glob is cut at `/**`, and since marks of
groups are glyphs of their own, no cut reaches from one row of parts into another. Written down, a
piece is read as its own tokens whatever follows it, so that nothing is escaped twice or not at all.

## Main results

* `Glob.innerPieces_flat`: the glyphs of parts are read as the pieces of the parts.
* `Glob.spells_flatMap_text`: the text of pieces is read piece by piece.
-/

namespace TypeEnforcement.Glob

open Pattern (Token Spells)

/-! ## Pieces of parts -/

/-- The piece of a glyph outside bracket classes. -/
def pieceOf : Glyph → Piece
  | .char c => if c = '*' then .segmentPart else if c = '?' then .anyChar else .literal c
  | glyph => .mark glyph

mutual

/-- The pieces of parts. -/
def written : List Part → List Piece
  | [] => []
  | .char '/' :: .char '*' :: .char '*' :: rest => .anyDepth :: written rest
  | .char c :: rest => pieceOf (.char c) :: written rest
  | .group first others :: rest =>
    .mark .groupOpen :: (written first ++ writtenMore others ++ .mark .groupClose :: written rest)

/-- The pieces of the alternatives of a group after the first. -/
def writtenMore : List (List Part) → List Piece
  | [] => []
  | alternative :: others => .mark .alternative :: (written alternative ++ writtenMore others)

end

theorem segmentPieces_cons {glyph : Glyph} (h : glyph ≠ .char '[') (rest : List Glyph) :
    segmentPieces 0 false (glyph :: rest) = pieceOf glyph :: segmentPieces 0 false rest := by
  cases glyph with
  | char c =>
    have hbracket : c ≠ '[' := fun hc => h (congrArg Glyph.char hc)
    by_cases hstar : c = '*'
    · subst hstar
      simp [segmentPieces, pieceOf]
    by_cases hany : c = '?'
    · subst hany
      simp [segmentPieces, pieceOf]
    · simp [segmentPieces, pieceOf, hstar, hany]
  | groupOpen | alternative | groupClose => simp [segmentPieces, pieceOf]

theorem splitDeep_ne_nil (gs : List Glyph) : splitDeep gs ≠ [] := by
  fun_induction splitDeep gs <;> simp

theorem innerPieces_nil : innerPieces [] = [] := by
  simp [innerPieces, splitDeep, segmentPieces]

theorem innerPieces_deep (rest : List Glyph) :
    innerPieces (.char '/' :: .char '*' :: .char '*' :: rest) = .anyDepth :: innerPieces rest := by
  rw [innerPieces, innerPieces, splitDeep, List.map_cons]
  cases hsplit : splitDeep rest with
  | nil => exact absurd hsplit (splitDeep_ne_nil rest)
  | cons first others =>
    rw [List.map_cons, List.intercalate_cons_cons]
    simp [segmentPieces]

/-- Outside bracket classes, glyphs that do not start with `/**` are read one after the other. -/
theorem innerPieces_cons {glyph : Glyph} {rest : List Glyph} (hbracket : glyph ≠ .char '[')
    (hdeep : ∀ after, glyph :: rest ≠ .char '/' :: .char '*' :: .char '*' :: after) :
    innerPieces (glyph :: rest) = pieceOf glyph :: innerPieces rest := by
  have hplain : ∀ after, glyph = .char '/' → rest = .char '*' :: .char '*' :: after → False := by
    intro after hglyph hrest
    exact hdeep after (by rw [hglyph, hrest])
  have hsplit := splitDeep.eq_3 glyph rest hplain
  cases hrest : splitDeep rest with
  | nil => exact absurd hrest (splitDeep_ne_nil rest)
  | cons first others =>
    rw [hrest] at hsplit
    rw [innerPieces, innerPieces, hsplit, hrest]
    cases others with
    | nil => simp [segmentPieces_cons hbracket]
    | cons second others =>
      simp only [List.map_cons, List.intercalate_cons_cons, segmentPieces_cons hbracket]
      rfl

theorem innerPieces_mark {mark : Glyph} (h : ∀ c, mark ≠ .char c) (rest : List Glyph) :
    innerPieces (mark :: rest) = .mark mark :: innerPieces rest := by
  have hpiece : pieceOf mark = .mark mark := by
    cases mark with
    | char c => exact absurd rfl (h c)
    | groupOpen | alternative | groupClose => rfl
  rw [innerPieces_cons (h '[') fun after heq => h '/' (List.cons_eq_cons.mp heq).1, hpiece]

/-- Whether glyphs end a row of parts: they do not start with a character. -/
def EndsRow (gs : List Glyph) : Prop :=
  ∀ c after, gs ≠ .char c :: after

theorem endsRow_nil : EndsRow [] := by
  intro c after h
  cases h

theorem endsRow_flatMore (others : List (List Part)) (gs : List Glyph) :
    EndsRow (flatMore others ++ .groupClose :: gs) := by
  intro c after h
  cases others with
  | nil => simp [flatMore] at h
  | cons alternative others => simp [flatMore] at h

theorem eq_cons_of_flat_append {ps : List Part} {gs after : List Glyph} {c : Char}
    (hends : EndsRow gs) (h : flat ps ++ gs = .char c :: after) :
    ∃ rest, ps = .char c :: rest ∧ flat rest ++ gs = after := by
  cases ps with
  | nil => exact absurd (by simpa [flat] using h) (hends c after)
  | cons part rest =>
    cases part with
    | char d =>
      rw [flat, List.cons_append] at h
      obtain ⟨hglyph, hafter⟩ := List.cons_eq_cons.mp h
      cases hglyph
      exact ⟨rest, rfl, hafter⟩
    | group first others => simp [flat] at h

/-- The glyphs of parts are read as the pieces of the parts, whatever ends the row. What follows a
row matters because a `/` at its end must not be taken together with stars behind it. -/
theorem innerPieces_flat_append :
    (∀ ps, .char '[' ∉ flat ps → ∀ gs, EndsRow gs →
        innerPieces (flat ps ++ gs) = written ps ++ innerPieces gs)
      ∧ ∀ others, .char '[' ∉ flatMore others → ∀ gs,
        innerPieces (flatMore others ++ .groupClose :: gs)
          = writtenMore others ++ .mark .groupClose :: innerPieces gs := by
  refine written.mutual_induct _ _ ?nil ?deep ?char ?group ?last ?more
  case nil =>
    intro _ gs _
    rw [flat, written, List.nil_append, List.nil_append]
  case deep =>
    intro rest ih hbracket gs hends
    simp only [flat, List.mem_cons, not_or] at hbracket
    have hrest := ih hbracket.2.2.2 gs hends
    simp only [flat, written, List.cons_append, innerPieces_deep, hrest]
  case char =>
    intro c rest hdeep ih hbracket gs hends
    simp only [flat, List.mem_cons, not_or] at hbracket
    have hrest := ih hbracket.2 gs hends
    have hglyphs : ∀ after, Glyph.char c :: (flat rest ++ gs)
        ≠ .char '/' :: .char '*' :: .char '*' :: after := by
      intro after h
      obtain ⟨hc, hstars⟩ := List.cons_eq_cons.mp h
      obtain ⟨rest', rfl, hstar⟩ := eq_cons_of_flat_append hends hstars
      obtain ⟨rest'', rfl, -⟩ := eq_cons_of_flat_append hends hstar
      exact hdeep rest'' rfl (Glyph.char.inj hc)
    rw [flat, written, List.cons_append, List.cons_append,
      innerPieces_cons (Ne.symm hbracket.1) hglyphs, hrest]
    exact hdeep
  case group =>
    intro first others rest ihfirst ihothers ihrest hbracket gs hends
    simp only [flat, List.mem_cons, List.mem_append, not_or] at hbracket
    obtain ⟨-, ⟨hfirst, hothers⟩, -, hrest⟩ := hbracket
    have hgroup := ihfirst hfirst _ (endsRow_flatMore others (flat rest ++ gs))
    simp only [flat, written, List.cons_append, List.append_assoc]
    rw [innerPieces_mark (by simp), hgroup, ihothers hothers, ihrest hrest gs hends]
  case last =>
    intro _ gs
    rw [flatMore, writtenMore, List.nil_append, List.nil_append, innerPieces_mark (by simp)]
  case more =>
    intro alternative others ihalternative ihothers hbracket gs
    simp only [flatMore, List.mem_cons, List.mem_append, not_or] at hbracket
    obtain ⟨-, halternative, hothers⟩ := hbracket
    have hrow := ihalternative halternative _ (endsRow_flatMore others gs)
    simp only [flatMore, writtenMore, List.cons_append, List.append_assoc]
    rw [innerPieces_mark (by simp), hrow, ihothers hothers]

theorem innerPieces_flat {ps : List Part} (h : .char '[' ∉ flat ps) :
    innerPieces (flat ps) = written ps := by
  have happend := innerPieces_flat_append.1 ps h [] endsRow_nil
  rw [List.append_nil, innerPieces_nil, List.append_nil] at happend
  exact happend

/-! ## Tokens of pieces -/

/-- Whether a piece comes from outside bracket classes. -/
def Piece.IsReadable : Piece → Prop
  | .literal c => c ≠ '*' ∧ c ≠ '?'
  | .inBracket _ => False
  | .mark glyph => ∀ c, glyph ≠ .char c
  | _ => True

/-- The token of a mark of a group. -/
def markToken : Glyph → Token
  | .char c => .char (.only c)
  | .groupOpen => .groupOpen
  | .alternative => .alternative
  | .groupClose => .groupClose

/-- The tokens that the text of a piece is read as, if it comes from outside bracket classes. -/
def Piece.tokens : Piece → List Token
  | .literal c => [.char (.only c)]
  | .anyChar => [.char .notLineEnd]
  | .segmentPart => [.char (.allBut '/'), .plus]
  | .segmentRest => [.char (.allBut '/'), .star]
  | .anyDepth => [.char (.only '/'), .char .notLineEnd, .star]
  | .subtree => [.groupOpen, .char (.only '/'), .char .notLineEnd, .star, .groupClose, .optional]
  | .inBracket glyph => [markToken glyph]
  | .mark glyph => [markToken glyph]

theorem mem_specials_of_mem_metacharacters : ∀ c ∈ metacharacters, c ∈ Pattern.specials := by
  simp [metacharacters, Pattern.specials]

theorem mem_metacharacters_of_mem_specials :
    ∀ c ∈ Pattern.specials, c ∈ metacharacters ∨ c = '*' ∨ c = '?' := by
  simp [metacharacters, Pattern.specials]

theorem Piece.text_literal_of_mem {c : Char} (h : c ∈ metacharacters) :
    (literal c).text = ['\\', c] :=
  if_pos (List.contains_iff_mem.mpr h)

theorem Piece.text_literal_of_notMem {c : Char} (h : c ∉ metacharacters) :
    (literal c).text = [c] :=
  if_neg (mt List.contains_iff_mem.mp h)

/-- A character is escaped when it would mean something. -/
theorem Piece.spells_literal {c : Char} (hstar : c ≠ '*') (hany : c ≠ '?') :
    Spells (literal c).text [.char (.only c)] := by
  by_cases hmeta : c ∈ metacharacters
  · have hspecial : c ∈ Pattern.specials := mem_specials_of_mem_metacharacters c hmeta
    rw [text_literal_of_mem hmeta]
    exact .escape hspecial
  · have hplain : c ∉ Pattern.specials := by
      intro hspecial
      rcases mem_metacharacters_of_mem_specials c hspecial with h | h | h
      · exact hmeta h
      · exact hstar h
      · exact hany h
    rw [text_literal_of_notMem hmeta]
    exact .single (Pattern.tokenOf?_eq_only hplain)

theorem tokenOf?_toChar {mark : Glyph} (h : ∀ c, mark ≠ .char c) :
    Pattern.tokenOf? mark.toChar = some (markToken mark) := by
  cases mark with
  | char c => exact absurd rfl (h c)
  | groupOpen | alternative | groupClose => rfl

theorem Piece.spells {piece : Piece} (h : piece.IsReadable) :
    Spells piece.text piece.tokens := by
  have hslash : Spells ['/'] [.char (.only '/')] := .single rfl
  have hany : Spells ['.'] [.char .notLineEnd] := .single rfl
  have hdeep : Spells ['/', '.', '*'] [.char (.only '/'), .char .notLineEnd, .star] :=
    hslash.append (hany.append (.single rfl))
  have hsegment : Spells ['[', '^', '/', ']'] [.char (.allBut '/')] := .allBut (by decide)
  cases piece with
  | literal c => exact spells_literal h.1 h.2
  | anyChar => exact hany
  | segmentPart =>
    have hplus : Spells ['+'] [.plus] := .single rfl
    exact hsegment.append hplus
  | segmentRest =>
    have hstar : Spells ['*'] [.star] := .single rfl
    exact hsegment.append hstar
  | anyDepth => exact hdeep
  | subtree =>
    have hopen : Spells ['('] [.groupOpen] := .single rfl
    have hclose : Spells [')'] [.groupClose] := .single rfl
    have hoptional : Spells ['?'] [.optional] := .single rfl
    exact hopen.append (hdeep.append (hclose.append hoptional))
  | inBracket glyph => exact h.elim
  | mark glyph => exact .single (tokenOf?_toChar h)

/-- The text of pieces is read piece by piece. -/
theorem spells_flatMap_text {ps : List Piece} (h : ∀ piece ∈ ps, piece.IsReadable) :
    Spells (ps.flatMap Piece.text) (ps.flatMap Piece.tokens) := by
  induction ps with
  | nil => exact .nil
  | cons piece ps ih =>
    rw [List.forall_mem_cons] at h
    rw [List.flatMap_cons, List.flatMap_cons]
    exact (Piece.spells h.1).append (ih h.2)

theorem isReadable_pieceOf (c : Char) : (pieceOf (.char c)).IsReadable := by
  rw [pieceOf]
  split
  · trivial
  split
  · trivial
  · exact ⟨‹_›, ‹_›⟩

theorem isReadable_written :
    (∀ ps, ∀ piece ∈ written ps, piece.IsReadable)
      ∧ ∀ others, ∀ piece ∈ writtenMore others, piece.IsReadable := by
  refine written.mutual_induct _ _ ?nil ?deep ?char ?group ?last ?more
  case nil => simp [written]
  case deep =>
    intro rest ih
    rw [written, List.forall_mem_cons]
    exact ⟨trivial, ih⟩
  case char =>
    intro c rest hdeep ih
    rw [written, List.forall_mem_cons]
    · exact ⟨isReadable_pieceOf c, ih⟩
    · exact hdeep
  case group =>
    intro first others rest ihfirst ihothers ihrest
    simp only [written, List.forall_mem_cons, List.forall_mem_append]
    exact ⟨by simp [Piece.IsReadable], ⟨ihfirst, ihothers⟩, by simp [Piece.IsReadable], ihrest⟩
  case last => simp [writtenMore]
  case more =>
    intro alternative others ihalternative ihothers
    simp only [writtenMore, List.forall_mem_cons, List.forall_mem_append]
    exact ⟨by simp [Piece.IsReadable], ihalternative, ihothers⟩

end TypeEnforcement.Glob
