import TypeEnforcement.Proofs.Glob.Base
import TypeEnforcement.Proofs.Rule.Reading
/-!
# The groups of a pattern

A pattern is scanned from left to right, escapes and bracket classes aside: a parenthesis opens a
group or closes one, and a bar stands inside a group (`Glob.IsWellFormed`). A group of a pattern
comes from a brace group of its glob, whose marks nest. A bracket class is copied glyph by glyph,
whatever it holds, so a mark inside a class opens or closes nothing; what the pattern is comes down
to the marks that no class holds.

## Main results

* `Glob.isScanned_pieces`: scanning a pattern counts the marks outside its classes.
* `Glob.nest_glyphsWithin`: the marks of a glob nest.
* `Rule.isWellFormed_pattern`: which accepted paths have a well-formed pattern.
-/

namespace TypeEnforcement.Glob

/-! ## Scanning -/

/-- Where a scan stands in a pattern, and how many groups are open there. -/
inductive Scan where
  | outside (depth : Nat)
  /-- Behind a backslash. -/
  | escaped (depth : Nat)
  /-- Behind the bracket that opens a class. -/
  | classStart (depth : Nat)
  /-- Behind the caret at the start of a class. -/
  | classCaret (depth : Nat)
  | inClass (depth : Nat)
deriving DecidableEq, Repr

namespace Scan

/-- Scans a character. In a class, a closing bracket at its start or after its caret is a member,
and so is any opening bracket. -/
def step : Scan → Char → Option Scan
  | outside depth, c =>
    if c = '\\' then some (escaped depth)
    else if c = '[' then some (classStart depth)
    else if c = '(' then some (outside (depth + 1))
    else if c = '|' then if depth = 0 then none else some (outside depth)
    else if c = ')' then if depth = 0 then none else some (outside (depth - 1))
    else some (outside depth)
  | escaped depth, _ => some (outside depth)
  | classStart depth, c => some (if c = '^' then classCaret depth else inClass depth)
  | classCaret depth, _ => some (inClass depth)
  | inClass depth, c => some (if c = ']' then outside depth else inClass depth)

/-- Scans a text. -/
def run (scan : Scan) (text : List Char) : Option Scan :=
  text.foldlM step scan

theorem run_append (scan : Scan) (text more : List Char) :
    scan.run (text ++ more) = (scan.run text).bind (·.run more) :=
  List.foldlM_append

end Scan

/-- Whether all groups, classes and escapes of a pattern are complete: each parenthesis that opens a
group is closed by a later one, and each bar and each closing parenthesis is inside a group. -/
def IsWellFormed (pattern : String) : Prop :=
  (Scan.outside 0).run pattern.toList = some (.outside 0)

instance (pattern : String) : Decidable (IsWellFormed pattern) :=
  inferInstanceAs (Decidable (_ = _))

/-! ## Nesting of marks -/

namespace Glyph

/-- The number of open groups after a glyph. -/
def nest : Nat → Glyph → Option Nat
  | depth, char _ => some depth
  | depth, groupOpen => some (depth + 1)
  | 0, alternative => none
  | depth + 1, alternative => some (depth + 1)
  | 0, groupClose => none
  | depth + 1, groupClose => some depth

end Glyph

/-- The number of open groups after some glyphs, if their marks nest. -/
def nest (depth : Nat) (gs : List Glyph) : Option Nat :=
  gs.foldlM Glyph.nest depth

theorem nest_cons (depth : Nat) (glyph : Glyph) (gs : List Glyph) :
    nest depth (glyph :: gs) = (glyph.nest depth).bind (nest · gs) :=
  List.foldlM_cons

theorem nest_append (depth : Nat) (gs more : List Glyph) :
    nest depth (gs ++ more) = (nest depth gs).bind (nest · more) :=
  List.foldlM_append

/-- The marks of a text nest, if it closes the groups that are open. -/
theorem nest_glyphsWithin {depth : Nat} {cs : List Char} (hcloses : closes depth cs = true)
    (hmark : ∀ c ∈ cs, ¬IsMark c) : nest depth (glyphsWithin depth cs) = some 0 := by
  fun_induction glyphsWithin depth cs with
  | case1 depth =>
    cases depth with
    | zero => rfl
    | succ depth => cases hcloses
  | case2 c cs hopen ih =>
    exact ih hopen.2 (List.forall_mem_cons.mp hmark).2
  | case3 c cs hplain ih =>
    obtain ⟨hc, hcs⟩ := List.forall_mem_cons.mp hmark
    rw [Glyph.ofChar_eq hc]
    exact ih (by rw [closes]) hcs
  | case4 depth cs ih | case5 depth cs _ ih | case6 depth cs _ _ ih =>
    -- The mark and the count of `closes` move together.
    exact ih hcloses (List.forall_mem_cons.mp hmark).2
  | case7 depth c cs hopen hclose hcomma ih =>
    obtain ⟨hc, hcs⟩ := List.forall_mem_cons.mp hmark
    rw [closes, if_neg hopen, if_neg hclose] at hcloses
    rw [Glyph.ofChar_eq hc]
    exact ih hcloses hcs

/-! ## Marks outside classes -/

namespace Piece

/-- The mark of a piece outside bracket classes. -/
def mark? : Piece → Option Glyph
  | mark glyph => some glyph
  | _ => none

/-- Whether a piece is a mark that a bracket class has swallowed. -/
def isSwallowed : Piece → Bool
  | inBracket (.char _) => false
  | inBracket _ => true
  | _ => false

end Piece

/-- Whether the scan of pieces counts their marks and nothing else. -/
def IsScanned (ps : List Piece) : Prop :=
  ∀ depth, (Scan.outside depth).run (ps.flatMap Piece.text)
    = (nest depth (ps.filterMap Piece.mark?)).map .outside

theorem isScanned_nil : IsScanned [] :=
  fun _ => rfl

theorem IsScanned.append {ps more : List Piece} (h : IsScanned ps) (h' : IsScanned more) :
    IsScanned (ps ++ more) := by
  intro depth
  rw [List.flatMap_append, Scan.run_append, h, List.filterMap_append, nest_append]
  cases nest depth (ps.filterMap Piece.mark?) with
  | none => rfl
  | some inner => exact h' inner

/-- A literal is neither a mark nor a part of a class. -/
theorem isScanned_literal (c : Char) : IsScanned [.literal c] := by
  intro depth
  have hrun : (Scan.outside depth).run (Piece.literal c).text = some (.outside depth) := by
    by_cases hmeta : c ∈ metacharacters
    · rw [Piece.text_literal_of_mem hmeta]
      rfl
    · have hplain : ∀ d ∈ metacharacters, c ≠ d := fun d hd hc => hmeta (hc ▸ hd)
      simp only [metacharacters, List.forall_mem_cons] at hplain
      rw [Piece.text_literal_of_notMem hmeta]
      simp [Scan.run, Scan.step, hplain]
  rw [List.flatMap_singleton, hrun]
  rfl

theorem isScanned_mark {glyph : Glyph} (h : ∀ c, glyph ≠ .char c) : IsScanned [.mark glyph] := by
  intro depth
  cases glyph with
  | char c => exact absurd rfl (h c)
  | groupOpen => rfl
  | alternative | groupClose => cases depth <;> rfl

/-! ## Bracket classes -/

theorem Glyph.toChar_ne {glyph : Glyph} {c : Char} (hplain : c ∉ ['(', '|', ')'])
    (h : glyph ≠ .char c) : glyph.toChar ≠ c := by
  rintro rfl
  cases glyph with
  | char d => exact h rfl
  | groupOpen | alternative | groupClose => exact absurd hplain (by decide)

/-- A scan inside a class leaves it at the next closing bracket. -/
theorem scan_inClass {gs : List Glyph} {index : Nat}
    (h : gs.findIdx? (· = .char ']') = some index) (depth : Nat) :
    (Scan.inClass depth).run ((gs.take (index + 1)).map Glyph.toChar) = some (.outside depth) := by
  induction gs generalizing index with
  | nil => cases h
  | cons glyph gs ih =>
    rw [List.findIdx?_cons] at h
    by_cases hclose : glyph = .char ']'
    · rw [if_pos (decide_eq_true hclose)] at h
      cases h
      rw [hclose]
      rfl
    · rw [if_neg (by simpa using hclose)] at h
      obtain ⟨inner, hinner, rfl⟩ := Option.map_eq_some_iff.mp h
      have hstep : (Scan.inClass depth).step glyph.toChar = some (.inClass depth) := by
        rw [Scan.step, if_neg (Glyph.toChar_ne (by decide) hclose)]
      rw [List.take_succ_cons, List.map_cons, Scan.run, List.foldlM_cons, hstep]
      exact ih hinner

/-- A closing bracket at the start of a class is a member of it. -/
theorem scan_member {scan : Scan} {gs : List Glyph} {member index depth : Nat}
    (hmember : member = if gs.head? = some (.char ']') then 1 else 0)
    (hstep : ∀ glyph, gs.head? = some glyph → scan.step glyph.toChar = some (.inClass depth))
    (h : (gs.drop member).findIdx? (· = .char ']') = some index) :
    scan.run ((gs.take (member + index + 1)).map Glyph.toChar) = some (.outside depth) := by
  cases gs with
  | nil =>
    rw [List.drop_nil] at h
    cases h
  | cons glyph gs =>
    have hfirst := hstep glyph rfl
    by_cases hclose : glyph = .char ']'
    · subst hclose
      obtain rfl : member = 1 := hmember
      rw [show 1 + index + 1 = index + 1 + 1 by omega, List.take_succ_cons, List.map_cons, Scan.run,
        List.foldlM_cons, hfirst]
      exact scan_inClass h depth
    · have hhead : (glyph :: gs).head? ≠ some (.char ']') := by simpa using hclose
      rw [if_neg hhead] at hmember
      subst hmember
      rw [List.drop_zero, List.findIdx?_cons, if_neg (by simpa using hclose)] at h
      obtain ⟨inner, hinner, rfl⟩ := Option.map_eq_some_iff.mp h
      rw [Nat.zero_add, List.take_succ_cons, List.map_cons, Scan.run, List.foldlM_cons, hfirst]
      exact scan_inClass hinner depth

/-- A scan behind an opening bracket leaves the class where the bracket is closed. -/
theorem scan_classStart {rest : List Glyph} {length : Nat}
    (h : bracketLength? rest = some length) (depth : Nat) :
    (Scan.classStart depth).run ((rest.take length).map Glyph.toChar)
      = some (.outside depth) := by
  obtain ⟨index, hindex, rfl⟩ := Option.map_eq_some_iff.mp h
  by_cases hcaret : rest.head? = some (.char '^')
  · obtain ⟨rest, rfl⟩ := List.head?_eq_some_iff.mp hcaret
    simp only [hcaret, if_pos, List.drop_succ_cons, List.drop_zero, ← List.drop_drop] at hindex ⊢
    generalize hmember : (if rest.head? = some (.char ']') then 1 else 0) = member at hindex ⊢
    rw [show 1 + member + index + 1 = member + index + 1 + 1 by omega, List.take_succ_cons,
      List.map_cons, Scan.run, List.foldlM_cons]
    have hstep : ∀ glyph, rest.head? = some glyph →
        (Scan.classCaret depth).step glyph.toChar = some (.inClass depth) := fun _ _ => rfl
    exact scan_member hmember.symm hstep hindex
  · simp only [if_neg hcaret, List.drop_zero, Nat.zero_add] at hindex ⊢
    refine scan_member rfl (fun glyph hglyph => ?_) hindex
    rw [Scan.step, if_neg (Glyph.toChar_ne (by decide) fun hchar => hcaret (hchar ▸ hglyph))]

/-- Scanning the pieces of a segment. A scan that stands in a class stays there for the glyphs that
belong to the class. -/
theorem scan_segmentPieces {scan : Scan} {inside depth : Nat} {afterBracket : Bool}
    {gs : List Glyph}
    (h : scan.run ((gs.take inside).map Glyph.toChar) = some (.outside depth)) :
    scan.run ((segmentPieces inside afterBracket gs).flatMap Piece.text)
      = (nest depth ((segmentPieces inside afterBracket gs).filterMap Piece.mark?)).map
          .outside := by
  fun_induction segmentPieces inside afterBracket gs generalizing scan depth with
  | case1 =>
    rw [List.take_nil] at h
    exact h
  | case2 afterBracket inside glyph rest ih =>
    rw [List.take_succ_cons, List.map_cons, Scan.run, List.foldlM_cons] at h
    obtain ⟨next, hnext, hrest⟩ := Option.bind_eq_some_iff.mp h
    show (scan.step glyph.toChar).bind (·.run _) = _
    rw [hnext]
    exact ih hrest
  | case3 afterBracket rest length hlength ih =>
    -- The scan enters a class, and the glyphs that belong to it lead out again.
    obtain rfl : scan = .outside depth := Option.some.inj h
    exact ih (scan_classStart hlength depth)
  | case4 afterBracket rest _ ih =>
    obtain rfl : scan = .outside depth := Option.some.inj h
    exact (isScanned_literal '[').append (fun _ => ih rfl) depth
  | case5 afterBracket rest ih =>
    obtain rfl : scan = .outside depth := Option.some.inj h
    have hstar : IsScanned [if afterBracket = true then .segmentRest else .segmentPart] := by
      cases afterBracket <;> exact fun _ => rfl
    exact hstar.append (fun _ => ih rfl) depth
  | case6 afterBracket rest ih =>
    obtain rfl : scan = .outside depth := Option.some.inj h
    exact ih rfl
  | case7 afterBracket rest c _ _ _ ih =>
    obtain rfl : scan = .outside depth := Option.some.inj h
    exact (isScanned_literal c).append (fun _ => ih rfl) depth
  | case8 afterBracket rest glyph _ _ _ hglyph ih =>
    obtain rfl : scan = .outside depth := Option.some.inj h
    exact (isScanned_mark hglyph).append (fun _ => ih rfl) depth

/-! ## Pieces of a glob -/

theorem isScanned_segmentPieces (gs : List Glyph) : IsScanned (segmentPieces 0 false gs) :=
  fun _ => scan_segmentPieces rfl

theorem isScanned_innerPieces (gs : List Glyph) : IsScanned (innerPieces gs) := by
  have hdeep : IsScanned [.anyDepth] := fun _ => rfl
  have hall : ∀ segments : List (List Glyph),
      IsScanned ([Piece.anyDepth].intercalate (segments.map (segmentPieces 0 false))) := by
    intro segments
    induction segments with
    | nil => exact isScanned_nil
    | cons first others ih =>
      cases others with
      | nil =>
        rw [List.map_singleton, List.intercalate_singleton]
        exact isScanned_segmentPieces first
      | cons second others =>
        rw [List.map_cons, List.map_cons, List.intercalate_cons_cons]
        exact ((isScanned_segmentPieces first).append hdeep).append ih
  exact hall (splitDeep gs)

/-- Scanning the pattern of a glob counts the marks outside its bracket classes. -/
theorem isScanned_pieces (gs : List Glyph) : IsScanned (pieces gs) := by
  have hsubtree : IsScanned [.subtree] := fun _ => rfl
  rw [pieces]
  split
  · exact fun _ => rfl
  · exact (isScanned_innerPieces _).append hsubtree
  · exact isScanned_innerPieces gs

/-! ## Classes without marks -/

/-- Where no class swallows a mark, the pieces of a segment have its marks. -/
theorem nest_segmentPieces {inside : Nat} {afterBracket : Bool} {gs : List Glyph}
    (h : ∀ piece ∈ segmentPieces inside afterBracket gs, piece.isSwallowed = false) (depth : Nat) :
    nest depth ((segmentPieces inside afterBracket gs).filterMap Piece.mark?) = nest depth gs := by
  fun_induction segmentPieces inside afterBracket gs generalizing depth with
  | case1 => rfl
  | case2 afterBracket inside glyph rest ih =>
    obtain ⟨hglyph, hrest⟩ := List.forall_mem_cons.mp h
    cases glyph with
    | char c => exact ih hrest depth
    | groupOpen | alternative | groupClose => cases hglyph
  | case3 afterBracket rest _ _ ih | case4 afterBracket rest _ ih | case6 afterBracket rest ih
  | case7 afterBracket rest _ _ _ _ ih =>
    exact ih (List.forall_mem_cons.mp h).2 depth
  | case5 afterBracket rest ih =>
    cases afterBracket <;> exact ih (List.forall_mem_cons.mp h).2 depth
  | case8 afterBracket rest glyph _ _ _ _ ih =>
    -- A mark outside classes, the only glyph that counts on both sides.
    have hrest := ih (List.forall_mem_cons.mp h).2
    show nest depth (glyph :: (segmentPieces 0 false rest).filterMap Piece.mark?) = _
    simp only [nest_cons, hrest]

/-- No mark is between the segments of a glob. -/
theorem nest_flatten_splitDeep (depth : Nat) (gs : List Glyph) :
    nest depth (splitDeep gs).flatten = nest depth gs := by
  fun_induction splitDeep gs generalizing depth with
  | case1 rest ih => exact ih depth
  | case2 => rfl
  | case3 glyph rest _ hsplit => exact absurd hsplit (splitDeep_ne_nil rest)
  | case4 glyph rest _ first others hsplit ih =>
    rw [hsplit, List.flatten_cons] at ih
    rw [List.flatten_cons, List.cons_append, nest_cons, nest_cons]
    simp only [ih]

theorem nest_innerPieces {gs : List Glyph}
    (h : ∀ piece ∈ innerPieces gs, piece.isSwallowed = false) (depth : Nat) :
    nest depth ((innerPieces gs).filterMap Piece.mark?) = nest depth gs := by
  -- Between two segments stands a piece without a mark.
  have hall : ∀ segments : List (List Glyph),
      (∀ piece ∈ [Piece.anyDepth].intercalate (segments.map (segmentPieces 0 false)),
        piece.isSwallowed = false) →
      ∀ depth, nest depth (([Piece.anyDepth].intercalate
          (segments.map (segmentPieces 0 false))).filterMap Piece.mark?)
        = nest depth segments.flatten := by
    intro segments hsegments
    induction segments with
    | nil => exact fun _ => rfl
    | cons first others ih =>
      cases others with
      | nil =>
        rw [List.map_singleton, List.intercalate_singleton] at hsegments ⊢
        rw [List.flatten_singleton]
        exact nest_segmentPieces hsegments
      | cons second others =>
        rw [List.map_cons, List.map_cons, List.intercalate_cons_cons, List.forall_mem_append,
          List.forall_mem_append] at hsegments
        obtain ⟨⟨hfirst, -⟩, hothers⟩ := hsegments
        intro depth
        rw [List.map_cons, List.map_cons, List.intercalate_cons_cons, List.flatten_cons,
          List.filterMap_append, List.filterMap_append, List.append_assoc, nest_append,
          nest_append, nest_segmentPieces hfirst]
        exact congrArg _ (funext (ih hothers))
  rw [innerPieces, hall _ h, nest_flatten_splitDeep]

theorem exists_eq_of_beforeSubtree? {gs before : List Glyph} (h : beforeSubtree? gs = some before) :
    ∃ stars, gs = before ++ subtreeTail stars := by
  rw [beforeSubtree?] at h
  split at h
  · next hstrip =>
    cases h
    exact ⟨2, Text.stripTail?_eq_some_iff.mp hstrip⟩
  split at h
  · cases h
  · exact ⟨1, Text.stripTail?_eq_some_iff.mp h⟩

theorem nest_subtreeTail (depth stars : Nat) : nest depth (subtreeTail stars) = some depth := by
  rw [subtreeTail, nest_cons]
  show nest depth (List.replicate stars (.char '*')) = some depth
  induction stars with
  | zero => rfl
  | succ stars ih => exact ih

/-- Where no class swallows a mark, the pattern of a glob has the marks of the glob. -/
theorem nest_pieces {gs : List Glyph} (h : ∀ piece ∈ pieces gs, piece.isSwallowed = false)
    (depth : Nat) : nest depth ((pieces gs).filterMap Piece.mark?) = nest depth gs := by
  rw [pieces] at h ⊢
  split at h
  case h_1 hbefore =>
    obtain ⟨stars, hgs⟩ := exists_eq_of_beforeSubtree? hbefore
    rw [hgs, List.nil_append, nest_subtreeTail]
    rfl
  case h_2 before _ hbefore =>
    obtain ⟨stars, hgs⟩ := exists_eq_of_beforeSubtree? hbefore
    have hinner := nest_innerPieces (List.forall_mem_append.mp h).1 depth
    rw [List.filterMap_append, nest_append, hinner, hgs, nest_append]
    simp only [nest_subtreeTail]
    rfl
  case h_3 => exact nest_innerPieces h depth

/-! ## Patterns -/

/-- The pattern of a glob is well-formed if the marks outside its bracket classes nest. -/
theorem isWellFormed_pattern_iff (path : String) :
    IsWellFormed (pattern path) ↔
      nest 0 ((pieces (glyphs path.toList)).filterMap Piece.mark?) = some 0 := by
  rw [IsWellFormed, pattern, String.toList_ofList, isScanned_pieces, Option.map_eq_some_iff]
  simp

end TypeEnforcement.Glob

namespace TypeEnforcement.Rule

open Glob (IsWellFormed nest pieces glyphs pattern Piece)

/-- The pattern of an accepted path starts at the root, and its groups are complete exactly if the
marks that no bracket class swallows nest. They do if no class swallows any. -/
theorem isWellFormed_pattern (rule : Rule) (hpath : Text.startsWith rule.object "/" = true)
    (hcheck : rule.check true = .ok ()) :
    Text.startsWith (pattern rule.object) "/" = true
      ∧ (IsWellFormed (pattern rule.object) ↔
        nest 0 ((pieces (glyphs rule.object.toList)).filterMap Piece.mark?) = some 0)
      ∧ ((∀ piece ∈ pieces (glyphs rule.object.toList), piece.isSwallowed = false) →
        IsWellFormed (pattern rule.object)) := by
  refine ⟨Glob.startsWith_pattern hpath, Glob.isWellFormed_pattern_iff _, fun hswallowed => ?_⟩
  rw [Glob.isWellFormed_pattern_iff, Glob.nest_pieces hswallowed]
  exact Glob.nest_glyphsWithin (by rw [Glob.closes]) (not_isMark_of_check hcheck)

/-- A class inside a group swallows no mark of it. -/
theorem isWellFormed_pattern_classInGroup :
    pattern "/srv/{a,b[0-9]}/*" = "/srv/(a|b[0-9])(/.*)?"
      ∧ IsWellFormed (pattern "/srv/{a,b[0-9]}/*") := by
  let rule := ofPolicyFields "web_t" "/srv/{a,b[0-9]}/*" "read" "file" "allow" "" none
  have hcheck : rule.check true = .ok () := by decide
  exact ⟨by decide, (isWellFormed_pattern rule (by decide) hcheck).2.2 (by decide)⟩

/-- A class that straddles the start of a group swallows its first mark, and the last one closes
nothing. -/
theorem not_isWellFormed_pattern_straddled :
    ∃ rule : Rule, rule.check true = .ok () ∧ rule.object = "/[\x7b]\x7d"
      ∧ pattern rule.object = "/[(])" ∧ ¬IsWellFormed (pattern rule.object) :=
  ⟨ofPolicyFields "web_t" "/[\x7b]\x7d" "read" "file" "allow" "" none, by decide⟩

end TypeEnforcement.Rule
