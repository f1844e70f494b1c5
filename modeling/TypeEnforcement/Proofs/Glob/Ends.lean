import TypeEnforcement.Proofs.Glob.Groups
import TypeEnforcement.Text.Lemmas
/-!
# The ends of a glob

`beforeSubtree?` looks for `/**` and `/*` among the glyphs of a glob, `stem?` among its characters.
They agree: a tail without braces does not change how the groups before it are read, and separators
and stars stand for themselves among the glyphs, so both show the same occurrences.

## Main result

* `beforeSubtree?_glyphs`: the glyphs end in a subtree when the glob does.
-/

namespace TypeEnforcement.Glob

/-! ## Tails without braces -/

theorem closes_eq_false {tail : List Char} (h : '}' ∉ tail) (depth : Nat) :
    closes (depth + 1) tail = false := by
  induction tail generalizing depth with
  | nil => rfl
  | cons c tail ih =>
    rw [List.mem_cons, not_or] at h
    rw [closes, if_neg (Ne.symm h.1)]
    split <;> exact ih h.2 _

theorem closes_append {tail : List Char} (h : '}' ∉ tail) (depth : Nat) (path : List Char) :
    closes depth (path ++ tail) = closes depth path := by
  induction path generalizing depth with
  | nil =>
    cases depth with
    | zero => rw [closes, closes]
    | succ depth => exact closes_eq_false h depth
  | cons c path ih =>
    cases depth with
    | zero => rw [closes, closes]
    | succ depth =>
      rw [List.cons_append, closes, closes]
      exact ih _

/-- A tail without a closing brace does not change how the groups before it are read. -/
theorem glyphsWithin_append {tail : List Char} (h : '}' ∉ tail) {depth : Nat} {path : List Char}
    (hcloses : closes depth path = true) :
    glyphsWithin depth (path ++ tail) = glyphsWithin depth path ++ glyphs tail := by
  fun_induction glyphsWithin depth path with
  | case1 depth =>
    cases depth with
    | zero => rfl
    | succ depth => cases hcloses
  | case2 c cs hopen ih =>
    rw [List.cons_append, glyphsWithin, closes_append h, if_pos hopen, ih hopen.2]
    rfl
  | case3 c cs hopen ih =>
    rw [List.cons_append, glyphsWithin, closes_append h, if_neg hopen, ih (by rw [closes])]
    rfl
  | case4 depth cs ih =>
    rw [List.cons_append, glyphsWithin, if_pos rfl, ih (by simpa [closes] using hcloses)]
    rfl
  | case5 depth cs hopen ih =>
    rw [List.cons_append, glyphsWithin, if_neg hopen, if_pos rfl,
      ih (by simpa [closes] using hcloses)]
    rfl
  | case6 depth cs hopen hclose ih =>
    rw [List.cons_append, glyphsWithin, if_neg hopen, if_neg hclose, if_pos rfl,
      ih (by simpa [closes] using hcloses)]
    rfl
  | case7 depth c cs hopen hclose hcomma ih =>
    rw [List.cons_append, glyphsWithin, if_neg hopen, if_neg hclose, if_neg hcomma,
      ih (by simpa [closes, hopen, hclose] using hcloses)]
    rfl

theorem glyphs_append {tail : List Char} (h : '}' ∉ tail) (path : List Char) :
    glyphs (path ++ tail) = glyphs path ++ glyphs tail :=
  glyphsWithin_append h (by rw [closes])

/-! ## Occurrences of separators and stars -/

/-- The separator and the star, which stand for themselves among the glyphs. -/
def wild? (c : Char) : Option Char :=
  if c = '/' ∨ c = '*' then some c else none

/-- The separator or star that a glyph is. -/
def Glyph.wild? : Glyph → Option Char
  | .char c => Glob.wild? c
  | _ => none

theorem wild?_eq_some_iff {c d : Char} : wild? c = some d ↔ c = d ∧ (d = '/' ∨ d = '*') := by
  rw [wild?]
  split <;> grind

theorem Glyph.wild?_eq_some {glyph : Glyph} {c : Char} (h : glyph.wild? = some c) :
    glyph = .char c := by
  cases glyph with
  | char d => rw [(Glob.wild?_eq_some_iff.mp h).1]
  | groupOpen | alternative | groupClose => cases h

theorem Glyph.wild?_ofChar (c : Char) : (ofChar c).wild? = Glob.wild? c := by
  rw [ofChar]
  split
  · subst c
    decide
  split
  · subst c
    decide
  split
  · subst c
    decide
  · rfl

theorem map_wild?_glyphsWithin (depth : Nat) (path : List Char) :
    (glyphsWithin depth path).map Glyph.wild? = path.map wild? := by
  fun_induction glyphsWithin depth path with
  | case1 => rfl
  | case2 c cs hopen ih =>
    obtain ⟨rfl, -⟩ := hopen
    rw [List.map_cons, List.map_cons, ih]
    rfl
  | case3 c cs _ ih | case7 depth c cs _ _ _ ih =>
    rw [List.map_cons, List.map_cons, ih, Glyph.wild?_ofChar]
  | case4 depth cs ih | case5 depth cs _ ih | case6 depth cs _ _ ih =>
    rw [List.map_cons, List.map_cons, ih]
    rfl

theorem length_glyphs (path : List Char) : (glyphs path).length = path.length := by
  have hlength := congrArg List.length (map_wild?_glyphsWithin 0 path)
  rw [List.length_map, List.length_map] at hlength
  exact hlength

section Occurrences

variable {α β : Type} {f : α → Option Char} {g : β → Option Char} {embed : Char → β}

theorem eq_map_of_map_eq (hembed : ∀ y c, g y = some c → y = embed c) {ys : List β}
    {text : List Char} (h : ys.map g = text.map some) : ys = text.map embed := by
  induction ys generalizing text with
  | nil =>
    rw [List.map_nil, List.nil_eq, List.map_eq_nil_iff] at h
    rw [h, List.map_nil]
  | cons y ys ih =>
    obtain ⟨c, cs, rfl, hc, hcs⟩ := List.map_eq_cons_iff.mp h.symm
    rw [List.map_cons, hembed y c hc.symm, ih hcs.symm]

/-- Lists with the same image have the same occurrences of a text that the images show. -/
theorem exists_append_of_map_eq (hembed : ∀ y c, g y = some c → y = embed c)
    {before part after : List α} {ys : List β} (h : (before ++ part ++ after).map f = ys.map g)
    {text : List Char} (hpart : part.map f = text.map some) :
    ∃ before' after', ys = before' ++ text.map embed ++ after'
      ∧ after'.length = after.length := by
  rw [List.map_append, List.map_append] at h
  obtain ⟨front, after', rfl, hfront, hafter⟩ := List.map_eq_append_iff.mp h.symm
  obtain ⟨before', part', rfl, -, hpart'⟩ := List.map_eq_append_iff.mp hfront
  refine ⟨before', after', ?_, ?_⟩
  · rw [eq_map_of_map_eq hembed (hpart'.trans hpart)]
  · rw [← List.length_map g, hafter, List.length_map]

end Occurrences

/-- The texts of separators and stars. -/
def IsWild (text : List Char) : Prop :=
  ∀ c ∈ text, c = '/' ∨ c = '*'

variable {path text : List Char}

theorem IsWild.map_wild? (h : IsWild text) : text.map wild? = text.map some :=
  List.map_congr_left fun c hc => if_pos (h c hc)

theorem IsWild.map_wild?_char (h : IsWild text) :
    (text.map Glyph.char).map Glyph.wild? = text.map some := by
  rw [List.map_map]
  exact h.map_wild?

/-- An occurrence of separators and stars among the glyphs of a glob is one in the glob. -/
theorem exists_append_of_glyphs (h : IsWild text) {before after : List Glyph}
    (hglyphs : glyphs path = before ++ text.map .char ++ after) :
    ∃ before' after', path = before' ++ text ++ after' ∧ after'.length = after.length := by
  have hmap : (before ++ text.map Glyph.char ++ after).map Glyph.wild? = path.map wild? := by
    rw [← hglyphs]
    exact map_wild?_glyphsWithin 0 path
  have hembed : ∀ y c, wild? y = some c → y = id c := fun y c hy => (wild?_eq_some_iff.mp hy).1
  obtain ⟨before', after', hpath, hlength⟩ :=
    exists_append_of_map_eq hembed hmap h.map_wild?_char
  rw [List.map_id] at hpath
  exact ⟨before', after', hpath, hlength⟩

theorem infix_glyphs_iff (h : IsWild text) : text.map .char <:+: glyphs path ↔ text <:+: path := by
  constructor
  · intro hexists
    obtain ⟨before, after, hglyphs⟩ := hexists
    obtain ⟨before', after', hpath, -⟩ := exists_append_of_glyphs h hglyphs.symm
    exact ⟨before', after', hpath.symm⟩
  · intro hexists
    obtain ⟨before, after, rfl⟩ := hexists
    have hmap := (map_wild?_glyphsWithin 0 (before ++ text ++ after)).symm
    obtain ⟨before', after', hglyphs, -⟩ :=
      exists_append_of_map_eq (fun _ _ => Glyph.wild?_eq_some) hmap h.map_wild?
    exact ⟨before', after', hglyphs.symm⟩

theorem suffix_of_suffix_glyphs (h : IsWild text) (hsuffix : text.map .char <:+ glyphs path) :
    text <:+ path := by
  obtain ⟨before, hglyphs⟩ := hsuffix
  obtain ⟨before', after', hpath, hlength⟩ :=
    exists_append_of_glyphs h (hglyphs.symm.trans (List.append_nil _).symm)
  rw [List.length_nil, List.length_eq_zero_iff] at hlength
  rw [hlength, List.append_nil] at hpath
  exact ⟨before', hpath.symm⟩

/-! ## Subtrees -/

theorem IsWild.glyphs_eq (h : IsWild text) : glyphs text = text.map .char := by
  induction text with
  | nil => rfl
  | cons c cs ih =>
    obtain ⟨hc, hcs⟩ := List.forall_mem_cons.mp h
    have hopen : c ≠ '{' := by rcases hc with rfl | rfl <;> decide
    have hmark : ¬IsMark c := by rcases hc with rfl | rfl <;> simp [IsMark]
    rw [glyphs_char (fun hc => absurd hc hopen) hmark, List.map_cons, ih hcs]

/-- The tail of a glob is cut off its glyphs if it is cut off the glob. -/
theorem stripTail?_glyphs (h : IsWild text) (path : List Char) :
    Text.stripTail? (text.map .char) (glyphs path)
      = if text <:+ path then some (glyphs (path.take (path.length - text.length))) else none := by
  split
  · next hsuffix =>
    obtain ⟨before, rfl⟩ := hsuffix
    have hbrace : '}' ∉ text := fun hmem => by
      rcases h _ hmem with hc | hc <;> cases hc
    have hbefore : (before ++ text).take ((before ++ text).length - text.length) = before := by
      rw [List.length_append, Nat.add_sub_cancel, List.take_left]
    rw [hbefore, Text.stripTail?_eq_some_iff, glyphs_append hbrace, h.glyphs_eq]
  · next hsuffix =>
    rw [Option.eq_none_iff_forall_ne_some]
    intro before hbefore
    have hglyphs := Text.stripTail?_eq_some_iff.mp hbefore
    exact hsuffix (suffix_of_suffix_glyphs h ⟨before, hglyphs.symm⟩)

theorem isWild_subtree : IsWild "/**".toList ∧ IsWild "/*".toList := by
  simp [IsWild]

theorem occursIn_glyphs (h : IsWild text) (path : List Char) :
    Text.occursIn (text.map .char) (glyphs path) = true ↔ text <:+: path := by
  rw [← infix_glyphs_iff h, Text.occursIn_iff]
  exact exists_congr fun _ => exists_congr fun _ => eq_comm

/-- The glyphs of a glob end in a subtree when the glob does. -/
theorem beforeSubtree?_glyphs (path : List Char) :
    beforeSubtree? (glyphs path) = (stem? path).map glyphs := by
  obtain ⟨hdeep, hflat⟩ := isWild_subtree
  have htwo : subtreeTail 2 = "/**".toList.map .char := rfl
  have hone : subtreeTail 1 = "/*".toList.map .char := rfl
  rw [beforeSubtree?, stem?, htwo, hone, stripTail?_glyphs hdeep, stripTail?_glyphs hflat]
  by_cases hsuffix : "/**".toList <:+ path
  · simp only [if_pos hsuffix]
    rfl
  by_cases hinfix : "/**".toList <:+: path
  · simp only [if_neg hsuffix, if_pos hinfix, (occursIn_glyphs hdeep path).mpr hinfix]
    rfl
  · simp only [if_neg hsuffix, if_neg hinfix, mt (occursIn_glyphs hdeep path).mp hinfix]
    by_cases hend : "/*".toList <:+ path
    · simp only [if_pos hend]
      rfl
    · simp only [if_neg hend]
      rfl

end TypeEnforcement.Glob
