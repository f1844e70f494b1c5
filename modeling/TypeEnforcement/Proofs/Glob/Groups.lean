import TypeEnforcement.Glob
import TypeEnforcement.Proofs.Glob.Language
/-!
# The glyphs of a glob are the glyphs of its parts

`glyphs` finds the brace groups of a glob by counting braces in one pass; `parts` reads a glob into
a tree. The glyphs of the tree, written from left to right, are the glyphs of the glob, if none of
the characters that stand for marks is in it.

## Main result

* `glyphs_eq_flat`: the glyphs of a glob are those of its parts.
-/

namespace TypeEnforcement.Glob

/-! ## Glyphs of parts -/

mutual

/-- The glyphs of parts. -/
def flat : List Part → List Glyph
  | [] => []
  | .char c :: rest => .char c :: flat rest
  | .group first others :: rest =>
    .groupOpen :: (flat first ++ flatMore others ++ .groupClose :: flat rest)

/-- The glyphs of the alternatives of a group after the first. -/
def flatMore : List (List Part) → List Glyph
  | [] => []
  | alternative :: others => .alternative :: (flat alternative ++ flatMore others)

end

/-- The characters that stand for marks in a path. -/
def IsMark (c : Char) : Prop :=
  c = '\ue000' ∨ c = '\ue001' ∨ c = '\ue002'

theorem Glyph.ofChar_eq {c : Char} (h : ¬IsMark c) : Glyph.ofChar c = .char c := by
  simp only [IsMark, not_or] at h
  obtain ⟨hopen, halternative, hclose⟩ := h
  rw [Glyph.ofChar, if_neg hopen, if_neg halternative, if_neg hclose]

theorem Glyph.eq_of_ofChar_eq {c d : Char} (h : ofChar c = .char d) : c = d := by
  by_cases hmark : IsMark c
  · rcases hmark with rfl | rfl | rfl <;> simp [ofChar] at h
  · rw [ofChar_eq hmark] at h
    exact Glyph.char.inj h

/-! ## Glyphs of groups -/

/-- The glyphs of a group behind its opening mark, and of what follows it, where some groups around
the first alternative are open. -/
def Group.glyphs (depth : Nat) (group : Group) : List Glyph :=
  glyphsWithin depth group.first
    ++ group.others.flatMap (fun other => .alternative :: Glob.glyphs other)
    ++ .groupClose :: Glob.glyphs group.after

theorem closes_succ (depth : Nat) (cs : List Char) :
    closes (depth + 1) cs = (group? depth cs).isSome := by
  fun_induction group? depth cs with
  | case1 => rfl
  | case2 cs ih | case6 depth cs ih | case7 depth cs _ ih => simp [closes, ih]
  | case3 cs => simp [closes]
  | case4 cs _ _ ih => simp [closes, ih]
  | case5 c cs hopen hclose _ ih | case8 depth c cs hopen hclose ih =>
    simp [closes, hopen, hclose, ih]

/-- One pass over a closed group finds its alternatives. While groups inside it are open, only the
first alternative is read with them. -/
theorem glyphsWithin_of_group? {depth : Nat} {cs : List Char} {group : Group}
    (h : group? depth cs = some group) :
    closes depth group.first = true ∧ glyphsWithin (depth + 1) cs = group.glyphs depth := by
  fun_induction group? depth cs generalizing group with
  | case1 => cases h
  | case2 cs ih | case6 depth cs ih | case7 depth cs _ ih =>
    -- a brace of a group inside this one
    obtain ⟨inner, hinner, rfl⟩ := Option.map_eq_some_iff.mp h
    obtain ⟨hcloses, hglyphs⟩ := ih hinner
    simp [closes, glyphsWithin, hglyphs, Group.glyphs, Group.consChar, hcloses]
  | case3 cs =>
    cases h
    simp [closes, glyphsWithin, Group.glyphs, glyphs]
  | case4 cs _ _ ih =>
    obtain ⟨inner, hinner, rfl⟩ := Option.map_eq_some_iff.mp h
    obtain ⟨hcloses, hglyphs⟩ := ih hinner
    simp [closes, glyphsWithin, hglyphs, Group.glyphs, Group.consEmpty, glyphs]
  | case5 c cs hopen hclose hcomma ih =>
    obtain ⟨inner, hinner, rfl⟩ := Option.map_eq_some_iff.mp h
    obtain ⟨hcloses, hglyphs⟩ := ih hinner
    simp [closes, glyphsWithin, hglyphs, Group.glyphs, Group.consChar, hopen, hclose, hcomma]
  | case8 depth c cs hopen hclose ih =>
    obtain ⟨inner, hinner, rfl⟩ := Option.map_eq_some_iff.mp h
    obtain ⟨hcloses, hglyphs⟩ := ih hinner
    by_cases hcomma : c = ','
    · simp [closes, glyphsWithin, hglyphs, Group.glyphs, Group.consChar, hcomma, hcloses]
    · simp [closes, glyphsWithin, hglyphs, Group.glyphs, Group.consChar, hopen, hclose, hcomma,
        hcloses]

/-! ## Glyphs of a glob -/

theorem glyphs_char {c : Char} {cs : List Char} (h : c = '{' → group? 0 cs = none)
    (hmark : ¬IsMark c) : glyphs (c :: cs) = .char c :: glyphs cs := by
  rw [glyphs, glyphsWithin, if_neg, Glyph.ofChar_eq hmark, glyphs]
  intro hboth
  obtain ⟨hc, hcloses⟩ := hboth
  rw [closes_succ, h hc] at hcloses
  cases hcloses

theorem glyphs_group {cs : List Char} {group : Group} (h : group? 0 cs = some group) :
    glyphs ('{' :: cs) = .groupOpen :: group.glyphs 0 := by
  have hcloses : closes 1 cs = true := by
    rw [closes_succ, h, Option.isSome_some]
  rw [glyphs, glyphsWithin, if_pos ⟨rfl, hcloses⟩, (glyphsWithin_of_group? h).2]

theorem flatMore_map_parts {others : List (List Char)}
    (h : ∀ other ∈ others, glyphs other = flat (parts other)) :
    flatMore (others.map parts) = others.flatMap fun other => .alternative :: glyphs other := by
  induction others with
  | nil => simp [flatMore]
  | cons other others ih =>
    rw [List.forall_mem_cons] at h
    rw [List.map_cons, flatMore, List.flatMap_cons, ih h.2, h.1, List.cons_append]

/-- The glyphs of a glob without characters that stand for marks are those of its parts. -/
theorem glyphs_eq_flat {path : List Char} (h : ∀ c ∈ path, ¬IsMark c) :
    glyphs path = flat (parts path) := by
  induction path using parts_induction with
  | nil => simp [glyphs, glyphsWithin, parts_nil, flat]
  | char c cs hplain ih =>
    rw [List.forall_mem_cons] at h
    rw [glyphs_char hplain h.1, parts_char hplain, flat, ih h.2]
  | group cs group hgroup ih =>
    have htexts : ∀ text ∈ group.texts, glyphs text = flat (parts text) := by
      intro text htext
      have hsublist := group?_sublist hgroup text htext
      exact ih text htext fun c hc => h c (List.mem_cons_of_mem _ (hsublist.subset hc))
    simp only [Group.texts, List.forall_mem_cons] at htexts
    obtain ⟨hafter, hfirst, hothers⟩ := htexts
    rw [glyphs_group hgroup, parts_group hgroup, flat, flatMore_map_parts hothers, ← hfirst,
      ← hafter]
    rfl

theorem mem_of_char_mem_glyphsWithin {depth : Nat} {path : List Char} {c : Char}
    (h : .char c ∈ glyphsWithin depth path) : c ∈ path := by
  fun_induction glyphsWithin depth path with
  | case1 => cases h
  | case2 d cs _ ih | case4 depth cs ih | case5 depth cs _ ih | case6 depth cs _ _ ih =>
    rcases List.mem_cons.mp h with hglyph | hrest
    · cases hglyph
    · exact List.mem_cons_of_mem _ (ih hrest)
  | case3 d cs _ ih | case7 depth d cs _ _ _ ih =>
    rcases List.mem_cons.mp h with hglyph | hrest
    · rw [Glyph.eq_of_ofChar_eq hglyph.symm]
      exact List.mem_cons_self
    · exact List.mem_cons_of_mem _ (ih hrest)

end TypeEnforcement.Glob
