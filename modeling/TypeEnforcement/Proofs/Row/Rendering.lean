import TypeEnforcement.Proofs.Row.Splitting
/-!
# Rows read back from their lines

Which rows can be read at all is said by the row alone (`Row.IsReadable`): its parts are trimmed,
each is one piece of a line, and the line it is written as is neither blank nor a comment. Every
such row is read back from its own line, so writing and reading undo each other on the rows that
reading answers.

## Main results

* `Row.ofLine?_eq_some_iff`: the row of a line, by the trimmed pieces of the line.
* `Row.exists_ofLine?_iff`: the rows of lines are the readable ones, which are those of their own
  lines.
-/

namespace TypeEnforcement.Row

open Text (allBlank isBlank trimChars trimChars_eq_nil_iff trimChars_trimChars)

variable {row other : Row} {line : String}

/-- The tag and the fields of a row, as lists of characters. -/
def parts (row : Row) : List (List Char) :=
  (row.tag :: row.fields).map String.toList

/-- Whether a row can be the row of a line. -/
structure IsReadable (row : Row) : Prop where
  line_eq_none : row.line = none
  trimChars_eq : ∀ part ∈ row.parts, trimChars part = part
  /-- No comma of a part would separate two fields. -/
  isWhole : ∀ part ∈ row.parts, IsWhole 0 part
  /-- The comma behind a part separates it from the next. -/
  closes : ∀ part ∈ row.parts.dropLast, depthThrough 0 part = 0
  notComment : Text.startsWith row.tag "#" = false
  notBlank : allBlank row.render = false

/-! ## The row of a line -/

theorem eq_of_parts_eq (hparts : row.parts = other.parts) (hline : row.line = other.line) :
    row = other := by
  obtain ⟨tag, fields, number⟩ := row
  obtain ⟨tag', fields', number'⟩ := other
  have hall := (List.map_inj_right fun _ _ => String.toList_inj.mp).mp hparts
  obtain ⟨rfl, rfl⟩ := List.cons_eq_cons.mp hall
  exact congrArg (Row.mk tag fields) hline

theorem parts_ofFields (first : List Char) (others : List (List Char)) :
    (ofFields (String.ofList first) (others.map String.ofList)).parts
      = (first :: others).map trimChars := by
  simp [parts, ofFields, Text.trim, Function.comp_def]

theorem startsWith_tag_iff :
    Text.startsWith row.tag "#" = true ↔ row.tag.toList.head? = some '#' := by
  rw [Text.startsWith_iff, List.head?_eq_some_iff]
  rfl

theorem allBlank_iff : allBlank line = true ↔ pieces line.toList = [[]] :=
  pieces_eq_singleton_nil_iff.symm

theorem ofLine?_of_splitFields_eq {c : Char} {rest first : List Char} {others : List (List Char)}
    (htrimmed : trimChars line.toList = c :: rest) (hmark : c ≠ '#')
    (hsplit : splitFields 0 (c :: rest) = first :: others) :
    ofLine? line = some (ofFields (String.ofList first) (others.map String.ofList)) := by
  simp [ofLine?, htrimmed, hmark, hsplit]

/-- The row of a line is that of its trimmed pieces, unless there is only a blank one or the first
starts with the mark of a comment. -/
theorem ofLine?_eq_some_iff :
    ofLine? line = some row ↔
      row.line = none ∧ row.parts = pieces line.toList ∧ row.parts ≠ [[]]
        ∧ Text.startsWith row.tag "#" = false := by
  have hblank : trimChars line.toList = [] ↔ pieces line.toList = [[]] :=
    trimChars_eq_nil_iff.trans pieces_eq_singleton_nil_iff.symm
  have hcomment (hparts : row.parts = pieces line.toList) :
      (trimChars line.toList).head? = some '#' ↔ Text.startsWith row.tag "#" = true := by
    rw [startsWith_tag_iff, head?_trimChars_iff (by decide) hparts.symm]
  cases htrimmed : trimChars line.toList with
  | nil =>
    rw [ofLine?, htrimmed]
    refine iff_of_false (Option.some_ne_none row).symm fun hrow => ?_
    exact hrow.2.2.1 (hrow.2.1.trans (hblank.mp htrimmed))
  | cons c rest =>
    by_cases hmark : c = '#'
    · subst hmark
      rw [ofLine?, htrimmed]
      refine iff_of_false (Option.some_ne_none row).symm fun hrow => ?_
      have htag := (hcomment hrow.2.1).mp (by rw [htrimmed, List.head?_cons])
      exact Bool.false_ne_true (hrow.2.2.2.symm.trans htag)
    · obtain ⟨first, others, hsplit⟩ :=
        List.exists_cons_of_ne_nil (splitFields_ne_nil 0 (c :: rest))
      have hpieces : (ofFields (String.ofList first) (others.map String.ofList)).parts
          = pieces line.toList := by
        rw [parts_ofFields, ← pieces_trimChars, htrimmed, pieces, hsplit]
      rw [ofLine?_of_splitFields_eq htrimmed hmark hsplit, Option.some.injEq]
      constructor
      · rintro rfl
        refine ⟨rfl, hpieces, ?_, ?_⟩
        · rw [hpieces, ne_eq, ← hblank, htrimmed]
          exact List.cons_ne_nil c rest
        · rw [← Bool.not_eq_true, ← hcomment hpieces, htrimmed, List.head?_cons,
            Option.some.injEq]
          exact hmark
      · intro hrow
        exact eq_of_parts_eq (hpieces.trans hrow.2.1.symm) hrow.1.symm

/-! ## The line of a row -/

/-- Trimmed parts that are pieces of a line are the trimmed pieces of the line they make. -/
theorem pieces_intercalate {parts : List (List Char)} (hsome : parts ≠ [])
    (htrim : ∀ part ∈ parts, trimChars part = part) (hwhole : ∀ part ∈ parts, IsWhole 0 part)
    (hcloses : ∀ part ∈ parts.dropLast, depthThrough 0 part = 0) :
    pieces (", ".toList.intercalate parts) = parts := by
  induction parts with
  | nil => exact absurd rfl hsome
  | cons part others ih =>
    rw [List.forall_mem_cons] at htrim hwhole
    cases others with
    | nil =>
      rw [List.intercalate_singleton, pieces, splitFields_of_isWhole hwhole.1, List.map_singleton,
        htrim.1]
    | cons second others =>
      rw [List.dropLast_cons_cons, List.forall_mem_cons] at hcloses
      -- The blank behind the comma goes with the next part, and trimming takes it away.
      have hothers := ih (List.cons_ne_nil _ _) htrim.2 hwhole.2 hcloses.2
      have hblank : [' '].all isBlank = true := by decide
      have hline : ", ".toList.intercalate (part :: second :: others)
          = part ++ ',' :: ([' '] ++ ", ".toList.intercalate (second :: others)) := by
        rw [List.intercalate_cons_cons, List.append_assoc]
        rfl
      rw [← pieces_blank_append hblank, pieces] at hothers
      rw [hline, pieces, splitFields_append hwhole.1 hcloses.1, List.map_cons, htrim.1, hothers]

/-- The pieces of the line of a row are its parts, if they are pieces of a line at all. -/
theorem pieces_render (htrim : ∀ part ∈ row.parts, trimChars part = part)
    (hwhole : ∀ part ∈ row.parts, IsWhole 0 part)
    (hcloses : ∀ part ∈ row.parts.dropLast, depthThrough 0 part = 0) :
    pieces row.render.toList = row.parts := by
  rw [render, String.toList_ofList]
  exact pieces_intercalate (List.cons_ne_nil _ _) htrim hwhole hcloses

/-- A readable row is the row of its own line. -/
theorem IsReadable.ofLine?_render (h : row.IsReadable) : ofLine? row.render = some row := by
  have hpieces := pieces_render h.trimChars_eq h.isWhole h.closes
  refine ofLine?_eq_some_iff.mpr ⟨h.line_eq_none, hpieces.symm, ?_, h.notComment⟩
  rw [← hpieces, ne_eq, ← allBlank_iff, h.notBlank]
  exact Bool.false_ne_true

/-- The row of a line is readable. -/
theorem isReadable_of_ofLine? (h : ofLine? line = some row) : row.IsReadable := by
  obtain ⟨hline, hparts, hsome, hcomment⟩ := ofLine?_eq_some_iff.mp h
  have htrim : ∀ part ∈ row.parts, trimChars part = part := by
    rw [hparts]
    exact List.forall_mem_map.mpr fun piece _ => trimChars_trimChars piece
  have hwhole : ∀ part ∈ row.parts, IsWhole 0 part := by
    rw [hparts]
    exact List.forall_mem_map.mpr fun piece hpiece =>
      isWhole_trimChars.mpr (isWhole_of_mem_splitFields hpiece)
  have hcloses : ∀ part ∈ row.parts.dropLast, depthThrough 0 part = 0 := by
    rw [hparts, pieces, ← List.map_dropLast]
    refine List.forall_mem_map.mpr fun piece hpiece => ?_
    rw [depthThrough_trimChars, depthThrough_of_mem_dropLast hpiece]
  refine ⟨hline, htrim, hwhole, hcloses, hcomment, ?_⟩
  rw [← Bool.not_eq_true, allBlank_iff, pieces_render htrim hwhole hcloses]
  exact hsome

/-- The rows of lines are the readable ones, and those are the rows of their own lines. -/
theorem exists_ofLine?_iff (row : Row) :
    ((∃ line, ofLine? line = some row) ↔ row.IsReadable)
      ∧ (row.IsReadable ↔ ofLine? row.render = some row) := by
  refine ⟨⟨?_, fun h => ⟨row.render, h.ofLine?_render⟩⟩, ⟨?_, isReadable_of_ofLine?⟩⟩
  · intro hexists
    obtain ⟨line, hline⟩ := hexists
    exact isReadable_of_ofLine? hline
  · exact fun h => h.ofLine?_render

/-- Commas of a group stay in their field, and an empty field at the end is kept. -/
example : (ofLine? " p , web_t,/srv/{a,b} ,read,").map render
    = some "p, web_t, /srv/{a,b}, read, " := by decide

end TypeEnforcement.Row
