import TypeEnforcement.Proofs.Text.Trimming
import TypeEnforcement.Row
/-!
# Where a line is split

A line is split at the commas outside all brace groups, and nothing else is lost of it
(`Row.intercalate_splitFields`). A piece is known by what it is not: no comma of it stands outside
its groups (`Row.IsWhole`), and each but the last closes its groups, for a comma is behind it.
Blanks neither open nor close a group, so blanks around a piece do not change where the line is
split.

## Main results

* `Row.splitFields_append`, `Row.splitFields_of_isWhole`: how a line is split.
* `Row.isWhole_of_mem_splitFields`, `Row.depthThrough_of_mem_dropLast`: what the pieces are.
* `Row.pieces_trimChars`: a line has the trimmed pieces of the trimmed line.
-/

namespace TypeEnforcement.Row

open Text (isBlank trimChars trimChars_eq_nil_iff exists_trimChars trimChars_blank_append
  trimChars_append_blank head?_trimChars_cons isBlank_of_trimChars_eq_cons)

variable {depth : Nat} {cs part rest : List Char}

/-! ## Brace groups -/

/-- The depth of brace groups after a text that starts inside a number of them. -/
def depthThrough (depth : Nat) (cs : List Char) : Nat :=
  cs.foldl depthAfter depth

/-- Whether no comma of a text that starts inside a number of brace groups is outside all of
them. -/
def IsWhole (depth : Nat) (cs : List Char) : Prop :=
  ∀ before after, cs = before ++ ',' :: after → depthThrough depth before ≠ 0

theorem depthThrough_append (depth : Nat) (cs rest : List Char) :
    depthThrough depth (cs ++ rest) = depthThrough (depthThrough depth cs) rest :=
  List.foldl_append

theorem isWhole_nil (depth : Nat) : IsWhole depth [] := by
  intro before after h
  cases before <;> cases h

theorem isWhole_cons {c : Char} :
    IsWhole depth (c :: cs) ↔ ¬(c = ',' ∧ depth = 0) ∧ IsWhole (depthAfter depth c) cs := by
  constructor
  · intro h
    refine ⟨fun hcomma => ?_, fun before after hcs => ?_⟩
    · exact h [] cs (by rw [hcomma.1, List.nil_append]) hcomma.2
    · exact h (c :: before) after (by rw [hcs, List.cons_append])
  · intro hboth before after hcs
    cases before with
    | nil =>
      obtain ⟨rfl, rfl⟩ := List.cons_eq_cons.mp hcs
      exact fun hzero => hboth.1 ⟨rfl, hzero⟩
    | cons b before =>
      obtain ⟨rfl, rfl⟩ := List.cons_eq_cons.mp hcs
      exact hboth.2 before after rfl

theorem isWhole_append :
    IsWhole depth (cs ++ rest) ↔ IsWhole depth cs ∧ IsWhole (depthThrough depth cs) rest := by
  induction cs generalizing depth with
  | nil => exact (and_iff_right (isWhole_nil depth)).symm
  | cons c cs ih =>
    rw [List.cons_append, isWhole_cons, isWhole_cons, ih, and_assoc]
    rfl

/-! ## Pieces -/

theorem splitFields_comma (cs : List Char) :
    splitFields 0 (',' :: cs) = [] :: splitFields 0 cs := by
  rw [splitFields, if_pos ⟨rfl, rfl⟩]

theorem splitFields_ne_nil (depth : Nat) (cs : List Char) : splitFields depth cs ≠ [] := by
  cases cs with
  | nil => exact List.cons_ne_nil _ _
  | cons c cs =>
    rw [splitFields]
    split
    · exact List.cons_ne_nil _ _
    · split <;> exact List.cons_ne_nil _ _

/-- A character that is no comma outside all groups goes to the first piece. -/
theorem splitFields_cons {c : Char} (h : ¬(c = ',' ∧ depth = 0)) {first : List Char}
    {others : List (List Char)} (hcs : splitFields (depthAfter depth c) cs = first :: others) :
    splitFields depth (c :: cs) = (c :: first) :: others := by
  rw [splitFields, if_neg h, hcs]

/-- A whole part that closes its groups is the piece before the comma behind it. -/
theorem splitFields_append (hwhole : IsWhole depth part) (hcloses : depthThrough depth part = 0)
    (rest : List Char) : splitFields depth (part ++ ',' :: rest) = part :: splitFields 0 rest := by
  induction part generalizing depth with
  | nil =>
    obtain rfl : depth = 0 := hcloses
    exact splitFields_comma rest
  | cons c part ih =>
    obtain ⟨hplain, hpart⟩ := isWhole_cons.mp hwhole
    exact splitFields_cons hplain (ih hpart hcloses)

/-- A whole part is one piece. -/
theorem splitFields_of_isWhole (hwhole : IsWhole depth part) : splitFields depth part = [part] := by
  induction part generalizing depth with
  | nil => rfl
  | cons c part ih =>
    obtain ⟨hplain, hpart⟩ := isWhole_cons.mp hwhole
    exact splitFields_cons hplain (ih hpart)

/-- The pieces of a line with a comma between each two are the line. -/
theorem intercalate_splitFields (depth : Nat) (cs : List Char) :
    [','].intercalate (splitFields depth cs) = cs := by
  induction cs generalizing depth with
  | nil => rfl
  | cons c cs ih =>
    by_cases hcomma : c = ',' ∧ depth = 0
    · obtain ⟨rfl, rfl⟩ := hcomma
      obtain ⟨first, others, hsplit⟩ := List.exists_cons_of_ne_nil (splitFields_ne_nil 0 cs)
      rw [splitFields_comma, hsplit, List.intercalate_cons_cons, ← hsplit, ih]
      rfl
    · obtain ⟨first, others, hsplit⟩ :=
        List.exists_cons_of_ne_nil (splitFields_ne_nil (depthAfter depth c) cs)
      have hcs := ih (depthAfter depth c)
      rw [hsplit] at hcs
      rw [splitFields_cons hcomma hsplit, ← hcs]
      cases others <;> simp [List.intercalate_cons_cons]

/-- What the pieces of a line are: whole, and all but the last close their groups. The first one
starts inside the groups that are open, the others outside all groups. -/
theorem isWhole_of_splitFields_eq {first : List Char} {others : List (List Char)}
    (h : splitFields depth cs = first :: others) :
    (IsWhole depth first ∧ ∀ piece ∈ others, IsWhole 0 piece)
      ∧ (others ≠ [] → depthThrough depth first = 0)
      ∧ ∀ piece ∈ others.dropLast, depthThrough 0 piece = 0 := by
  induction cs generalizing depth first others with
  | nil =>
    obtain ⟨rfl, rfl⟩ := List.cons_eq_cons.mp h
    simp [isWhole_nil]
  | cons c cs ih =>
    by_cases hcomma : c = ',' ∧ depth = 0
    · obtain ⟨rfl, rfl⟩ := hcomma
      -- The comma ends an empty first piece, and what is first behind it starts outside all groups.
      rw [splitFields_comma] at h
      obtain ⟨rfl, rfl⟩ := List.cons_eq_cons.mp h
      obtain ⟨second, more, hsplit⟩ := List.exists_cons_of_ne_nil (splitFields_ne_nil 0 cs)
      obtain ⟨⟨hsecond, hmore⟩, hcloses, hlast⟩ := ih hsplit
      rw [hsplit]
      refine ⟨⟨isWhole_nil 0, List.forall_mem_cons.mpr ⟨hsecond, hmore⟩⟩, fun _ => rfl, ?_⟩
      cases more with
      | nil => simp
      | cons third more =>
        rw [List.dropLast_cons_cons, List.forall_mem_cons]
        exact ⟨hcloses (List.cons_ne_nil _ _), hlast⟩
    · obtain ⟨inner, more, hsplit⟩ :=
        List.exists_cons_of_ne_nil (splitFields_ne_nil (depthAfter depth c) cs)
      rw [splitFields_cons hcomma hsplit] at h
      obtain ⟨rfl, rfl⟩ := List.cons_eq_cons.mp h
      obtain ⟨⟨hinner, hmore⟩, hcloses, hlast⟩ := ih hsplit
      exact ⟨⟨isWhole_cons.mpr ⟨hcomma, hinner⟩, hmore⟩, hcloses, hlast⟩

/-- A piece has no comma that would split it. -/
theorem isWhole_of_mem_splitFields {piece : List Char} (h : piece ∈ splitFields 0 cs) :
    IsWhole 0 piece := by
  obtain ⟨first, others, hsplit⟩ := List.exists_cons_of_ne_nil (splitFields_ne_nil 0 cs)
  obtain ⟨hwhole, -, -⟩ := isWhole_of_splitFields_eq hsplit
  rw [hsplit] at h
  exact List.forall_mem_cons.mpr hwhole piece h

/-- A piece that another one follows closes its groups. -/
theorem depthThrough_of_mem_dropLast {piece : List Char} (h : piece ∈ (splitFields 0 cs).dropLast) :
    depthThrough 0 piece = 0 := by
  obtain ⟨first, others, hsplit⟩ := List.exists_cons_of_ne_nil (splitFields_ne_nil 0 cs)
  obtain ⟨-, hfirst, hothers⟩ := isWhole_of_splitFields_eq hsplit
  rw [hsplit] at h
  cases others with
  | nil => exact absurd h List.not_mem_nil
  | cons second others =>
    rw [List.dropLast_cons_cons] at h
    rcases List.mem_cons.mp h with rfl | hmem
    · exact hfirst (List.cons_ne_nil _ _)
    · exact hothers piece hmem

/-! ## Blanks -/

section Blanks

variable {blanks : List Char}

theorem depthThrough_blank (h : blanks.all isBlank = true) (depth : Nat) :
    depthThrough depth blanks = depth := by
  induction blanks with
  | nil => rfl
  | cons c blanks ih =>
    rw [List.all_cons, Bool.and_eq_true] at h
    have hafter : depthAfter depth c = depth := by
      have hopen : c ≠ '{' := by
        rintro rfl
        exact absurd h.1 (by decide)
      have hclose : c ≠ '}' := by
        rintro rfl
        exact absurd h.1 (by decide)
      rw [depthAfter, if_neg hopen, if_neg hclose]
    show depthThrough (depthAfter depth c) blanks = depth
    rw [hafter, ih h.2]

theorem isWhole_blank (h : blanks.all isBlank = true) (depth : Nat) : IsWhole depth blanks := by
  intro before after hblanks
  have hcomma : ',' ∈ blanks := hblanks ▸ List.mem_append_right before List.mem_cons_self
  exact absurd (List.all_eq_true.mp h ',' hcomma) (by decide)

theorem depthThrough_trimChars (depth : Nat) (cs : List Char) :
    depthThrough depth (trimChars cs) = depthThrough depth cs := by
  obtain ⟨before, after, hcs, hbefore, hafter⟩ := exists_trimChars cs
  have hboth : depthThrough depth cs = depthThrough depth (before ++ trimChars cs ++ after) :=
    congrArg (depthThrough depth) hcs
  rw [hboth, depthThrough_append, depthThrough_append, depthThrough_blank hbefore,
    depthThrough_blank hafter]

theorem isWhole_trimChars : IsWhole depth (trimChars cs) ↔ IsWhole depth cs := by
  obtain ⟨before, after, hcs, hbefore, hafter⟩ := exists_trimChars cs
  have hboth : IsWhole depth cs ↔ IsWhole depth (before ++ trimChars cs ++ after) := by
    rw [← hcs]
  rw [hboth, isWhole_append, isWhole_append, depthThrough_blank hbefore,
    and_iff_left (isWhole_blank hafter _), and_iff_right (isWhole_blank hbefore _)]

/-- Blanks before a line belong to its first piece. -/
theorem splitFields_blank_append (h : blanks.all isBlank = true) {first : List Char}
    {others : List (List Char)} (hcs : splitFields depth cs = first :: others) :
    splitFields depth (blanks ++ cs) = (blanks ++ first) :: others := by
  induction blanks with
  | nil => exact hcs
  | cons c blanks ih =>
    have hplain := (isWhole_cons.mp (isWhole_blank h depth)).1
    rw [List.all_cons, Bool.and_eq_true] at h
    have hone : [c].all isBlank = true := by rw [List.all_cons, h.1, List.all_nil, Bool.and_self]
    have hdepth : depthAfter depth c = depth := depthThrough_blank hone depth
    exact splitFields_cons hplain (hdepth.symm ▸ ih h.2)

/-- Blanks behind a line belong to its last piece. -/
theorem exists_splitFields_append_blank (h : blanks.all isBlank = true) (depth : Nat)
    (cs : List Char) :
    ∃ front last, splitFields depth cs = front ++ [last]
      ∧ splitFields depth (cs ++ blanks) = front ++ [last ++ blanks] := by
  induction cs generalizing depth with
  | nil => exact ⟨[], [], rfl, splitFields_of_isWhole (isWhole_blank h depth)⟩
  | cons c cs ih =>
    by_cases hcomma : c = ',' ∧ depth = 0
    · obtain ⟨rfl, rfl⟩ := hcomma
      obtain ⟨front, last, hcs, happend⟩ := ih 0
      refine ⟨[] :: front, last, ?_, ?_⟩
      · rw [splitFields_comma, hcs, List.cons_append]
      · rw [List.cons_append, splitFields_comma, happend, List.cons_append]
    · obtain ⟨front, last, hcs, happend⟩ := ih (depthAfter depth c)
      cases front with
      | nil => exact ⟨[], c :: last, splitFields_cons hcomma hcs, splitFields_cons hcomma happend⟩
      | cons first front =>
        exact ⟨(c :: first) :: front, last, splitFields_cons hcomma hcs,
          splitFields_cons hcomma happend⟩

/-- The trimmed pieces of a line. -/
def pieces (cs : List Char) : List (List Char) :=
  (splitFields 0 cs).map trimChars

theorem pieces_blank_append (h : blanks.all isBlank = true) (cs : List Char) :
    pieces (blanks ++ cs) = pieces cs := by
  obtain ⟨first, others, hcs⟩ := List.exists_cons_of_ne_nil (splitFields_ne_nil 0 cs)
  rw [pieces, pieces, splitFields_blank_append h hcs, hcs, List.map_cons, List.map_cons,
    trimChars_blank_append h]

theorem pieces_append_blank (h : blanks.all isBlank = true) (cs : List Char) :
    pieces (cs ++ blanks) = pieces cs := by
  obtain ⟨front, last, hcs, happend⟩ := exists_splitFields_append_blank h 0 cs
  rw [pieces, pieces, happend, hcs, List.map_append, List.map_append, List.map_singleton,
    List.map_singleton, trimChars_append_blank h]

/-- A line has the trimmed pieces of the trimmed line. -/
theorem pieces_trimChars (cs : List Char) : pieces (trimChars cs) = pieces cs := by
  obtain ⟨before, after, hcs, hbefore, hafter⟩ := exists_trimChars cs
  calc pieces (trimChars cs)
      = pieces (before ++ trimChars cs) := (pieces_blank_append hbefore _).symm
    _ = pieces (before ++ trimChars cs ++ after) := (pieces_append_blank hafter _).symm
    _ = pieces cs := by rw [← hcs]

/-- A line is blank if its only piece is. -/
theorem pieces_eq_singleton_nil_iff : pieces cs = [[]] ↔ cs.all isBlank = true := by
  constructor
  · intro h
    obtain ⟨piece, hsplit, hpiece⟩ := List.map_eq_singleton_iff.mp h
    have hcs := intercalate_splitFields 0 cs
    rw [hsplit, List.intercalate_singleton] at hcs
    rwa [← hcs, ← trimChars_eq_nil_iff]
  · intro h
    rw [pieces, splitFields_of_isWhole (isWhole_blank h 0), List.map_singleton,
      trimChars_eq_nil_iff.mpr h]

/-- A trimmed line starts with a character other than a comma exactly if its first piece does. -/
theorem head?_trimChars_iff {c : Char} {first : List Char} {others : List (List Char)}
    (hc : c ≠ ',') (h : pieces cs = first :: others) :
    (trimChars cs).head? = some c ↔ first.head? = some c := by
  rw [← pieces_trimChars, pieces] at h
  cases htrimmed : trimChars cs with
  | nil =>
    rw [htrimmed] at h
    obtain ⟨rfl, -⟩ := List.cons_eq_cons.mp h
    rfl
  | cons d rest =>
    rw [htrimmed] at h
    by_cases hcomma : d = ','
    · rw [hcomma, splitFields_comma, List.map_cons] at h
      obtain ⟨rfl, -⟩ := List.cons_eq_cons.mp h
      rw [hcomma, List.head?_cons, Option.some.injEq]
      exact ⟨fun heq => absurd heq.symm hc, fun hnone => absurd hnone (Option.some_ne_none c).symm⟩
    · obtain ⟨inner, more, hsplit⟩ :=
        List.exists_cons_of_ne_nil (splitFields_ne_nil (depthAfter 0 d) rest)
      rw [splitFields_cons (fun hboth => hcomma hboth.1) hsplit, List.map_cons] at h
      obtain ⟨rfl, -⟩ := List.cons_eq_cons.mp h
      rw [head?_trimChars_cons (isBlank_of_trimChars_eq_cons htrimmed), List.head?_cons]

end Blanks

end TypeEnforcement.Row
