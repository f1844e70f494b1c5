import TypeEnforcement.Proofs.Toml.Overlays
import TypeEnforcement.Toml.Parser
/-!
# Canonical keys of documents

The tables of a document that is read have canonical keys (`isCanonical_of_parse?`), however the
text lays them out: over several headers, with dotted keys or within lines.

A document is built by laying values over it at their paths, which keeps its keys canonical if those
of the values are (`Document.isCanonical_entries`). So a reader has to hand on canonical values
only. The one that has to be looked at is the reader of inline tables, which builds a document
itself.
-/

namespace TypeEnforcement.Toml

open Canonical

/-! ## Documents -/

namespace Document

variable {document next : Document} {path table keys : List String} {value : Value}

/-- The values assigned in a document have canonical keys. -/
def IsCanonical (document : Document) : Prop :=
  ∀ entry ∈ document.values, entry.2.IsCanonical

theorem values_of_enterParent (h : document.enterParent path = some next) :
    next.values = document.values := by
  rw [enterParent] at h
  split at h
  · cases h
  · split at h <;> cases h <;> rfl

theorem values_of_enterDotted (h : document.enterDotted path = some next) :
    next.values = document.values := by
  rw [enterDotted] at h
  split at h
  · cases h
  · split at h <;> cases h <;> rfl

/-- Going through tables assigns nothing. -/
theorem values_of_foldlM {enter : Document → List String → Option Document}
    (henter : ∀ {document path next}, enter document path = some next →
      next.values = document.values)
    {paths : List (List String)} (h : paths.foldlM enter document = some next) :
    next.values = document.values := by
  induction paths generalizing document with
  | nil =>
    cases h
    rfl
  | cons path paths ih =>
    rw [List.foldlM_cons] at h
    obtain ⟨middle, hmiddle, hrest⟩ := Option.bind_eq_some_iff.mp h
    rw [ih hrest, henter hmiddle]

theorem values_of_openTable (h : document.openTable path = some next) :
    next.values = document.values := by
  obtain ⟨middle, hmiddle, hrest⟩ := Option.bind_eq_some_iff.mp h
  rw [← values_of_foldlM values_of_enterParent hmiddle]
  split at hrest
  · cases hrest
  · split at hrest <;> cases hrest <;> rfl

theorem values_of_assign (h : document.assign table keys value = some next) :
    next.values = (table ++ keys, value) :: document.values := by
  obtain ⟨middle, hmiddle, hrest⟩ := Option.bind_eq_some_iff.mp h
  rw [← values_of_foldlM values_of_enterDotted hmiddle]
  split at hrest <;> cases hrest
  rfl

theorem IsCanonical.openTable (h : document.IsCanonical)
    (hnext : document.openTable path = some next) : next.IsCanonical := by
  intro entry hentry
  rw [values_of_openTable hnext] at hentry
  exact h entry hentry

theorem IsCanonical.assign (h : document.IsCanonical) (hvalue : value.IsCanonical)
    (hnext : document.assign table keys value = some next) : next.IsCanonical := by
  intro entry hentry
  rw [values_of_assign hnext] at hentry
  rcases List.mem_cons.mp hentry with rfl | hmem
  · exact hvalue
  · exact h entry hmem

theorem isCanonical_empty : empty.IsCanonical :=
  List.forall_mem_nil _

theorem isCanonical_entries (h : document.IsCanonical) :
    (Value.table document.entries).IsCanonical := by
  refine Value.IsCanonical.table_entries ?_
  refine List.foldlRecOn _ _ (List.foldlRecOn _ _ Value.isCanonical_table_nil ?_) ?_
  · exact fun root hroot entry _ => Value.isCanonical_overlayAt Value.isCanonical_table_nil hroot
  · exact fun root hroot entry hentry =>
      Value.isCanonical_overlayAt (h entry (List.mem_reverse.mp hentry)) hroot

end Document

/-! ## Readers of values -/

section Readers

variable {bound depth : Nat} {cs rest : List Char} {document next : Document} {v : Value}
  {table : List String}

theorem isCanonical_of_word? (h : word? cs = some v) : v.IsCanonical := by
  refine Value.isCanonical_of_ne_table ?_
  rintro es rfl
  unfold word? at h
  split at h
  all_goals first
    | cases h
    | obtain ⟨_, _, heq⟩ := Option.map_eq_some_iff.mp h
      cases heq

/-- A reading that makes no table of what it reads gives a canonical value. -/
theorem isCanonical_of_map {α : Type} {read : Option α} {make : α → Value × List Char}
    (hmake : ∀ a es, (make a).1 ≠ .table es) (h : read.map make = some (v, rest)) :
    v.IsCanonical := by
  obtain ⟨a, -, heq⟩ := Option.map_eq_some_iff.mp h
  have hfirst : (make a).1 = v := congrArg Prod.fst heq
  exact hfirst ▸ Value.isCanonical_of_ne_table (hmake a)

/-- A value is a table only if it is an inline table. -/
theorem value_cases (h : value (bound + 1) depth cs = some (v, rest)) :
    v.IsCanonical ∨ ∃ depth cs document, v = .table document.entries
      ∧ assignments bound depth .empty cs = some (document, rest) := by
  unfold value at h
  split at h
  · exact Or.inl (isCanonical_of_map (fun ⟨_, _⟩ _ heq => (nomatch heq)) h)
  · exact Or.inl (isCanonical_of_map (fun ⟨_, _⟩ _ heq => (nomatch heq)) h)
  · exact Or.inl (isCanonical_of_map (fun ⟨_, _⟩ _ heq => (nomatch heq)) h)
  · next cs depth =>
    obtain ⟨⟨document, rest⟩, hread, heq⟩ := Option.map_eq_some_iff.mp h
    cases heq
    exact Or.inr ⟨depth, cs, document, rfl, hread⟩
  · obtain ⟨v, hword, heq⟩ := Option.map_eq_some_iff.mp h
    cases heq
    exact Or.inl (isCanonical_of_word? hword)

/-- Reading an inline table ends, or assigns one value and may go on. -/
theorem assignments_cases
    (h : assignments (bound + 1) depth document cs = some (next, rest)) :
    next = document ∨ ∃ path v cs' rest' middle, value bound depth cs' = some (v, rest')
      ∧ document.assign [] path v = some middle
      ∧ (next = middle ∨ ∃ cs, assignments bound depth middle cs = some (next, rest)) := by
  unfold assignments at h
  obtain ⟨cs, -, h⟩ := Option.bind_eq_some_iff.mp h
  split at h
  · cases h
    exact Or.inl rfl
  · obtain ⟨⟨path, afterKeys⟩, -, h⟩ := Option.bind_eq_some_iff.mp h
    dsimp only at h
    split at h
    · next afterSign =>
      obtain ⟨⟨v, afterValue⟩, hvalue, h⟩ := Option.bind_eq_some_iff.mp h
      obtain ⟨middle, hassign, h⟩ := Option.bind_eq_some_iff.mp h
      obtain ⟨cs, -, h⟩ := Option.bind_eq_some_iff.mp h
      refine Or.inr ⟨path, v, _, _, middle, hvalue, hassign, ?_⟩
      split at h
      · cases h
        exact Or.inl rfl
      · exact Or.inr ⟨_, h⟩
      · cases h
    · cases h

/-- The bound on the calls carries the induction, since the two readers call each other. -/
theorem isCanonical_of_value_and_assignments (bound : Nat) :
    (∀ depth cs v rest, value bound depth cs = some (v, rest) → v.IsCanonical)
      ∧ ∀ depth document cs next rest, document.IsCanonical →
          assignments bound depth document cs = some (next, rest) → next.IsCanonical := by
  induction bound with
  | zero => exact ⟨fun _ _ _ _ h => (nomatch h), fun _ _ _ _ _ _ h => (nomatch h)⟩
  | succ bound ih =>
    obtain ⟨hvalue, hassignments⟩ := ih
    constructor
    · intro depth cs v rest h
      rcases value_cases h with hcanonical | ⟨depth, cs, document, rfl, hread⟩
      · exact hcanonical
      · exact Document.isCanonical_entries
          (hassignments depth _ cs document rest Document.isCanonical_empty hread)
    · intro depth document cs next rest hdocument h
      rcases assignments_cases h with rfl | ⟨path, v, _, _, middle, hread, hassign, hnext⟩
      · exact hdocument
      · have hmiddle := hdocument.assign (hvalue depth _ v _ hread) hassign
        rcases hnext with rfl | ⟨cs, hrest⟩
        · exact hmiddle
        · exact hassignments depth middle cs next rest hmiddle hrest

/-! ## Readers of documents -/

/-- Reading the lines of a document ends, or opens a table or assigns one value and goes on. -/
theorem lines_cases (h : lines (bound + 1) document table cs = some next) :
    next = document ∨ ∃ middle table cs, lines bound middle table cs = some next
      ∧ ((∃ path, document.openTable path = some middle)
        ∨ ∃ table path v bound depth cs rest, value bound depth cs = some (v, rest)
          ∧ document.assign table path v = some middle) := by
  unfold lines at h
  obtain ⟨cs, -, h⟩ := Option.bind_eq_some_iff.mp h
  split at h
  · cases h
    exact Or.inl rfl
  · obtain ⟨⟨path, afterKeys⟩, -, h⟩ := Option.bind_eq_some_iff.mp h
    dsimp only at h
    split at h
    · obtain ⟨afterLine, -, h⟩ := Option.bind_eq_some_iff.mp h
      obtain ⟨middle, hopen, h⟩ := Option.bind_eq_some_iff.mp h
      exact Or.inr ⟨middle, path, afterLine, h, Or.inl ⟨path, hopen⟩⟩
    · cases h
  · obtain ⟨⟨path, afterKeys⟩, -, h⟩ := Option.bind_eq_some_iff.mp h
    dsimp only at h
    split at h
    · obtain ⟨⟨v, afterValue⟩, hvalue, h⟩ := Option.bind_eq_some_iff.mp h
      obtain ⟨afterLine, -, h⟩ := Option.bind_eq_some_iff.mp h
      obtain ⟨middle, hassign, h⟩ := Option.bind_eq_some_iff.mp h
      exact Or.inr ⟨middle, table, afterLine, h,
        Or.inr ⟨table, path, v, _, _, _, _, hvalue, hassign⟩⟩
    · cases h

theorem isCanonical_of_lines (hdocument : document.IsCanonical)
    (h : lines bound document table cs = some next) : next.IsCanonical := by
  induction bound generalizing document table cs with
  | zero => cases h
  | succ bound ih =>
    rcases lines_cases h with rfl | ⟨middle, table, cs, hrest, ⟨path, hopen⟩ | hassigned⟩
    · exact hdocument
    · exact ih (hdocument.openTable hopen) hrest
    · obtain ⟨table, path, v, bound', depth, cs, rest, hvalue, hassign⟩ := hassigned
      have hv := (isCanonical_of_value_and_assignments bound').1 depth cs v rest hvalue
      exact ih (hdocument.assign hv hassign) hrest

end Readers

/-- The tables of a document that is read have canonical keys. -/
theorem isCanonical_of_parse? {text : String} {es : Entries} (h : parse? text = some es) :
    (Value.table es).IsCanonical := by
  obtain ⟨document, hlines, rfl⟩ := Option.map_eq_some_iff.mp h
  exact Document.isCanonical_entries (isCanonical_of_lines Document.isCanonical_empty hlines)

end TypeEnforcement.Toml
