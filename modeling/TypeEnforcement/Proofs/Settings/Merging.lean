import TypeEnforcement.Proofs.Settings.Shapes
import TypeEnforcement.Settings.Library
/-!
# How a library joins sources

What is assumed of a library. It adds sources one by one, in the order in which they are given: a
table is joined with what is there key by key, and any other value takes the place of what is there
(`Library.MergesInOrder`). It neither loses nor changes a value of the right type on its way from
and to settings (`Library.KeepsLeaves`).

From the first follows what becomes of a leaf. If what a source says has the right types, a leaf is
what the source says about it, and what stood there before if the source says nothing
(`at?_addSource`). So of many sources the last counts that says anything about the leaf
(`at?_addSources`), and the tables of a document keep what a source leaves out.

What a source says about a place is what a document has there that is built of the source alone
(`Library.says?`).
-/

namespace TypeEnforcement.Settings

open Canonical Toml

namespace Library

/-! ## Assumptions -/

/-- Sets what an entry of a source says. -/
def setEntry (library : Library) (document : Value) (entry : String × Value) : Value :=
  library.setAt (library.stepsOf entry.1) entry.2 document

/-- Adds a source to a document, entry by entry. -/
def addSource (library : Library) (document : Value) (source : library.Source) : Option Value :=
  (library.collect? source).map (·.foldl library.setEntry document)

/-- A library joins sources in the order in which they are added, tables key by key; later values of
other kinds take the place of earlier ones. -/
structure MergesInOrder (library : Library) : Prop where
  /-- Sources are added one by one to a document that is empty at first. -/
  build?_eq : ∀ sources, library.build? sources = sources.foldlM library.addSource (.table [])
  /-- A step by name leads into a table, whose other keys are left alone. Where nothing stands, the
  table is made. -/
  setAt_key : ∀ name steps value document,
    (document = .nothing ∨ ∃ below, document = .table below) → ∃ es,
      library.setAt (.key name :: steps) value document = .table es
        ∧ ∀ key, es.lookup key
          = if key = name then some (library.setAt steps value (document.entries.valueAt name))
            else document.entries.lookup key
  /-- A table that has each key once is joined with a table, or with nothing, key by key. -/
  setAt_table : ∀ (above : Entries) document, (above.map Prod.fst).Nodup →
    (document = .nothing ∨ ∃ below, document = .table below) → ∃ es,
      library.setAt [] (.table above) document = .table es
        ∧ ∀ key, es.lookup key
          = ((above.lookup key).map fun part =>
              library.setAt [] part (document.entries.valueAt key)).or
                (document.entries.lookup key)
  /-- Any other value takes the place of what is there. -/
  setAt_of_ne_table : ∀ value document, (∀ es, value ≠ .table es) →
    library.setAt [] value document = value
  /-- An environment without variables says nothing. -/
  collect?_environment_nil : ∀ form, library.collect? (library.environment form []) = some []
  /-- The tables of what a source says have canonical keys. -/
  isCanonical_of_collect? : ∀ source said, library.collect? source = some said →
    ∀ entry ∈ said, entry.2.IsCanonical
  /-- So have those of a document. -/
  isCanonical_of_build? : ∀ sources document, library.build? sources = some document →
    document.IsCanonical

/-- A library neither loses nor changes a value of the right type. -/
structure KeepsLeaves (library : Library) : Prop where
  /-- The defaults make a document of the right types with the default of each leaf. -/
  defaults : ∀ source document, library.ofSettings {} = .ok source →
    library.build? [source] = some document →
    documentShape.Fits document ∧ ∀ leaf : Leaf, document.at? leaf.path = leaf.valueIn? {}
  /-- A value of the right type is taken as it stands, and a leaf that is missing has its
  default. -/
  deserialize? : ∀ document settings, documentShape.Fits document → document.IsCanonical →
    library.deserialize? document = some settings →
    ∀ leaf : Leaf, leaf.valueIn? settings = (document.at? leaf.path).or (leaf.valueIn? {})

/-! ## Setting values -/

/-- What a value gives to the end of a path when it is set at a place: what it has where the path
goes on below the place. -/
def givenAt? : (steps : List Step) → (value : Value) → (path : List String) → Option Value
  | [], value, path => value.at? path
  | .key name :: steps, value, key :: path =>
    if name = key then givenAt? steps value path else none
  | _, _, _ => none

/-- What entries give to the end of a path: what the last of them gives that gives anything. -/
def givenBy? (library : Library) (said : Entries) (path : List String) : Option Value :=
  said.reverse.findSome? fun entry => givenAt? (library.stepsOf entry.1) entry.2 path

variable {library : Library} {shape leaf : Shape} {value document : Value} {path : List String}
  {steps : List Step} {said : Entries}

/-- A leaf of a value counts, else what is there. -/
theorem MergesInOrder.at?_setAt_nil (laws : library.MergesInOrder) (hfits : shape.Fits value)
    (hcanonical : value.IsCanonical) (hdocument : shape.FitsIfPresent document)
    (hat : shape.at? path = some leaf) (hleaf : leaf.IsLeaf) :
    (library.setAt [] value document).at? path = (value.at? path).or (document.at? path) := by
  induction path generalizing shape value document with
  | nil =>
    cases hat
    rw [laws.setAt_of_ne_table value document (hfits.ne_table hleaf)]
    rfl
  | cons key path ih =>
    obtain ⟨member, hmember, hmemberAt⟩ := Option.bind_eq_some_iff.mp hat
    cases hfits with
    | @table members es parts =>
      have hkeys : (es.map Prod.fst).Nodup := hcanonical.keys.nodup
      obtain ⟨joined, hjoined, hlookup⟩ :=
        laws.setAt_table es document hkeys hdocument.eq_nothing_or_table
      rw [hjoined, Value.at?_table_cons, Value.at?_table_cons, hlookup, Value.at?]
      cases hpart : es.lookup key with
      | none => rfl
      | some part =>
        rw [Option.map_some, Option.some_or, Option.bind_some, Option.bind_some,
          ih (parts key member part hmember hpart) (hcanonical.of_lookup hpart)
            (hdocument.valueAt hmember) hmemberAt, Entries.valueAt]
        cases document.entries.lookup key with
        | some below => rfl
        | none =>
          -- Nothing is there, and the value hides the empty place at the end of the path.
          cases path <;> rfl
    | _ => cases hmember

/-- What a value gives to a leaf counts, else what is there. -/
theorem MergesInOrder.at?_setAt (laws : library.MergesInOrder) (hfits : shape.FitsAt steps value)
    (hcanonical : value.IsCanonical) (hdocument : shape.FitsIfPresent document)
    (hat : shape.at? path = some leaf) (hleaf : leaf.IsLeaf) :
    (library.setAt steps value document).at? path
      = (givenAt? steps value path).or (document.at? path) := by
  induction steps generalizing shape path document with
  | nil => exact laws.at?_setAt_nil hfits hcanonical hdocument hat hleaf
  | cons step steps ih =>
    obtain ⟨members, name, rfl, rfl, hbelow⟩ := hfits.exists_table
    obtain ⟨es, hset, hlookup⟩ :=
      laws.setAt_key name steps value document hdocument.eq_nothing_or_table
    cases path with
    | nil =>
      cases hat
      exact absurd rfl (hleaf members)
    | cons key path =>
      obtain ⟨member, hmember, hmemberAt⟩ := Option.bind_eq_some_iff.mp hat
      rw [hset, Value.at?_table_cons, hlookup, givenAt?]
      by_cases hkey : name = key
      · subst hkey
        have hmemberFits := hbelow member hmember
        rw [if_pos rfl, if_pos rfl, Option.bind_some,
          ih hmemberFits (hdocument.valueAt hmember) hmemberAt, Value.at?, Entries.valueAt]
        cases document.entries.lookup name with
        | some below => rfl
        | none =>
          cases path with
          | cons _ _ => rfl
          | nil =>
            -- A leaf has nothing below it, so the value is set at the leaf itself.
            cases steps with
            | nil => rfl
            | cons step steps =>
              cases hmemberAt
              obtain ⟨members, _, rfl, _⟩ := hmemberFits.exists_table
              exact absurd rfl (hleaf members)
      · rw [if_neg (Ne.symm hkey), if_neg hkey]
        rfl

theorem MergesInOrder.fits_setAt_nil (laws : library.MergesInOrder) (hfits : shape.Fits value)
    (hcanonical : value.IsCanonical) (hdocument : shape.FitsIfPresent document) :
    shape.Fits (library.setAt [] value document) := by
  induction hfits generalizing document with
  | text s =>
    rw [laws.setAt_of_ne_table (.text s) document fun _ heq => nomatch heq]
    exact .text s
  | flag b =>
    rw [laws.setAt_of_ne_table (.boolean b) document fun _ heq => nomatch heq]
    exact .flag b
  | texts ts =>
    rw [laws.setAt_of_ne_table (.array (ts.map .text)) document fun _ heq => nomatch heq]
    exact .texts ts
  | @table members es parts ih =>
    have hkeys : (es.map Prod.fst).Nodup := hcanonical.keys.nodup
    obtain ⟨joined, hjoined, hlookup⟩ :=
      laws.setAt_table es document hkeys hdocument.eq_nothing_or_table
    rw [hjoined]
    refine .table fun key member part hmember hpart => ?_
    rw [hlookup] at hpart
    cases habove : es.lookup key with
    | none =>
      rw [habove] at hpart
      exact hdocument.member hmember hpart
    | some above =>
      rw [habove] at hpart
      cases hpart
      exact ih key member above hmember habove (hcanonical.of_lookup habove)
        (hdocument.valueAt hmember)

theorem MergesInOrder.fits_setAt (laws : library.MergesInOrder) (hfits : shape.FitsAt steps value)
    (hcanonical : value.IsCanonical) (hdocument : shape.FitsIfPresent document) :
    shape.Fits (library.setAt steps value document) := by
  induction steps generalizing shape document with
  | nil => exact laws.fits_setAt_nil hfits hcanonical hdocument
  | cons step steps ih =>
    obtain ⟨members, name, rfl, rfl, hbelow⟩ := hfits.exists_table
    obtain ⟨es, hset, hlookup⟩ :=
      laws.setAt_key name steps value document hdocument.eq_nothing_or_table
    rw [hset]
    refine .table fun key member part hmember hpart => ?_
    rw [hlookup] at hpart
    split at hpart
    · next hkey =>
      subst hkey
      cases hpart
      exact ih (hbelow member hmember) (hdocument.valueAt hmember)
    · exact hdocument.member hmember hpart

/-! ## Adding sources -/

/-- What a source says has the right types. -/
def HasRightTypes (library : Library) (source : library.Source) : Prop :=
  ∀ said, library.collect? source = some said →
    ∀ entry ∈ said, documentShape.FitsAt (library.stepsOf entry.1) entry.2

/-- What a source says about the end of a path: what is there in a document of this source alone. -/
def says? (library : Library) (source : library.Source) (path : List String) : Option Value :=
  (library.build? [source]).bind (Value.at? path)

theorem givenBy?_cons {entry : String × Value} :
    library.givenBy? (entry :: said) path
      = (library.givenBy? said path).or (givenAt? (library.stepsOf entry.1) entry.2 path) := by
  rw [givenBy?, List.reverse_cons, List.findSome?_append, List.findSome?_singleton]
  rfl

theorem MergesInOrder.fits_foldl_setEntry (laws : library.MergesInOrder)
    (hfits : ∀ entry ∈ said, shape.FitsAt (library.stepsOf entry.1) entry.2)
    (hcanonical : ∀ entry ∈ said, entry.2.IsCanonical) (hdocument : shape.Fits document) :
    shape.Fits (said.foldl library.setEntry document) :=
  List.foldlRecOn said _ hdocument fun _ hbelow entry hentry =>
    laws.fits_setAt (hfits entry hentry) (hcanonical entry hentry) (Or.inr hbelow)

theorem MergesInOrder.at?_foldl_setEntry (laws : library.MergesInOrder)
    (hfits : ∀ entry ∈ said, shape.FitsAt (library.stepsOf entry.1) entry.2)
    (hcanonical : ∀ entry ∈ said, entry.2.IsCanonical) (hdocument : shape.Fits document)
    (hat : shape.at? path = some leaf) (hleaf : leaf.IsLeaf) :
    (said.foldl library.setEntry document).at? path
      = (library.givenBy? said path).or (document.at? path) := by
  induction said generalizing document with
  | nil => rfl
  | cons entry said ih =>
    rw [List.forall_mem_cons] at hfits hcanonical
    have hnext : shape.Fits (library.setEntry document entry) :=
      laws.fits_setAt hfits.1 hcanonical.1 (Or.inr hdocument)
    rw [List.foldl_cons, ih hfits.2 hcanonical.2 hnext, givenBy?_cons, Option.or_assoc, setEntry,
      laws.at?_setAt hfits.1 hcanonical.1 (Or.inr hdocument) hat hleaf]

variable {source : library.Source} {sources : List library.Source} {next : Value}

theorem MergesInOrder.build?_cons (laws : library.MergesInOrder) :
    library.build? (source :: sources)
      = (library.build? [source]).bind fun document => sources.foldlM library.addSource document
    := by
  rw [laws.build?_eq, laws.build?_eq, List.foldlM_cons, List.foldlM_cons]
  cases library.addSource (.table []) source <;> rfl

/-- A source that says nothing may be left out. -/
theorem MergesInOrder.build?_append_cons (laws : library.MergesInOrder)
    (hsilent : library.collect? source = some []) (below above : List library.Source) :
    library.build? (below ++ source :: above) = library.build? (below ++ above) := by
  have hsame : ∀ document, library.addSource document source = some document := by
    intro document
    rw [addSource, hsilent]
    rfl
  rw [laws.build?_eq, laws.build?_eq, List.foldlM_append, List.foldlM_append]
  refine congrArg (Option.bind _) (funext fun document => ?_)
  rw [List.foldlM_cons, hsame]
  rfl

theorem MergesInOrder.fits_addSource (laws : library.MergesInOrder)
    (htypes : library.HasRightTypes source) (hdocument : documentShape.Fits document)
    (h : library.addSource document source = some next) : documentShape.Fits next := by
  obtain ⟨said, hsaid, rfl⟩ := Option.map_eq_some_iff.mp h
  exact laws.fits_foldl_setEntry (htypes said hsaid)
    (laws.isCanonical_of_collect? source said hsaid) hdocument

/-- A leaf is what the source says about it, else what was there. -/
theorem MergesInOrder.at?_addSource (laws : library.MergesInOrder)
    (htypes : library.HasRightTypes source) (hdocument : documentShape.Fits document)
    (h : library.addSource document source = some next) (leaf : Leaf) :
    next.at? leaf.path = (library.says? source leaf.path).or (document.at? leaf.path) := by
  obtain ⟨said, hsaid, rfl⟩ := Option.map_eq_some_iff.mp h
  have hset : ∀ below : Value, documentShape.Fits below →
      (said.foldl library.setEntry below).at? leaf.path
        = (library.givenBy? said leaf.path).or (below.at? leaf.path) := fun below hbelow =>
    laws.at?_foldl_setEntry (htypes said hsaid) (laws.isCanonical_of_collect? source said hsaid)
      hbelow leaf.at?_path leaf.isLeaf_shape
  have halone : library.build? [source] = some (said.foldl library.setEntry (.table [])) := by
    rw [laws.build?_eq, List.foldlM_cons, addSource, hsaid]
    rfl
  have hnothing : (Value.table []).at? leaf.path = none := by
    cases leaf <;> rfl
  rw [says?, halone, Option.bind_some, hset _ hdocument, hset _ Shape.fits_table_nil, hnothing,
    Option.or_none]

/-- A leaf is what the last source says that says anything about it, else what was there. -/
theorem MergesInOrder.at?_addSources (laws : library.MergesInOrder)
    (htypes : ∀ source ∈ sources, library.HasRightTypes source)
    (hdocument : documentShape.Fits document)
    (h : sources.foldlM library.addSource document = some next) :
    documentShape.Fits next ∧ ∀ leaf : Leaf,
      next.at? leaf.path
        = (sources.reverse.findSome? (library.says? · leaf.path)).or (document.at? leaf.path) := by
  induction sources generalizing document with
  | nil =>
    cases h
    exact ⟨hdocument, fun _ => rfl⟩
  | cons source sources ih =>
    rw [List.forall_mem_cons] at htypes
    rw [List.foldlM_cons] at h
    obtain ⟨middle, hmiddle, hrest⟩ := Option.bind_eq_some_iff.mp h
    obtain ⟨hnext, hleaves⟩ :=
      ih htypes.2 (laws.fits_addSource htypes.1 hdocument hmiddle) hrest
    refine ⟨hnext, fun leaf => ?_⟩
    rw [hleaves leaf, laws.at?_addSource htypes.1 hdocument hmiddle leaf, List.reverse_cons,
      List.findSome?_append, List.findSome?_singleton, Option.or_assoc]

end Library

end TypeEnforcement.Settings
