import TypeEnforcement.Proofs.Rule.Reading
import TypeEnforcement.Proofs.Settings.PlainLibrary
import TypeEnforcement.Settings.Layers
/-!
# Layers of settings lie over each other leaf by leaf

Settings are loaded from the defaults, up to three documents and the environment. If the sources
have the right types, each leaf of the settings has the value of the highest source that sets it,
and the default if none does. The sources need not agree on anything else: one may set the name of
the module and another its version, or one the class of an action and another its permissions.

This holds for any library that joins sources in order and keeps leaves. What a document or the
environment sets is what the library builds of it alone (`Library.documentSays?`,
`Library.environmentSays?`), and `Library.given?` is what the sources say together about a leaf. The
types are those of `documentShape`; a source with a table in place of a text, or one that reaches
into a list, does not have them.

## Main result

* `isLayered_load`: settings that are loaded pass their check and have their leaves from the highest
  source; a document that says nothing is as good as none, and so is the document of the user if it
  does not count.
-/

namespace TypeEnforcement.Settings

open Canonical Toml

/-! ## Documents of layers -/

namespace Sources

variable {sources : Sources} {layer other : Layer} {text : String}

/-- The sources with a document in place of that of a layer, or none. -/
def withDocument (sources : Sources) (layer : Layer) (text : Option String) : Sources :=
  match layer with
  | .user => { sources with user := text }
  | .project => { sources with project := text }
  | .personal => { sources with personal := text }

theorem documents_eq (sources : Sources) :
    sources.documents = (sources.document? .user).toList
      ++ ((sources.document? .project).toList ++ (sources.document? .personal).toList) := by
  rw [documents, List.filterMap_cons, List.filterMap_cons, List.filterMap_cons, List.filterMap_nil]
  cases sources.document? .user <;> cases sources.document? .project
    <;> cases sources.document? .personal <;> rfl

theorem document?_withDocument_none :
    (sources.withDocument layer none).document? other
      = if other = layer then none else sources.document? other := by
  cases layer <;> cases other <;> first | rfl | exact ite_self none

theorem environment_withDocument (document : Option String) :
    (sources.withDocument layer document).environment = sources.environment := by
  cases layer <;> rfl

theorem mem_documents :
    text ∈ sources.documents ↔ ∃ layer, sources.document? layer = some text := by
  rw [documents, List.mem_filterMap]
  refine exists_congr fun layer => and_iff_right ?_
  cases layer <;> decide

theorem mem_documents_of_withDocument_none
    (h : text ∈ (sources.withDocument layer none).documents) : text ∈ sources.documents := by
  obtain ⟨other, hother⟩ := mem_documents.mp h
  rw [document?_withDocument_none] at hother
  split at hother
  · cases hother
  · exact mem_documents.mpr ⟨other, hother⟩

/-- The document of a layer stands somewhere among the others, unless it is one of the user that
does not count. -/
theorem documents_withDocument (sources : Sources) (layer : Layer) (text : String) :
    ∃ below above, (sources.withDocument layer none).documents = below ++ above
      ∧ ((sources.withDocument layer (some text)).documents = below ++ text :: above
        ∨ (sources.withDocument layer (some text)).documents = below ++ above) := by
  simp only [documents_eq]
  cases layer with
  | user =>
    refine ⟨[], sources.project.toList ++ sources.personal.toList, ?_⟩
    cases h : sources.includesUser <;> simp [withDocument, document?, h]
  | project =>
    exact ⟨(sources.document? .user).toList, sources.personal.toList, rfl, Or.inl rfl⟩
  | personal =>
    refine ⟨(sources.document? .user).toList ++ sources.project.toList, [], ?_, Or.inl ?_⟩
    · exact (List.append_assoc _ _ _).symm
    · exact (List.append_assoc _ _ _).symm

end Sources

/-! ## What sources say -/

namespace Library

variable {library : Library} {sources others : Sources} {settings : Settings}

/-- What the sources say has the types that settings want. -/
def HaveRightTypes (library : Library) (sources : Sources) : Prop :=
  ∀ source ∈ library.sourcesOf sources, library.HasRightTypes source

/-- What the document of a layer says about a path. A missing document says nothing, nor does that
of the user if it does not count. -/
def documentSays? (library : Library) (sources : Sources) (layer : Layer) (path : List String) :
    Option Value :=
  let document := match layer with
    | .user => if sources.includesUser then sources.user else none
    | .project => sources.project
    | .personal => sources.personal
  document.bind fun text => library.says? (library.file text) path

/-- What the environment says about a path. -/
def environmentSays? (library : Library) (sources : Sources) (path : List String) :
    Option Value :=
  library.says? (library.environment variableForm sources.environment) path

/-- What the sources say about a path: what the environment says, else the personal document, else
that of the project, else that of the user. -/
def given? (library : Library) (sources : Sources) (path : List String) : Option Value :=
  (library.environmentSays? sources path).or <|
    (library.documentSays? sources .personal path).or <|
      (library.documentSays? sources .project path).or <|
        library.documentSays? sources .user path

theorem documentSays?_eq (layer : Layer) (path : List String) :
    library.documentSays? sources layer path
      = (sources.document? layer).bind fun text => library.says? (library.file text) path := by
  cases layer <;> rfl

theorem findSome?_reverse_sourcesOf (path : List String) :
    (library.sourcesOf sources).reverse.findSome? (library.says? · path)
      = library.given? sources path := by
  have hlayer : ∀ layer,
      ((sources.document? layer).toList.map library.file).reverse.findSome? (library.says? · path)
        = library.documentSays? sources layer path := by
    intro layer
    rw [documentSays?_eq]
    cases sources.document? layer with
    | none => rfl
    | some text => exact List.findSome?_singleton
  rw [sourcesOf, Sources.documents_eq]
  simp only [List.map_append, List.reverse_append, List.findSome?_append, hlayer,
    List.reverse_singleton, List.findSome?_singleton, Option.or_assoc]
  rfl

theorem HaveRightTypes.withoutDocument (h : library.HaveRightTypes sources) (layer : Layer) :
    library.HaveRightTypes (sources.withDocument layer none) := by
  intro source hsource
  rw [sourcesOf, Sources.environment_withDocument] at hsource
  rcases List.mem_append.mp hsource with hfile | henvironment
  · obtain ⟨text, htext, rfl⟩ := List.mem_map.mp hfile
    exact h _ (List.mem_append_left _
      (List.mem_map_of_mem (Sources.mem_documents_of_withDocument_none htext)))
  · exact h source (List.mem_append_right _ henvironment)

theorem HaveRightTypes.withoutEnvironment (laws : library.MergesInOrder)
    (h : library.HaveRightTypes sources) :
    library.HaveRightTypes { sources with environment := [] } := by
  intro source hsource
  rcases List.mem_append.mp hsource with hfile | henvironment
  · exact h source (List.mem_append_left _ hfile)
  · intro said hsaid
    rw [List.mem_singleton.mp henvironment, laws.collect?_environment_nil] at hsaid
    cases hsaid
    exact List.forall_mem_nil _

/-- A document that says nothing about a path may be left out. -/
theorem given?_withDocument_none {layer : Layer} {path : List String}
    (h : library.documentSays? sources layer path = none) :
    library.given? (sources.withDocument layer none) path = library.given? sources path := by
  rw [documentSays?_eq] at h
  simp only [given?, environmentSays?, documentSays?_eq, Sources.environment_withDocument,
    Sources.document?_withDocument_none]
  cases layer <;> simp [h]

/-- So may an environment. -/
theorem given?_withoutEnvironment (laws : library.MergesInOrder) {leaf : Leaf}
    (h : library.environmentSays? sources leaf.path = none) :
    library.given? { sources with environment := [] } leaf.path
      = library.given? sources leaf.path := by
  have hnothing : library.environmentSays? { sources with environment := [] } leaf.path = none := by
    rw [environmentSays?, says?, laws.build?_eq, List.foldlM_cons, addSource,
      laws.collect?_environment_nil]
    cases leaf <;> rfl
  rw [given?, given?, h, hnothing]
  rfl

/-! ## Loading -/

theorem elim_eq_ok_iff {α ε : Type} {found : Option α} {error : ε} {x : α} :
    found.elim (Except.error error) .ok = .ok x ↔ found = some x := by
  cases found <;> simp

theorem exists_of_load (h : library.load sources = .ok settings) :
    ∃ defaults document, library.ofSettings {} = .ok defaults
      ∧ library.build? (defaults :: library.sourcesOf sources) = some document
      ∧ library.deserialize? document = some settings ∧ settings.check = .ok () := by
  obtain ⟨defaults, hdefaults, h⟩ := bind_eq_ok_iff.mp h
  obtain ⟨document, hdocument, h⟩ := bind_eq_ok_iff.mp h
  obtain ⟨found, hfound, h⟩ := bind_eq_ok_iff.mp h
  obtain ⟨hcheck, hresult⟩ := check_bind_eq_ok_iff.mp h
  cases hresult
  exact ⟨defaults, document, mapError_eq_ok_iff.mp hdefaults, elim_eq_ok_iff.mp hdocument,
    elim_eq_ok_iff.mp hfound, mapError_eq_ok_iff.mp hcheck⟩

/-- Loading knows of the sources nothing but what is built of them. -/
theorem load_congr (h : ∀ defaults, library.build? (defaults :: library.sourcesOf sources)
      = library.build? (defaults :: library.sourcesOf others)) :
    library.load sources = library.load others := by
  rw [load, load]
  exact congrArg _ (funext fun defaults => by rw [h])

/-- The value of a leaf is that of the highest source that sets it, else the default. -/
theorem valueIn?_of_load (laws : library.MergesInOrder) (keeps : library.KeepsLeaves)
    (htypes : library.HaveRightTypes sources) (h : library.load sources = .ok settings)
    (leaf : Leaf) :
    leaf.valueIn? settings = (library.given? sources leaf.path).or (leaf.valueIn? {}) := by
  obtain ⟨defaults, document, hdefaults, hbuild, hread, -⟩ := exists_of_load h
  have hcanonical := laws.isCanonical_of_build? _ document hbuild
  rw [laws.build?_cons] at hbuild
  obtain ⟨base, hbase, hjoined⟩ := Option.bind_eq_some_iff.mp hbuild
  obtain ⟨hbaseFits, hbaseLeaves⟩ := keeps.defaults defaults base hdefaults hbase
  obtain ⟨hfits, hleaves⟩ := laws.at?_addSources htypes hbaseFits hjoined
  rw [keeps.deserialize? document settings hfits hcanonical hread leaf, hleaves leaf,
    hbaseLeaves leaf, findSome?_reverse_sourcesOf, Option.or_assoc, Option.or_self]

end Library

/-- Settings pass their check and have each leaf from the highest of their sources that sets it. -/
structure IsLayered (settings : Settings) (library : Library) (sources : Sources) : Prop where
  passes : settings.check = .ok ()
  highest : ∀ leaf : Leaf,
    leaf.valueIn? settings = (library.given? sources leaf.path).or (leaf.valueIn? {})
  /-- A leaf that a document does not set is what it is without the document, whatever else the
  document sets in the table of the leaf. -/
  besideDocument : ∀ (layer : Layer) (leaf : Leaf) (others : Settings),
    library.documentSays? sources layer leaf.path = none →
    library.load (sources.withDocument layer none) = .ok others →
    leaf.valueIn? settings = leaf.valueIn? others
  /-- The same of the environment. -/
  besideEnvironment : ∀ (leaf : Leaf) (others : Settings),
    library.environmentSays? sources leaf.path = none →
    library.load { sources with environment := [] } = .ok others →
    leaf.valueIn? settings = leaf.valueIn? others

theorem isLayered_of_load {library : Library} (laws : library.MergesInOrder)
    (keeps : library.KeepsLeaves) {sources : Sources} {settings : Settings}
    (htypes : library.HaveRightTypes sources) (h : library.load sources = .ok settings) :
    settings.IsLayered library sources where
  passes := by
    obtain ⟨_, _, _, _, _, hcheck⟩ := Library.exists_of_load h
    exact hcheck
  highest := Library.valueIn?_of_load laws keeps htypes h
  besideDocument layer leaf others hnone hothers := by
    rw [Library.valueIn?_of_load laws keeps htypes h leaf,
      Library.valueIn?_of_load laws keeps (htypes.withoutDocument layer) hothers leaf,
      Library.given?_withDocument_none hnone]
  besideEnvironment leaf others hnone hothers := by
    rw [Library.valueIn?_of_load laws keeps htypes h leaf,
      Library.valueIn?_of_load laws keeps (htypes.withoutEnvironment laws) hothers leaf,
      Library.given?_withoutEnvironment laws hnone]

/-- Settings that are loaded from sources of the right types pass their check and have each leaf
from the highest source that sets it. Whatever their types, a document or an environment that says
nothing is as good as none, and leaving out the document of the user is as good as having none. -/
theorem isLayered_load (library : Library) (laws : library.MergesInOrder)
    (keeps : library.KeepsLeaves) (sources : Sources) :
    (∀ settings, library.HaveRightTypes sources → library.load sources = .ok settings →
        settings.IsLayered library sources)
      ∧ (∀ layer text, library.collect? (library.file text) = some [] →
          library.load (sources.withDocument layer (some text))
            = library.load (sources.withDocument layer none))
      ∧ (∀ environment, library.collect? (library.environment variableForm environment) = some [] →
          library.load { sources with environment }
            = library.load { sources with environment := [] })
      ∧ library.load { sources with includesUser := false }
          = library.load { sources with includesUser := true, user := none } := by
  refine ⟨fun settings => isLayered_of_load laws keeps, ?_, ?_, ?_⟩
  · intro layer text htext
    obtain ⟨below, above, hnone, hsome⟩ := sources.documents_withDocument layer text
    refine Library.load_congr fun defaults => ?_
    rw [Library.sourcesOf, Library.sourcesOf, Sources.environment_withDocument,
      Sources.environment_withDocument, hnone]
    rcases hsome with hsome | hsome
    · rw [hsome, List.map_append, List.map_cons, List.append_assoc, List.cons_append,
        ← List.cons_append, laws.build?_append_cons htext, List.map_append, List.append_assoc]
      rfl
    · rw [hsome]
  · intro environment hsilent
    refine Library.load_congr fun defaults => ?_
    rw [Library.sourcesOf, Library.sourcesOf, ← List.cons_append, ← List.cons_append,
      laws.build?_append_cons hsilent, laws.build?_append_cons (laws.collect?_environment_nil _)]
    rfl
  · exact Library.load_congr fun _ => rfl

/-- Sources that set the class of an action twice and leave its permissions to another one. -/
def overlappingSources : Sources where
  user := some "actions.run.class=\"dir\""
  project := some "[actions.run]\npermissions=[\"read\"]"
  personal := some "module.name=\"web\""
  environment := [("SELFORGE_ACTIONS__RUN__CLASS", "file"), ("HOME", "/root")]

theorem isLayered_overlappingSources :
    Library.plain.MergesInOrder ∧ Library.plain.KeepsLeaves
      ∧ Library.plain.HaveRightTypes overlappingSources
      ∧ (∃ settings, Library.plain.load overlappingSources = .ok settings
          ∧ settings = { moduleName := "web", actions := [("run", ⟨"file", ["read"]⟩)] }
          ∧ settings.IsLayered Library.plain overlappingSources)
      ∧ Library.plain.collect? (Library.plain.file "# Nothing yet.") = some []
      ∧ Library.plain.load (overlappingSources.withDocument .user (some "# Nothing yet."))
          = Library.plain.load (overlappingSources.withDocument .user none) := by
  have htyped :
      (Library.plain.sourcesOf overlappingSources).all PlainSource.isWellTyped = true := by
    decide +kernel
  have htypes : Library.plain.HaveRightTypes overlappingSources := fun source hsource =>
    hasRightTypes_of_isWellTyped (List.all_eq_true.mp htyped source hsource)
  have hload : Library.plain.load overlappingSources = .ok
      { moduleName := "web", actions := [("run", ⟨"file", ["read"]⟩)] } := by
    decide +kernel
  have hsilent : Library.plain.collect? (Library.plain.file "# Nothing yet.") = some [] := by
    rfl
  obtain ⟨hlayered, hempty, -, -⟩ :=
    isLayered_load Library.plain mergesInOrder_plain keepsLeaves_plain overlappingSources
  exact ⟨mergesInOrder_plain, keepsLeaves_plain, htypes, ⟨_, hload, rfl, hlayered _ htypes hload⟩,
    hsilent, hempty .user _ hsilent⟩

end TypeEnforcement.Settings
