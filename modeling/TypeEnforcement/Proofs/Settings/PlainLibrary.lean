import TypeEnforcement.Proofs.Settings.Merging
import TypeEnforcement.Proofs.Toml.CanonicalKeys
import TypeEnforcement.Settings.Plain
/-!
# What the plain library does

`Library.plain` is as libraries are assumed to be: it joins sources in order (`mergesInOrder_plain`)
and keeps leaves of the right types (`keepsLeaves_plain`).

Joining is laying one value over another, and the tables of plain sources have canonical keys
whether they come from settings, files or the environment. As for the leaves, settings read from a
document in shape have at each leaf what the document has there, and the default where the document
has nothing (`Leaf.valueIn?_of_read`). Nothing is converted on the way: lenient reading takes an
integer for a text and a word for a boolean, but the values of a document in shape are texts and
booleans already.
-/

namespace TypeEnforcement.Settings

open Canonical Toml

/-! ## What is read of values in shape -/

theorem text_of_fits {value : Value} {s : String} (h : Shape.text.Fits value)
    (hread : Manner.lenient.text? value = some s) : value = .text s := by
  cases h
  exact congrArg Value.text (Option.some.inj hread)

theorem flag_of_fits {value : Value} {b : Bool} (h : Shape.flag.Fits value)
    (hread : Manner.lenient.flag? value = some b) : value = .boolean b := by
  cases h
  exact congrArg Value.boolean (Option.some.inj hread)

theorem readTexts_lenient (texts : List String) :
    readTexts .lenient (.array (texts.map .text)) = some texts := by
  change (texts.map Value.text).mapM Manner.lenient.text? = some texts
  induction texts with
  | nil => rfl
  | cons text texts ih =>
    rw [List.map_cons, List.mapM_cons, ih]
    rfl

theorem texts_of_fits {value : Value} {texts : List String} (h : Shape.texts.Fits value)
    (hread : readTexts .lenient value = some texts) : value = .array (texts.map .text) := by
  cases h with
  | texts ts =>
    rw [readTexts_lenient, Option.some.injEq] at hread
    rw [hread]

theorem keyed?_lenient (keys : List String) (es : Entries) :
    keyed? .lenient keys es = some es := by
  rw [keyed?, if_pos]
  exact List.all_eq_true.mpr fun entry _ => Bool.or_true _

/-- A table with a fixed set of keys is read as its entries. -/
theorem eq_table_of_part? {members : String → Option Shape} {keys : List String} {value : Value}
    {es : Entries} (h : (Shape.table members).Fits value)
    (hread : part? .lenient keys value = some es) : value = .table es := by
  cases value with
  | table fs =>
    change keyed? .lenient keys fs = some es at hread
    rw [keyed?_lenient] at hread
    exact congrArg Value.table (Option.some.inj hread)
  | _ => cases h

/-- What is read of a table is what is read of the value of each key. -/
theorem lookup_of_mapM {α : Type} {read : Value → Option α} {es : Entries}
    {entries : List (String × α)}
    (h : (es.mapM fun entry : String × Value => (read entry.2).map (entry.1, ·)) = some entries) :
    entries.map Prod.fst = es.map Prod.fst
      ∧ ∀ key, (es.lookup key).map read = (entries.lookup key).map some := by
  induction es generalizing entries with
  | nil =>
    cases h
    exact ⟨rfl, fun _ => rfl⟩
  | cons entry es ih =>
    rw [List.mapM_cons] at h
    obtain ⟨first, hfirst, hrest⟩ := Option.bind_eq_some_iff.mp h
    obtain ⟨x, hx, rfl⟩ := Option.map_eq_some_iff.mp hfirst
    obtain ⟨rest, hes, heq⟩ := Option.bind_eq_some_iff.mp hrest
    cases heq
    obtain ⟨hkeys, hlookup⟩ := ih hes
    refine ⟨by rw [List.map_cons, List.map_cons, hkeys], fun key => ?_⟩
    rw [lookup_cons, lookup_cons]
    by_cases hkey : key = entry.1
    · rw [if_pos hkey, if_pos hkey, Option.map_some, Option.map_some, hx]
    · rw [if_neg hkey, if_neg hkey, hlookup key]

/-- A table with free keys is read key by key. -/
theorem lookup_readMap {α : Type} {read : Value → Option α} {value : Value}
    {entries : List (String × α)} (hcanonical : value.IsCanonical)
    (h : readMap read value = some entries) (key : String) :
    (value.at? [key]).map read = (entries.lookup key).map some := by
  cases value with
  | table es =>
    obtain ⟨settings, hread, rfl⟩ := Option.map_eq_some_iff.mp h
    obtain ⟨hkeys, hlookup⟩ := lookup_of_mapM hread
    have hself : ofSettings settings = settings := by
      refine ofSettings_eq_self ?_
      rw [hkeys]
      exact hcanonical.keys
    rw [hself, ← hlookup key, Value.at?_table_cons]
    cases es.lookup key <;> rfl
  | _ => cases h

/-! ## What is read of a document in shape -/

section Documents

variable {document : Entries} {settings : Settings}

/-- What stands at a part and a field of it is read as `x`, and is the default if nothing stands
there. -/
def ReadsField {α : Type} (document : Entries) (read : Value → Option α) (part field : String)
    (default x : α) : Prop :=
  ∃ keys es, readPart .lenient document part keys = some es
    ∧ withDefault default read (es.lookup field) = some x

theorem lookup_readPart (hshape : documentShape.Fits (.table document))
    {part field : String} {members : String → Option Shape}
    (hpart : documentShape.member? part = some (.table members)) {keys : List String}
    {es : Entries} (h : readPart .lenient document part keys = some es) :
    es.lookup field = (Value.table document).at? [part, field] := by
  rw [readPart] at h
  rw [Value.at?_table_cons]
  cases hlookup : document.lookup part with
  | none =>
    rw [hlookup] at h
    cases h
    rfl
  | some value =>
    rw [hlookup] at h
    have hvalue : (Shape.table members).Fits value :=
      hshape.member hpart hlookup
    rw [eq_table_of_part? hvalue h, Option.bind_some, Value.at?_table_cons]
    cases es.lookup field <;> rfl

/-- A field is what the document has there, else the default. -/
theorem ReadsField.at?_or {α : Type} {read : Value → Option α} {make : α → Value}
    {part field : String} {default x : α} {leaf : Shape} {members : String → Option Shape}
    (h : ReadsField document read part field default x)
    (hshape : documentShape.Fits (.table document))
    (hpart : documentShape.member? part = some (.table members))
    (hleaf : members field = some leaf)
    (hread : ∀ {value x}, leaf.Fits value → read value = some x → value = make x) :
    some (make x) = ((Value.table document).at? [part, field]).or (some (make default)) := by
  obtain ⟨keys, es, hes, hx⟩ := h
  rw [lookup_readPart hshape hpart hes] at hx
  cases hat : (Value.table document).at? [part, field] with
  | none =>
    rw [hat] at hx
    cases hx
    rfl
  | some value =>
    rw [hat] at hx
    have hpath : documentShape.at? [part, field] = some leaf := by
      rw [Shape.at?, hpart, Option.bind_some, Shape.at?, Shape.member?, hleaf, Option.bind_some,
        Shape.at?]
    exact congrArg some (hread (hshape.of_at? hpath hat) hx).symm

/-- What settings that are read have, setting by setting. -/
structure IsReadFrom (settings : Settings) (document : Entries) : Prop where
  moduleName : ReadsField document Manner.lenient.text? "module" "name" "local" settings.moduleName
  version : ReadsField document Manner.lenient.text? "module" "version" "1.0.0" settings.version
  extendedGlobs : ReadsField document Manner.lenient.flag? "analyzer" "extended_globs" false
    settings.extendedGlobs
  infersTransitions : ReadsField document Manner.lenient.flag? "generator" "auto_transitions" true
    settings.infersTransitions
  labelsFiles : ReadsField document Manner.lenient.flag? "generator" "file_contexts" true
    settings.labelsFiles
  optimizes : ReadsField document Manner.lenient.flag? "optimizer" "enabled" true
    settings.optimizes
  eliminatesRedundant : ReadsField document Manner.lenient.flag? "optimizer" "eliminate_redundant"
    true settings.eliminatesRedundant
  prunesTypes : ReadsField document Manner.lenient.flag? "optimizer" "prune_unused_types" true
    settings.prunesTypes
  actions : withDefault [] (readMap (readMeaning .lenient)) (document.lookup "actions")
    = some settings.actions
  fileKinds : withDefault [] (readMap Manner.lenient.text?) (document.lookup "file_types")
    = some settings.fileKinds

theorem isReadFrom_of_read (h : read .lenient document = some settings) :
    settings.IsReadFrom document := by
  rw [read, keyed?_lenient] at h
  dsimp only [Option.bind_eq_bind, Option.bind_some] at h
  obtain ⟨module, hmodule, h⟩ := Option.bind_eq_some_iff.mp h
  obtain ⟨name, hname, h⟩ := Option.bind_eq_some_iff.mp h
  obtain ⟨version, hversion, h⟩ := Option.bind_eq_some_iff.mp h
  obtain ⟨analyzer, hanalyzer, h⟩ := Option.bind_eq_some_iff.mp h
  obtain ⟨globs, hglobs, h⟩ := Option.bind_eq_some_iff.mp h
  obtain ⟨generator, hgenerator, h⟩ := Option.bind_eq_some_iff.mp h
  obtain ⟨transitions, htransitions, h⟩ := Option.bind_eq_some_iff.mp h
  obtain ⟨labels, hlabels, h⟩ := Option.bind_eq_some_iff.mp h
  obtain ⟨optimizer, hoptimizer, h⟩ := Option.bind_eq_some_iff.mp h
  obtain ⟨enabled, henabled, h⟩ := Option.bind_eq_some_iff.mp h
  obtain ⟨redundant, hredundant, h⟩ := Option.bind_eq_some_iff.mp h
  obtain ⟨prune, hprune, h⟩ := Option.bind_eq_some_iff.mp h
  obtain ⟨actions, hactions, h⟩ := Option.bind_eq_some_iff.mp h
  obtain ⟨kinds, hkinds, h⟩ := Option.bind_eq_some_iff.mp h
  cases h
  exact {
    moduleName := ⟨_, module, hmodule, hname⟩
    version := ⟨_, module, hmodule, hversion⟩
    extendedGlobs := ⟨_, analyzer, hanalyzer, hglobs⟩
    infersTransitions := ⟨_, generator, hgenerator, htransitions⟩
    labelsFiles := ⟨_, generator, hgenerator, hlabels⟩
    optimizes := ⟨_, optimizer, hoptimizer, henabled⟩
    eliminatesRedundant := ⟨_, optimizer, hoptimizer, hredundant⟩
    prunesTypes := ⟨_, optimizer, hoptimizer, hprune⟩
    actions := hactions
    fileKinds := hkinds }

/-- A part with free keys is read key by key. -/
theorem lookup_of_readsMap {α : Type} {read : Value → Option α} {part : String}
    {entries : List (String × α)} (hcanonical : (Value.table document).IsCanonical)
    (h : withDefault [] (readMap read) (document.lookup part) = some entries) (key : String) :
    ((Value.table document).at? [part, key]).map read = (entries.lookup key).map some := by
  rw [Value.at?_table_cons]
  cases hpart : document.lookup part with
  | none =>
    rw [hpart] at h
    cases h
    rfl
  | some value =>
    rw [hpart] at h
    exact lookup_readMap (hcanonical.of_lookup hpart) h key

theorem at?_of_readMeaning {value : Value} {meaning : ActionMeaning}
    (hshape : meaningShape.Fits value) (h : readMeaning .lenient value = some meaning) :
    value.at? ["class"] = some (.text meaning.objectClass)
      ∧ value.at? ["permissions"] = some (.array (meaning.permissions.map .text)) := by
  simp only [readMeaning, Option.bind_eq_bind, Option.bind_eq_some_iff] at h
  obtain ⟨es, hes, objectClass, hclass, text, htext, permissions, hpermissions, texts, htexts,
    heq⟩ := h
  cases heq
  obtain rfl := eq_table_of_part? hshape hes
  have hclassShape : Shape.text.Fits objectClass := hshape.member rfl hclass
  have htextsShape : Shape.texts.Fits permissions :=
    hshape.member rfl hpermissions
  rw [Value.at?_table_cons, Value.at?_table_cons, hclass, hpermissions]
  exact ⟨congrArg some (text_of_fits hclassShape htext),
    congrArg some (texts_of_fits htextsShape htexts)⟩

/-- Reading each part and making parts of what is read is going to them in the document. -/
theorem map_eq_bind_of_map_eq {α : Type} {found : Option Value} {kept : Option α}
    {read : Value → Option α} {make : α → Value} {go : Value → Option Value}
    (h : found.map read = kept.map some)
    (hread : ∀ value x, found = some value → read value = some x → go value = some (make x)) :
    kept.map make = found.bind go := by
  cases found with
  | none =>
    cases kept with
    | none => rfl
    | some x => cases h
  | some value =>
    cases kept with
    | none => cases h
    | some x => exact (hread value x rfl (Option.some.inj h)).symm

/-- A leaf is what the document has there, else the default. -/
theorem Leaf.valueIn?_of_read (hshape : documentShape.Fits (.table document))
    (hcanonical : (Value.table document).IsCanonical) (h : read .lenient document = some settings)
    (leaf : Leaf) :
    leaf.valueIn? settings
      = ((Value.table document).at? leaf.path).or (leaf.valueIn? {}) := by
  have hread := isReadFrom_of_read h
  have hmeaning : ∀ {action value meaning},
      (Value.table document).at? ["actions", action] = some value →
      readMeaning .lenient value = some meaning →
      value.at? ["class"] = some (.text meaning.objectClass)
        ∧ value.at? ["permissions"] = some (.array (meaning.permissions.map .text)) := by
    intro action value meaning hat hmeans
    have hvalue : meaningShape.Fits value := hshape.of_at? rfl hat
    exact at?_of_readMeaning hvalue hmeans
  cases leaf with
  | moduleName => exact hread.moduleName.at?_or hshape rfl rfl text_of_fits
  | version => exact hread.version.at?_or hshape rfl rfl text_of_fits
  | extendedGlobs => exact hread.extendedGlobs.at?_or hshape rfl rfl flag_of_fits
  | infersTransitions => exact hread.infersTransitions.at?_or hshape rfl rfl flag_of_fits
  | labelsFiles => exact hread.labelsFiles.at?_or hshape rfl rfl flag_of_fits
  | optimizes => exact hread.optimizes.at?_or hshape rfl rfl flag_of_fits
  | eliminatesRedundant => exact hread.eliminatesRedundant.at?_or hshape rfl rfl flag_of_fits
  | prunesTypes => exact hread.prunesTypes.at?_or hshape rfl rfl flag_of_fits
  | actionClass action =>
    have hlookup := lookup_of_readsMap hcanonical hread.actions action
    rw [valueIn?, path, valueIn?, List.lookup_nil, Option.map_none, Option.or_none]
    refine (map_eq_bind_of_map_eq hlookup ?_).trans (Value.at?_append ["actions", action] _).symm
    exact fun value meaning hat hmeans => (hmeaning hat hmeans).1
  | actionPermissions action =>
    have hlookup := lookup_of_readsMap hcanonical hread.actions action
    rw [valueIn?, path, valueIn?, List.lookup_nil, Option.map_none, Option.or_none]
    refine (map_eq_bind_of_map_eq hlookup ?_).trans (Value.at?_append ["actions", action] _).symm
    exact fun value meaning hat hmeans => (hmeaning hat hmeans).2
  | fileKind path =>
    have hlookup := lookup_of_readsMap hcanonical hread.fileKinds path
    rw [valueIn?, Leaf.path, valueIn?, List.lookup_nil, Option.map_none, Option.or_none]
    refine (map_eq_bind_of_map_eq hlookup ?_).trans (Option.bind_fun_some _)
    intro value kind hat hkind
    have hvalue : Shape.text.Fits value := hshape.of_at? rfl hat
    exact congrArg some (text_of_fits hvalue hkind)

end Documents

/-! ## Canonical keys -/

theorem isCanonical_table_of_flat {es : Entries} (hkeys : StrictlyIncreasing (es.map Prod.fst))
    (hflat : ∀ entry ∈ es, ∀ fs, entry.2 ≠ .table fs) : (Value.table es).IsCanonical :=
  Value.isCanonical_table hkeys fun key part hpart =>
    Value.isCanonical_of_ne_table (hflat (key, part) (mem_of_lookup_eq_some hpart))

theorem isCanonical_meaningValue (meaning : ActionMeaning) : (meaningValue meaning).IsCanonical :=
  Value.isCanonical_ofSettings (by
    simp only [List.forall_mem_cons]
    refine ⟨?_, ?_, List.forall_mem_nil _⟩
    all_goals exact Value.isCanonical_of_ne_table fun _ heq => nomatch heq)

theorem isCanonical_toEntries (settings : Settings) :
    (Value.table (toEntries settings)).IsCanonical := by
  refine Value.isCanonical_ofSettings ?_
  simp only [List.forall_mem_cons]
  refine ⟨?_, ?_, ?_, ?_, ?_, ?_, List.forall_mem_nil _⟩
  case refine_5 =>
    refine Value.isCanonical_ofSettings fun entry hentry => ?_
    obtain ⟨⟨action, meaning⟩, -, rfl⟩ := List.mem_map.mp hentry
    exact isCanonical_meaningValue meaning
  case refine_6 =>
    refine Value.isCanonical_ofSettings fun entry hentry => ?_
    obtain ⟨⟨path, kind⟩, -, rfl⟩ := List.mem_map.mp hentry
    exact Value.isCanonical_of_ne_table fun _ heq => nomatch heq
  all_goals
    refine isCanonical_table_of_flat ?_ (by simp)
    simp only [List.map_cons, List.map_nil]
    decide

theorem isCanonical_of_valueOfVariable? {text : String} {value : Value}
    (h : valueOfVariable? text = some value) : value.IsCanonical := by
  refine Value.isCanonical_of_ne_table ?_
  rintro es rfl
  unfold valueOfVariable? at h
  split at h
  · cases h
  · cases h
  · split at h
    · cases h
    · split at h <;> cases h

theorem VariableForm.isCanonical_of_read? {form : VariableForm} {key text : String}
    {entry : String × Value} (h : form.read? key text = some entry) : entry.2.IsCanonical := by
  rw [VariableForm.read?] at h
  split at h
  · obtain ⟨value, hvalue, rfl⟩ := Option.map_eq_some_iff.mp h
    exact isCanonical_of_valueOfVariable? hvalue
  · cases h
    exact Value.isCanonical_of_ne_table fun _ heq => nomatch heq

theorem exists_of_mem_of_mapM {α β : Type} {read : α → Option β} {xs : List α} {ys : List β}
    (h : xs.mapM read = some ys) {y : β} (hy : y ∈ ys) : ∃ x ∈ xs, read x = some y := by
  induction xs generalizing ys with
  | nil =>
    cases h
    cases hy
  | cons x xs ih =>
    rw [List.mapM_cons] at h
    obtain ⟨first, hfirst, h⟩ := Option.bind_eq_some_iff.mp h
    obtain ⟨rest, hrest, heq⟩ := Option.bind_eq_some_iff.mp h
    cases heq
    rcases List.mem_cons.mp hy with rfl | hy
    · exact ⟨x, List.mem_cons_self, hfirst⟩
    · obtain ⟨x, hx, hread⟩ := ih hrest hy
      exact ⟨x, List.mem_cons_of_mem _ hx, hread⟩

theorem isCanonical_of_environmentEntries? {form : VariableForm}
    {bindings : List (String × String)} {said : Entries}
    (h : environmentEntries? form bindings = some said) :
    ∀ entry ∈ said, entry.2.IsCanonical := by
  intro entry hentry
  obtain ⟨⟨key, text⟩, -, hread⟩ := exists_of_mem_of_mapM h hentry
  exact VariableForm.isCanonical_of_read? hread

theorem isCanonical_of_collect? {source : PlainSource} {said : Entries}
    (h : source.collect? = some said) : ∀ entry ∈ said, entry.2.IsCanonical := by
  intro entry hentry
  cases source with
  | settings given =>
    cases h
    exact (isCanonical_toEntries given).of_mem hentry
  | file text =>
    have hparse : parse? (Text.withoutMark text) = some said := (Option.filter_eq_some_iff.mp h).1
    exact (isCanonical_of_parse? hparse).of_mem hentry
  | environment form bindings => exact isCanonical_of_environmentEntries? h entry hentry

theorem isCanonical_join {document : Value} {source : Entries}
    (hsource : ∀ entry ∈ source, entry.2.IsCanonical) (hdocument : document.IsCanonical) :
    (join document source).IsCanonical :=
  List.foldlRecOn source _ hdocument fun _ hbelow entry hentry =>
    Value.isCanonical_overlayAt (hsource entry hentry) hbelow

theorem isCanonical_of_foldlM_join {sources : List PlainSource} {document next : Value}
    (hdocument : document.IsCanonical)
    (h : sources.foldlM (fun document source => source.collect?.map (join document)) document
      = some next) : next.IsCanonical := by
  induction sources generalizing document with
  | nil =>
    cases h
    exact hdocument
  | cons source sources ih =>
    rw [List.foldlM_cons] at h
    obtain ⟨middle, hmiddle, hrest⟩ := Option.bind_eq_some_iff.mp h
    obtain ⟨said, hsaid, rfl⟩ := Option.map_eq_some_iff.mp hmiddle
    exact ih (isCanonical_join (isCanonical_of_collect? hsaid) hdocument) hrest

/-! ## The defaults -/

theorem placeOf_of_mem_toEntries {settings : Settings} :
    ∀ entry ∈ toEntries settings, placeOf entry.1 = [.key entry.1] := by
  have hnames : ∀ name ∈ (toEntries settings).map Prod.fst, placeOf name = [.key name] := by
    change ∀ name ∈ ["actions", "analyzer", "file_types", "generator", "module", "optimizer"], _
    decide +kernel
  exact fun entry hentry => hnames entry.1 (List.mem_map_of_mem hentry)

/-- A source whose keys are names is laid over a table as a table. -/
theorem join_of_names {source document : Entries}
    (hnames : ∀ entry ∈ source, placeOf entry.1 = [.key entry.1]) :
    join (.table document) source = (Value.table source).overlay (.table document) := by
  induction source generalizing document with
  | nil =>
    rw [Value.overlay]
    rfl
  | cons entry source ih =>
    obtain ⟨key, value⟩ := entry
    rw [List.forall_mem_cons] at hnames
    have hkey : placeOf key = [.key key] := hnames.1
    change join (value.overlayAt (placeOf key) (.table document)) source = _
    rw [hkey, Value.overlayAt, Value.overlayAt, ih hnames.2, Value.overlay, Value.overlay,
      Value.overlayAll]
    rfl

theorem overlay_toEntries :
    (Value.table (toEntries {})).overlay (.table []) = .table (toEntries {}) := by
  rfl

/-! ## The library -/

theorem mergesInOrder_plain : Library.plain.MergesInOrder where
  build?_eq _ := rfl
  setAt_key _ _ _ _ _ := ⟨_, rfl, fun _ => lookup_assign⟩
  setAt_table above document hkeys _ :=
    ⟨Value.overlayAll above document.entries, by
      change Value.overlay _ _ = _
      rw [Value.overlay], fun _ => Value.lookup_overlayAll hkeys⟩
  setAt_of_ne_table _ _ hvalue := Value.overlay_of_ne_table hvalue
  collect?_environment_nil _ := rfl
  isCanonical_of_collect? _ _ := isCanonical_of_collect?
  isCanonical_of_build? _ _ := isCanonical_of_foldlM_join Value.isCanonical_table_nil

theorem keepsLeaves_plain : Library.plain.KeepsLeaves where
  defaults source document hsource hbuild := by
    cases hsource
    have hdocument : document = .table (toEntries {}) := by
      rw [← overlay_toEntries, ← join_of_names placeOf_of_mem_toEntries]
      exact (Option.some.inj hbuild).symm
    rw [hdocument]
    exact ⟨Shape.fits_of_admits _ rfl, fun leaf => by cases leaf <;> rfl⟩
  deserialize? document settings hfits hcanonical hread leaf := by
    have htable : document = .table document.entries := hfits.eq_table
    rw [htable] at hfits hcanonical ⊢
    exact leaf.valueIn?_of_read hfits hcanonical hread

/-- Whether what a plain source says has the right types. -/
def PlainSource.isWellTyped (source : PlainSource) : Bool :=
  source.collect?.all fun said =>
    said.all fun entry => documentShape.admitsAt (placeOf entry.1) entry.2

theorem hasRightTypes_of_isWellTyped {source : PlainSource} (h : source.isWellTyped = true) :
    Library.plain.HasRightTypes source := by
  intro said hsaid entry hentry
  change source.collect? = some said at hsaid
  rw [PlainSource.isWellTyped, hsaid, Option.all_some, List.all_eq_true] at h
  exact Shape.fitsAt_of_admitsAt (h entry hentry)

end TypeEnforcement.Settings
