import TypeEnforcement.Proofs.Rule.Reading
import TypeEnforcement.Proofs.Text.Parts
/-!
# What an object is

An object is looked at twice: when its row is read it is classified by how it begins, and when its
rule is checked it is judged by its characters and its shape. The four kinds exclude one another
(`ObjectRef.ofText_eq_iff`), and an object that is not empty passes if it is spelled from the
accepted characters and complete as an object of its kind (`Object.fault?_eq_none_iff`). So the two
agree on the kind of each object that passes.

## Main results

* `ObjectRef.ofText_eq_iff`: which object is classified as what.
* `Object.fault?_eq_none_iff`: which objects pass.
* `Rule.isClassified_of_check`: the kind of an object that passes, by its text.
* `Rule.check_extended`: the extended spelling refuses no rule that the plain one accepts.
-/

namespace TypeEnforcement

open Text

namespace Text

theorem isNumeral_iff {s : String} :
    isNumeral s = true ↔ s ≠ "" ∧ ∀ c ∈ s.toList, c.isDigit = true := by
  simp [isNumeral]

end Text

/-! ## Kinds of objects -/

namespace ObjectRef

/-- How the text of each kind of object begins, and of what it is made. A token is what is none of
the others. -/
def IsShaped : ObjectRef → Prop
  | path p => startsWith p "/" = true
  | network _ _ => True
  | port n => isNumeral n = true
  | token t =>
    startsWith t "/" = false ∧ (∀ protocol : Protocol, startsWith t protocol.scheme = false)
      ∧ isNumeral t = false

/-- A network object has the text that its protocol was stripped from. -/
theorem text_network {object : String} {protocol : Protocol} {rest : List Char}
    (h : stripHead? protocol.scheme.toList object.toList = some rest) :
    (network protocol (String.ofList rest)).text = object := by
  apply String.toList_injective
  rw [text, String.toList_append, String.toList_ofList]
  exact (stripHead?_eq_some_iff.mp h).symm

theorem ofText_spec (object : String) :
    (ofText object).text = object ∧ (ofText object).IsShaped := by
  rw [ofText]
  split
  · next hroot => exact ⟨rfl, hroot⟩
  next hroot =>
  split
  · next rest hrest => exact ⟨text_network hrest, trivial⟩
  next htcp =>
  split
  · next rest hrest => exact ⟨text_network hrest, trivial⟩
  next hudp =>
  split
  · next hnumeral => exact ⟨rfl, hnumeral⟩
  · next hnumeral =>
    refine ⟨rfl, eq_false_of_ne_true hroot, ?_, eq_false_of_ne_true hnumeral⟩
    intro protocol
    cases protocol with
    | tcp => exact stripHead?_eq_none_iff.mp htcp
    | udp => exact stripHead?_eq_none_iff.mp hudp

/-- A text without slash and colon is no path and no network object. -/
theorem not_startsWith_of_forall {s : String} {accepted : Char → Bool}
    (hs : ∀ c ∈ s.toList, accepted c = true) (hslash : accepted '/' = false)
    (hcolon : accepted ':' = false) :
    startsWith s "/" = false ∧ ∀ protocol : Protocol, startsWith s protocol.scheme = false := by
  refine ⟨startsWith_eq_false (c := '/') (by decide) ?_, fun protocol =>
    startsWith_eq_false (c := ':') (by cases protocol <;> decide) ?_⟩
  · intro hmem
    exact Bool.false_ne_true (hslash.symm.trans (hs _ hmem))
  · intro hmem
    exact Bool.false_ne_true (hcolon.symm.trans (hs _ hmem))

theorem ofText_text {ref : ObjectRef} (h : ref.IsShaped) : ofText ref.text = ref := by
  cases ref with
  | path p => exact if_pos h
  | network protocol n =>
    cases protocol <;>
      simp [ofText, text, startsWith, stripHead?, Protocol.scheme, Protocol.name]
  | port n =>
    have hnumeral : isNumeral n = true := h
    obtain ⟨hroot, hscheme⟩ :=
      not_startsWith_of_forall (isNumeral_iff.mp hnumeral).2 (by decide) (by decide)
    show ofText n = port n
    simp [ofText, hroot, stripHead?_eq_none_iff.mpr (hscheme _), hnumeral]
  | token t =>
    obtain ⟨hroot, hscheme, hnumeral⟩ := h
    show ofText t = token t
    simp [ofText, hroot, stripHead?_eq_none_iff.mpr (hscheme _), hnumeral]

/-- An object is classified as what has its text and is shaped like its kind. -/
theorem ofText_eq_iff {object : String} {ref : ObjectRef} :
    ofText object = ref ↔ ref.text = object ∧ ref.IsShaped := by
  constructor
  · rintro rfl
    exact ofText_spec object
  · rintro ⟨rfl, hshaped⟩
    exact ofText_text hshaped

end ObjectRef

/-! ## Objects that pass -/

namespace Object

variable {extended : Bool} {object : String}

theorem isIdentifier_iff :
    isIdentifier object = true ↔
      '_' ∈ object.toList ∧ ∀ c ∈ object.toList, isNameChar c = true := by
  simp only [isIdentifier, Bool.and_eq_true, List.contains_iff_mem, List.all_eq_true]

/-- An identifier has the shape of a token. -/
theorem isShaped_of_isIdentifier (h : isIdentifier object = true) :
    (ObjectRef.token object).IsShaped := by
  obtain ⟨hunderscore, hname⟩ := isIdentifier_iff.mp h
  obtain ⟨hroot, hscheme⟩ := ObjectRef.not_startsWith_of_forall hname (by decide) (by decide)
  refine ⟨hroot, hscheme, ?_⟩
  rw [Bool.eq_false_iff]
  intro hnumeral
  exact absurd ((isNumeral_iff.mp hnumeral).2 _ hunderscore) (by decide)

/-- When an object of a kind is complete: a network object has a port number, and a token is an
identifier. Network objects belong to the extended spelling. -/
def IsComplete (extended : Bool) : ObjectRef → Prop
  | .path _ => True
  | .network _ port => extended = true ∧ isNumeral port = true
  | .port _ => True
  | .token token => isIdentifier token = true

/-- The accepted shapes of a text that is shaped like an object of a kind. -/
theorem hasShape_text {ref : ObjectRef} (hshaped : ref.IsShaped) (hsome : ref.text ≠ "") :
    hasShape extended ref.text = true ↔ IsComplete extended ref := by
  cases ref with
  | path p =>
    have hroot : startsWith p "/" = true := hshaped
    simp [hasShape, ObjectRef.text, IsComplete, hroot]
  | network protocol n =>
    -- A network object has a colon and begins with a letter, so it is nothing else.
    have hidentifier : isIdentifier (protocol.scheme ++ n) = false := by
      cases protocol <;> simp [isIdentifier, Protocol.scheme, Protocol.name, isNameChar]
    have hdigits : (protocol.scheme ++ n).toList.all Char.isDigit = false := by
      cases protocol <;> simp [Protocol.scheme, Protocol.name, Char.isDigit]
    have hroot : startsWith (protocol.scheme ++ n) "/" = false := by
      cases protocol <;> simp [startsWith, stripHead?, Protocol.scheme, Protocol.name]
    have hendpoint : isEndpoint (protocol.scheme ++ n) = isNumeral n := by
      cases protocol <;> simp [isEndpoint, stripHead?, Protocol.scheme, Protocol.name]
    simp only [hasShape, ObjectRef.text, IsComplete, hroot, hidentifier, hdigits, hendpoint,
      Bool.false_or, Bool.and_eq_true]
  | port n =>
    have hdigits := (isNumeral_iff.mp hshaped).2
    simp only [hasShape, ObjectRef.text, IsComplete, iff_true, Bool.or_eq_true, List.all_eq_true]
    exact Or.inl (Or.inr hdigits)
  | token t =>
    obtain ⟨hroot, hscheme, hnumeral⟩ := hshaped
    have hdigits : t.toList.all Char.isDigit = false := by
      rw [Bool.eq_false_iff]
      intro hall
      have hnumeral' : isNumeral t = true := isNumeral_iff.mpr ⟨hsome, List.all_eq_true.mp hall⟩
      exact absurd hnumeral' (by simp [hnumeral])
    have hendpoint : isEndpoint t = false := by
      simp [isEndpoint, stripHead?_eq_none_iff.mpr (hscheme _)]
    simp [hasShape, ObjectRef.text, IsComplete, hroot, hdigits, hendpoint]

/-- An object that is not empty passes if it is spelled from the accepted characters and complete
as an object of its kind. -/
theorem fault?_eq_none_iff (hsome : object ≠ "") :
    fault? extended object = none ↔
      (∀ c ∈ object.toList, accepts extended c = true)
        ∧ IsComplete extended (.ofText object) := by
  obtain ⟨htext, hshaped⟩ := ObjectRef.ofText_spec object
  have hcomplete : hasShape extended object = true ↔ IsComplete extended (.ofText object) := by
    rw [← hasShape_text hshaped (htext.symm ▸ hsome), htext]
  rw [← hcomplete, fault?]
  split
  · next c hc =>
    have hrefused := List.find?_some hc
    have hmem := List.mem_of_find?_eq_some hc
    simp only [reduceCtorEq, false_iff, not_and]
    intro hall
    simp [hall c hmem] at hrefused
  · next hnone =>
    have hall : ∀ c ∈ object.toList, accepts extended c = true := by
      intro c hc
      simpa using List.find?_eq_none.mp hnone c hc
    rw [and_iff_right hall]
    cases hasShape extended object <;> simp

/-- What an object that passes is, by its text alone. -/
structure IsClassified (extended : Bool) (object : String) (ref : ObjectRef) : Prop where
  spelled : ∀ c ∈ object.toList, accepts extended c = true
  /-- Nothing of the object is lost, whatever its kind. -/
  text : ref.text = object
  path : ref = .path object ↔ startsWith object "/" = true
  network : ∀ protocol port, ref = .network protocol port ↔
    extended = true ∧ object = protocol.scheme ++ port ∧ isNumeral port = true
  port : ref = .port object ↔ isNumeral object = true
  token : ref = .token object ↔ isIdentifier object = true

theorem isClassified_of_fault? (hsome : object ≠ "") (h : fault? extended object = none) :
    IsClassified extended object (.ofText object) := by
  obtain ⟨hspelled, hcomplete⟩ := (fault?_eq_none_iff hsome).mp h
  refine ⟨hspelled, (ObjectRef.ofText_spec object).1, ?path, ?network, ?port, ?token⟩
  case path =>
    rw [ObjectRef.ofText_eq_iff]
    exact and_iff_right rfl
  case network =>
    intro protocol port
    constructor
    · intro href
      obtain ⟨htext, -⟩ := ObjectRef.ofText_eq_iff.mp href
      rw [href] at hcomplete
      exact ⟨hcomplete.1, htext.symm, hcomplete.2⟩
    · intro h
      exact ObjectRef.ofText_eq_iff.mpr ⟨h.2.1.symm, trivial⟩
  case port =>
    rw [ObjectRef.ofText_eq_iff]
    exact and_iff_right rfl
  case token =>
    constructor
    · intro href
      rw [href] at hcomplete
      exact hcomplete
    · intro hidentifier
      exact ObjectRef.ofText_eq_iff.mpr ⟨rfl, isShaped_of_isIdentifier hidentifier⟩

/-! ### The extended spelling -/

theorem accepts_extended {c : Char} (h : accepts false c = true) : accepts true c = true := by
  simp only [accepts, Bool.false_and, Bool.or_false] at h
  simp only [accepts, h, Bool.true_or]

/-- The extended spelling accepts more characters and more shapes. -/
theorem fault?_extended (hsome : object ≠ "") (h : fault? false object = none) :
    fault? true object = none := by
  obtain ⟨hspelled, hcomplete⟩ := (fault?_eq_none_iff hsome).mp h
  refine (fault?_eq_none_iff hsome).mpr ⟨fun c hc => accepts_extended (hspelled c hc), ?_⟩
  cases href : ObjectRef.ofText object with
  | path p => trivial
  | network protocol port =>
    rw [href] at hcomplete
    exact absurd hcomplete.1 (by decide)
  | port n => trivial
  | token t =>
    rw [href] at hcomplete
    exact hcomplete

end Object

/-! ## Rules that pass -/

namespace Rule

variable {rule : Rule} {extended : Bool}

theorem object_ne_empty (h : rule.check extended = .ok ()) : rule.object ≠ "" :=
  (check_eq_ok_iff.mp h).1 ("object", rule.object) (by simp [requiredFields])

/-- The kind of the object of a rule that passes, by its text. -/
theorem isClassified_of_check (hdecoded : rule.IsDecoded) (h : rule.check extended = .ok ()) :
    Object.IsClassified extended rule.object rule.objectRef := by
  rw [hdecoded.objectRef]
  exact Object.isClassified_of_fault? (object_ne_empty h) (check_eq_ok_iff.mp h).2.2

/-- The token of a rule that passes is an identifier. -/
theorem isIdentifier_of_token {token : String} (hdecoded : rule.IsDecoded)
    (hcheck : rule.check extended = .ok ()) (htoken : rule.objectRef = .token token) :
    Object.isIdentifier token = true := by
  have hclassified := isClassified_of_check hdecoded hcheck
  have htext : rule.objectRef.text = rule.object := hclassified.text
  rw [htoken] at htext
  obtain rfl : token = rule.object := htext
  exact hclassified.token.mp htoken

/-- A rule that passes in the plain spelling passes in the extended one. -/
theorem check_extended (h : rule.check false = .ok ()) : rule.check true = .ok () := by
  obtain ⟨hfields, heffect, hobject⟩ := check_eq_ok_iff.mp h
  exact check_eq_ok_iff.mpr
    ⟨hfields, heffect, Object.fault?_extended (object_ne_empty h) hobject⟩

end Rule

end TypeEnforcement
