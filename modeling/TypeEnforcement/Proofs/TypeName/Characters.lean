import TypeEnforcement.Proofs.Rule.Reading
import TypeEnforcement.Proofs.TypeName.Paths
/-!
# The characters of path types

Three lists of characters decide which of them get into the name of a path type: those that an
object may have, those that end the literal base of a glob, and those that sanitizing takes for
separators. What is in the first and in neither of the others stays in the name, and that is the
equals sign (`TypeName.eq_equals_of_accepts`). So the type of an accepted path is an identifier if
there is no equals sign in the literal base of the path, and only then.

## Main result

* `TypeName.Scope.forall_isNameChar_pathType_iff`: when the type of an accepted path is an
  identifier.
-/

namespace TypeEnforcement.TypeName

open Text

variable {name : String} {path : List Char} {c : Char}

/-! ## Where characters come from -/

/-- The literal base of a path holds characters of the path, and no wildcards. -/
theorem of_mem_literalBase (h : c ∈ literalBase path) : c ∈ path ∧ isGlobChar c = false := by
  have hbase : IsLiteralBase path (literalBase path) := isLiteralBase_iff.mpr rfl
  rcases hbase with ⟨hsame, hplain⟩ | ⟨dangling, d, after, hpath, -, hplain, -, -⟩
  · rw [hsame] at h
    exact ⟨h, hplain c h⟩
  · refine ⟨?_, hplain c (List.mem_append_left dangling h)⟩
    rw [hpath, List.append_assoc]
    exact List.mem_append_left _ h

theorem mem_ensureEnding (hc : c ∉ ending.toList) :
    c ∈ (ensureEnding name).toList ↔ c ∈ name.toList := by
  rw [ensureEnding]
  split
  · rfl
  · rw [String.toList_append, List.mem_append, or_iff_left hc]

namespace Scope

theorem mem_qualify {scope : Scope} (hne : c ≠ '_') (hscope : c ∉ scope.stem.toList) :
    c ∈ (scope.qualify name).toList ↔ c ∈ name.toList := by
  rw [qualify]
  split
  · rfl
  · have hmark : c ∉ "_".toList := by simpa using hne
    rw [String.toList_append, String.toList_append, List.mem_append, List.mem_append,
      or_iff_right (not_or.mpr ⟨hscope, hmark⟩)]

theorem mem_stemOf {path : String} (hne : c ≠ '_') (hroot : c ∉ "root".toList) :
    c ∈ (stemOf path).toList ↔ c ∈ literalBase path.toList ∧ isSeparator c = false := by
  have hbase : c ∈ (sanitize (String.ofList (literalBase path.toList))).toList
      ↔ c ∈ literalBase path.toList ∧ isSeparator c = false := by
    rw [mem_sanitize hne, String.toList_ofList]
  rw [← hbase, stemOf]
  split
  · next hnone =>
    rw [hnone]
    exact iff_of_false hroot List.not_mem_nil
  · rfl

/-- A character that no identifier has gets into the name of a path type from the literal base. -/
theorem mem_pathType {scopeName path : String} (hname : isNameChar c = false)
    (hscope : c ∉ (sanitize scopeName).toList) :
    c ∈ ((ofModule scopeName).pathType path).toList
      ↔ c ∈ literalBase path.toList ∧ isSeparator c = false := by
  have hother : ∀ d, isNameChar d = true → c ≠ d := by
    rintro d hd rfl
    rw [hname] at hd
    cases hd
  have hall : ∀ s : String, s.toList.all isNameChar = true → c ∉ s.toList :=
    fun s hs hmem => hother c (List.all_eq_true.mp hs c hmem) rfl
  have hne : c ≠ '_' := hother '_' (by decide)
  have hstem : c ∉ (ofModule scopeName).stem.toList := hscope
  rw [pathType_eq, mem_ensureEnding (hall ending (by decide)), mem_qualify hne hstem,
    mem_stemOf hne (hall "root" (by decide))]

end Scope

/-! ## Accepted characters -/

/-- The equals sign is the only accepted character that is no part of an identifier, does not end
the literal base of a glob and is no separator. -/
theorem eq_equals_of_accepts (haccepts : Object.accepts false c = true)
    (hname : isNameChar c = false) (hglob : isGlobChar c = false)
    (hseparator : isSeparator c = false) : c = '=' := by
  rw [isNameChar, Bool.or_eq_false_iff] at hname
  simp only [Object.accepts, hname.1, Object.punctuation, Bool.false_or, Bool.false_and,
    Bool.or_false, List.contains_iff_mem, List.mem_cons, List.not_mem_nil, or_false] at haccepts
  rcases haccepts with rfl | rfl | rfl | rfl | rfl | rfl | rfl
  · exact absurd hseparator (by decide)
  · exact absurd hglob (by decide)
  · exact absurd hseparator (by decide)
  · exact absurd hseparator (by decide)
  · exact absurd hseparator (by decide)
  · exact absurd hglob (by decide)
  · rfl

/-- The name of a scope has no characters but those of identifiers, if its module has none but those
and separators. -/
theorem notMem_sanitize {text : String}
    (h : ∀ d ∈ text.toList, isNameChar d = true ∨ d = '-' ∨ d = '.')
    (hname : isNameChar c = false) : c ∉ (sanitize text).toList := by
  have hne : c ≠ '_' := by
    rintro rfl
    exact absurd hname (by decide)
  rw [mem_sanitize hne]
  intro hboth
  obtain ⟨hmem, hseparator⟩ := hboth
  rcases h c hmem with hc | rfl | rfl
  · rw [hname] at hc
    cases hc
  · exact absurd hseparator (by decide)
  · exact absurd hseparator (by decide)

namespace Scope

/-- The type of an accepted path has no characters but those of identifiers and the equals sign, and
it is an identifier if and only if no equals sign is in the literal base of the path. -/
theorem forall_isNameChar_pathType_iff (scopeName : String) {rule : Rule}
    (hscope : ∀ c ∈ scopeName.toList, isNameChar c = true ∨ c = '-' ∨ c = '.')
    (hcheck : rule.check false = .ok ()) :
    (∀ c ∈ ((ofModule scopeName).pathType rule.object).toList, isNameChar c = true ∨ c = '=')
      ∧ ((∀ c ∈ ((ofModule scopeName).pathType rule.object).toList, isNameChar c = true)
          ↔ '=' ∉ literalBase rule.object.toList) := by
  have hequals : ∀ c ∈ ((ofModule scopeName).pathType rule.object).toList,
      isNameChar c = true ∨ c = '=' := by
    intro c hc
    cases hname : isNameChar c with
    | true => exact Or.inl rfl
    | false =>
      obtain ⟨hbase, hseparator⟩ := (mem_pathType hname (notMem_sanitize hscope hname)).mp hc
      obtain ⟨hmem, hglob⟩ := of_mem_literalBase hbase
      have haccepts := Rule.accepts_of_check hcheck c hmem
      exact Or.inr (eq_equals_of_accepts haccepts hname hglob hseparator)
  have hmem : '=' ∈ ((ofModule scopeName).pathType rule.object).toList
      ↔ '=' ∈ literalBase rule.object.toList := by
    rw [mem_pathType (by decide) (notMem_sanitize hscope (by decide))]
    exact and_iff_left (by decide)
  refine ⟨hequals, ?_⟩
  rw [← hmem]
  constructor
  · intro hall hin
    exact absurd (hall '=' hin) (by decide)
  · intro hnone c hc
    exact (hequals c hc).resolve_right fun heq => hnone (heq ▸ hc)

theorem forall_isNameChar_pathType_content :
    ∃ rule : Rule, rule.check false = .ok () ∧ rule.object = "/srv/a-b.d/*=?"
      ∧ ∀ c ∈ ((ofModule "my-app.v2").pathType rule.object).toList, isNameChar c = true := by
  have hcheck : (Rule.ofPolicyFields "web_t" "/srv/a-b.d/*=?" "read" "file" "allow" "" none).check
      false = .ok () := by decide +kernel
  have hscope : ∀ c ∈ "my-app.v2".toList, isNameChar c = true ∨ c = '-' ∨ c = '.' := by
    simp [isNameChar]
  have hiff := (forall_isNameChar_pathType_iff "my-app.v2" hscope hcheck).2
  exact ⟨_, hcheck, rfl, hiff.mpr (by decide +kernel)⟩

/-- An equals sign in the name of a directory is accepted and stays in the name of its type. -/
theorem not_isNameChar_pathType_equals :
    ∃ rule : Rule, rule.check false = .ok () ∧ rule.objectRef = .path rule.object
      ∧ rule.object = "/srv/a=b"
      ∧ (∀ c ∈ "local".toList, isNameChar c = true)
      ∧ (ofModule "local").pathType rule.object = "local_srv_a=b_t"
      ∧ ¬ ∀ c ∈ ((ofModule "local").pathType rule.object).toList, isNameChar c = true := by
  have hname : (ofModule "local").pathType "/srv/a=b" = "local_srv_a=b_t" := by decide +kernel
  refine ⟨.ofPolicyFields "web_t" "/srv/a=b" "read" "file" "allow" "" none, by decide +kernel,
    by decide +kernel, rfl, List.all_eq_true.mp (by decide), hname, ?_⟩
  intro hall
  exact absurd (hall '=' (hname ▸ by decide)) (by decide)

end Scope

end TypeEnforcement.TypeName
