import TypeEnforcement.FileKind
import TypeEnforcement.Proofs.Glob.Base
import TypeEnforcement.Proofs.Text.Parts
/-!
# The two spellings of a subtree

A subtree is written `d/*` or `d/**`. Four functions read the spelling on their own, each by tests
of its own on heads, parts and ends. Only the stars differ, and no test but those for the spelling
itself knows a star, so the others see the directory `d/` (`Text.startsWith_subtree`,
`Text.hasPart_subtree`, `Text.endsWith_subtree`).

The pattern, the name of the type and its attributes are the same for both spellings. The kind of
files is not: only `d/*` is known as a subtree, and of `d/**` the directory decides.

## Main results

* `FileKind.ofPath_subtree_two`: the kind of files of `d/**`, by its directory.
* `Glob.subtree_spellings_agree`: in what the two spellings agree.
-/

namespace TypeEnforcement

/-- All below a directory, spelled with a number of stars. -/
def Glob.subtree (directory : String) (stars : Nat) : String :=
  directory ++ "/" ++ String.ofList (List.replicate stars '*')

open Glob (subtree)

variable {directory : String} {stars : Nat}

namespace Glob

theorem subtree_one (directory : String) : subtree directory 1 = directory ++ "/*" := by
  rw [subtree, String.append_assoc]
  rfl

theorem subtree_two (directory : String) : subtree directory 2 = directory ++ "/**" := by
  rw [subtree, String.append_assoc]
  rfl

theorem toList_subtree (directory : String) (stars : Nat) :
    (subtree directory (stars + 1)).toList
      = (directory ++ "/").toList ++ '*' :: List.replicate stars '*' := by
  rw [subtree, String.toList_append, String.toList_ofList, List.replicate_succ]

end Glob

/-! ## Tests on a subtree -/

namespace Text

theorem startsWith_subtree {head : String} (hstar : '*' ∉ head.toList) :
    startsWith (subtree directory (stars + 1)) head = startsWith (directory ++ "/") head := by
  rw [Bool.eq_iff_iff, startsWith_iff_isPrefix, startsWith_iff_isPrefix, Glob.toList_subtree,
    prefix_append_cons_iff hstar]

theorem hasPart_subtree {part : String} (hstar : '*' ∉ part.toList) (hsome : part ≠ "") :
    hasPart (subtree directory (stars + 1)) part = hasPart (directory ++ "/") part := by
  have hstars : ¬ part.toList <:+: List.replicate stars '*' := by
    intro hlies
    obtain ⟨c, hc⟩ := List.exists_mem_of_ne_nil part.toList (by simpa using hsome)
    have heq : c = '*' := List.eq_of_mem_replicate (hlies.mem hc)
    exact hstar (heq ▸ hc)
  rw [Bool.eq_iff_iff, hasPart_iff_isInfix, hasPart_iff_isInfix, Glob.toList_subtree,
    infix_append_cons_iff hstar, or_iff_left hstars]

theorem endsWith_subtree {tail : String} (hstar : '*' ∉ tail.toList) (hsome : tail ≠ "") :
    endsWith (subtree directory (stars + 1)) tail = false := by
  rw [Bool.eq_false_iff]
  intro hends
  obtain ⟨before, hbefore⟩ := endsWith_iff.mp hends
  have hlast := congrArg List.getLast? hbefore
  rw [Glob.toList_subtree, ← List.replicate_succ, List.replicate_succ', ← List.append_assoc,
    List.getLast?_concat, List.getLast?_append_of_ne_nil _ (by simpa using hsome)] at hlast
  exact hstar (List.mem_of_getLast? hlast.symm)

theorem any_hasPart_subtree {parts : List String}
    (hparts : ∀ part ∈ parts, '*' ∉ part.toList ∧ part ≠ "") :
    parts.any (hasPart (subtree directory (stars + 1)))
      = parts.any (hasPart (directory ++ "/")) := by
  rw [Bool.eq_iff_iff, List.any_eq_true, List.any_eq_true]
  refine exists_congr fun part => and_congr_right fun hpart => ?_
  rw [hasPart_subtree (hparts part hpart).1 (hparts part hpart).2]

theorem any_endsWith_subtree {tails : List String}
    (htails : ∀ tail ∈ tails, '*' ∉ tail.toList ∧ tail ≠ "") :
    tails.any (endsWith (subtree directory (stars + 1))) = false := by
  rw [List.any_eq_false]
  intro tail htail
  rw [endsWith_subtree (htails tail htail).1 (htails tail htail).2]
  exact Bool.false_ne_true

end Text

/-! ## Patterns and names -/

namespace Glob

theorem stem?_subtree_two (directory : String) :
    stem? (subtree directory 2).toList = some directory.toList := by
  have hsuffix : "/**".toList <:+ (subtree directory 2).toList := ⟨directory.toList, by
    rw [subtree_two, String.toList_append]⟩
  rw [stem?, if_pos hsuffix, subtree_two, String.toList_append]
  simp

theorem stem?_subtree_one (hliteral : '*' ∉ directory.toList) :
    stem? (subtree directory 1).toList = some directory.toList := by
  -- One star alone is not two.
  have hcount : (subtree directory 1).toList.count '*' = 1 := by
    rw [subtree_one, String.toList_append, List.count_append, List.count_eq_zero.mpr hliteral]
    decide
  have hnone : ¬ "/**".toList <:+: (subtree directory 1).toList := by
    intro hlies
    have hle := hlies.sublist.count_le '*'
    rw [hcount] at hle
    exact absurd hle (by decide)
  have hsuffix : "/*".toList <:+ (subtree directory 1).toList := ⟨directory.toList, by
    rw [subtree_one, String.toList_append]⟩
  rw [stem?, if_neg (fun h => hnone h.isInfix), if_neg hnone, if_pos hsuffix, subtree_one,
    String.toList_append]
  simp

/-- Both spellings of a subtree have one pattern. -/
theorem pattern_subtree_two (hliteral : '*' ∉ directory.toList) :
    pattern (subtree directory 2) = pattern (subtree directory 1) := by
  apply String.toList_injective
  rw [toList_pattern, toList_pattern, stem?_subtree_two, stem?_subtree_one hliteral]
  cases directory.toList <;> rfl

end Glob

namespace TypeName

/-- The literal base of a subtree is its directory. -/
theorem literalBase_subtree (hliteral : ∀ c ∈ directory.toList, isGlobChar c = false)
    (stars : Nat) :
    literalBase (subtree directory (stars + 1)).toList = (directory ++ "/").toList := by
  have hkept : ∀ c ∈ (directory ++ "/").toList, (!isGlobChar c) = true := by
    intro c hc
    rw [String.toList_append, List.mem_append] at hc
    rcases hc with hc | hc
    · rw [hliteral c hc, Bool.not_false]
    · obtain rfl : c = '/' := List.mem_singleton.mp hc
      decide
  have hglob : (subtree directory (stars + 1)).toList.any isGlobChar = true := by
    rw [List.any_eq_true]
    exact ⟨'*', by simp [Glob.toList_subtree], by decide⟩
  rw [literalBase, if_pos hglob, Glob.toList_subtree, List.takeWhile_append_of_pos hkept,
    List.takeWhile_cons_of_neg (by decide), List.append_nil, String.toList_append]
  exact Glob.throughLastSlash_append_slash directory.toList

/-- The type of a subtree does not depend on its spelling. -/
theorem Scope.pathType_subtree (scope : Scope)
    (hliteral : ∀ c ∈ directory.toList, isGlobChar c = false) (stars others : Nat) :
    scope.pathType (subtree directory (stars + 1))
      = scope.pathType (subtree directory (others + 1)) := by
  rw [pathType, pathType, literalBase_subtree hliteral, literalBase_subtree hliteral]

/-! ## Attributes -/

/-- No part and no ending that gives an attribute has a star, and none is empty. -/
theorem attributeRules_plain : ∀ rule ∈ attributeRules,
    (∀ part ∈ rule.parts, '*' ∉ part.toList ∧ part ≠ "")
      ∧ ∀ tail ∈ rule.endings, '*' ∉ tail.toList ∧ tail ≠ "" := by
  decide

theorem applies_subtree {rule : AttributeRule} (hrule : rule ∈ attributeRules) :
    rule.applies (subtree directory (stars + 1))
      = rule.parts.any (Text.hasPart (directory ++ "/")) := by
  obtain ⟨hparts, hendings⟩ := attributeRules_plain rule hrule
  rw [AttributeRule.applies, Text.any_hasPart_subtree hparts, Text.any_endsWith_subtree hendings,
    Bool.or_false]

/-- The attributes of a subtree do not depend on its spelling. -/
theorem pathAttributes_subtree (directory : String) (stars others : Nat) :
    pathAttributes (subtree directory (stars + 1))
      = pathAttributes (subtree directory (others + 1)) := by
  have hprogram : ∀ n, isProgramPath (subtree directory (n + 1))
      = (Text.hasPart (directory ++ "/") "/bin" || Text.hasPart (directory ++ "/") "/sbin") := by
    intro n
    rw [isProgramPath, Text.hasPart_subtree (by decide) (by decide),
      Text.hasPart_subtree (by decide) (by decide)]
  have hrules : attributeRules.filter (·.applies (subtree directory (stars + 1)))
      = attributeRules.filter (·.applies (subtree directory (others + 1))) := by
    refine List.filter_congr ?_
    intro rule hrule
    rw [applies_subtree hrule, applies_subtree hrule]
  rw [pathAttributes, pathAttributes, hprogram, hprogram, hrules]

end TypeName

/-! ## Kinds of files -/

namespace FileKind

/-- What is spelled with one star is known as a subtree. -/
theorem ofPath_subtree_one (directory : String) : ofPath (subtree directory 1) = all := by
  have hslash : Text.endsWith (subtree directory 1) "/" = false :=
    Text.endsWith_subtree (by decide) (by decide)
  have hsubtree : Text.endsWith (subtree directory 1) "/*" = true :=
    Text.endsWith_iff.mpr ⟨directory.toList, by rw [Glob.subtree_one, String.toList_append]⟩
  rw [ofPath, hslash, hsubtree]
  rfl

/-- Whether a directory decides the kind of the files in it: it lies among the devices, or it is
one of sockets. -/
def IsDecidedBy (directory : String) : Prop :=
  Text.startsWith directory "/dev/" = true
    ∨ ∃ part ∈ socketDirectories, Text.hasPart directory part = true

instance (directory : String) : Decidable (IsDecidedBy directory) := by
  unfold IsDecidedBy
  infer_instance

theorem ofDevice_ne_all (path : List Char) : ofDevice path ≠ all := by
  unfold ofDevice
  split <;> decide

/-- No ending and no part that tells a kind has a star, and none is empty. -/
theorem tests_plain :
    (∀ tail ∈ socketEndings, '*' ∉ tail.toList ∧ tail ≠ "")
      ∧ (∀ tail ∈ regularEndings, '*' ∉ tail.toList ∧ tail ≠ "")
      ∧ ∀ part ∈ socketDirectories, '*' ∉ part.toList ∧ part ≠ "" := by
  decide

/-- Two stars do not end like a single one. -/
theorem endsWith_subtree_two (directory : String) :
    Text.endsWith (subtree directory 2) "/*" = false := by
  rw [Bool.eq_false_iff]
  intro hends
  obtain ⟨before, hbefore⟩ := Text.endsWith_iff.mp hends
  have hparts : (directory ++ "/").toList ++ ['*', '*'] = before ++ ['/', '*'] :=
    (Glob.toList_subtree directory 1).symm.trans hbefore
  obtain ⟨-, htail⟩ := List.append_inj' hparts rfl
  exact absurd htail (by decide)

/-- What is spelled with two stars is of any kind, unless the directory decides its kind. -/
theorem ofPath_subtree_two (directory : String) :
    ofPath (subtree directory 2) = all ↔ ¬ IsDecidedBy (directory ++ "/") := by
  obtain ⟨hsocketEnds, hregularEnds, hsockets⟩ := tests_plain
  have hslash : Text.endsWith (subtree directory 2) "/" = false :=
    Text.endsWith_subtree (by decide) (by decide)
  have hdevices : Text.startsWith (subtree directory 2) "/dev/"
      = Text.startsWith (directory ++ "/") "/dev/" := Text.startsWith_subtree (by decide)
  -- Only the tests of the directory are left.
  rw [ofPath, hslash, endsWith_subtree_two, Text.any_endsWith_subtree hsocketEnds,
    Text.any_endsWith_subtree hregularEnds, Text.any_hasPart_subtree hsockets, IsDecidedBy,
    ← hdevices, ← List.any_eq_true, not_or, Bool.false_or]
  simp only [Bool.false_eq_true, if_false]
  split
  · next device hstrip =>
    have hstarts : Text.startsWith (subtree directory 2) "/dev/" = true :=
      Option.isSome_iff_exists.mpr ⟨device, hstrip⟩
    simp [hstarts, ofDevice_ne_all device]
  · next hstrip =>
    rw [Text.stripHead?_eq_none_iff.mp hstrip]
    split
    · next hsome => simp [hsome]
    · next hnone => simp [hnone]

end FileKind

/-! ## Both spellings -/

/-- The two spellings of a subtree have the same pattern, the same type and the same attributes.
They have the same kind, too, unless the directory decides it, for only `d/*` is known as a subtree
of all kinds. -/
theorem Glob.subtree_spellings_agree (directory : String)
    (hliteral : ∀ c ∈ directory.toList, TypeName.isGlobChar c = false) :
    pattern (directory ++ "/**") = pattern (directory ++ "/*")
      ∧ (∀ scope : TypeName.Scope,
          scope.pathType (directory ++ "/**") = scope.pathType (directory ++ "/*"))
      ∧ TypeName.pathAttributes (directory ++ "/**") = TypeName.pathAttributes (directory ++ "/*")
      ∧ FileKindTable.empty.kindOf (directory ++ "/*") = .all
      ∧ (FileKindTable.empty.kindOf (directory ++ "/**")
            = FileKindTable.empty.kindOf (directory ++ "/*")
          ↔ ¬ FileKind.IsDecidedBy (directory ++ "/")) := by
  have hstar : '*' ∉ directory.toList := fun hmem => absurd (hliteral '*' hmem) (by decide)
  have hkind : ∀ path, FileKindTable.empty.kindOf path = .ofPath path := fun _ => rfl
  rw [← subtree_one, ← subtree_two, hkind, hkind, FileKind.ofPath_subtree_one]
  exact ⟨pattern_subtree_two hstar, fun scope => scope.pathType_subtree hliteral 1 0,
    TypeName.pathAttributes_subtree directory 1 0, rfl, FileKind.ofPath_subtree_two directory⟩

theorem Glob.subtree_spellings_agree_content :
    (∀ c ∈ "/srv/www".toList, TypeName.isGlobChar c = false)
      ∧ pattern "/srv/www/**" = pattern "/srv/www/*"
      ∧ FileKindTable.empty.kindOf "/srv/www/**" = FileKindTable.empty.kindOf "/srv/www/*" := by
  have hliteral : ∀ c ∈ "/srv/www".toList, TypeName.isGlobChar c = false := by
    simp [TypeName.isGlobChar]
  obtain ⟨hpattern, -, -, -, hkind⟩ := Glob.subtree_spellings_agree "/srv/www" hliteral
  exact ⟨hliteral, hpattern, hkind.mpr (by decide +kernel)⟩

/-- The files of all kinds below the directory of devices are labelled as character devices only,
if they are spelled with two stars. -/
theorem Glob.subtree_spellings_differ_devices :
    (∀ c ∈ "/dev".toList, TypeName.isGlobChar c = false)
      ∧ pattern "/dev/**" = pattern "/dev/*"
      ∧ FileKindTable.empty.kindOf "/dev/*" = .all
      ∧ FileKindTable.empty.kindOf "/dev/**" = .charDevice := by
  refine ⟨?_, by decide +kernel, by decide +kernel, by decide +kernel⟩
  simp [TypeName.isGlobChar]

end TypeEnforcement
