import Mathlib.Computability.Language
/-!
# Patterns as regular expressions

What the text of a pattern means, read as a regular expression in the syntax that the common
dialects share: plain characters, characters escaped by a backslash, `.`, a bracket class of all
characters but one, groups, `|`, and the repetitions `*`, `+` and `?` after a single part.
Everything else that means something in some dialect is refused, among it braces and anchors that
are not escaped, escaped letters, and a repetition of a repetition.

`Pattern.read?` reads in two steps: `tokens?` makes out characters, classes and marks, and a reader
with a stack of open groups (`Reader.step`) puts the tokens together. `Pattern.language` is the set
of texts that a pattern matches from end to end.

## Main results

* `Pattern.Spells.append`: texts that are read as tokens can be put together.
* `Pattern.Reads.append`, `Pattern.Reads.group`: tokens in a row are read as what they are read as
  one after the other, and tokens between the marks of a group as a choice, wherever that is.
-/

namespace TypeEnforcement

/-! ## Patterns and what they match -/

/-- The characters that one place of a pattern matches. -/
inductive CharSet where
  | only (c : Char)
  /-- Any character but a line end. -/
  | notLineEnd
  | allBut (c : Char)
deriving DecidableEq, Repr

namespace CharSet

/-- Whether a set has a character. -/
def has : CharSet → Char → Bool
  | only c, x => x == c
  | notLineEnd, x => x != '\n'
  | allBut c, x => x != c

end CharSet

/-- A regular expression. -/
inductive Pattern where
  /-- Matches nothing. -/
  | never
  /-- Matches the empty text. -/
  | empty
  | char (set : CharSet)
  | seq (first second : Pattern)
  | either (first second : Pattern)
  | star (part : Pattern)
  | plus (part : Pattern)
  | optional (part : Pattern)
deriving DecidableEq, Repr

namespace Pattern

/-- The texts of one character from a set. -/
def oneOf (set : CharSet) : Language Char :=
  { text | ∃ c, set.has c = true ∧ text = [c] }

/-- The texts that a pattern matches from end to end. -/
def language : Pattern → Language Char
  | never => 0
  | empty => 1
  | char set => oneOf set
  | seq first second => first.language * second.language
  | either first second => first.language + second.language
  | star part => KStar.kstar part.language
  | plus part => part.language * KStar.kstar part.language
  | optional part => 1 + part.language

/-! ## Tokens -/

/-- A token of the text of a pattern. -/
inductive Token where
  | char (set : CharSet)
  | star
  | plus
  | optional
  | groupOpen
  | alternative
  | groupClose
deriving DecidableEq, Repr

/-- The characters that mean something of their own outside a bracket class. -/
def specials : List Char :=
  ['\\', '.', '*', '+', '?', '(', ')', '|', '[', ']', '\x7b', '\x7d', '^', '$']

/-- The token of a character that stands by itself. Brackets, braces, anchors and the backslash do
not. -/
def tokenOf? (c : Char) : Option Token :=
  if c = '.' then some (.char .notLineEnd)
  else if c = '*' then some .star
  else if c = '+' then some .plus
  else if c = '?' then some .optional
  else if c = '(' then some .groupOpen
  else if c = '|' then some .alternative
  else if c = ')' then some .groupClose
  else if specials.contains c then none
  else some (.char (.only c))

/-- The tokens of a text. -/
def tokens? : List Char → Option (List Token)
  | [] => some []
  | '\\' :: c :: rest =>
    if specials.contains c then (tokens? rest).map (.char (.only c) :: ·) else none
  | '[' :: '^' :: c :: ']' :: rest =>
    if specials.contains c then none else (tokens? rest).map (.char (.allBut c) :: ·)
  | c :: rest => (tokenOf? c).bind fun token => (tokens? rest).map (token :: ·)

theorem tokenOf?_eq_only {c : Char} (h : c ∉ specials) : tokenOf? c = some (.char (.only c)) := by
  simp only [specials, List.mem_cons, List.not_mem_nil, or_false, not_or] at h
  simp [tokenOf?, specials, h]

/-- Whether a text is read as tokens, whatever follows it. -/
def Spells (text : List Char) (tokens : List Token) : Prop :=
  ∀ rest, tokens? (text ++ rest) = (tokens? rest).map (tokens ++ ·)

namespace Spells

variable {text other : List Char} {tokens others : List Token}

theorem nil : Spells [] [] := by
  intro rest
  exact Option.map_id_apply.symm

theorem append (h : Spells text tokens) (h' : Spells other others) :
    Spells (text ++ other) (tokens ++ others) := by
  intro rest
  rw [List.append_assoc, h, h', Option.map_map]
  congr 1
  funext later
  exact (List.append_assoc tokens others later).symm

theorem single {c : Char} {token : Token} (h : tokenOf? c = some token) :
    Spells [c] [token] := by
  have hescape : c ≠ '\\' := by
    rintro rfl
    simp [tokenOf?, specials] at h
  have hbracket : c ≠ '[' := by
    rintro rfl
    simp [tokenOf?, specials] at h
  intro rest
  rw [List.singleton_append, tokens?, h, Option.bind_some]
  · rfl
  · rintro _ _ rfl
    exact absurd rfl hescape
  · rintro _ _ rfl
    exact absurd rfl hbracket

theorem escape {c : Char} (h : c ∈ specials) : Spells ['\\', c] [.char (.only c)] := by
  intro rest
  show tokens? ('\\' :: c :: rest) = _
  rw [tokens?, if_pos (List.contains_iff_mem.mpr h)]
  rfl

theorem allBut {c : Char} (h : c ∉ specials) :
    Spells ['[', '^', c, ']'] [.char (.allBut c)] := by
  intro rest
  show tokens? ('[' :: '^' :: c :: ']' :: rest) = _
  rw [tokens?, if_neg (mt List.contains_iff_mem.mp h)]
  rfl

theorem tokens?_eq (h : Spells text tokens) : tokens? text = some tokens := by
  have hnil := h []
  rw [List.append_nil] at hnil
  rw [hnil, tokens?, Option.map_some, List.append_nil]

end Spells

/-! ## Reading -/

/-- What has been read of a group that is still open, or of the whole pattern. -/
structure Frame where
  /-- The alternatives before the current one. -/
  earlier : Pattern := .never
  /-- The current alternative without its last part. -/
  done : Pattern := .empty
  /-- The last part, if a repetition may follow. -/
  last : Option Pattern := none
deriving DecidableEq, Repr

namespace Frame

/-- The current alternative. -/
def current (frame : Frame) : Pattern :=
  match frame.last with
  | none => frame.done
  | some part => .seq frame.done part

/-- All alternatives. -/
def close (frame : Frame) : Pattern :=
  .either frame.earlier frame.current

/-- Adds a part. -/
def push (frame : Frame) (part : Pattern) : Frame :=
  { frame with done := frame.current, last := some part }

/-- Repeats the last part. -/
def repeatLast? (frame : Frame) (repetition : Pattern → Pattern) : Option Frame :=
  frame.last.map fun part =>
    { frame with done := .seq frame.done (repetition part), last := none }

end Frame

/-- What has been read: the frames around the current one, the innermost first. -/
structure Reader where
  outer : List Frame := []
  frame : Frame := {}
deriving DecidableEq, Repr

namespace Reader

/-- Reads a token. -/
def step (reader : Reader) : Token → Option Reader
  | .char set => some { reader with frame := reader.frame.push (.char set) }
  | .star => (reader.frame.repeatLast? .star).map fun frame => { reader with frame }
  | .plus => (reader.frame.repeatLast? .plus).map fun frame => { reader with frame }
  | .optional => (reader.frame.repeatLast? .optional).map fun frame => { reader with frame }
  | .groupOpen => some { outer := reader.frame :: reader.outer, frame := {} }
  | .alternative => some { reader with frame := { earlier := reader.frame.close } }
  | .groupClose =>
    match reader.outer with
    | [] => none
    | frame :: outer => some { outer, frame := frame.push reader.frame.close }

/-- Reads tokens. -/
def run (reader : Reader) (tokens : List Token) : Option Reader :=
  tokens.foldlM step reader

/-- The pattern that has been read, if no group is open. -/
def pattern? (reader : Reader) : Option Pattern :=
  match reader.outer with
  | [] => some reader.frame.close
  | _ :: _ => none

end Reader

/-- Reads a text as a pattern. -/
def read? (text : List Char) : Option Pattern :=
  (tokens? text).bind fun tokens => (Reader.run {} tokens).bind Reader.pattern?

/-! ## Languages on texts without a line end -/

/-- Whether two languages have the same texts among those without a line end. A pattern's `.` does
not match a line end, so more cannot be asked for. -/
def AgreeOnLines (L M : Language Char) : Prop :=
  ∀ text, '\n' ∉ text → (text ∈ L ↔ text ∈ M)

namespace AgreeOnLines

variable {L L' M M' N : Language Char}

theorem refl (L : Language Char) : AgreeOnLines L L :=
  fun _ _ => Iff.rfl

theorem trans (h : AgreeOnLines L M) (h' : AgreeOnLines M N) : AgreeOnLines L N :=
  fun text htext => (h text htext).trans (h' text htext)

theorem add (h : AgreeOnLines L L') (h' : AgreeOnLines M M') :
    AgreeOnLines (L + M) (L' + M') :=
  fun text htext => or_congr (h text htext) (h' text htext)

theorem mul (h : AgreeOnLines L L') (h' : AgreeOnLines M M') :
    AgreeOnLines (L * M) (L' * M') := by
  intro text htext
  simp only [Language.mem_mul]
  constructor
  · intro hexists
    obtain ⟨a, ha, b, hb, rfl⟩ := hexists
    rw [List.mem_append, not_or] at htext
    exact ⟨a, (h a htext.1).mp ha, b, (h' b htext.2).mp hb, rfl⟩
  · intro hexists
    obtain ⟨a, ha, b, hb, rfl⟩ := hexists
    rw [List.mem_append, not_or] at htext
    exact ⟨a, (h a htext.1).mpr ha, b, (h' b htext.2).mpr hb, rfl⟩

end AgreeOnLines

theorem mem_oneOf {set : CharSet} {text : List Char} :
    text ∈ oneOf set ↔ ∃ c, set.has c = true ∧ text = [c] :=
  Iff.rfl

theorem oneOf_only (c : Char) : oneOf (.only c) = {[c]} := by
  ext text
  constructor
  · intro hexists
    obtain ⟨d, hd, rfl⟩ := hexists
    obtain rfl : d = c := eq_of_beq hd
    rfl
  · intro htext
    exact ⟨c, beq_self_eq_true c, htext⟩

/-- The repetitions of a set of characters are the texts over it. -/
theorem mem_kstar_oneOf {set : CharSet} {text : List Char} :
    text ∈ KStar.kstar (oneOf set) ↔ ∀ c ∈ text, set.has c = true := by
  rw [Language.mem_kstar]
  constructor
  · intro hexists c hc
    obtain ⟨places, rfl, hplaces⟩ := hexists
    obtain ⟨place, hplace, hmem⟩ := List.mem_flatten.mp hc
    obtain ⟨x, hx, rfl⟩ := mem_oneOf.mp (hplaces place hplace)
    rw [List.mem_singleton.mp hmem]
    exact hx
  · intro hall
    refine ⟨text.map fun c => [c], ?_, ?_⟩
    · rw [← List.flatMap_def, List.flatMap_singleton']
    · intro place hplace
      obtain ⟨c, hc, rfl⟩ := List.mem_map.mp hplace
      exact ⟨c, hall c hc, rfl⟩

theorem mem_plus_oneOf {set : CharSet} {text : List Char} :
    text ∈ oneOf set * KStar.kstar (oneOf set) ↔ text ≠ [] ∧ ∀ c ∈ text, set.has c = true := by
  rw [Language.mem_mul]
  constructor
  · intro hexists
    obtain ⟨start, ⟨c, hc, rfl⟩, rest, hrest, rfl⟩ := hexists
    exact ⟨List.cons_ne_nil _ _, List.forall_mem_cons.mpr ⟨hc, mem_kstar_oneOf.mp hrest⟩⟩
  · intro hboth
    obtain ⟨hne, hall⟩ := hboth
    obtain ⟨c, rest, rfl⟩ := List.exists_cons_of_ne_nil hne
    obtain ⟨hc, hrest⟩ := List.forall_mem_cons.mp hall
    exact ⟨[c], ⟨c, hc, rfl⟩, rest, mem_kstar_oneOf.mpr hrest, rfl⟩

/-- A separator and what follows it on a line. -/
def descent : Language Char :=
  oneOf (.only '/') * KStar.kstar (oneOf .notLineEnd)

theorem mem_descent {text : List Char} :
    text ∈ descent ↔ ∃ rest, text = '/' :: rest ∧ '\n' ∉ rest := by
  have hline : ∀ rest : List Char,
      (∀ c ∈ rest, CharSet.notLineEnd.has c = true) ↔ '\n' ∉ rest := by
    intro rest
    simp only [CharSet.has, bne_iff_ne]
    exact List.forall_mem_ne'
  rw [descent, Language.mem_mul]
  simp only [mem_kstar_oneOf, hline, oneOf_only]
  constructor
  · intro hexists
    obtain ⟨_, rfl, rest, hrest, rfl⟩ := hexists
    exact ⟨rest, rfl, hrest⟩
  · intro hexists
    obtain ⟨rest, rfl, hrest⟩ := hexists
    exact ⟨['/'], rfl, rest, hrest, rfl⟩

/-! ## What tokens are read as -/

theorem Reader.run_append (reader : Reader) (first second : List Token) :
    reader.run (first ++ second) = (reader.run first).bind (·.run second) :=
  List.foldlM_append

/-- Whether tokens, wherever they stand, add parts with a language to the current alternative. -/
def Reads (tokens : List Token) (L : Language Char) : Prop :=
  ∀ outer frame, ∃ after : Frame,
    Reader.run { outer, frame } tokens = some { outer, frame := after }
      ∧ after.earlier = frame.earlier
      ∧ AgreeOnLines after.current.language (frame.current.language * L)

/-- Whether tokens, wherever they stand, add alternatives with a language to the current group. -/
def ReadsMore (tokens : List Token) (L : Language Char) : Prop :=
  ∀ outer frame, ∃ after : Frame,
    Reader.run { outer, frame } tokens = some { outer, frame := after }
      ∧ AgreeOnLines after.close.language (frame.close.language + L)

namespace Reads

variable {first second tokens : List Token} {L M : Language Char}

/-- Tokens that are read as a pattern in its own right. -/
theorem of_pattern (pattern : Pattern)
    (h : ∀ outer frame, ∃ after : Frame,
      Reader.run { outer, frame } tokens = some { outer, frame := after }
        ∧ after.earlier = frame.earlier ∧ after.current = .seq frame.current pattern) :
    Reads tokens pattern.language := by
  intro outer frame
  obtain ⟨after, hrun, hearlier, hcurrent⟩ := h outer frame
  refine ⟨after, hrun, hearlier, ?_⟩
  rw [hcurrent]
  exact .refl _

theorem char (set : CharSet) : Reads [.char set] (oneOf set) :=
  of_pattern (.char set) fun _ _ => ⟨_, rfl, rfl, rfl⟩

theorem star (set : CharSet) : Reads [.char set, .star] (KStar.kstar (oneOf set)) :=
  of_pattern (.star (.char set)) fun _ _ => ⟨_, rfl, rfl, rfl⟩

theorem plus (set : CharSet) :
    Reads [.char set, .plus] (oneOf set * KStar.kstar (oneOf set)) :=
  of_pattern (.plus (.char set)) fun _ _ => ⟨_, rfl, rfl, rfl⟩

theorem nil : Reads [] 1 := by
  intro outer frame
  refine ⟨frame, rfl, rfl, ?_⟩
  rw [mul_one]
  exact .refl _

theorem append (h : Reads first L) (h' : Reads second M) : Reads (first ++ second) (L * M) := by
  intro outer frame
  obtain ⟨middle, hrun, hearlier, hcurrent⟩ := h outer frame
  obtain ⟨after, hrun', hearlier', hcurrent'⟩ := h' outer middle
  refine ⟨after, ?_, hearlier'.trans hearlier, ?_⟩
  · rw [Reader.run_append, hrun]
    exact hrun'
  · rw [← mul_assoc]
    exact hcurrent'.trans (hcurrent.mul (.refl M))

theorem congr (h : Reads tokens L) (hagree : AgreeOnLines L M) : Reads tokens M := by
  intro outer frame
  obtain ⟨after, hrun, hearlier, hcurrent⟩ := h outer frame
  exact ⟨after, hrun, hearlier, hcurrent.trans (.mul (.refl _) hagree)⟩

/-- What is read from the start of an alternative is the alternative. -/
theorem agree_close {frame after : Frame} (hempty : frame.current = .empty)
    (hearlier : after.earlier = frame.earlier)
    (hcurrent : AgreeOnLines after.current.language (frame.current.language * L)) :
    AgreeOnLines after.close.language (frame.earlier.language + L) := by
  have hL : AgreeOnLines after.current.language L := by
    rw [hempty] at hcurrent
    rw [← one_mul L]
    exact hcurrent
  have hclose : after.close.language = frame.earlier.language + after.current.language := by
    rw [← hearlier]
    rfl
  rw [hclose]
  exact AgreeOnLines.add (.refl _) hL

/-- Alternatives between the marks of a group are read as one part. -/
theorem group (h : Reads first L) (h' : ReadsMore second M) :
    Reads (.groupOpen :: (first ++ second ++ [.groupClose])) (L + M) := by
  intro outer frame
  obtain ⟨middle, hrun, hearlier, hcurrent⟩ := h (frame :: outer) {}
  obtain ⟨inner, hrun', hclose⟩ := h' (frame :: outer) middle
  have hinner : AgreeOnLines inner.close.language (L + M) := by
    have hmiddle := agree_close rfl hearlier hcurrent
    rw [← zero_add L]
    exact hclose.trans (hmiddle.add (.refl M))
  refine ⟨frame.push inner.close, ?_, rfl, AgreeOnLines.mul (.refl _) hinner⟩
  show Reader.run { outer := frame :: outer, frame := {} } (first ++ second ++ [.groupClose]) = _
  rw [Reader.run_append, Reader.run_append, hrun, Option.bind_some, hrun']
  rfl

end Reads

namespace ReadsMore

variable {first second : List Token} {L M : Language Char}

theorem nil : ReadsMore [] 0 := by
  intro outer frame
  refine ⟨frame, rfl, ?_⟩
  rw [add_zero]
  exact .refl _

theorem cons (h : Reads first L) (h' : ReadsMore second M) :
    ReadsMore (.alternative :: (first ++ second)) (L + M) := by
  intro outer frame
  obtain ⟨middle, hrun, hearlier, hcurrent⟩ := h outer { earlier := frame.close }
  obtain ⟨after, hrun', hclose⟩ := h' outer middle
  refine ⟨after, ?_, ?_⟩
  · show Reader.run { outer, frame := { earlier := frame.close } } (first ++ second) = _
    rw [Reader.run_append, hrun]
    exact hrun'
  · have hmiddle := Reads.agree_close rfl hearlier hcurrent
    rw [← add_assoc]
    exact hclose.trans (hmiddle.add (.refl M))

end ReadsMore

/-- A text whose tokens are read as parts with a language is a pattern with that language. -/
theorem read?_of_spells {text : List Char} {tokens : List Token} {L : Language Char}
    (hspells : Spells text tokens) (hreads : Reads tokens L) :
    ∃ pattern, read? text = some pattern ∧ AgreeOnLines pattern.language L := by
  obtain ⟨after, hrun, hearlier, hcurrent⟩ := hreads [] {}
  refine ⟨after.close, ?_, ?_⟩
  · rw [read?, hspells.tokens?_eq, Option.bind_some, hrun]
    rfl
  · rw [← zero_add L]
    exact Reads.agree_close rfl hearlier hcurrent

end Pattern

end TypeEnforcement
