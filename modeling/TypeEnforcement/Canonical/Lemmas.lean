import TypeEnforcement.Canonical
/-!
# Laws of canonical lists

`Canonical.ofList` keeps the members of a list (`mem_ofList`) and puts them into strictly increasing
order (`strictlyIncreasing_ofList`). A strictly increasing list is determined by its members
(`eq_of_mem_iff`), so the canonical list of a list depends on nothing but its members
(`ofList_congr`), and a strictly increasing list is its own (`ofList_eq_self`). It is never longer
than the list (`length_ofList_le`).

A list with canonical keys is determined by its members as well (`eq_of_mem_iff_of_key`), and by
its keys and what each of them stands for: `filter_key_eq_singleton` finds the one member of a key,
and `map_key_eq_self` lays the members out by their keys again.

`Canonical.assign` changes the value of one key (`lookup_assign`) and keeps the keys canonical
(`strictlyIncreasing_assign`), and a map laid out in order is made of itself (`ofSettings_eq_self`).

`Canonical.distinct` keeps the members, too; no member stands twice in it, and they stand in the
order in which they first occur (`isDistinctOf_distinct`).
-/

namespace TypeEnforcement.Canonical

open Std

/-! ## Members and order -/

section Order

variable {α : Type} [Ord α]

theorem mem_insert [LawfulEqOrd α] {x y : α} {ys : List α} :
    x ∈ insert y ys ↔ x = y ∨ x ∈ ys := by
  induction ys with
  | nil => simp [insert]
  | cons z zs ih =>
    simp only [insert]
    split
    · simp
    · next h =>
      have hyz : y = z := LawfulEqOrd.eq_of_compare h
      subst hyz
      simp
    · simp only [List.mem_cons, ih]
      constructor
      · intro hcases
        rcases hcases with h | h | h
        · exact Or.inr (Or.inl h)
        · exact Or.inl h
        · exact Or.inr (Or.inr h)
      · intro hcases
        rcases hcases with h | h | h
        · exact Or.inr (Or.inl h)
        · exact Or.inl h
        · exact Or.inr (Or.inr h)

theorem mem_ofList [LawfulEqOrd α] {x : α} {xs : List α} : x ∈ ofList xs ↔ x ∈ xs := by
  induction xs with
  | nil => simp [ofList]
  | cons y ys ih =>
    have hstep : ofList (y :: ys) = insert y (ofList ys) := rfl
    rw [hstep, mem_insert, ih, List.mem_cons]

theorem length_insert_le (x : α) (ys : List α) : (insert x ys).length ≤ ys.length + 1 := by
  induction ys with
  | nil => simp [insert]
  | cons y ys ih =>
    simp only [insert]
    split
    · simp
    · simp
    · simpa using ih

theorem length_ofList_le (xs : List α) : (ofList xs).length ≤ xs.length := by
  induction xs with
  | nil => exact Nat.le_refl 0
  | cons x xs ih => exact Nat.le_trans (length_insert_le x (ofList xs)) (Nat.succ_le_succ ih)

/-- What is less is something else. -/
theorem ne_of_compare_lt [LawfulEqOrd α] {x y : α} (h : compare x y = .lt) : x ≠ y := by
  intro heq
  subst heq
  have hrefl : compare x x = .eq := ReflCmp.compare_self
  rw [hrefl] at h
  exact absurd h (by decide)

instance (xs : List α) : Decidable (StrictlyIncreasing xs) :=
  inferInstanceAs (Decidable (xs.Pairwise fun x y => compare x y = .lt))

theorem StrictlyIncreasing.nodup [LawfulEqOrd α] {xs : List α} (h : StrictlyIncreasing xs) :
    xs.Nodup :=
  List.Pairwise.imp ne_of_compare_lt h

theorem StrictlyIncreasing.sublist {xs ys : List α} (h : StrictlyIncreasing ys)
    (hsub : xs.Sublist ys) : StrictlyIncreasing xs :=
  List.Pairwise.sublist hsub h

variable [TransOrd α] [LawfulEqOrd α]

theorem strictlyIncreasing_insert {x : α} {ys : List α} (h : StrictlyIncreasing ys) :
    StrictlyIncreasing (insert x ys) := by
  induction ys with
  | nil => simp [insert, StrictlyIncreasing]
  | cons y ys ih =>
    have hy : ∀ z ∈ ys, compare y z = .lt := (List.pairwise_cons.mp h).1
    have hys : StrictlyIncreasing ys := (List.pairwise_cons.mp h).2
    simp only [insert]
    split
    · next hxy =>
      refine List.pairwise_cons.mpr ⟨?_, h⟩
      intro z hz
      cases List.mem_cons.mp hz with
      | inl hzy => exact hzy ▸ hxy
      | inr hzs => exact TransCmp.lt_trans hxy (hy z hzs)
    · exact h
    · next hxy =>
      refine List.pairwise_cons.mpr ⟨?_, ih hys⟩
      intro z hz
      cases mem_insert.mp hz with
      | inl hzx => exact hzx ▸ OrientedCmp.lt_of_gt hxy
      | inr hzs => exact hy z hzs

theorem strictlyIncreasing_ofList (xs : List α) : StrictlyIncreasing (ofList xs) := by
  induction xs with
  | nil => exact List.Pairwise.nil
  | cons y ys ih => exact strictlyIncreasing_insert ih

/-- A strictly increasing list is determined by its members. -/
theorem eq_of_mem_iff {xs ys : List α} (hx : StrictlyIncreasing xs) (hy : StrictlyIncreasing ys)
    (h : ∀ z, z ∈ xs ↔ z ∈ ys) : xs = ys := by
  induction xs generalizing ys with
  | nil =>
    cases ys with
    | nil => rfl
    | cons y ys => exact absurd ((h y).mpr (by simp)) (by simp)
  | cons x xs ih =>
    cases ys with
    | nil => exact absurd ((h x).mp (by simp)) (by simp)
    | cons y ys =>
      have hxs : ∀ z ∈ xs, compare x z = .lt := (List.pairwise_cons.mp hx).1
      have hys : ∀ z ∈ ys, compare y z = .lt := (List.pairwise_cons.mp hy).1
      have hxy : x = y := by
        cases List.mem_cons.mp ((h x).mp (by simp)) with
        | inl heq => exact heq
        | inr hmem =>
          cases List.mem_cons.mp ((h y).mpr (by simp)) with
          | inl heq => exact heq.symm
          | inr hmem' =>
            exact absurd rfl (ne_of_compare_lt (TransCmp.lt_trans (hxs y hmem') (hys x hmem)))
      subst hxy
      refine congrArg (x :: ·) (ih (List.pairwise_cons.mp hx).2 (List.pairwise_cons.mp hy).2 ?_)
      intro z
      constructor
      · intro hz
        cases List.mem_cons.mp ((h z).mp (List.mem_cons_of_mem x hz)) with
        | inl heq => exact absurd heq.symm (ne_of_compare_lt (hxs z hz))
        | inr hmem => exact hmem
      · intro hz
        cases List.mem_cons.mp ((h z).mpr (List.mem_cons_of_mem x hz)) with
        | inl heq => exact absurd heq.symm (ne_of_compare_lt (hys z hz))
        | inr hmem => exact hmem

/-- The canonical list depends on the members only. -/
theorem ofList_congr {xs ys : List α} (h : ∀ z, z ∈ xs ↔ z ∈ ys) : ofList xs = ofList ys :=
  eq_of_mem_iff (strictlyIncreasing_ofList xs) (strictlyIncreasing_ofList ys)
    (fun z => by rw [mem_ofList, mem_ofList, h z])

theorem ofList_eq_self {xs : List α} (h : StrictlyIncreasing xs) : ofList xs = xs :=
  eq_of_mem_iff (strictlyIncreasing_ofList xs) h (fun _ => mem_ofList)

theorem filter_ofList (keeps : α → Bool) (xs : List α) :
    (ofList xs).filter keeps = ofList (xs.filter keeps) :=
  eq_of_mem_iff ((strictlyIncreasing_ofList xs).sublist List.filter_sublist)
    (strictlyIncreasing_ofList _) (fun z => by simp only [List.mem_filter, mem_ofList])

end Order

/-! ## Canonical keys -/

section Keys

variable {κ α : Type} {key : α → κ}

/-- There are at most as many different keys as members. -/
theorem length_ofList_map_le [Ord κ] (key : α → κ) (xs : List α) :
    (ofList (xs.map key)).length ≤ xs.length := by
  calc (ofList (xs.map key)).length ≤ (xs.map key).length := length_ofList_le _
    _ = xs.length := List.length_map key

/-- A list with canonical keys is laid out again by its keys. -/
theorem map_key_eq_self [Ord κ] [TransOrd κ] [LawfulEqOrd κ] {xs : List α}
    (h : StrictlyIncreasing (xs.map key)) {make : κ → α} (hmake : ∀ x ∈ xs, make (key x) = x) :
    (ofList (xs.map key)).map make = xs := by
  rw [ofList_eq_self h, List.map_map]
  calc xs.map (make ∘ key) = xs.map id := List.map_congr_left hmake
    _ = xs := List.map_id xs

variable [DecidableEq κ]

/-- Where no key stands twice, a member is the only one with its key. -/
theorem filter_key_eq_singleton {xs : List α} (h : (xs.map key).Nodup) {x : α} (hx : x ∈ xs) :
    xs.filter (fun y => key y == key x) = [x] := by
  induction xs with
  | nil => exact absurd hx (by simp)
  | cons y ys ih =>
    rw [List.map_cons, List.nodup_cons] at h
    have hne : ∀ z ∈ ys, key z ≠ key y := fun z hz heq => h.1 (heq ▸ List.mem_map_of_mem hz)
    rcases List.mem_cons.mp hx with rfl | hmem
    · have hnone : ys.filter (fun z => key z == key x) = [] := by
        rw [List.filter_eq_nil_iff]
        intro z hz
        simpa using hne z hz
      rw [List.filter_cons_of_pos (by simp), hnone]
    · have hyx : key y ≠ key x := fun heq => hne x hmem heq.symm
      rw [List.filter_cons_of_neg (by simpa using hyx), ih h.2 hmem]

/-- Members with distinct keys that have the same key are the same. -/
theorem eq_of_key_eq {xs : List α} (h : (xs.map key).Nodup) {x y : α} (hx : x ∈ xs) (hy : y ∈ xs)
    (heq : key x = key y) : x = y := by
  have hmem : x ∈ xs.filter (fun z => key z == key y) := by simp [hx, heq]
  rw [filter_key_eq_singleton h hy] at hmem
  exact List.mem_singleton.mp hmem

/-- A list with canonical keys is determined by its members. -/
theorem eq_of_mem_iff_of_key [Ord κ] [TransOrd κ] [LawfulEqOrd κ] {xs ys : List α}
    (hx : StrictlyIncreasing (xs.map key)) (hy : StrictlyIncreasing (ys.map key))
    (h : ∀ z, z ∈ xs ↔ z ∈ ys) : xs = ys := by
  have hkeys : xs.map key = ys.map key :=
    eq_of_mem_iff hx hy (fun k => by simp only [List.mem_map, h])
  have hlength : xs.length = ys.length := by
    rw [← List.length_map key, hkeys, List.length_map]
  refine List.ext_getElem hlength fun i hi hi' => ?_
  -- The members at one place have one key, and only one member of the first list has it.
  have hkey : key xs[i] = key ys[i] := by
    have hplace : (xs.map key)[i]? = (ys.map key)[i]? := by rw [hkeys]
    simpa only [List.getElem?_map, List.getElem?_eq_getElem hi, List.getElem?_eq_getElem hi',
      Option.map_some, Option.some.injEq] using hplace
  exact eq_of_key_eq hx.nodup (List.getElem_mem hi) ((h _).mpr (List.getElem_mem hi')) hkey

end Keys

/-! ## Maps with canonical keys -/

section Maps

variable {κ α : Type} {key : κ} {value : α} {entries : List (κ × α)}

theorem lookup_cons [DecidableEq κ] {other : κ} {entry : κ × α} :
    (entry :: entries).lookup other
      = if other = entry.1 then some entry.2 else entries.lookup other := by
  rw [List.lookup_cons]
  by_cases h : other = entry.1
  · rw [if_pos h, beq_iff_eq.mpr h]
  · rw [if_neg h, beq_eq_false_iff_ne.mpr h]

theorem mem_of_lookup_eq_some [DecidableEq κ] (h : entries.lookup key = some value) :
    (key, value) ∈ entries := by
  obtain ⟨before, after, rfl, -⟩ := List.lookup_eq_some_iff.mp h
  exact List.mem_append_right before List.mem_cons_self

/-- Where no key stands twice, a key stands for its one value. -/
theorem lookup_eq_some_of_mem [DecidableEq κ] (h : (entries.map Prod.fst).Nodup)
    (hmem : (key, value) ∈ entries) : entries.lookup key = some value := by
  cases hlookup : entries.lookup key with
  | none => exact absurd rfl (bne_iff_ne.mp (List.lookup_eq_none_iff.mp hlookup (key, value) hmem))
  | some other =>
    have hsame : (key, other) = (key, value) :=
      eq_of_key_eq h (mem_of_lookup_eq_some hlookup) hmem rfl
    rw [(Prod.mk.inj hsame).2]

variable [Ord κ] [LawfulEqOrd κ]

theorem map_fst_assign :
    (assign key value entries).map Prod.fst = insert key (entries.map Prod.fst) := by
  induction entries with
  | nil => rfl
  | cons first rest ih =>
    simp only [assign, List.map_cons, insert]
    split
    · rfl
    · next heq =>
      rw [LawfulEqOrd.eq_of_compare heq]
      rfl
    · rw [List.map_cons, ih]

variable [TransOrd κ]

theorem strictlyIncreasing_assign (h : StrictlyIncreasing (entries.map Prod.fst)) :
    StrictlyIncreasing ((assign key value entries).map Prod.fst) := by
  rw [map_fst_assign]
  exact strictlyIncreasing_insert h

theorem lookup_assign [DecidableEq κ] {other : κ} :
    (assign key value entries).lookup other
      = if other = key then some value else entries.lookup other := by
  induction entries with
  | nil => exact lookup_cons
  | cons first rest ih =>
    simp only [assign]
    split
    · exact lookup_cons
    · next heq =>
      rw [LawfulEqOrd.eq_of_compare heq, lookup_cons, lookup_cons]
      by_cases h : other = first.1
      · rw [if_pos h, if_pos h]
      · rw [if_neg h, if_neg h, if_neg h]
    · next hgt =>
      have hne : first.1 ≠ key := ne_of_compare_lt (OrientedCmp.lt_of_gt hgt)
      rw [lookup_cons, lookup_cons, ih]
      by_cases h : other = first.1
      · rw [if_pos h, if_pos h, if_neg (h ▸ hne)]
      · rw [if_neg h, if_neg h]

omit [LawfulEqOrd κ] in
/-- A key greater than all of a map is set at its end. -/
theorem assign_eq_append (h : ∀ entry ∈ entries, compare entry.1 key = .lt) :
    assign key value entries = entries ++ [(key, value)] := by
  induction entries with
  | nil => rfl
  | cons first rest ih =>
    have hgreater : compare key first.1 = .gt := OrientedCmp.gt_of_lt (h first List.mem_cons_self)
    rw [assign, hgreater, List.cons_append]
    exact congrArg (first :: ·) (ih fun entry hentry => h entry (List.mem_cons_of_mem first hentry))

omit [LawfulEqOrd κ] in
theorem foldl_assign_eq_append (before : List (κ × α))
    (h : StrictlyIncreasing ((before ++ entries).map Prod.fst)) :
    entries.foldl (fun entries (key, value) => assign key value entries) before
      = before ++ entries := by
  induction entries generalizing before with
  | nil => exact (List.append_nil before).symm
  | cons first rest ih =>
    obtain ⟨key, value⟩ := first
    have hless : ∀ entry ∈ before, compare entry.1 key = .lt := by
      intro entry hentry
      rw [List.map_append] at h
      exact (List.pairwise_append.mp h).2.2 _ (List.mem_map_of_mem hentry) _ List.mem_cons_self
    rw [List.append_cons] at h ⊢
    rw [List.foldl_cons, ← ih (before ++ [(key, value)]) h, ← assign_eq_append hless]

omit [LawfulEqOrd κ] in
/-- The settings of a map in canonical order leave that map. -/
theorem ofSettings_eq_self (h : StrictlyIncreasing (entries.map Prod.fst)) :
    ofSettings entries = entries :=
  foldl_assign_eq_append [] h

end Maps

/-! ## Members in the order of their first occurrence -/

section Distinct

variable {α : Type} [DecidableEq α]

theorem mem_distinct {x : α} {xs : List α} : x ∈ distinct xs ↔ x ∈ xs := by
  induction xs with
  | nil => simp [distinct]
  | cons y ys ih =>
    simp only [distinct, List.mem_cons, List.mem_filter, ih, decide_eq_true_eq]
    by_cases h : x = y <;> simp [h]

theorem distinct_ne_nil {xs : List α} (h : xs ≠ []) : distinct xs ≠ [] := by
  obtain ⟨x, hx⟩ := List.exists_mem_of_ne_nil xs h
  exact List.ne_nil_of_mem (mem_distinct.mpr hx)

theorem nodup_distinct (xs : List α) : (distinct xs).Nodup := by
  induction xs with
  | nil => exact List.nodup_nil
  | cons y ys ih =>
    refine List.nodup_cons.mpr ⟨?_, ih.sublist List.filter_sublist⟩
    simp

theorem filter_distinct (p : α → Bool) (xs : List α) :
    (distinct xs).filter p = distinct (xs.filter p) := by
  induction xs with
  | nil => rfl
  | cons x xs ih =>
    have hswap : ((distinct xs).filter (· ≠ x)).filter p
        = ((distinct xs).filter p).filter (· ≠ x) := by
      simp only [List.filter_filter, Bool.and_comm]
    rw [distinct]
    cases hx : p x with
    | true =>
      rw [List.filter_cons_of_pos hx, List.filter_cons_of_pos hx, distinct, hswap, ih]
    | false =>
      have hnone : ¬ p x = true := Bool.eq_false_iff.mp hx
      have hother : ∀ y ∈ (distinct xs).filter p, decide (y ≠ x) = true := by
        intro y hy
        refine decide_eq_true fun heq => hnone ?_
        rw [← heq]
        exact (List.mem_filter.mp hy).2
      rw [List.filter_cons_of_neg hnone, List.filter_cons_of_neg hnone, hswap,
        List.filter_eq_self.mpr hother, ih]

/-- The members stand in the order of their first occurrence. -/
theorem pairwise_idxOf_distinct (xs : List α) :
    (distinct xs).Pairwise fun x y => xs.idxOf x < xs.idxOf y := by
  induction xs with
  | nil => exact List.Pairwise.nil
  | cons x xs ih =>
    have hlater : ∀ y ∈ (distinct xs).filter (· ≠ x), (x :: xs).idxOf y = xs.idxOf y + 1 := by
      intro y hy
      have hne : y ≠ x := of_decide_eq_true (List.mem_filter.mp hy).2
      rw [List.idxOf_cons, beq_eq_false_iff_ne.mpr hne.symm, cond_false]
    refine List.pairwise_cons.mpr ⟨?_, ?_⟩
    · intro y hy
      rw [hlater y hy, List.idxOf_cons_self]
      exact Nat.succ_pos _
    · refine (ih.sublist List.filter_sublist).imp_of_mem ?_
      intro y z hy hz hlt
      rw [hlater y hy, hlater z hz]
      exact Nat.succ_lt_succ hlt

/-- The members of a list, each once and in the order in which they first occur. -/
structure IsDistinctOf (kept xs : List α) : Prop where
  nodup : kept.Nodup
  mem_iff : ∀ x, x ∈ kept ↔ x ∈ xs
  ordered : kept.Pairwise fun x y => xs.idxOf x < xs.idxOf y

theorem isDistinctOf_distinct (xs : List α) : IsDistinctOf (distinct xs) xs where
  nodup := nodup_distinct xs
  mem_iff := fun _ => mem_distinct
  ordered := pairwise_idxOf_distinct xs

omit [DecidableEq α] in
/-- The keys of the members that are the first with their key are the keys, each once. -/
theorem map_firstPerKey {κ : Type} [DecidableEq κ] (key : α → κ) (xs : List α) :
    (firstPerKey key xs).map key = distinct (xs.map key) := by
  induction xs with
  | nil => rfl
  | cons x xs ih =>
    rw [firstPerKey, List.map_cons, List.map_cons, distinct, ← ih, List.filter_map]
    rfl

omit [DecidableEq α] in
theorem firstPerKey_sublist {κ : Type} [DecidableEq κ] (key : α → κ) (xs : List α) :
    (firstPerKey key xs).Sublist xs := by
  induction xs with
  | nil => exact List.Sublist.slnil
  | cons x xs ih => exact (List.filter_sublist.trans ih).cons_cons x

end Distinct

end TypeEnforcement.Canonical
