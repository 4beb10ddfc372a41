/-
Finite maps kept as association lists in increasing key order, as `std::map` keeps its nodes.

The raw operations (`find`, `insert`, `erase`) work on lists, so that a nested inductive type can hold its children in
one. `SortedMap` carries the order as a field.
- `find_insert`, `find_erase`: what a lookup sees after an update.
- `insert_last`: a key above all others goes to the end. `foldl_insert` rebuilds a sorted list from its own entries.
- `find_perm`, `get_foldl_set`: with distinct keys, neither a lookup nor storing the entries one by one depends on their
  order.
-/
import Mathlib.Tactic
import Mathlib.Data.List.Lex

namespace SortedMap

variable {κ α : Type*} [LinearOrder κ]

/-! ## Raw operations -/

/-- the value stored under a key -/
def find (k : κ) : List (κ × α) → Option α
  | [] => none
  | (k', v) :: l => if k = k' then some v else find k l

/-- store a value under a key, in key order, replacing an older value -/
def insert (k : κ) (v : α) : List (κ × α) → List (κ × α)
  | [] => [(k, v)]
  | (k', v') :: l =>
    if k < k' then (k, v) :: (k', v') :: l
    else if k = k' then (k, v) :: l
    else (k', v') :: insert k v l

/-- drop a key -/
def erase (k : κ) (l : List (κ × α)) : List (κ × α) := l.filter fun p => p.1 ≠ k

/-- keys strictly increase along the list -/
def Ordered (l : List (κ × α)) : Prop := l.Pairwise fun p q => p.1 < q.1

instance (l : List (κ × α)) : Decidable (Ordered l) := by unfold Ordered; infer_instance

theorem find_insert (k k' : κ) (v : α) (l : List (κ × α)) :
    find k' (insert k v l) = if k' = k then some v else find k' l := by
  induction l with
  | nil => simp [insert, find]
  | cons p l ih =>
    obtain ⟨a, b⟩ := p
    rcases lt_trichotomy k a with h | h | h
    · simp [insert, find, h]
    · subst h
      by_cases hk : k' = k <;> simp [insert, find, hk]
    · simp only [insert, not_lt_of_gt h, ne_of_gt h, ite_false, find, ih]
      by_cases hk : k' = k
      · subst hk; simp [ne_of_gt h]
      · simp [hk]

theorem find_erase (k k' : κ) (l : List (κ × α)) : find k' (erase k l) = if k' = k then none else find k' l := by
  induction l with
  | nil => simp [erase, find]
  | cons p l ih =>
    obtain ⟨a, b⟩ := p
    simp only [erase] at ih ⊢
    by_cases ha : a = k
    · subst ha
      simp only [List.filter_cons, ne_eq, not_true_eq_false, decide_false, Bool.false_eq_true, ite_false, ih, find]
      split_ifs <;> rfl
    · simp only [List.filter_cons, ne_eq, ha, not_false_eq_true, decide_true, ite_true, find, ih]
      split_ifs with h1 h2
      · exact absurd (h1 ▸ h2) ha
      all_goals rfl

theorem mem_insert {k : κ} {v : α} {l : List (κ × α)} {p : κ × α} (h : p ∈ insert k v l) : p = (k, v) ∨ p ∈ l := by
  induction l with
  | nil => simpa [insert] using h
  | cons q l ih =>
    obtain ⟨a, b⟩ := q
    simp only [insert] at h
    split_ifs at h
    · simpa using h
    · rcases List.mem_cons.1 h with h | h
      · exact Or.inl h
      · exact Or.inr (List.mem_cons_of_mem _ h)
    · rcases List.mem_cons.1 h with h | h
      · exact Or.inr (h ▸ List.mem_cons_self)
      · exact (ih h).imp_right (List.mem_cons_of_mem _)

theorem ordered_insert (k : κ) (v : α) {l : List (κ × α)} (h : Ordered l) : Ordered (insert k v l) := by
  induction l with
  | nil => simp [insert, Ordered]
  | cons q l ih =>
    obtain ⟨a, b⟩ := q
    obtain ⟨h1, h2⟩ := List.pairwise_cons.1 h
    simp only [insert]
    split_ifs with hlt heq
    · refine List.pairwise_cons.2 ⟨fun p hp => ?_, h⟩
      rcases List.mem_cons.1 hp with rfl | hp
      · exact hlt
      · exact hlt.trans (h1 p hp)
    · subst heq; exact List.pairwise_cons.2 ⟨h1, h2⟩
    · refine List.pairwise_cons.2 ⟨fun p hp => ?_, ih h2⟩
      rcases mem_insert hp with rfl | hp
      · exact lt_of_le_of_ne (not_lt.1 hlt) (Ne.symm heq)
      · exact h1 p hp

theorem ordered_erase (k : κ) {l : List (κ × α)} (h : Ordered l) : Ordered (erase k l) :=
  List.Pairwise.filter _ h

/-- a key above all the others goes to the end -/
theorem insert_last (k : κ) (v : α) (l : List (κ × α)) (h : ∀ p ∈ l, p.1 < k) : insert k v l = l ++ [(k, v)] := by
  induction l with
  | nil => rfl
  | cons q l ih =>
    have hq : q.1 < k := h q List.mem_cons_self
    simp only [insert, not_lt_of_gt hq, ite_false, (ne_of_gt hq), List.cons_append]
    rw [ih fun p hp => h p (List.mem_cons_of_mem q hp)]

/-- inserting the entries of an ordered list one by one, after smaller ones, appends them -/
theorem foldl_insert (acc l : List (κ × α)) (h : Ordered (acc ++ l)) :
    l.foldl (fun m p => insert p.1 p.2 m) acc = acc ++ l := by
  induction l generalizing acc with
  | nil => simp
  | cons q l ih =>
    have hlt : ∀ p ∈ acc, p.1 < q.1 := fun p hp => (List.pairwise_append.1 h).2.2 p hp q List.mem_cons_self
    rw [List.foldl_cons, insert_last _ _ _ hlt, ih _ (by simpa using h)]
    simp

theorem find_eq_none {k : κ} {l : List (κ × α)} (h : ∀ p ∈ l, p.1 ≠ k) : find k l = none := by
  induction l with
  | nil => rfl
  | cons q l ih =>
    simp only [find, (h q List.mem_cons_self).symm, ite_false]
    exact ih fun p hp => h p (List.mem_cons_of_mem q hp)

theorem mem_of_find {k : κ} {v : α} {l : List (κ × α)} (h : find k l = some v) : (k, v) ∈ l := by
  induction l with
  | nil => simp [find] at h
  | cons q l ih =>
    obtain ⟨a, b⟩ := q
    simp only [find] at h
    split_ifs at h with hk
    · simp only [Option.some.injEq] at h; subst hk h; exact List.mem_cons_self
    · exact List.mem_cons_of_mem _ (ih h)

theorem find_of_mem {k : κ} {v : α} {l : List (κ × α)} (ho : Ordered l) (h : (k, v) ∈ l) : find k l = some v := by
  induction l with
  | nil => simp at h
  | cons q l ih =>
    obtain ⟨h1, h2⟩ := List.pairwise_cons.1 ho
    rcases List.mem_cons.1 h with rfl | h
    · simp [find]
    · simp only [find, ne_of_gt (h1 _ h), ite_false]
      exact ih h2 h

/-! ## Lists with distinct keys, in any order -/

theorem find_of_mem_nodup {k : κ} {v : α} {l : List (κ × α)} (hl : (l.map Prod.fst).Nodup) (h : (k, v) ∈ l) :
    find k l = some v := by
  induction l with
  | nil => simp at h
  | cons q l ih =>
    obtain ⟨hq, hl⟩ := List.nodup_cons.1 hl
    rcases List.mem_cons.1 h with rfl | h
    · simp [find]
    · have hne : k ≠ q.1 := fun he => hq (he ▸ List.mem_map_of_mem h)
      simp only [find, hne, ite_false]
      exact ih hl h

/-- a lookup does not depend on the order of the entries -/
theorem find_perm {l l' : List (κ × α)} (h : l.Perm l') (hl : (l.map Prod.fst).Nodup) (k : κ) :
    find k l = find k l' := by
  have hl' : (l'.map Prod.fst).Nodup := (h.map Prod.fst).nodup_iff.1 hl
  refine Option.ext fun v => ⟨fun hv => ?_, fun hv => ?_⟩
  · exact find_of_mem_nodup hl' (h.mem_iff.1 (mem_of_find hv))
  · exact find_of_mem_nodup hl (h.mem_iff.2 (mem_of_find hv))

theorem find_map {β : Type*} (g : α → β) (k : κ) (l : List (κ × α)) :
    find k (l.map fun e => (e.1, g e.2)) = (find k l).map g := by
  induction l with
  | nil => rfl
  | cons q l ih =>
    simp only [List.map_cons, find, ih]
    split_ifs <;> rfl

theorem nodup_of_ordered {l : List (κ × α)} (h : Ordered l) : (l.map Prod.fst).Nodup :=
  (List.pairwise_map.2 h).imp fun hlt => hlt.ne

end SortedMap

/-! ## Maps that carry their order -/

/-- a finite map: entries in increasing key order -/
structure SortedMap (κ α : Type*) [LinearOrder κ] where
  entries : List (κ × α)
  ordered : SortedMap.Ordered entries

namespace SortedMap

variable {κ α : Type*} [LinearOrder κ]

def empty : SortedMap κ α := ⟨[], List.Pairwise.nil⟩

def get (m : SortedMap κ α) (k : κ) : Option α := find k m.entries

def set (m : SortedMap κ α) (k : κ) (v : α) : SortedMap κ α := ⟨insert k v m.entries, ordered_insert k v m.ordered⟩

def remove (m : SortedMap κ α) (k : κ) : SortedMap κ α := ⟨erase k m.entries, ordered_erase k m.ordered⟩

@[simp] theorem get_empty (k : κ) : (empty : SortedMap κ α).get k = none := rfl

theorem get_set (m : SortedMap κ α) (k k' : κ) (v : α) : (m.set k v).get k' = if k' = k then some v else m.get k' :=
  find_insert k k' v m.entries

@[simp] theorem get_set_self (m : SortedMap κ α) (k : κ) (v : α) : (m.set k v).get k = some v := by simp [get_set]

theorem get_set_ne (m : SortedMap κ α) {k k' : κ} (v : α) (h : k' ≠ k) : (m.set k v).get k' = m.get k' := by
  simp [get_set, h]

theorem get_remove (m : SortedMap κ α) (k k' : κ) : (m.remove k).get k' = if k' = k then none else m.get k' :=
  find_erase k k' m.entries

/-- storing entries with distinct keys one by one, over whatever was there -/
theorem get_foldl_set (l : List (κ × α)) (m : SortedMap κ α) (hl : (l.map Prod.fst).Nodup) (k : κ) :
    (l.foldl (fun m e => m.set e.1 e.2) m).get k = (find k l).or (m.get k) := by
  induction l generalizing m with
  | nil => rfl
  | cons q l ih =>
    obtain ⟨hq, hl⟩ := List.nodup_cons.1 hl
    rw [List.foldl_cons, ih _ hl, get_set, find]
    split_ifs with hk
    · have hnone : find k l = none := find_eq_none fun p hp he => hq (hk ▸ he ▸ List.mem_map_of_mem hp)
      rw [hnone]
      rfl
    · rfl

theorem get_eq_some_iff (m : SortedMap κ α) (k : κ) (v : α) : m.get k = some v ↔ (k, v) ∈ m.entries :=
  ⟨mem_of_find, find_of_mem m.ordered⟩

/-- the last entry has the greatest key -/
theorem getLast_greatest (m : SortedMap κ α) {k : κ} {v : α} (h : m.entries.getLast? = some (k, v)) :
    m.get k = some v ∧ ∀ k', (m.get k').isSome → k' ≤ k := by
  refine ⟨(get_eq_some_iff m k v).2 (List.mem_of_getLast? h), fun k' hk' => ?_⟩
  obtain ⟨v', hv'⟩ := Option.isSome_iff_exists.1 hk'
  have hmem := (get_eq_some_iff m k' v').1 hv'
  obtain ⟨init, hinit⟩ := List.getLast?_eq_some_iff.1 h
  have hordered := m.ordered
  rw [hinit] at hmem
  rw [Ordered, hinit, List.pairwise_append] at hordered
  rcases List.mem_append.1 hmem with hold | hlast
  · exact (hordered.2.2 _ hold _ List.mem_cons_self).le
  · rw [List.mem_singleton] at hlast
    exact (congrArg Prod.fst hlast).le

end SortedMap
