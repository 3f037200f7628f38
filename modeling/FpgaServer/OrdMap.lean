import Mathlib.Order.Lattice
/-!
# OrdMap — an ordered map as its in-order entry list

A map over a linearly ordered key type, kept as the list of its entries in key order; strict sortedness is a field, so
a duplicate key or an unordered map cannot be built.  `insert` keeps the value of a key that is already present, `set`
overwrites the value of a present key and never adds one, `erase` removes a key.  Everything later modules use is stated
through `find?` and `keys`: one lookup law and one key law per operation.
-/
namespace Base

/-- A map as its entries in strictly ascending key order. -/
structure OrdMap (κ ν : Type) [LinearOrder κ] where
  entries : List (κ × ν)
  sorted : entries.Pairwise (fun a b => a.1 < b.1)

namespace OrdMap

variable {κ ν : Type} [LinearOrder κ]

/-! ## Entry lists -/

def findIn (k : κ) : List (κ × ν) → Option ν
  | [] => none
  | e :: l => if e.1 = k then some e.2 else findIn k l

def insertIn (k : κ) (v : ν) : List (κ × ν) → List (κ × ν)
  | [] => [(k, v)]
  | e :: l => if k < e.1 then (k, v) :: e :: l else if k = e.1 then e :: l else e :: insertIn k v l

def setIn (k : κ) (v : ν) (l : List (κ × ν)) : List (κ × ν) :=
  l.map (fun e => if e.1 = k then (e.1, v) else e)

theorem mem_insertIn {k : κ} {v : ν} {x : κ × ν} :
    ∀ {l : List (κ × ν)}, x ∈ insertIn k v l → x = (k, v) ∨ x ∈ l
  | [], h => Or.inl (List.mem_singleton.1 h)
  | e :: l, h => by
    unfold insertIn at h
    split at h
    · exact (List.mem_cons.1 h).imp_right id
    · split at h
      · exact Or.inr h
      · rcases List.mem_cons.1 h with rfl | h
        · exact Or.inr List.mem_cons_self
        · exact (mem_insertIn h).imp_right (List.mem_cons_of_mem _)

theorem sorted_insertIn (k : κ) (v : ν) : ∀ {l : List (κ × ν)}, l.Pairwise (fun a b => a.1 < b.1) →
    (insertIn k v l).Pairwise (fun a b => a.1 < b.1)
  | [], _ => List.pairwise_singleton _ _
  | e :: l, h => by
    unfold insertIn
    split
    · rename_i hk
      refine List.Pairwise.cons (fun x hx => ?_) h
      rcases List.mem_cons.1 hx with rfl | hx
      · exact hk
      · exact lt_trans hk (List.rel_of_pairwise_cons h hx)
    · rename_i hk
      split
      · exact h
      · rename_i hne
        refine List.Pairwise.cons (fun x hx => ?_) (sorted_insertIn k v h.of_cons)
        rcases mem_insertIn hx with rfl | hx
        · exact lt_of_le_of_ne (not_lt.1 hk) (Ne.symm hne)
        · exact List.rel_of_pairwise_cons h hx

theorem insertIn_of_mem {k : κ} (v : ν) : ∀ {l : List (κ × ν)}, l.Pairwise (fun a b => a.1 < b.1) →
    k ∈ l.map Prod.fst → insertIn k v l = l
  | e :: l, hs, h => by
    rw [List.map_cons] at h
    rcases List.mem_cons.1 h with rfl | h
    · rw [insertIn, if_neg (lt_irrefl _), if_pos rfl]
    · obtain ⟨x, hx, rfl⟩ := List.mem_map.1 h
      have hlt : e.1 < x.1 := List.rel_of_pairwise_cons hs hx
      rw [insertIn, if_neg (not_lt_of_gt hlt), if_neg (ne_of_gt hlt), insertIn_of_mem v hs.of_cons h]

theorem sorted_setIn (k : κ) (v : ν) {l : List (κ × ν)} (h : l.Pairwise (fun a b => a.1 < b.1)) :
    (setIn k v l).Pairwise (fun a b => a.1 < b.1) := by
  refine List.pairwise_map.2 (h.imp (fun {a b} hab => ?_))
  split <;> split <;> exact hab

theorem findIn_eq_some_of_mem {k : κ} {v : ν} : ∀ {l : List (κ × ν)}, l.Pairwise (fun a b => a.1 < b.1) →
    (k, v) ∈ l → findIn k l = some v
  | e :: l, hs, h => by
    rcases List.mem_cons.1 h with rfl | h
    · simp [findIn]
    · have hlt : e.1 < k := List.rel_of_pairwise_cons hs h
      rw [findIn, if_neg (ne_of_lt hlt), findIn_eq_some_of_mem hs.of_cons h]

theorem mem_of_findIn {k : κ} {v : ν} : ∀ {l : List (κ × ν)}, findIn k l = some v → (k, v) ∈ l
  | e :: l, h => by
    rw [findIn] at h
    split at h
    · rename_i hk
      cases h
      rw [← hk]
      exact List.mem_cons_self
    · exact List.mem_cons_of_mem _ (mem_of_findIn h)

theorem findIn_eq_none_iff {k : κ} : ∀ {l : List (κ × ν)}, findIn k l = none ↔ ∀ e ∈ l, e.1 ≠ k
  | [] => by simp [findIn]
  | e :: l => by
    rw [findIn]
    by_cases h : e.1 = k
    · simp [h]
    · simp [h, findIn_eq_none_iff (l := l)]

theorem findIn_insertIn (k k' : κ) (v : ν) : ∀ {l : List (κ × ν)}, l.Pairwise (fun a b => a.1 < b.1) →
    findIn k' (insertIn k v l) = if k' = k then some ((findIn k l).getD v) else findIn k' l
  | [], _ => by
    by_cases h : k' = k
    · simp [insertIn, findIn, h]
    · simp [insertIn, findIn, h, Ne.symm h]
  | e :: l, hs => by
    unfold insertIn
    split
    · rename_i hk
      -- the new entry goes in front, so no entry of the list has its key
      have hnone : findIn k (e :: l) = none := findIn_eq_none_iff.2 (fun x hx => by
        rcases List.mem_cons.1 hx with rfl | hx
        · exact ne_of_gt hk
        · exact ne_of_gt (lt_trans hk (List.rel_of_pairwise_cons hs hx)))
      rw [findIn, hnone]
      by_cases h : k' = k
      · simp [h]
      · simp [h, Ne.symm h]
    · split
      · rename_i hk
        by_cases h : k' = k
        · simp [h, findIn, hk.symm]
        · simp [h]
      · rename_i hk
        have ih := findIn_insertIn k k' v hs.of_cons
        by_cases h : k' = k
        · subst h
          simp [findIn, Ne.symm hk, ih]
        · simp [findIn, h, ih]

theorem findIn_setIn (k k' : κ) (v : ν) : ∀ (l : List (κ × ν)),
    findIn k' (setIn k v l) = if k' = k then (findIn k l).map (fun _ => v) else findIn k' l
  | [] => by simp [setIn, findIn]
  | e :: l => by
    have ih := findIn_setIn k k' v l
    unfold setIn at ih ⊢
    rw [List.map_cons, findIn, ih, findIn, findIn]
    by_cases hk : e.1 = k <;> by_cases h : k' = k
    · simp [hk, h]
    · simp [hk, h, Ne.symm h]
    · simp [hk, h]
    · simp [hk, h]

/-! ## The map and its laws -/

def empty : OrdMap κ ν := ⟨[], List.Pairwise.nil⟩

def find? (m : OrdMap κ ν) (k : κ) : Option ν := findIn k m.entries

def keys (m : OrdMap κ ν) : List κ := m.entries.map Prod.fst

def insert (m : OrdMap κ ν) (k : κ) (v : ν) : OrdMap κ ν := ⟨insertIn k v m.entries, sorted_insertIn k v m.sorted⟩

def set (m : OrdMap κ ν) (k : κ) (v : ν) : OrdMap κ ν := ⟨setIn k v m.entries, sorted_setIn k v m.sorted⟩

def erase (m : OrdMap κ ν) (k : κ) : OrdMap κ ν :=
  ⟨m.entries.filter (fun e => decide (e.1 ≠ k)), m.sorted.sublist List.filter_sublist⟩

theorem mem_entries_iff {m : OrdMap κ ν} {k : κ} {v : ν} : (k, v) ∈ m.entries ↔ m.find? k = some v :=
  ⟨findIn_eq_some_of_mem m.sorted, mem_of_findIn⟩

theorem mem_keys_iff {m : OrdMap κ ν} {k : κ} : k ∈ m.keys ↔ ∃ v, m.find? k = some v := by
  simp [keys, ← mem_entries_iff]

theorem keys_nodup (m : OrdMap κ ν) : m.keys.Nodup :=
  List.Pairwise.map Prod.fst (fun _ _ h => ne_of_lt h) m.sorted

@[simp] theorem find?_empty (k : κ) : (empty : OrdMap κ ν).find? k = none := rfl

@[simp] theorem keys_empty : (empty : OrdMap κ ν).keys = [] := rfl

theorem find?_insert (m : OrdMap κ ν) (k k' : κ) (v : ν) :
    (m.insert k v).find? k' = if k' = k then some ((m.find? k).getD v) else m.find? k' :=
  findIn_insertIn k k' v m.sorted

/-- A fresh key enters with its value. -/
theorem find?_insert_of_fresh {m : OrdMap κ ν} {k : κ} (h : m.find? k = none) (k' : κ) (v : ν) :
    (m.insert k v).find? k' = if k' = k then some v else m.find? k' := by
  rw [find?_insert, h, Option.getD_none]

theorem find?_set (m : OrdMap κ ν) (k k' : κ) (v : ν) :
    (m.set k v).find? k' = if k' = k then (m.find? k).map (fun _ => v) else m.find? k' :=
  findIn_setIn k k' v m.entries

theorem find?_erase (m : OrdMap κ ν) (k k' : κ) :
    (m.erase k).find? k' = if k' = k then none else m.find? k' := by
  by_cases h : k' = k
  · rw [if_pos h, find?, findIn_eq_none_iff]
    intro e he
    simpa [h] using (List.mem_filter.1 he).2
  · rw [if_neg h]
    refine Option.ext (fun v => ?_)
    rw [← mem_entries_iff, ← mem_entries_iff]
    simp [erase, h]

/-- Erasing the one key of a value takes the value out. -/
theorem find?_erase_of_unique {m : OrdMap κ ν} {k k' : κ} {v w : ν} (hk : m.find? k = some v)
    (hunique : ∀ q, m.find? q = some v → q = k) :
    (m.erase k).find? k' = some w ↔ m.find? k' = some w ∧ w ≠ v := by
  rw [find?_erase]
  by_cases h : k' = k
  · rw [if_pos h, h, hk]
    refine ⟨fun hw => (nomatch hw), fun hw => ?_⟩
    cases hw.1
    exact absurd rfl hw.2
  · rw [if_neg h]
    refine ⟨fun hw => ⟨hw, ?_⟩, fun hw => hw.1⟩
    rintro rfl
    exact h (hunique k' hw)

@[simp] theorem keys_set (m : OrdMap κ ν) (k : κ) (v : ν) : (m.set k v).keys = m.keys := by
  simp only [keys, set, setIn, List.map_map]
  refine List.map_congr_left (fun e _ => ?_)
  by_cases h : e.1 = k <;> simp [h]

theorem set_of_absent {m : OrdMap κ ν} {k : κ} (h : m.find? k = none) (v : ν) : m.set k v = m := by
  have hid : setIn k v m.entries = m.entries := by
    refine (List.map_congr_left (g := id) (fun e he => ?_)).trans (List.map_id _)
    exact if_neg (findIn_eq_none_iff.1 h e he)
  obtain ⟨entries, sorted⟩ := m
  simp only [set, mk.injEq]
  exact hid

theorem insert_of_mem {m : OrdMap κ ν} {k : κ} (h : k ∈ m.keys) (v : ν) : m.insert k v = m := by
  obtain ⟨entries, sorted⟩ := m
  simp only [insert, mk.injEq]
  exact insertIn_of_mem v sorted h

theorem mem_keys_insert {m : OrdMap κ ν} {k k' : κ} {v : ν} : k' ∈ (m.insert k v).keys ↔ k' = k ∨ k' ∈ m.keys := by
  rw [mem_keys_iff, mem_keys_iff, find?_insert]
  by_cases h : k' = k <;> simp [h]

theorem find?_eq_none_iff {m : OrdMap κ ν} {k : κ} : m.find? k = none ↔ k ∉ m.keys := by
  rw [mem_keys_iff]
  cases m.find? k <;> simp

end OrdMap
end Base
