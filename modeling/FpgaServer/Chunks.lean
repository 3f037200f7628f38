import Mathlib.Algebra.GroupWithZero.Nat
/-!
# Chunks — cutting a list into pieces of bounded length

`chunksOf m l` takes `m` entries at a time, the last piece what is left; `countsOf m n` is the same cut of a length.  The
pieces give the list back, none is empty, none is longer than `m`, and there are as few as can be: `n / m` rounded up.
-/
namespace Base

def countsOf (m n : Nat) : List Nat :=
  if _h : n = 0 ∨ m = 0 then [] else min n m :: countsOf m (n - min n m)
termination_by n
decreasing_by omega

def chunksOf {α : Type} (m : Nat) (l : List α) : List (List α) :=
  if _h : l = [] ∨ m = 0 then [] else l.take m :: chunksOf m (l.drop m)
termination_by l.length
decreasing_by
  have := List.length_pos_iff.2 (not_or.1 _h).1
  simp only [List.length_drop]
  omega

variable {α : Type} {m : Nat}

/-- An element of an append is in one of the parts. -/
theorem split_append {x : α} {l seg pre post : List α} (h : l ++ seg = pre ++ x :: post) :
    (∃ mid, l = pre ++ x :: mid ∧ post = mid ++ seg) ∨ ∃ mid, pre = l ++ mid ∧ seg = mid ++ x :: post := by
  rcases List.append_eq_append_iff.1 h with ⟨mid, hpre, hseg⟩ | ⟨mid, hl, hx⟩
  · exact .inr ⟨mid, hpre, hseg⟩
  · cases mid with
    | nil => exact .inr ⟨[], by simpa using hl.symm, by simpa using hx.symm⟩
    | cons y mid =>
      cases hx
      exact .inl ⟨mid, hl, rfl⟩

theorem countsOf_zero (m : Nat) : countsOf m 0 = [] := by simp [countsOf]

theorem countsOf_pos (hm : 0 < m) {n : Nat} (hn : n ≠ 0) : countsOf m n = min n m :: countsOf m (n - min n m) := by
  rw [countsOf, dif_neg (by omega)]

theorem chunksOf_nil (m : Nat) : chunksOf m ([] : List α) = [] := by simp [chunksOf]

theorem chunksOf_ne_nil (hm : 0 < m) {l : List α} (hl : l ≠ []) : chunksOf m l = l.take m :: chunksOf m (l.drop m) := by
  rw [chunksOf, dif_neg (by simp [hl]; omega)]

theorem sum_countsOf (hm : 0 < m) (n : Nat) : (countsOf m n).sum = n := by
  fun_induction countsOf m n with
  | case1 n h => simp; omega
  | case2 n h ih => rw [List.sum_cons, ih]; omega

theorem mem_countsOf {n c : Nat} (h : c ∈ countsOf m n) : 0 < c ∧ c ≤ m := by
  fun_induction countsOf m n with
  | case1 n hn => cases h
  | case2 n hn ih =>
    rcases List.mem_cons.1 h with rfl | h
    · omega
    · exact ih h

theorem length_countsOf (hm : 0 < m) (n : Nat) : (countsOf m n).length = (n + m - 1) / m := by
  fun_induction countsOf m n with
  | case1 n h =>
    have hn : n = 0 := by omega
    subst hn
    exact (Nat.div_eq_of_lt (by omega)).symm
  | case2 n h ih =>
    rw [List.length_cons, ih]
    by_cases hle : n ≤ m
    · rw [Nat.min_eq_left hle, Nat.sub_self, Nat.zero_add, Nat.div_eq_of_lt (by omega)]
      exact (Nat.div_eq_of_lt_le (by omega) (by omega)).symm
    · rw [Nat.min_eq_right (by omega), ← Nat.add_div_right _ hm]
      congr 1
      omega

theorem map_length_chunksOf (m : Nat) (l : List α) : (chunksOf m l).map List.length = countsOf m l.length := by
  fun_induction chunksOf m l with
  | case1 l h =>
    rw [countsOf, dif_pos (h.imp (fun h => by rw [h]; rfl) id)]
    rfl
  | case2 l h ih =>
    rw [countsOf, dif_neg (by rwa [List.length_eq_zero_iff]), List.map_cons, ih, List.length_take, List.length_drop,
      Nat.min_comm]
    congr 2
    omega

theorem length_chunksOf (hm : 0 < m) (l : List α) : (chunksOf m l).length = (l.length + m - 1) / m := by
  rw [← length_countsOf hm, ← map_length_chunksOf, List.length_map]

theorem flatten_chunksOf (hm : 0 < m) (l : List α) : (chunksOf m l).flatten = l := by
  fun_induction chunksOf m l with
  | case1 l h => exact (h.resolve_right (by omega)).symm
  | case2 l h ih => rw [List.flatten_cons, ih, List.take_append_drop]

theorem mem_chunksOf {l c : List α} (h : c ∈ chunksOf m l) : c ≠ [] ∧ c.length ≤ m := by
  have hc : c.length ∈ countsOf m l.length := by
    rw [← map_length_chunksOf]
    exact List.mem_map_of_mem h
  obtain ⟨hpos, hle⟩ := mem_countsOf hc
  exact ⟨List.length_pos_iff.1 hpos, hle⟩

end Base
