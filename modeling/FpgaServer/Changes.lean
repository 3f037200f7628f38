import Mathlib.Data.List.Destutter
/-!
# Changes — a value that is observed, cached, and reported when it changes

An observer holds the last value it has seen, at first `zero`, and reports a value that differs from the one it holds.
`Follows` ties its three records together: the reports are the observations with repetitions removed, and the cached value
is the last observation.  One rule carries it over an observation.
-/
namespace Base

variable {α : Type} [DecidableEq α]

/-- One more value is kept if it differs from the last one. -/
theorem destutter'_concat (b : α) : ∀ (l : List α) (a : α), (l ++ [b]).destutter' (· ≠ ·) a =
    l.destutter' (· ≠ ·) a ++ if b ≠ l.getLastD a then [b] else []
  | [], a => by
    by_cases h : a = b
    · simp [h]
    · simp [h, Ne.symm h]
  | c :: l, a => by
    rw [List.cons_append, List.getLastD_cons]
    by_cases h : a = c
    · rw [List.destutter'_cons_neg _ (not_not.2 h), List.destutter'_cons_neg _ (not_not.2 h), destutter'_concat b l a, h]
    · rw [List.destutter'_cons_pos _ h, List.destutter'_cons_pos _ h, destutter'_concat b l c, List.cons_append]

/-- What an observer that starts from `zero` has seen, has reported and holds. -/
structure Follows (zero : α) (observed reported : List α) (cached : α) : Prop where
  changes : zero :: reported = observed.destutter' (· ≠ ·) zero
  last : observed.getLastD zero = cached
  replay : reported.getLastD zero = cached

namespace Follows

variable {zero cached : α} {observed reported : List α}

theorem start (zero : α) : Follows zero [] [] zero := ⟨rfl, rfl, rfl⟩

/-- **One observation**: it becomes the cached value, and is reported if it was not. -/
theorem observe (h : Follows zero observed reported cached) (v : α) :
    Follows zero (observed ++ [v]) (reported ++ if v ≠ cached then [v] else []) v := by
  refine ⟨?_, List.getLastD_concat, ?_⟩
  · rw [destutter'_concat, ← h.changes, h.last, List.cons_append]
  · by_cases hv : v = cached
    · rw [if_neg (not_not.2 hv), List.append_nil, h.replay, hv]
    · rw [if_pos hv, List.getLastD_concat]

theorem chain (h : Follows zero observed reported cached) : (zero :: reported).IsChain (· ≠ ·) := by
  rw [h.changes]
  exact List.isChain_destutter' _ _ _

end Follows
end Base
