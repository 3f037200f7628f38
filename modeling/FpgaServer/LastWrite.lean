import Mathlib.Logic.Function.Basic
/-!
# LastWrite — stores and the writes made to them

A store that is written to holds, under each key, the last value written to it, or what it held before (`writes_apply`).
-/
namespace Base

variable {κ ν : Type} [DecidableEq κ]

/-- The store after the writes, each a key with a value. -/
def writes (s : κ → ν) : List (κ × ν) → κ → ν
  | [] => s
  | w :: ws => writes (Function.update s w.1 w.2) ws

/-- The values written to the key. -/
def writtenTo (k : κ) (ws : List (κ × ν)) : List ν := (ws.filter (fun w => w.1 = k)).map Prod.snd

theorem writtenTo_append (k : κ) (vs ws : List (κ × ν)) : writtenTo k (vs ++ ws) = writtenTo k vs ++ writtenTo k ws := by
  simp [writtenTo]

/-- Writes to other keys do not count. -/
theorem writtenTo_of_ne {k : κ} {ws : List (κ × ν)} (h : ∀ w ∈ ws, w.1 ≠ k) : writtenTo k ws = [] := by
  rw [writtenTo, List.filter_eq_nil_iff.2 (fun w hw => by simpa using h w hw), List.map_nil]

/-- **A key holds the last value written to it.** -/
theorem writes_apply (k : κ) : ∀ (ws : List (κ × ν)) (s : κ → ν), writes s ws k = (writtenTo k ws).getLast?.getD (s k)
  | [], s => rfl
  | w :: ws, s => by
    rw [writes, writes_apply k ws, writtenTo, writtenTo, List.filter_cons]
    by_cases h : w.1 = k
    · subst h
      simp [List.getLast?_cons]
    · simp [h, Ne.symm h]

theorem writes_append (s : κ → ν) : ∀ (vs ws : List (κ × ν)), writes s (vs ++ ws) = writes (writes s vs) ws := by
  intro vs
  induction vs generalizing s with
  | nil => exact fun _ => rfl
  | cons v vs ih => exact fun ws => ih _ ws

end Base
