import Mathlib.Data.List.Basic
/-!
# Transducer — machines that read symbols one at a time and emit outputs

A machine reads a symbol, moves, and emits any number of outputs.  A run over an append is two runs (`run_append`), so that it does
not matter how a stream is cut.
`Reads T s w o` says that from `s` the word `w` emits `o` and comes back to `s`; words that do compose (`Reads.append`,
`Reads.flatten`), which is how a self-delimiting format is decoded.
-/
namespace Base

structure Transducer (α σ β : Type) where
  step : σ → α → σ × List β

namespace Transducer

variable {α σ β : Type} (T : Transducer α σ β)

/-- The run over a word: the state it ends in and everything emitted, in order. -/
def run : σ → List α → σ × List β
  | s, [] => (s, [])
  | s, a :: w => ((run (T.step s a).1 w).1, (T.step s a).2 ++ (run (T.step s a).1 w).2)

@[simp] theorem run_nil (s : σ) : T.run s [] = (s, []) := rfl

theorem run_cons (s : σ) (a : α) (w : List α) :
    T.run s (a :: w) = ((T.run (T.step s a).1 w).1, (T.step s a).2 ++ (T.run (T.step s a).1 w).2) := rfl

theorem run_append : ∀ (s : σ) (v w : List α),
    T.run s (v ++ w) = ((T.run (T.run s v).1 w).1, (T.run s v).2 ++ (T.run (T.run s v).1 w).2)
  | _, [], _ => rfl
  | s, a :: v, w => by
    rw [List.cons_append, run_cons, run_append _ v w, run_cons]
    simp only [List.append_assoc]

/-- The word comes back to the state it starts in and emits `o`. -/
def Reads (s : σ) (w : List α) (o : List β) : Prop := T.run s w = (s, o)

variable {T}

theorem Reads.nil (s : σ) : T.Reads s [] [] := rfl

theorem Reads.append {s : σ} {v w : List α} {o p : List β} (hv : T.Reads s v o) (hw : T.Reads s w p) :
    T.Reads s (v ++ w) (o ++ p) := by
  unfold Reads at *
  rw [run_append, hv, hw]

theorem Reads.flatten {s : σ} {ws : List (List α)} {os : List (List β)} (h : List.Forall₂ (T.Reads s) ws os) :
    T.Reads s ws.flatten os.flatten := by
  induction h with
  | nil => exact Reads.nil s
  | cons hw _ ih => exact hw.append ih

end Transducer
end Base
