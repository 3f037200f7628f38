import Mathlib.Data.List.Basic
/-!
# IoService — asynchronous operations

An operation waits until it completes, its handler is queued with the outcome, runs and is finished.  Cancelling completes
the operations that still wait; a queued handler runs with the outcome it has.  The operations of a program are a list, and
the lemmas count those of a kind.
-/
namespace Base

inductive Outcome where
  | success
  | aborted
  | failed
  deriving DecidableEq, Repr

inductive Phase where
  | waiting
  | queued (o : Outcome)
  | running (o : Outcome)
  deriving DecidableEq, Repr

def Phase.isRunning : Phase → Bool
  | .running _ => true
  | _ => false

structure Operation (κ : Type) where
  key : κ
  phase : Phase
  deriving DecidableEq, Repr

namespace Operation

variable {κ : Type}

def arm (k : κ) (ops : List (Operation κ)) : List (Operation κ) := ops ++ [⟨k, .waiting⟩]

def cancelled (p : κ → Bool) (op : Operation κ) : Operation κ :=
  if p op.key && decide (op.phase = .waiting) then { op with phase := .queued .aborted } else op

def cancel (p : κ → Bool) (ops : List (Operation κ)) : List (Operation κ) := ops.map (cancelled p)

/-- An operation goes to its next phase. -/
def Moves (k : κ) (x y : Phase) (ops ops' : List (Operation κ)) : Prop :=
  ∃ pre post, ops = pre ++ ⟨k, x⟩ :: post ∧ ops' = pre ++ ⟨k, y⟩ :: post

/-- An operation is over. -/
def Ends (k : κ) (x : Phase) (ops ops' : List (Operation κ)) : Prop :=
  ∃ pre post, ops = pre ++ ⟨k, x⟩ :: post ∧ ops' = pre ++ post

def count (p : κ → Bool) (ops : List (Operation κ)) : Nat := ops.countP (fun op => p op.key)

/-- Some operations have been aborted, and nothing else has happened. -/
structure Aborts (ops ops' : List (Operation κ)) : Prop where
  length : ops'.length = ops.length
  mem : ∀ op ∈ ops', op ∈ ops ∨ op.phase = .queued .aborted ∧ ∃ a ∈ ops, a.key = op.key

variable {p : κ → Bool} {k : κ} {x y : Phase} {ops ops' ops'' : List (Operation κ)} {op : Operation κ}

@[simp] theorem key_cancelled (p : κ → Bool) (op : Operation κ) : (cancelled p op).key = op.key := by
  unfold cancelled
  split <;> rfl

theorem phase_cancelled (p : κ → Bool) (op : Operation κ) :
    (cancelled p op).phase = op.phase ∨ p op.key = true ∧ op.phase = .waiting ∧ (cancelled p op).phase = .queued .aborted := by
  unfold cancelled
  split
  · rename_i h
    rw [Bool.and_eq_true, decide_eq_true_eq] at h
    exact .inr ⟨h.1, h.2, rfl⟩
  · exact .inl rfl

theorem cancelled_not_waiting (h : p op.key = true) : (cancelled p op).phase ≠ .waiting := by
  unfold cancelled
  by_cases hw : op.phase = .waiting
  · simp [h, hw]
  · simp [hw]

theorem mem_arm : op ∈ arm k ops ↔ op ∈ ops ∨ op = ⟨k, .waiting⟩ := by
  simp [arm]

theorem mem_cancel : op ∈ cancel p ops ↔ ∃ a ∈ ops, cancelled p a = op := by
  simp [cancel]

theorem length_cancel (p : κ → Bool) (ops : List (Operation κ)) : (cancel p ops).length = ops.length := List.length_map _

/-- What waits after a cancellation has not been cancelled. -/
theorem waiting_cancel (h : op ∈ cancel p ops) (hw : op.phase = .waiting) : op ∈ ops ∧ p op.key = false := by
  obtain ⟨a, ha, rfl⟩ := mem_cancel.1 h
  have hp : p a.key = false := by
    by_contra hp
    exact cancelled_not_waiting (by simpa using hp) hw
  refine ⟨?_, by rw [key_cancelled, hp]⟩
  rw [show cancelled p a = a from if_neg (by simp [hp])]
  exact ha

theorem Aborts.refl (ops : List (Operation κ)) : Aborts ops ops := ⟨rfl, fun _ h => .inl h⟩

theorem Aborts.trans (h : Aborts ops ops') (h' : Aborts ops' ops'') : Aborts ops ops'' := by
  refine ⟨h'.length.trans h.length, fun op ho => ?_⟩
  rcases h'.mem op ho with ho | ⟨hp, a, ha, hk⟩
  · exact h.mem op ho
  · rcases h.mem a ha with ha | ⟨-, b, hb, hkb⟩
    · exact .inr ⟨hp, a, ha, hk⟩
    · exact .inr ⟨hp, b, hb, hkb.trans hk⟩

theorem aborts_cancel (p : κ → Bool) (ops : List (Operation κ)) : Aborts ops (cancel p ops) := by
  refine ⟨length_cancel p ops, fun op ho => ?_⟩
  obtain ⟨a, ha, rfl⟩ := mem_cancel.1 ho
  unfold cancelled
  split
  · exact .inr ⟨rfl, a, ha, rfl⟩
  · exact .inl ha

/-- No handler runs after an abort that did not before. -/
theorem Aborts.idle (h : Aborts ops ops') (hidle : ∀ op ∈ ops, op.phase.isRunning = false) :
    ∀ op ∈ ops', op.phase.isRunning = false := by
  intro op ho
  rcases h.mem op ho with ho | ⟨hp, -⟩
  · exact hidle op ho
  · rw [hp]
    rfl

/-- What is not queued with another result is not so after an abort. -/
theorem Aborts.not_mem {o : Outcome} (h : Aborts ops ops') (ho : o ≠ .aborted) (hk : ⟨k, .queued o⟩ ∉ ops) :
    ⟨k, .queued o⟩ ∉ ops' := by
  intro hmem
  rcases h.mem _ hmem with hmem | ⟨hp, -⟩
  · exact hk hmem
  · cases hp
    exact ho rfl

theorem Aborts.key_ne (h : Aborts ops ops') (hk : ∀ op ∈ ops, op.key ≠ k) : ∀ op ∈ ops', op.key ≠ k := by
  intro op ho
  rcases h.mem op ho with ho | ⟨-, a, ha, he⟩
  · exact hk op ho
  · rw [← he]
    exact hk a ha

theorem Moves.mem (h : Moves k x y ops ops') (ho : op ∈ ops') : op ∈ ops ∨ op = ⟨k, y⟩ := by
  obtain ⟨pre, post, rfl, rfl⟩ := h
  simp only [List.mem_append, List.mem_cons] at ho ⊢
  tauto

theorem Moves.source (h : Moves k x y ops ops') : ⟨k, x⟩ ∈ ops := by
  obtain ⟨pre, post, rfl, rfl⟩ := h
  simp

theorem Ends.mem (h : Ends k x ops ops') (ho : op ∈ ops') : op ∈ ops := by
  obtain ⟨pre, post, rfl, rfl⟩ := h
  simp only [List.mem_append, List.mem_cons] at ho ⊢
  tauto

theorem Ends.source (h : Ends k x ops ops') : ⟨k, x⟩ ∈ ops := by
  obtain ⟨pre, post, rfl, rfl⟩ := h
  simp

theorem Ends.length (h : Ends k x ops ops') : ops.length = ops'.length + 1 := by
  obtain ⟨pre, post, rfl, rfl⟩ := h
  simp only [List.length_append, List.length_cons]
  omega

/-! ## Counting -/

theorem count_arm (p : κ → Bool) (k : κ) (ops : List (Operation κ)) :
    count p (arm k ops) = count p ops + if p k then 1 else 0 := by
  simp [count, arm, List.countP_append, List.countP_cons]

theorem count_cancel (p q : κ → Bool) (ops : List (Operation κ)) : count p (cancel q ops) = count p ops := by
  unfold count cancel
  rw [List.countP_map]
  congr 1
  funext op
  simp

theorem Moves.count (h : Moves k x y ops ops') (p : κ → Bool) : count p ops' = count p ops := by
  obtain ⟨pre, post, rfl, rfl⟩ := h
  simp [Operation.count, List.countP_append, List.countP_cons]

theorem Ends.count (h : Ends k x ops ops') (p : κ → Bool) : count p ops = count p ops' + if p k then 1 else 0 := by
  obtain ⟨pre, post, rfl, rfl⟩ := h
  simp only [Operation.count, List.countP_append, List.countP_cons]
  omega

theorem count_eq_zero_iff : count p ops = 0 ↔ ∀ op ∈ ops, p op.key = false := by
  unfold count
  rw [List.countP_eq_zero]
  simp

end Operation
end Base
