import Mathlib.Init
/-!
# Calls — programs that call an environment

A program returns or makes a call and goes on with the answer, so whatever else happens in the environment happens between
two calls.  `Every P` says that all calls a program may make satisfy `P`, `Reaches` that some answers lead it to a bad call,
where a call and its answer change a state the badness is about.  The rules follow the structure of a program, and those of
`EveryRun` do so for programs with exceptions and a state.
-/
namespace Base

variable {κ ρ σ τ ε α β : Type}

inductive Calls (κ ρ α : Type) where
  | pure (a : α)
  | call (c : κ) (next : ρ → Calls κ ρ α)

namespace Calls

def bind : Calls κ ρ α → (α → Calls κ ρ β) → Calls κ ρ β
  | .pure a, f => f a
  | .call c next, f => .call c (fun r => bind (next r) f)

instance : Monad (Calls κ ρ) where
  pure := Calls.pure
  bind := Calls.bind

def ask (c : κ) : Calls κ ρ ρ := .call c .pure

def Every (P : κ → Prop) : Calls κ ρ α → Prop
  | .pure _ => True
  | .call c next => P c ∧ ∀ r, Every P (next r)

/-- Some answers lead the program to a bad call. -/
def Reaches (bad : τ → κ → Prop) (after : κ → ρ → τ → τ) : Calls κ ρ α → τ → Prop
  | .pure _, _ => False
  | .call c next, t => bad t c ∨ ∃ r, Reaches bad after (next r) (after c r t)

variable {P : κ → Prop} {bad : τ → κ → Prop} {after : κ → ρ → τ → τ}

theorem Every.bind {x : Calls κ ρ α} {f : α → Calls κ ρ β} (hx : x.Every P) (hf : ∀ a, (f a).Every P) :
    (x >>= f).Every P := by
  induction x with
  | pure a => exact hf a
  | call c next ih =>
    obtain ⟨hc, hnext⟩ := hx
    exact ⟨hc, fun r => ih r (hnext r)⟩

theorem Every.ask {c : κ} (hc : P c) : (ask c : Calls κ ρ ρ).Every P := ⟨hc, fun _ => trivial⟩

/-- A program whose calls are never bad reaches no bad call. -/
theorem Every.not_reaches {x : Calls κ ρ α} (hx : x.Every (fun c => ∀ t, ¬ bad t c)) (t : τ) :
    ¬ x.Reaches bad after t := by
  induction x generalizing t with
  | pure a => exact id
  | call c next ih =>
    obtain ⟨hc, hnext⟩ := hx
    rintro (hbad | ⟨r, hr⟩)
    · exact hc t hbad
    · exact ih r (hnext r) _ hr

theorem Every.imp {Q : κ → Prop} {x : Calls κ ρ α} (hx : x.Every P) (hPQ : ∀ c, P c → Q c) : x.Every Q := by
  induction x with
  | pure a => trivial
  | call c next ih =>
    obtain ⟨hc, hnext⟩ := hx
    exact ⟨hPQ c hc, fun r => ih r (hnext r)⟩

end Calls

/-! ## With exceptions and a state -/

/-- Every call of every run of `x` satisfies `P`. -/
def EveryRun (P : κ → Prop) (x : ExceptT ε (StateT σ (Calls κ ρ)) α) : Prop := ∀ s, (x.run.run s).Every P

namespace EveryRun

variable {P : κ → Prop} {x : ExceptT ε (StateT σ (Calls κ ρ)) α}

theorem pure (a : α) : EveryRun P (pure a : ExceptT ε (StateT σ (Calls κ ρ)) α) := fun _ => trivial

theorem throw (e : ε) : EveryRun P (throw e : ExceptT ε (StateT σ (Calls κ ρ)) α) := fun _ => trivial

theorem get : EveryRun P (get : ExceptT ε (StateT σ (Calls κ ρ)) σ) := fun _ => trivial

theorem set (s : σ) : EveryRun P (set s : ExceptT ε (StateT σ (Calls κ ρ)) PUnit) := fun _ => trivial

theorem bind {f : α → ExceptT ε (StateT σ (Calls κ ρ)) β} (hx : EveryRun P x) (hf : ∀ a, EveryRun P (f a)) :
    EveryRun P (x >>= f) := by
  intro s
  refine Calls.Every.bind (hx s) ?_
  rintro ⟨r, t⟩
  cases r with
  | ok a => exact hf a t
  | error e => trivial

theorem tryCatch {h : ε → ExceptT ε (StateT σ (Calls κ ρ)) α} (hx : EveryRun P x) (hh : ∀ e, EveryRun P (h e)) :
    EveryRun P (tryCatch x h) := by
  intro s
  refine Calls.Every.bind (hx s) ?_
  rintro ⟨r, t⟩
  cases r with
  | ok a => trivial
  | error e => exact hh e t

theorem ask {c : κ} (hc : P c) : EveryRun P (liftM (Calls.ask c : Calls κ ρ ρ) : ExceptT ε (StateT σ (Calls κ ρ)) ρ) := by
  intro s
  exact ⟨hc, fun _ => trivial⟩

end EveryRun
end Base
