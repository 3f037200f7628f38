import FpgaServer.Effect
/-!
# Retraces — a program and what it comes to

`Retraces I G view x y`: from a state where `I` holds, a run of `x` that returns ends in such a state, and where it ends well
(`G`) it has begun well, and `y` takes what `view` sees of its first state to what `view` sees of its last, with the same
result.  A run that is cut short or goes wrong is free to do anything that keeps `I`; since `G` is carried from the end of a
run back to its start, a long run that ends well has gone well in every step (`Retraces.bind`).

`Mirrors R x y`: from states that `R` relates, the two programs end alike, in states that it relates.

Either is a `Simulation`, which passes through sequencing, so that what is made of some calls retraces or mirrors what is made of
others if the calls do.
-/
namespace Base

variable {ε σ τ υ α β : Type} {I G : σ → Prop} {view : σ → τ}

/-- A step that is taken only sometimes. -/
theorem ok_of_if {c : Prop} [Decidable c] {x : EStateM ε σ PUnit} {k : EStateM ε σ β} {s t : σ} {b : β}
    (h : (if c then x >>= fun _ => k else k).run s = .ok b t) :
    ∃ u, (if c then x else pure ()).run s = .ok () u ∧ k.run u = .ok b t := by
  by_cases hc : c
  · rw [if_pos hc] at h ⊢
    obtain ⟨_, u, hx, hk⟩ := bind_ok_iff.1 h
    exact ⟨u, hx, hk⟩
  · rw [if_neg hc] at h ⊢
    exact ⟨s, rfl, h⟩

/-- A program whose first step is known. -/
theorem run_bind_of {x : EStateM ε σ α} {s t : σ} {a : α} (h : x.run s = .ok a t) (f : α → EStateM ε σ β) :
    (x >>= f).run s = (f a).run t := by
  rw [EStateM.run_bind, h]

/-- A run returns, with such a result and such a state. -/
def returns (p : α → σ → Bool) : EStateM.Result ε σ α → Bool
  | .ok a s => p a s
  | .error .. => false

theorem ok_of_returns {p : α → σ → Bool} {r : EStateM.Result ε σ α} (h : returns p r = true) :
    ∃ a s, r = .ok a s ∧ p a s = true := by
  cases r with
  | ok a s => exact ⟨a, s, rfl, h⟩
  | error e s => cases h

/-- From one state. -/
def RetracesFrom (s : σ) (I G : σ → Prop) (view : σ → τ) (x : EStateM ε σ α) (y : EStateM ε τ α) : Prop :=
  ∀ a s', I s → x.run s = .ok a s' → I s' ∧ (G s' → G s ∧ y.run (view s) = .ok a (view s'))

def Retraces (I G : σ → Prop) (view : σ → τ) (x : EStateM ε σ α) (y : EStateM ε τ α) : Prop :=
  ∀ s, RetracesFrom s I G view x y

/-- What comes next retraces from where the first part ends. -/
theorem RetracesFrom.bind {s : σ} {x : EStateM ε σ α} {y : EStateM ε τ α} {f : α → EStateM ε σ β} {g : α → EStateM ε τ β}
    (hx : RetracesFrom s I G view x y) (hf : ∀ a t, I s → x.run s = .ok a t → RetracesFrom t I G view (f a) (g a)) :
    RetracesFrom s I G view (x >>= f) (y >>= g) := by
  intro b s' hI h
  obtain ⟨a, u, hxu, hfu⟩ := bind_ok_iff.1 h
  obtain ⟨hIu, hu⟩ := hx a u hI hxu
  obtain ⟨hIs', hs'⟩ := hf a u hI hxu b s' hIu hfu
  refine ⟨hIs', fun hG => ?_⟩
  obtain ⟨hGu, hg⟩ := hs' hG
  obtain ⟨hGs, hy⟩ := hu hGu
  exact ⟨hGs, bind_ok_iff.2 ⟨a, view u, hy, hg⟩⟩

theorem RetracesFrom.get_bind {s : σ} {f : σ → EStateM ε σ β} {g : τ → EStateM ε τ β}
    (h : RetracesFrom s I G view (f s) (g (view s))) : RetracesFrom s I G view (get >>= f) (get >>= g) := h

namespace Retraces

theorem pure (a : α) : Retraces I G view (pure a : EStateM ε σ α) (pure a) := by
  intro s b s' hI h
  cases h
  exact ⟨hI, fun hG => ⟨hG, rfl⟩⟩

theorem throw (e : ε) (y : EStateM ε τ α) : Retraces I G view (throw e : EStateM ε σ α) y := by
  intro s b s' hI h
  cases h

/-- What comes next may rely on what is known of the result. -/
theorem bind_of {Q : α → Prop} {x : EStateM ε σ α} {y : EStateM ε τ α} {f : α → EStateM ε σ β} {g : α → EStateM ε τ β}
    (hx : Retraces I G view x y) (hQ : ∀ s a s', I s → x.run s = .ok a s' → Q a)
    (hf : ∀ a, Q a → Retraces I G view (f a) (g a)) : Retraces I G view (x >>= f) (y >>= g) :=
  fun s => (hx s).bind (fun a t hI h => hf a (hQ s a t hI h) t)

theorem bind {x : EStateM ε σ α} {y : EStateM ε τ α} {f : α → EStateM ε σ β} {g : α → EStateM ε τ β}
    (hx : Retraces I G view x y) (hf : ∀ a, Retraces I G view (f a) (g a)) : Retraces I G view (x >>= f) (y >>= g) :=
  hx.bind_of (Q := fun _ => True) (fun _ _ _ _ _ => trivial) (fun a _ => hf a)

theorem ite {c : Prop} [Decidable c] {x x' : EStateM ε σ α} {y y' : EStateM ε τ α} (hx : c → Retraces I G view x y)
    (hx' : ¬ c → Retraces I G view x' y') : Retraces I G view (if c then x else x') (if c then y else y') := by
  by_cases h : c
  · rw [if_pos h, if_pos h]
    exact hx h
  · rw [if_neg h, if_neg h]
    exact hx' h

theorem get_bind {f : σ → EStateM ε σ β} {g : τ → EStateM ε τ β} (h : ∀ s, I s → Retraces I G view (f s) (g (view s))) :
    Retraces I G view (get >>= f) (get >>= g) :=
  fun s a s' hI => h s hI s a s' hI

theorem of_if {c : Prop} [Decidable c] {x : EStateM ε σ PUnit} {y : EStateM ε τ PUnit} {k : EStateM ε σ β} {l : EStateM ε τ β}
    (hx : c → Retraces I G view x y) (hk : Retraces I G view k l) :
    Retraces I G view (if c then x >>= fun _ => k else k) (if c then y >>= fun _ => l else l) :=
  ite (fun hc => (hx hc).bind (fun _ => hk)) (fun _ => hk)

theorem modify {f : σ → σ} {g : τ → τ} (hI : ∀ s, I s → I (f s)) (hG : ∀ s, G (f s) → G s)
    (hview : ∀ s, view (f s) = g (view s)) : Retraces I G view (modify f : EStateM ε σ PUnit) (modify g) := by
  intro s a s' hs h
  cases h
  exact ⟨hI s hs, fun hf => ⟨hG s hf, by rw [hview]; rfl⟩⟩

/-- A program on a part of the state, the rest of which is seen as it is. -/
theorem zoom {σ' τ' : Type} {get : σ' → σ} {put : σ → σ' → σ'} {get' : τ' → τ} {put' : τ → τ' → τ'} {sees : σ' → τ'}
    {x : EStateM ε σ α} {y : EStateM ε τ α} (hget : ∀ t s, get (put t s) = t) (hsees : ∀ s, get' (sees s) = view (get s))
    (hput : ∀ t s, sees (put t s) = put' (view t) (sees s)) (h : Retraces I G view x y) :
    Retraces (fun s => I (get s)) (fun s => G (get s)) sees (zoom get put x) (zoom get' put' y) := by
  intro s a s' hI hrun
  obtain ⟨t, ht, rfl⟩ := zoom_ok_iff.1 hrun
  obtain ⟨hIt, hgood⟩ := h _ a t hI ht
  simp only [hget]
  refine ⟨hIt, fun hG => ?_⟩
  obtain ⟨hGs, hy⟩ := hgood hG
  exact ⟨hGs, zoom_ok_iff.2 ⟨view t, by rw [hsees]; exact hy, (hput t s).symm⟩⟩

end Retraces

/-! ## Simulations -/

/-- A relation of programs that passes through sequencing. -/
structure Simulation {ε σ τ : Type} (S : ∀ {α : Type}, EStateM ε σ α → EStateM ε τ α → Prop) : Prop where
  pure : ∀ {α : Type} (a : α), S (pure a) (pure a)
  throw : ∀ {α : Type} (e : ε), S (throw e : EStateM ε σ α) (throw e)
  bind : ∀ {α β : Type} {x : EStateM ε σ α} {y : EStateM ε τ α} {f : α → EStateM ε σ β} {g : α → EStateM ε τ β},
    S x y → (∀ a, S (f a) (g a)) → S (x >>= f) (y >>= g)

theorem simulation_retraces {ε σ τ : Type} (I G : σ → Prop) (view : σ → τ) :
    Simulation (fun {α} (x : EStateM ε σ α) y => Retraces I G view x y) where
  pure := Retraces.pure
  throw e := Retraces.throw e _
  bind := Retraces.bind

/-- The runs end alike, in related states. -/
def Mirrors {ε σ τ α : Type} (R : σ → τ → Prop) (x : EStateM ε σ α) (y : EStateM ε τ α) : Prop :=
  ∀ s t, R s t → match y.run t with
    | .ok a t' => ∃ s', x.run s = .ok a s' ∧ R s' t'
    | .error e t' => ∃ s', x.run s = .error e s' ∧ R s' t'

theorem simulation_mirrors {ε σ τ : Type} (R : σ → τ → Prop) : Simulation (fun {α} (x : EStateM ε σ α) y => Mirrors R x y) where
  pure a := fun s _ hR => ⟨s, rfl, hR⟩
  throw e := fun s _ hR => ⟨s, rfl, hR⟩
  bind := by
    intro α β x y f g hxy hfg s t hR
    have hfirst := hxy s t hR
    rw [EStateM.run_bind, EStateM.run_bind]
    cases hy : y.run t with
    | ok a t' =>
      rw [hy] at hfirst
      obtain ⟨s', hx, hR'⟩ := hfirst
      rw [hx]
      exact hfg a s' t' hR'
    | error e t' =>
      rw [hy] at hfirst
      obtain ⟨s', hx, hR'⟩ := hfirst
      rw [hx]
      exact ⟨s', rfl, hR'⟩

/-- Where one run returns, so does the other. -/
theorem Mirrors.ok {ε σ τ α : Type} {R : σ → τ → Prop} {x : EStateM ε σ α} {y : EStateM ε τ α} (h : Mirrors R x y) {s s' : σ}
    {t : τ} {a : α} (hR : R s t) (hx : x.run s = .ok a s') : ∃ t', y.run t = .ok a t' ∧ R s' t' := by
  have hrun := h s t hR
  cases hy : y.run t with
  | ok b t' =>
    rw [hy] at hrun
    obtain ⟨u, hu, hR'⟩ := hrun
    rw [hx] at hu
    cases hu
    exact ⟨t', rfl, hR'⟩
  | error e t' =>
    rw [hy] at hrun
    obtain ⟨u, hu, -⟩ := hrun
    rw [hx] at hu
    cases hu

end Base
