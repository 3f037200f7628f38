import Mathlib.Order.Defs.Unbundled
/-!
# Effect — programs with a state and exceptions that keep it

Rules for `EStateM`, whose exceptions leave the state as the failing step left it.  A run of a sequence is taken apart by
`bind_ok_iff` and `bind_error_iff`.  `Within R x` says that every run of `x`, returning or throwing, moves the state along
`R`; for a reflexive and transitive `R` it passes through sequencing, handlers (`handle`) and programs on a part of the
state (`zoom`), so a frame condition or an invariant is shown once for each primitive.  `Matches` relates the runs of two
programs, the second with the state of the first and more.
-/
namespace Base

variable {ε σ τ α β : Type}

/-- The state a run ends in, returning or throwing. -/
def final : EStateM.Result ε σ α → σ
  | .ok _ s => s
  | .error _ s => s

@[simp] theorem final_ok (a : α) (s : σ) : final (.ok a s : EStateM.Result ε σ α) = s := rfl

@[simp] theorem final_error (e : ε) (s : σ) : final (.error e s : EStateM.Result ε σ α) = s := rfl

/-- Run with a handler for the errors `h` knows; any other error passes on. -/
def handle (x : EStateM ε σ α) (h : ε → Option (EStateM ε σ α)) : EStateM ε σ α := fun s =>
  match x.run s with
  | .ok a t => .ok a t
  | .error e t =>
    match h e with
    | some y => y.run t
    | none => .error e t

/-- Run a program on a part of the state. -/
def zoom (get : σ → τ) (put : τ → σ → σ) (x : EStateM ε τ α) : EStateM ε σ α := fun s =>
  match x.run (get s) with
  | .ok a t => .ok a (put t s)
  | .error e t => .error e (put t s)

theorem bind_ok_iff {x : EStateM ε σ α} {f : α → EStateM ε σ β} {s t : σ} {b : β} :
    (x >>= f).run s = .ok b t ↔ ∃ a u, x.run s = .ok a u ∧ (f a).run u = .ok b t := by
  rw [EStateM.run_bind]
  cases h : x.run s <;> simp [and_assoc]

theorem bind_error_iff {x : EStateM ε σ α} {f : α → EStateM ε σ β} {s t : σ} {e : ε} :
    (x >>= f).run s = .error e t ↔
      x.run s = .error e t ∨ ∃ a u, x.run s = .ok a u ∧ (f a).run u = .error e t := by
  rw [EStateM.run_bind]
  cases h : x.run s <;> simp [and_assoc]

theorem run_handle (x : EStateM ε σ α) (h : ε → Option (EStateM ε σ α)) (s : σ) :
    (handle x h).run s = match x.run s with
      | .ok a t => .ok a t
      | .error e t => match h e with
        | some y => y.run t
        | none => .error e t := rfl

theorem run_zoom (get : σ → τ) (put : τ → σ → σ) (x : EStateM ε τ α) (s : σ) :
    (zoom get put x).run s = match x.run (get s) with
      | .ok a t => .ok a (put t s)
      | .error e t => .error e (put t s) := rfl

theorem zoom_ok_iff {get : σ → τ} {put : τ → σ → σ} {x : EStateM ε τ α} {s s' : σ} {a : α} :
    (zoom get put x).run s = .ok a s' ↔ ∃ t, x.run (get s) = .ok a t ∧ put t s = s' := by
  rw [run_zoom]
  cases h : x.run (get s) <;> simp [and_assoc]

/-- A property of the state a run ends in, from the same of its parts. -/
theorem final_bind {P : σ → Prop} {x : EStateM ε σ α} {f : α → EStateM ε σ β} {s : σ} (hx : P (final (x.run s)))
    (hf : ∀ a t, x.run s = .ok a t → P t → P (final ((f a).run t))) : P (final ((x >>= f).run s)) := by
  rw [EStateM.run_bind]
  cases h : x.run s with
  | ok a t =>
    rw [h] at hx
    exact hf a t h hx
  | error e t =>
    rw [h] at hx
    exact hx

theorem final_handle {P : σ → Prop} {x : EStateM ε σ α} {h : ε → Option (EStateM ε σ α)} {s : σ}
    (hx : P (final (x.run s))) (hh : ∀ e y t, h e = some y → P t → P (final (y.run t))) :
    P (final ((handle x h).run s)) := by
  rw [run_handle]
  cases hr : x.run s with
  | ok a t =>
    rw [hr] at hx
    exact hx
  | error e t =>
    rw [hr] at hx
    simp only
    split
    · rename_i y he
      exact hh e y t he hx
    · exact hx

/-! ## Frames -/

/-- Every run of `x` moves the state along `R`. -/
def Within (R : σ → σ → Prop) (x : EStateM ε σ α) : Prop := ∀ s, R s (final (x.run s))

variable {R : σ → σ → Prop}

theorem Within.ok {x : EStateM ε σ α} (h : Within R x) {s t : σ} {a : α} (hx : x.run s = .ok a t) : R s t := by
  have := h s
  rwa [hx] at this

theorem Within.error {x : EStateM ε σ α} (h : Within R x) {s t : σ} {e : ε} (hx : x.run s = .error e t) : R s t := by
  have := h s
  rwa [hx] at this

theorem Within.imp {Q : σ → σ → Prop} {x : EStateM ε σ α} (h : Within R x) (hQ : ∀ s t, R s t → Q s t) : Within Q x :=
  fun s => hQ _ _ (h s)

theorem Within.modify {f : σ → σ} (h : ∀ s, R s (f s)) : Within R (modify f : EStateM ε σ PUnit) := h

theorem Within.zoom {Q : τ → τ → Prop} {get : σ → τ} {put : τ → σ → σ} {x : EStateM ε τ α} (h : Within Q x)
    (hput : ∀ s t, Q (get s) t → R s (put t s)) : Within R (zoom get put x) := by
  intro s
  rw [run_zoom]
  cases hx : x.run (get s) with
  | ok a t => exact hput s t (h.ok hx)
  | error e t => exact hput s t (h.error hx)

variable [IsPreorder σ R]

theorem Within.pure (a : α) : Within R (pure a : EStateM ε σ α) := fun s => refl s

theorem Within.throw (e : ε) : Within R (throw e : EStateM ε σ α) := fun s => refl s

theorem Within.get : Within R (get : EStateM ε σ σ) := fun s => refl s

theorem Within.bind {x : EStateM ε σ α} {f : α → EStateM ε σ β} (hx : Within R x) (hf : ∀ a, Within R (f a)) :
    Within R (x >>= f) := by
  intro s
  rw [EStateM.run_bind]
  cases h : x.run s with
  | ok a t => exact IsTrans.trans _ _ _ (hx.ok h) (hf a t)
  | error e t => exact hx.error h

theorem Within.handle {x : EStateM ε σ α} {h : ε → Option (EStateM ε σ α)} (hx : Within R x)
    (hh : ∀ e y, h e = some y → Within R y) : Within R (handle x h) := by
  intro s
  rw [run_handle]
  cases hr : x.run s with
  | ok a t => exact hx.ok hr
  | error e t =>
    simp only
    split
    · rename_i y he
      exact IsTrans.trans _ _ _ (hx.error hr) (hh e y he t)
    · exact hx.error hr

/-- What follows a program moves the state along `R` from where the program ends. -/
theorem Within.from_bind {f : α → EStateM ε σ β} (hf : ∀ a, Within R (f a)) (x : EStateM ε σ α) (s : σ) :
    R (final (x.run s)) (final ((x >>= f).run s)) := by
  rw [EStateM.run_bind]
  cases x.run s with
  | ok a t => exact hf a t
  | error e t => exact refl t

theorem Within.from_handle {h : ε → Option (EStateM ε σ α)} (hh : ∀ e y, h e = some y → Within R y) (x : EStateM ε σ α)
    (s : σ) : R (final (x.run s)) (final ((Base.handle x h).run s)) := by
  rw [run_handle]
  cases x.run s with
  | ok a t => exact refl t
  | error e t =>
    simp only
    split
    · rename_i y he
      exact hh e y he t
    · exact refl t

/-- A view of the state is as it was. -/
def Unmoved (view : σ → τ) (s t : σ) : Prop := view t = view s

instance (view : σ → τ) : IsPreorder σ (Unmoved view) where
  refl _ := rfl
  trans _ _ _ h h' := h'.trans h

/-! ## Two programs -/

section
variable {α' β' : Type} {view : τ → σ} {Q : α → α' → τ → Prop} {E : τ → Prop}

/-- The two runs end alike: both return, with results and a state as `Q` says, or both throw the same, in a state as `E`
says.  The first ends in what `view` sees of the state the second ends in. -/
inductive Matches (view : τ → σ) (Q : α → α' → τ → Prop) (E : τ → Prop) :
    EStateM.Result ε σ α → EStateM.Result ε τ α' → Prop where
  | returned {a : α} {b : α'} {t : τ} (h : Q a b t) : Matches view Q E (.ok a (view t)) (.ok b t)
  | thrown {e : ε} {t : τ} (h : E t) : Matches view Q E (.error e (view t)) (.error e t)

theorem Matches.imp {Q' : α → α' → τ → Prop} {r : EStateM.Result ε σ α} {r' : EStateM.Result ε τ α'} (h : Matches view Q E r r')
    (hQ : ∀ a b t, Q a b t → Q' a b t) : Matches view Q' E r r' := by
  cases h with
  | returned h => exact .returned (hQ _ _ _ h)
  | thrown h => exact .thrown h

theorem Matches.bind {x : EStateM ε σ α} {y : EStateM ε τ α'} {f : α → EStateM ε σ β} {g : α' → EStateM ε τ β'}
    {Q' : β → β' → τ → Prop} {s : σ} {t : τ} (hx : Matches view Q E (x.run s) (y.run t))
    (hf : ∀ a b u, Q a b u → Matches view Q' E ((f a).run (view u)) ((g b).run u)) :
    Matches view Q' E ((x >>= f).run s) ((y >>= g).run t) := by
  rw [EStateM.run_bind, EStateM.run_bind]
  generalize x.run s = r at hx
  generalize y.run t = r' at hx
  cases hx with
  | returned h => exact hf _ _ _ h
  | thrown h => exact .thrown h

/-- The second goes on where the first has ended. -/
theorem Matches.goes_on {r : EStateM.Result ε σ α} {y : EStateM ε τ α'} {g : α' → EStateM ε τ β'} {Q' : α → β' → τ → Prop}
    {t : τ} (hy : Matches view Q E r (y.run t))
    (hg : ∀ a b u, Q a b u → ∃ c v, (g b).run u = .ok c v ∧ view v = view u ∧ Q' a c v) :
    Matches view Q' E r ((y >>= g).run t) := by
  rw [EStateM.run_bind]
  generalize y.run t = r' at hy
  cases hy with
  | returned h =>
    obtain ⟨c, v, hrun, hview, hQ⟩ := hg _ _ _ h
    simp only
    rw [hrun, ← hview]
    exact .returned hQ
  | thrown h => exact .thrown h

theorem Matches.zoom {g : τ → σ} {p : σ → τ → τ} (hget : ∀ s t, g (p s t) = s) (x : EStateM ε σ α) (t : τ)
    {Q : α → α → τ → Prop} (hQ : ∀ a s, x.run (g t) = .ok a s → Q a a (p s t)) (hE : ∀ s, E (p s t)) :
    Matches g Q E (x.run (g t)) ((zoom g p x).run t) := by
  rw [run_zoom]
  cases h : x.run (g t) with
  | ok a s =>
    have hr : Matches g Q E (.ok a (g (p s t)) : EStateM.Result ε σ α)
        (.ok a (p s t) : EStateM.Result ε τ α) := .returned (hQ a s h)
    rwa [hget] at hr
  | error e s =>
    have hr : Matches g Q E (.error e (g (p s t)) : EStateM.Result ε σ α)
        (.error e (p s t) : EStateM.Result ε τ α) := .thrown (hE s)
    rwa [hget] at hr

theorem Matches.final {r : EStateM.Result ε σ α} {r' : EStateM.Result ε τ α'} {P : τ → Prop} (h : Matches view Q E r r')
    (hQ : ∀ a b t, Q a b t → P t) (hE : ∀ t, E t → P t) : P (final r') := by
  cases h with
  | returned h => exact hQ _ _ _ h
  | thrown h => exact hE _ h

theorem Matches.ok {r : EStateM.Result ε σ α} {b : α'} {t : τ} (h : Matches view Q E r (.ok b t)) :
    ∃ a, r = .ok a (view t) ∧ Q a b t := by
  cases h with
  | returned h => exact ⟨_, rfl, h⟩

theorem Matches.returns_iff {r : EStateM.Result ε σ α} {r' : EStateM.Result ε τ α'} (h : Matches view Q E r r') :
    (∃ b t, r' = .ok b t) ↔ ∃ a s, r = .ok a s := by
  cases h <;> simp

end

end Base
