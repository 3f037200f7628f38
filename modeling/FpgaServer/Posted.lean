/-!
# Posted — a registry that follows posted reports

Things come and go; each arrival and departure is reported by a handler posted to a queue, and a registry is updated by the
handlers only, which run late and in the order they were posted.  The handler of an arrival may enter what arrived, the
handler of a departure takes it out, and anything else takes things out at most.  Then what is registered is there, or the
handler of its departure is still queued: every queued arrival of something that has left is followed by its departure.
-/
namespace Base

inductive Report (κ : Type) where
  | arrived (k : κ)
  | left (k : κ)
  deriving DecidableEq, Repr

structure Registry (κ : Type) where
  attached : κ → Prop
  queue : List (Report κ)
  registered : κ → Prop

namespace Registry

variable {κ : Type} {s s' : Registry κ}

inductive Step : Registry κ → Registry κ → Prop where
  | arrives {s : Registry κ} (k : κ) :
    Step s { s with attached := fun q => q = k ∨ s.attached q, queue := s.queue ++ [.arrived k] }
  | leaves {s : Registry κ} (k : κ) :
    Step s { s with attached := fun q => q ≠ k ∧ s.attached q, queue := s.queue ++ [.left k] }
  | handlesArrival {s : Registry κ} (k : κ) (rest : List (Report κ)) (registered : κ → Prop)
    (hqueue : s.queue = .arrived k :: rest) (h : ∀ q, registered q → q = k ∨ s.registered q) :
    Step s { s with queue := rest, registered := registered }
  | handlesDeparture {s : Registry κ} (k : κ) (rest : List (Report κ)) (registered : κ → Prop)
    (hqueue : s.queue = .left k :: rest) (h : ∀ q, registered q → q ≠ k ∧ s.registered q) :
    Step s { s with queue := rest, registered := registered }
  | other {s : Registry κ} (registered : κ → Prop) (h : ∀ q, registered q → s.registered q) :
    Step s { s with registered := registered }

/-- What is registered is there or going to be taken out, and what is going to be entered is there or going to be taken
out after that. -/
structure Current (s : Registry κ) : Prop where
  covered : ∀ k, s.registered k → s.attached k ∨ .left k ∈ s.queue
  followed : ∀ before k after, s.queue = before ++ .arrived k :: after → s.attached k ∨ .left k ∈ after

/-- An arrival in a queue is the report posted last, or it was there before. -/
theorem split_concat {queue before after : List (Report κ)} {x : Report κ} {k : κ}
    (h : queue ++ [x] = before ++ .arrived k :: after) :
    x = .arrived k ∧ after = [] ∨ ∃ rest, after = rest ++ [x] ∧ queue = before ++ .arrived k :: rest := by
  rcases List.eq_nil_or_concat after with rfl | ⟨rest, y, rfl⟩
  · obtain ⟨-, hx⟩ := List.append_inj' h rfl
    exact .inl ⟨List.singleton_inj.1 hx, rfl⟩
  · rw [List.concat_eq_append, ← List.cons_append, ← List.append_assoc] at h
    obtain ⟨hqueue, hx⟩ := List.append_inj' h rfl
    rw [List.concat_eq_append, List.singleton_inj.1 hx]
    exact .inr ⟨rest, rfl, hqueue⟩

theorem Step.current (hs : Step s s') (h : Current s) : Current s' := by
  cases hs with
  | arrives k =>
    constructor
    · intro q hq
      rcases h.covered q hq with hq | hq
      · exact .inl (.inr hq)
      · exact .inr (List.mem_append_left _ hq)
    · intro before q after hqueue
      rcases split_concat hqueue with ⟨hk, -⟩ | ⟨rest, rfl, hold⟩
      · cases hk
        exact .inl (.inl rfl)
      · rcases h.followed before q rest hold with hq | hq
        · exact .inl (.inr hq)
        · exact .inr (List.mem_append_left _ hq)
  | leaves k =>
    constructor
    · intro q hq
      by_cases hqk : q = k
      · exact .inr (List.mem_append_right _ (by rw [hqk]; exact List.mem_singleton.2 rfl))
      · rcases h.covered q hq with hq | hq
        · exact .inl ⟨hqk, hq⟩
        · exact .inr (List.mem_append_left _ hq)
    · intro before q after hqueue
      rcases split_concat hqueue with ⟨hk, -⟩ | ⟨rest, rfl, hold⟩
      · cases hk
      · by_cases hqk : q = k
        · exact .inr (List.mem_append_right _ (by rw [hqk]; exact List.mem_singleton.2 rfl))
        · rcases h.followed before q rest hold with hq | hq
          · exact .inl ⟨hqk, hq⟩
          · exact .inr (List.mem_append_left _ hq)
  | handlesArrival k rest registered hqueue hreg =>
    constructor
    · intro q hq
      rcases hreg q hq with rfl | hq
      · exact h.followed [] q rest hqueue
      · rcases h.covered q hq with hq | hq
        · exact .inl hq
        · rw [hqueue] at hq
          exact .inr ((List.mem_cons.1 hq).resolve_left (by simp))
    · intro before q after (hrest : rest = _)
      exact h.followed (.arrived k :: before) q after (by rw [hqueue, hrest]; rfl)
  | handlesDeparture k rest registered hqueue hreg =>
    constructor
    · intro q hq
      obtain ⟨hne, hq⟩ := hreg q hq
      rcases h.covered q hq with hq | hq
      · exact .inl hq
      · rw [hqueue] at hq
        exact .inr ((List.mem_cons.1 hq).resolve_left (by simpa using hne))
    · intro before q after (hrest : rest = _)
      exact h.followed (.left k :: before) q after (by rw [hqueue, hrest]; rfl)
  | other registered hreg => exact ⟨fun q hq => h.covered q (hreg q hq), h.followed⟩

/-- With nothing queued only what is there is registered. -/
theorem Current.attached_of_registered (h : Current s) (hqueue : s.queue = []) {k : κ} (hk : s.registered k) :
    s.attached k := by
  rcases h.covered k hk with hk | hk
  · exact hk
  · rw [hqueue] at hk
    exact absurd hk List.not_mem_nil

end Registry
end Base
