import FpgaServer.LibusbService
/-!
# LibusbStop — the service after `libusb_service::stop`

Stopping the service releases every descriptor and aborts what waits (`Owns.stop`).  From then on nothing waits, a handler
that was queued does not wait again, and it stays so as long as libusb adds no descriptor with something to wait for.
-/
namespace Fpga

open Base (OrdMap Operation Outcome Phase)
open Base.Operation

/-- The notification begins no wait. -/
def Notification.ArmsNothing : Notification → Prop
  | .added _ events => ∀ d, requested events d = false
  | .removed _ => True

namespace LibusbService

variable {s s' : LibusbService} {w : Nat} {n : Notification}

/-! ## Stopping watchers -/

theorem descriptor_stopOn (s : LibusbService) (w : Nat) :
    (s.stopOn w).descriptor = Function.update s.descriptor w none := by
  unfold stopOn
  split
  · rfl
  · rename_i h
    rw [Option.not_isSome_iff_eq_none] at h
    rw [← h, Function.update_eq_self]

theorem aborts_stopOn (s : LibusbService) (w : Nat) : Aborts s.waits (s.stopOn w).waits := by
  unfold stopOn
  split
  · exact aborts_cancel _ _
  · exact Aborts.refl _

theorem nextWatcher_stopOn (s : LibusbService) (w : Nat) : (s.stopOn w).nextWatcher = s.nextWatcher := by
  unfold stopOn
  split <;> rfl

theorem waiting_stopOn (h : ∀ op ∈ s.waits, op.phase = .waiting → s.descriptor op.key.1 ≠ none) :
    ∀ op ∈ (s.stopOn w).waits, op.phase = .waiting → (s.stopOn w).descriptor op.key.1 ≠ none := by
  intro op ho hwait
  unfold stopOn at ho ⊢
  by_cases hw : (s.descriptor w).isSome = true
  · rw [if_pos hw] at ho ⊢
    obtain ⟨ho, hne⟩ := waiting_cancel ho hwait
    dsimp only
    rw [Function.update_of_ne (by simpa using hne)]
    exact h op ho hwait
  · rw [if_neg hw] at ho ⊢
    exact h op ho hwait

/-- What the loop of `stop` makes of the service. -/
theorem foldl_stopOn (entries : List (Int × Nat)) (h : ∀ op ∈ s.waits, op.phase = .waiting → s.descriptor op.key.1 ≠ none) :
    let t := entries.foldl (fun s e => s.stopOn e.2) s
    t.nextWatcher = s.nextWatcher ∧ Aborts s.waits t.waits ∧
      (∀ w, t.descriptor w ≠ none → s.descriptor w = t.descriptor w ∧ ∀ e ∈ entries, e.2 ≠ w) ∧
      ∀ op ∈ t.waits, op.phase = .waiting → t.descriptor op.key.1 ≠ none := by
  induction entries generalizing s with
  | nil => exact ⟨rfl, Aborts.refl _, fun w _ => ⟨rfl, fun _ he => absurd he List.not_mem_nil⟩, h⟩
  | cons e entries ih =>
    obtain ⟨hnext, haborts, hopen, hwaiting⟩ := ih (s := s.stopOn e.2) (waiting_stopOn h)
    refine ⟨hnext.trans (nextWatcher_stopOn s e.2), (aborts_stopOn s e.2).trans haborts, fun w hw => ?_, hwaiting⟩
    obtain ⟨heq, hentries⟩ := hopen w hw
    have hne : e.2 ≠ w := by
      rintro rfl
      refine hw (Eq.trans heq.symm ?_)
      rw [descriptor_stopOn, Function.update_self]
    rw [descriptor_stopOn, Function.update_of_ne hne.symm] at heq
    exact ⟨heq, List.forall_mem_cons.2 ⟨hne, hentries⟩⟩

/-! ## The service after it -/

/-- Nothing waits, and the watchers whose handlers are still queued have been stopped. -/
structure Released (s : LibusbService) : Prop where
  owns : Owns s
  queued : ∀ op ∈ s.waits, ∃ o, op.phase = .queued o
  stopped : ∀ op ∈ s.waits, Stopped s op.key.1

theorem queued_of_idle {waits : List (Operation (Nat × Direction))} (hidle : ∀ op ∈ waits, op.phase.isRunning = false)
    (hwait : ∀ op ∈ waits, op.phase ≠ .waiting) : ∀ op ∈ waits, ∃ o, op.phase = .queued o := by
  intro op ho
  match hphase : op.phase with
  | .waiting => exact absurd hphase (hwait op ho)
  | .queued o => exact ⟨o, rfl⟩
  | .running o =>
    have := hidle op ho
    rw [hphase] at this
    cases this

theorem Owns.lt_nextWatcher (h : Owns s) {op : Operation (Nat × Direction)} (ho : op ∈ s.waits) :
    op.key.1 < s.nextWatcher := by
  by_contra hle
  exact (h.fresh op.key.1 (Nat.le_of_not_lt hle)).2 op ho rfl

/-- **`libusb_service::stop` releases every descriptor**, and aborts what waits. -/
theorem Owns.stop (h : Owns s) (hidle : ∀ op ∈ s.waits, op.phase.isRunning = false) :
    Released s.stop ∧ Aborts s.waits s.stop.waits := by
  obtain ⟨hnext, haborts, hopen, hwaiting⟩ := foldl_stopOn s.fdWatchers.entries h.waiting
  have hnone : ∀ w, s.stop.descriptor w = none := by
    intro w
    by_contra hw
    obtain ⟨heq, hentries⟩ := hopen w hw
    obtain ⟨fd, hfd⟩ := Option.ne_none_iff_exists'.1 hw
    have hwatched := h.opened w fd (heq.trans hfd)
    exact hentries _ (OrdMap.mem_entries_iff.2 hwatched) rfl
  have hkeys : ∀ op ∈ s.stop.waits, op.key.1 < s.stop.nextWatcher := by
    intro op ho
    rw [show s.stop.nextWatcher = s.nextWatcher from hnext]
    rcases haborts.mem op ho with ho | ⟨-, a, ha, hk⟩
    · exact h.lt_nextWatcher ho
    · rw [← hk]
      exact h.lt_nextWatcher ha
  have hnowait : ∀ op ∈ s.stop.waits, op.phase ≠ .waiting := fun op ho hwait => hwaiting op ho hwait (hnone op.key.1)
  refine ⟨⟨⟨?_, ?_, ?_, ?_⟩, queued_of_idle (haborts.idle hidle) hnowait, fun op ho => ⟨hkeys op ho, hnone _⟩⟩, haborts⟩
  · intro k w hk
    cases hk
  · intro w fd hfd
    rw [hnone] at hfd
    cases hfd
  · refine fun w hle => ⟨hnone w, fun op ho he => ?_⟩
    have := hkeys op ho
    omega
  · exact fun op ho hwait => absurd hwait (hnowait op ho)

theorem Released.over (h : Released s) {k : Nat × Direction} {x : Phase} {waits : List (Operation (Nat × Direction))}
    (he : Ends k x s.waits waits) : Released { s with waits := waits } :=
  ⟨h.owns.over he, fun op ho => h.queued op (he.mem ho), fun op ho => h.stopped op (he.mem ho)⟩

theorem waits_startOn_nothing {events : UInt16} (he : ∀ d, requested events d = false) :
    (startOn s w events).waits = s.waits := by
  unfold startOn
  rw [he .read, he .write]
  rfl

theorem waits_notified (hn : n.ArmsNothing) : Aborts s.waits (s.notified n).waits := by
  cases n with
  | added fd events =>
    rw [show s.notified (.added fd events) = s.startWatcher fd events from rfl]
    unfold startWatcher
    split
    · exact Aborts.refl _
    · rw [waits_startOn_nothing hn]
      exact Aborts.refl _
  | removed fd =>
    rw [show s.notified (.removed fd) = s.stopWatcher fd from rfl]
    unfold stopWatcher
    split
    · exact Aborts.refl _
    · exact aborts_stopOn { s with fdWatchers := s.fdWatchers.erase fd } _

/-- **A released service stays so** while nothing is added. -/
theorem Released.notified (h : Released s) (hn : n.ArmsNothing) :
    Released (s.notified n) ∧ (s.notified n).waits.length = s.waits.length := by
  have haborts := waits_notified (s := s) hn
  refine ⟨⟨h.owns.notified n, fun op ho => ?_, fun op ho => ?_⟩, haborts.length⟩
  · rcases haborts.mem op ho with ho | ⟨hp, -⟩
    · exact h.queued op ho
    · exact ⟨.aborted, hp⟩
  · rcases haborts.mem op ho with ho | ⟨-, a, ha, hk⟩
    · exact ((h.stopped op ho).notified h.owns n).1
    · rw [← hk]
      exact ((h.stopped a ha).notified h.owns n).1

/-- A handler of a stopped watcher does not wait again. -/
theorem handlerEnds_stopped (h : Owns s) (hw : Stopped s w) (d : Direction) (o : Outcome) : s.handlerEnds w d o = s := by
  unfold handlerEnds
  rw [h.not_watching hw.2, if_neg (by simp)]

theorem Owns.handlerEnds (h : Owns s) (w : Nat) (d : Direction) (o : Outcome) : Owns (s.handlerEnds w d o) := by
  unfold LibusbService.handlerEnds
  split
  · rename_i hrearm
    cases hd : s.descriptor w with
    | none =>
      rw [h.not_watching hd] at hrearm
      cases hrearm.2
    | some fd => exact h.arm hd d
  · exact h

theorem idle_handlerEnds (h : ∀ op ∈ s.waits, op.phase.isRunning = false) (w : Nat) (d : Direction) (o : Outcome) :
    ∀ op ∈ (s.handlerEnds w d o).waits, op.phase.isRunning = false := by
  unfold handlerEnds
  split
  · intro op ho
    rcases mem_arm.1 ho with ho | rfl
    · exact h op ho
    · rfl
  · exact h

theorem idle_notified (h : ∀ op ∈ s.waits, op.phase.isRunning = false) :
    ∀ op ∈ (s.notified n).waits, op.phase.isRunning = false := by
  cases n with
  | added fd events =>
    rw [show s.notified (.added fd events) = s.startWatcher fd events from rfl]
    unfold startWatcher
    split
    · exact h
    · intro op ho
      rcases mem_startOn.1 ho with ho | ⟨d, -, rfl⟩
      · exact h op ho
      · rfl
  | removed fd => exact (waits_notified (n := .removed fd) trivial).idle h

theorem idle_construct (pollfds : List (Nat × UInt16)) : ∀ op ∈ (construct pollfds).waits, op.phase.isRunning = false := by
  induction pollfds using List.reverseRecOn with
  | nil => simp [construct]
  | append_singleton pollfds e ih =>
    rw [construct, List.foldl_append]
    exact idle_notified (n := .added e.1 e.2) ih

end LibusbService
end Fpga
