import FpgaServer.EventLoop
import FpgaServer.LibusbStop
/-!
# LoopLive — the event loop before the termination signal

What the handlers must not do for the signal handler to end the process (`Meets`), and what holds of the operations until it
runs: the timer, the acceptor, the open sockets of registered connections and the watched descriptors are all there is to
cancel.
-/
namespace Fpga

open Base (Operation Outcome Phase Report)
open Base.Operation

/-! ## What the handlers must not do -/

def LibusbReport.ArmsNothing : LibusbReport → Prop
  | .pollfd n => n.ArmsNothing
  | .hotplug _ => True

def Doing.ArmsNothing : Doing → Prop
  | .reported r => r.ArmsNothing
  | .broadcasts => True

def LibusbReport.isHotplug : LibusbReport → Bool
  | .hotplug _ => true
  | .pollfd _ => false

def Doing.isHotplug : Doing → Bool
  | .reported r => r.isHotplug
  | .broadcasts => false

def HandlerInput.allDoings (i : HandlerInput) : List Doing := i.answered.flatten ++ i.doings

/-- What the signal handler can cancel: anything but a posted handler. -/
def Job.CanWait : Job → Prop
  | .doWrite _ => False
  | .hotplug _ => False
  | _ => True

theorem Job.eq_of_isOf_read {c d : Nat} (h : (Job.read c).isOf d = true) : d = c := (beq_iff_eq.1 h).symm

theorem Job.eq_of_isOf_write {c d : Nat} (h : (Job.write c).isOf d = true) : d = c := (beq_iff_eq.1 h).symm

namespace EventLoop

/-- The hotplug handlers an event posts. -/
def LoopEvent.hotplugs : LoopEvent → Nat
  | .runs _ _ i => i.allDoings.countP Doing.isHotplug
  | .watcher _ _ _ reports => reports.countP LibusbReport.isHotplug
  | _ => 0

/-- The signal handler finds no expiry of the timer queued, no `shutdown` throws, and once the signal handler has run no
descriptor with something to wait for is added. -/
def Meets (s : EventLoop) : LoopEvent → Prop
  | .runs j _ i => (j = .signal → ⟨.timer, .queued .success⟩ ∉ s.jobs) ∧ (∀ c, i.shutdownThrows c = false) ∧
      (s.stopped = true → ∀ d ∈ i.allDoings, d.ArmsNothing)
  | .watcher _ _ _ reports => s.stopped = true → ∀ r ∈ reports, r.ArmsNothing
  | _ => True

variable {s s' : EventLoop} {n c : Nat} {j : Job} {o : Outcome} {i : HandlerInput}

/-! ## Before the signal -/

/-- No handler is running, and what waits satisfies `K`; an operation of a socket waits only while the socket is open. -/
def Tidy (K : Job → Prop) (jobs : List (Operation Job)) (sockets : Nat → Socket) : Prop :=
  ∀ op ∈ jobs, op.phase.isRunning = false ∧
    (op.phase = .waiting → K op.key ∧ ∀ c, op.key.isOf c = true → (sockets c).isOpen = true)

/-- At most `n` handlers of the signal are to come. -/
structure Live (n : Nat) (s : EventLoop) : Prop where
  running : s.stopped = false
  late : s.late = []
  owns : s.usb.Owns
  idle : ∀ op ∈ s.usb.waits, op.phase.isRunning = false
  tidy : Tidy Job.CanWait s.jobs s.sockets
  member : ∀ c, (s.sockets c).isOpen = true → c ∈ s.connections
  signal : Operation.count (fun j => j == Job.signal) s.jobs ≤ n

theorem mark_of_running (h : s.stopped = false) (m : Mark) : s.mark m = s := by
  unfold mark
  rw [if_neg (by simp [h])]

theorem Tidy.append {K : Job → Prop} {jobs : List (Operation Job)} {sockets : Nat → Socket} (h : Tidy K jobs sockets)
    {op : Operation Job} (hrun : op.phase.isRunning = false)
    (hwait : op.phase = .waiting → K op.key ∧ ∀ c, op.key.isOf c = true → (sockets c).isOpen = true) :
    Tidy K (jobs ++ [op]) sockets := by
  intro a ha
  rcases List.mem_append.1 ha with ha | ha
  · exact h a ha
  · rw [List.mem_singleton.1 ha]
    exact ⟨hrun, hwait⟩

theorem Tidy.cancel {K : Job → Prop} {jobs : List (Operation Job)} {sockets : Nat → Socket} (h : Tidy K jobs sockets)
    (p : Job → Bool) : Tidy (fun j => K j ∧ p j = false) (Operation.cancel p jobs) sockets := by
  intro op ho
  refine ⟨(aborts_cancel p jobs).idle (fun a ha => (h a ha).1) op ho, fun hwait => ?_⟩
  obtain ⟨hmem, hp⟩ := waiting_cancel ho hwait
  obtain ⟨hK, hopen⟩ := (h op hmem).2 hwait
  exact ⟨⟨hK, hp⟩, hopen⟩

theorem Tidy.imp {K K' : Job → Prop} {jobs : List (Operation Job)} {sockets : Nat → Socket} (h : Tidy K jobs sockets)
    (hK : ∀ j, K j → K' j) : Tidy K' jobs sockets := by
  intro op ho
  refine ⟨(h op ho).1, fun hwait => ?_⟩
  obtain ⟨hk, hopen⟩ := (h op ho).2 hwait
  exact ⟨hK _ hk, hopen⟩

theorem Tidy.sockets {K : Job → Prop} {jobs : List (Operation Job)} {sockets sockets' : Nat → Socket}
    (h : Tidy K jobs sockets) (hopen : ∀ c, (sockets c).isOpen = true → (sockets' c).isOpen = true) :
    Tidy K jobs sockets' := by
  intro op ho
  refine ⟨(h op ho).1, fun hwait => ?_⟩
  obtain ⟨hk, hop⟩ := (h op ho).2 hwait
  exact ⟨hk, fun c hc => hopen c (hop c hc)⟩

theorem count_append (p : Job → Bool) (jobs : List (Operation Job)) (op : Operation Job) :
    Operation.count p (jobs ++ [op]) = Operation.count p jobs + if p op.key then 1 else 0 := by
  simp [Operation.count, List.countP_append, List.countP_cons]

/-- A new operation that is not the wait for the signal. -/
theorem Live.push (h : Live n s) {op : Operation Job} (hj : op.key ≠ .signal) (hrun : op.phase.isRunning = false)
    (hwait : op.phase = .waiting → op.key.CanWait ∧ ∀ c, op.key.isOf c = true → (s.sockets c).isOpen = true) :
    Live n { s with jobs := s.jobs ++ [op] } := by
  refine ⟨h.running, h.late, h.owns, h.idle, h.tidy.append hrun hwait, h.member, ?_⟩
  dsimp only
  rw [count_append, if_neg (by simpa using hj)]
  exact h.signal

theorem Live.post (h : Live n s) (hj : j ≠ .signal) : Live n (s.post j) := h.push hj rfl (fun hw => by cases hw)

theorem Live.armTimer (h : Live n s) : Live n s.armTimer := by
  unfold EventLoop.armTimer
  rw [mark_of_running (by exact h.running)]
  have hcancel : Live n { s with jobs := Operation.cancel (fun j => j == Job.timer) s.jobs } := by
    refine ⟨h.running, h.late, h.owns, h.idle, (h.tidy.cancel _).imp (fun _ hj => hj.1), h.member, ?_⟩
    dsimp only
    rw [count_cancel]
    exact h.signal
  exact hcancel.push (by simp) rfl (fun _ => ⟨trivial, fun c hc => by cases hc⟩)

theorem Live.doAccept (h : Live n s) : Live n s.doAccept := by
  unfold EventLoop.doAccept
  rw [mark_of_running (by exact h.running)]
  exact h.push (by simp) rfl (fun _ => ⟨trivial, fun c hc => by cases hc⟩)

theorem Live.armSocket (h : Live n s) (hj : j.CanWait) (hs : j ≠ .signal) (hc : ∀ d, j.isOf d = true → d = c) :
    Live n (s.armSocket c j) := by
  unfold EventLoop.armSocket
  split
  · rename_i hopen
    refine h.push hs rfl (fun _ => ⟨hj, fun d hd => ?_⟩)
    rw [hc d hd]
    exact hopen
  · exact h.push hs rfl (fun hw => by cases hw)

theorem Live.setUsb (h : Live n s) {usb : LibusbService} (howns : usb.Owns)
    (hidle : ∀ op ∈ usb.waits, op.phase.isRunning = false) : Live n (s.setUsb usb) := by
  unfold EventLoop.setUsb
  have hlive : Live n { s with usb := usb } := ⟨h.running, h.late, howns, hidle, h.tidy, h.member, h.signal⟩
  split
  · rw [mark_of_running (by exact h.running)]
    exact hlive
  · exact hlive

theorem Live.reported (h : Live n s) : ∀ r : LibusbReport, Live n (s.reported r)
  | .pollfd n => h.setUsb (h.owns.notified n) (LibusbService.idle_notified h.idle)
  | .hotplug r => h.post (by simp)

theorem Live.setUnsent (h : Live n s) (c k : Nat) : Live n (s.setUnsent c k) := by
  have hopen : ∀ d, ((s.setUnsent c k).sockets d).isOpen = (s.sockets d).isOpen := by
    intro d
    unfold EventLoop.setUnsent
    by_cases hd : d = c
    · subst hd
      simp
    · simp [hd]
  refine ⟨h.running, h.late, h.owns, h.idle, h.tidy.sockets (fun d hd => ?_), fun d hd => h.member d ?_, h.signal⟩
  · rw [hopen]
    exact hd
  · rw [← hopen]
    exact hd

theorem Live.send (h : Live n s) (c : Nat) : Live n (s.send c) := by
  unfold EventLoop.send
  split
  · exact (h.post (by simp)).setUnsent c _
  · exact h.setUnsent c _

theorem Live.foldl {α : Type} {f : EventLoop → α → EventLoop} {l : List α} (h : Live n s)
    (hf : ∀ s a, a ∈ l → Live n s → Live n (f s a)) : Live n (l.foldl f s) := by
  induction l generalizing s with
  | nil => exact h
  | cons a l ih =>
    exact ih (hf s a List.mem_cons_self h) (fun s b hb => hf s b (List.mem_cons_of_mem _ hb))

theorem Live.does (h : Live n s) : ∀ d : Doing, Live n (s.does d)
  | .reported r => h.reported r
  | .broadcasts => h.foldl (fun _ c _ hs => hs.send c)

theorem Live.doesAll (h : Live n s) (doings : List Doing) : Live n (s.doesAll doings) := h.foldl (fun _ d _ hs => hs.does d)

theorem closeSocket_eq {throws : Nat → Bool} (ht : throws c = false) : closeSocket throws s c = { s with
    sockets := Function.update s.sockets c { s.sockets c with isOpen := false }
    jobs := if (s.sockets c).isOpen then Operation.cancel (Job.isOf c) s.jobs else s.jobs } := by
  unfold closeSocket
  rw [ht]
  cases hopen : (s.sockets c).isOpen with
  | true => simp
  | false =>
    have hsame : ({ s.sockets c with isOpen := false } : Socket) = s.sockets c := by rw [← hopen]
    simp [hsame]

theorem Tidy.close {K : Job → Prop} (h : Tidy K s.jobs s.sockets) {throws : Nat → Bool} (ht : throws c = false) :
    Tidy K (closeSocket throws s c).jobs (closeSocket throws s c).sockets := by
  rw [closeSocket_eq ht]
  intro op ho
  dsimp only at ho ⊢
  have hcancelled : op.phase.isRunning = false ∧ (op.phase = .waiting → op ∈ s.jobs ∧ op.key.isOf c = false) := by
    split at ho
    · exact ⟨(aborts_cancel _ _).idle (fun a ha => (h a ha).1) op ho, fun hw => waiting_cancel ho hw⟩
    · rename_i hclosed
      refine ⟨(h op ho).1, fun hw => ⟨ho, ?_⟩⟩
      by_contra hof
      exact hclosed (((h op ho).2 hw).2 c (by simpa using hof))
  refine ⟨hcancelled.1, fun hw => ?_⟩
  obtain ⟨hmem, hof⟩ := hcancelled.2 hw
  obtain ⟨hK, hopen⟩ := (h op hmem).2 hw
  refine ⟨hK, fun d hd => ?_⟩
  have hne : d ≠ c := by
    rintro rfl
    rw [hof] at hd
    cases hd
  rw [Function.update_of_ne hne]
  exact hopen d hd

theorem aborts_closeSocket {throws : Nat → Bool} (ht : throws c = false) : Aborts s.jobs (closeSocket throws s c).jobs := by
  rw [closeSocket_eq ht]
  dsimp only
  split
  · exact aborts_cancel _ _
  · exact Aborts.refl _

theorem isOpen_closeSocket {throws : Nat → Bool} (ht : throws c = false) {d : Nat}
    (hd : ((closeSocket throws s c).sockets d).isOpen = true) : d ≠ c ∧ (s.sockets d).isOpen = true := by
  rw [closeSocket_eq ht] at hd
  dsimp only at hd
  have hne : d ≠ c := by
    rintro rfl
    rw [Function.update_self] at hd
    cases hd
  rw [Function.update_of_ne hne] at hd
  exact ⟨hne, hd⟩

theorem Live.stopConnection (h : Live n s) {throws : Nat → Bool} (ht : throws c = false) :
    Live n (s.stopConnection throws c) := by
  unfold EventLoop.stopConnection
  have heq := closeSocket_eq (s := { s with connections := s.connections.erase c }) ht
  refine ⟨?_, ?_, ?_, ?_, Tidy.close (s := { s with connections := s.connections.erase c }) h.tidy ht, ?_, ?_⟩
  · rw [heq]
    exact h.running
  · rw [heq]
    exact h.late
  · rw [heq]
    exact h.owns
  · rw [heq]
    exact h.idle
  · intro d hd
    obtain ⟨hne, hopen⟩ := isOpen_closeSocket (s := { s with connections := s.connections.erase c }) ht hd
    rw [heq]
    exact (List.mem_erase_of_ne hne).2 (h.member d hopen)
  · rw [heq]
    dsimp only
    split
    · rw [count_cancel]
      exact h.signal
    · exact h.signal

theorem Live.start (h : Live n s) : Live n s.start := by
  have hnew : Live n { s with
      sockets := Function.update s.sockets s.accepted { isOpen := true }
      connections := s.connections ++ [s.accepted]
      accepted := s.accepted + 1 } := by
    refine ⟨h.running, h.late, h.owns, h.idle, h.tidy.sockets (fun d hd => ?_), fun d hd => ?_, h.signal⟩
    · by_cases hda : d = s.accepted
      · simp [hda]
      · simp [hda, hd]
    · by_cases hda : d = s.accepted
      · simp [hda]
      · refine List.mem_append_left _ (h.member d ?_)
        simpa [hda] using hd
  exact hnew.armSocket trivial (by simp) (fun d hd => Job.eq_of_isOf_read hd)

theorem Live.doRead (h : Live n s) (c : Nat) : Live n (s.doRead c) :=
  h.armSocket trivial (by simp) (fun d hd => Job.eq_of_isOf_read hd)

theorem Live.doWrite (h : Live n s) (c : Nat) : Live n (s.doWrite c) :=
  h.armSocket trivial (by simp) (fun d hd => Job.eq_of_isOf_write hd)

theorem Live.periodicRegisterUpdates (h : Live n s) (doings : List Doing) : Live n (s.periodicRegisterUpdates doings) := by
  unfold EventLoop.periodicRegisterUpdates
  rw [mark_of_running h.running]
  exact (h.doesAll doings).armTimer

theorem Live.onRead (h : Live n s) (hi : ∀ c, i.shutdownThrows c = false) (c : Nat) (o : Outcome) :
    Live n (s.onRead c o i) := by
  cases o with
  | success =>
    have hanswered : Live n (s.answerAll c i.answered) := h.foldl (fun _ doings _ hs => (hs.doesAll doings).send c)
    unfold EventLoop.onRead
    dsimp only
    split
    · exact (hanswered.doesAll i.doings).stopConnection (hi c)
    · exact (hanswered.doesAll i.doings).doRead c
  | failed => exact h.stopConnection (hi c)
  | aborted => exact h

theorem Live.onWrite (h : Live n s) (hi : ∀ c, i.shutdownThrows c = false) (c : Nat) (o : Outcome) :
    Live n (s.onWrite c o i) := by
  cases o with
  | success =>
    unfold EventLoop.onWrite
    dsimp only
    split
    · split
      · exact h.setUnsent c _
      · exact (h.setUnsent c _).doWrite c
    · exact h.doWrite c
  | failed => exact h.stopConnection (hi c)
  | aborted => exact h

/-- A handler other than the signal's leaves the loop as it has to be. -/
theorem Live.handle (h : Live n s) (hj : j ≠ .signal) (hi : ∀ c, i.shutdownThrows c = false) (o : Outcome) :
    Live n (s.handle o i j) := by
  cases j with
  | timer =>
    rw [EventLoop.handle, onTimer]
    split
    · exact h.periodicRegisterUpdates i.doings
    · exact h
  | accept =>
    rw [EventLoop.handle, onAccept]
    split
    · split
      · exact h.start.doAccept
      · exact h.doAccept
    · exact h
  | read c => exact h.onRead hi c o
  | write c => exact h.onWrite hi c o
  | doWrite c =>
    rw [EventLoop.handle, onDoWrite]
    split
    · exact h
    · exact h.doWrite c
  | hotplug r => exact h.doesAll i.doings
  | signal => exact absurd rfl hj

theorem Live.moves (h : Live n s) {jobs : List (Operation Job)} (hm : Moves j .waiting (.queued o) s.jobs jobs) :
    Live n { s with jobs := jobs } := by
  refine ⟨h.running, h.late, h.owns, h.idle, fun op ho => ?_, h.member, Nat.le_of_eq (hm.count _) |>.trans h.signal⟩
  rcases hm.mem ho with ho | rfl
  · exact h.tidy op ho
  · exact ⟨rfl, fun hw => by cases hw⟩

theorem Live.over (h : Live n s) {jobs : List (Operation Job)} {x : Phase} (he : Ends j x s.jobs jobs) :
    Live n { s with jobs := jobs } := by
  refine ⟨h.running, h.late, h.owns, h.idle, fun op ho => h.tidy op (he.mem ho), h.member, ?_⟩
  have := he.count (fun j => j == Job.signal)
  have := h.signal
  dsimp only
  omega

/-- Once the signal handler has been taken off the queue, no other is to come. -/
theorem Live.overSignal (h : Live 1 s) {jobs : List (Operation Job)} {x : Phase} (he : Ends .signal x s.jobs jobs) :
    Live 0 { s with jobs := jobs } := by
  have hover := h.over he
  refine ⟨hover.running, hover.late, hover.owns, hover.idle, hover.tidy, hover.member, ?_⟩
  have hcount := he.count (fun j => j == Job.signal)
  have hone := h.signal
  rw [if_pos (by rfl)] at hcount
  dsimp only
  omega

theorem Live.ready (h : Live n s) {k : Nat × Direction} {waits : List (Operation (Nat × Direction))}
    (hm : Moves k .waiting (.queued o) s.usb.waits waits) : Live n { s with usb := { s.usb with waits := waits } } := by
  refine ⟨h.running, h.late, h.owns.moves hm (by simp), fun op ho => ?_, h.tidy, h.member, h.signal⟩
  rcases hm.mem ho with ho | rfl
  · exact h.idle op ho
  · rfl

theorem Live.overWatcher (h : Live n s) {k : Nat × Direction} {x : Phase} {waits : List (Operation (Nat × Direction))}
    (he : Ends k x s.usb.waits waits) : Live n { s with usb := { s.usb with waits := waits } } :=
  ⟨h.running, h.late, h.owns.over he, fun op ho => h.idle op (he.mem ho), h.tidy, h.member, h.signal⟩

theorem Live.onWatcher (h : Live n s) (w : Nat) (d : Direction) (o : Outcome) (reports : List LibusbReport) :
    Live n (s.onWatcher w d o reports) := by
  unfold EventLoop.onWatcher
  split
  · exact h
  · have hreported := h.foldl (l := reports) (f := EventLoop.reported) (fun _ r _ hs => hs.reported r)
    exact hreported.setUsb (hreported.owns.handlerEnds w d o) (LibusbService.idle_handlerEnds hreported.idle w d o)

theorem live_initial (pollfds : List (Nat × UInt16)) (present : List Nat) : Live 1 (initial pollfds present) := by
  have hnew : Live 0 { usb := LibusbService.construct pollfds, isListening := true } := by
    refine ⟨rfl, rfl, LibusbService.owns_construct pollfds, LibusbService.idle_construct pollfds, ?_, ?_, Nat.zero_le _⟩
    · intro op ho
      cases ho
    · intro c hc
      cases hc
  have hposted := hnew.foldl (l := present) (fun s dev _ hs => hs.post (j := .hotplug (.arrived dev)) (by simp))
  have hall := (hposted.periodicRegisterUpdates []).doAccept
  refine ⟨hall.running, hall.late, hall.owns, hall.idle, hall.tidy.append rfl ?_, hall.member, ?_⟩
  · exact fun _ => ⟨trivial, fun c hc => by cases hc⟩
  · refine (Nat.le_of_eq (count_append _ _ _)).trans ?_
    exact Nat.add_le_add_right hall.signal 1

end EventLoop
end Fpga
