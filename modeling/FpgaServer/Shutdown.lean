import FpgaServer.LoopLive
/-!
# Shutdown — the process after the termination signal

If no expiry of the timer is queued when the signal handler runs, and every `shutdown` goes well, it leaves the loop `Down`:
nothing waits, and no queued handler polls or begins a wait again, unless it opens a device.  Then every handler that runs
leaves less work than it found, but for the hotplug reports it is given.
-/
namespace Fpga

open Base (Operation Outcome Phase Report)
open Base.Operation

namespace EventLoop

variable {s s' : EventLoop} {n c : Nat} {j : Job} {o : Outcome} {i : HandlerInput} {throws : Nat → Bool}

/-! ## What is left to do -/

structure Down (s : EventLoop) : Prop where
  stopped : s.stopped = true
  late : s.late = []
  closed : ∀ c, (s.sockets c).isOpen = false
  connections : s.connections = []
  listening : s.isListening = false
  queued : ∀ op ∈ s.jobs, ∃ o, op.phase = .queued o
  expiry : ⟨.timer, .queued .success⟩ ∉ s.jobs
  signal : ∀ op ∈ s.jobs, op.key ≠ .signal
  usb : s.usb.Released

/-- How many handlers may come of an operation, its own included. -/
def weight (op : Operation Job) : Nat :=
  match op.key, op.phase with
  | .read _, .queued .success => 4
  | .write _, .queued .success => 2
  | .doWrite _, _ => 2
  | _, _ => 1

def work (s : EventLoop) : Nat := (s.jobs.map weight).sum + s.usb.waits.length

/-- The loop has nothing to wait for and nothing to run. -/
def Idle (s : EventLoop) : Prop := s.jobs = [] ∧ s.usb.waits = []

theorem work_push (s : EventLoop) (op : Operation Job) :
    ({ s with jobs := s.jobs ++ [op] } : EventLoop).work = s.work + weight op := by
  simp only [work, List.map_append, List.sum_append, List.map_cons, List.map_nil, List.sum_singleton]
  omega

theorem work_over {x : Phase} {jobs : List (Operation Job)} (he : Ends j x s.jobs jobs) :
    s.work = ({ s with jobs := jobs } : EventLoop).work + weight ⟨j, x⟩ := by
  obtain ⟨pre, post, hjobs, rfl⟩ := he
  simp only [work, hjobs, List.map_append, List.sum_append, List.map_cons, List.sum_cons]
  omega

/-! ## Handlers after the signal -/

theorem Down.push (h : Down s) (hj : j ≠ .timer) (hs : j ≠ .signal) (o : Outcome) :
    Down { s with jobs := s.jobs ++ [⟨j, .queued o⟩] } := by
  refine ⟨h.stopped, h.late, h.closed, h.connections, h.listening, fun op ho => ?_, ?_, fun op ho => ?_, h.usb⟩
  · rcases List.mem_append.1 ho with ho | ho
    · exact h.queued op ho
    · rw [List.mem_singleton.1 ho]
      exact ⟨o, rfl⟩
  · intro hmem
    rcases List.mem_append.1 hmem with hmem | hmem
    · exact h.expiry hmem
    · cases List.mem_singleton.1 hmem
      exact hj rfl
  · rcases List.mem_append.1 ho with ho | ho
    · exact h.signal op ho
    · rw [List.mem_singleton.1 ho]
      exact hs

theorem Down.over (h : Down s) {x : Phase} {jobs : List (Operation Job)} (he : Ends j x s.jobs jobs) :
    Down { s with jobs := jobs } :=
  ⟨h.stopped, h.late, h.closed, h.connections, h.listening, fun op ho => h.queued op (he.mem ho),
    fun hmem => h.expiry (he.mem hmem), fun op ho => h.signal op (he.mem ho), h.usb⟩

theorem Down.withUsb (h : Down s) {usb : LibusbService} (hu : usb.Released) : Down { s with usb := usb } :=
  ⟨h.stopped, h.late, h.closed, h.connections, h.listening, h.queued, h.expiry, h.signal, hu⟩

/-- An operation begun on a closed socket is queued as failed. -/
theorem Down.armSocket (h : Down s) (c : Nat) (hj : j ≠ .timer) (hs : j ≠ .signal) :
    Down (s.armSocket c j) ∧ (s.armSocket c j).work = s.work + weight ⟨j, .queued .failed⟩ := by
  unfold EventLoop.armSocket
  rw [h.closed c]
  exact ⟨h.push hj hs .failed, work_push s _⟩

theorem Down.setUsb (h : Down s) {usb : LibusbService} (hu : usb.Released) (hlen : usb.waits.length = s.usb.waits.length) :
    s.setUsb usb = { s with usb := usb } ∧ Down (s.setUsb usb) ∧ (s.setUsb usb).work = s.work := by
  have heq : s.setUsb usb = { s with usb := usb } := by
    unfold EventLoop.setUsb
    rw [if_neg (by omega)]
  rw [heq]
  refine ⟨rfl, h.withUsb hu, ?_⟩
  unfold work
  rw [hlen]

theorem Down.reported (h : Down s) {r : LibusbReport} (hr : r.ArmsNothing) :
    Down (s.reported r) ∧ (s.reported r).work ≤ s.work + (if r.isHotplug then 1 else 0) ∧
      (s.reported r).sockets = s.sockets := by
  cases r with
  | pollfd n =>
    obtain ⟨hu, hlen⟩ := h.usb.notified hr
    obtain ⟨heq, hdown, hwork⟩ := h.setUsb hu hlen
    refine ⟨hdown, Nat.le_of_eq hwork, ?_⟩
    rw [show s.reported (.pollfd n) = { s with usb := s.usb.notified n } from heq]
  | hotplug r => exact ⟨h.push (by simp) (by simp) .success, Nat.le_of_eq (work_push s _), rfl⟩

theorem Down.sendAll (h : Down s) : s.sendAll = s := by
  unfold EventLoop.sendAll
  rw [h.connections]
  rfl

theorem Down.does (h : Down s) {d : Doing} (hd : d.ArmsNothing) :
    Down (s.does d) ∧ (s.does d).work ≤ s.work + (if d.isHotplug then 1 else 0) ∧ (s.does d).sockets = s.sockets := by
  cases d with
  | reported r => exact h.reported hd
  | broadcasts =>
    rw [show s.does .broadcasts = s from h.sendAll]
    exact ⟨h, Nat.le_add_right _ _, rfl⟩

theorem Down.doesAll (h : Down s) {doings : List Doing} (hd : ∀ d ∈ doings, d.ArmsNothing) :
    Down (s.doesAll doings) ∧ (s.doesAll doings).work ≤ s.work + doings.countP Doing.isHotplug ∧
      (s.doesAll doings).sockets = s.sockets := by
  induction doings generalizing s with
  | nil => exact ⟨h, Nat.le_refl _, rfl⟩
  | cons d doings ih =>
    obtain ⟨hdown, hwork, hsockets⟩ := h.does (hd d List.mem_cons_self)
    obtain ⟨hdown', hwork', hsockets'⟩ := ih hdown (fun e he => hd e (List.mem_cons_of_mem _ he))
    refine ⟨hdown', ?_, hsockets'.trans hsockets⟩
    rw [List.countP_cons]
    exact hwork'.trans (by omega)

theorem Down.setUnsent (h : Down s) (c k : Nat) : Down (s.setUnsent c k) := by
  refine ⟨h.stopped, h.late, fun d => ?_, h.connections, h.listening, h.queued, h.expiry, h.signal, h.usb⟩
  unfold EventLoop.setUnsent
  by_cases hd : d = c
  · subst hd
    simp [h.closed]
  · simp [hd, h.closed]

/-- What a `send` may still post. -/
def debt (s : EventLoop) (c : Nat) : Nat := if (s.sockets c).unsent = 0 then 2 else 0

theorem Down.send (h : Down s) (c : Nat) : Down (s.send c) ∧ (s.send c).work + (s.send c).debt c ≤ s.work + s.debt c := by
  have hdebt : ∀ t : EventLoop, ∀ k, (t.setUnsent c (k + 1)).debt c = 0 := by
    intro t k
    unfold debt EventLoop.setUnsent
    simp
  unfold EventLoop.send
  rw [hdebt]
  split
  · rename_i hzero
    refine ⟨(h.push (j := .doWrite c) (by simp) (by simp) .success).setUnsent c _, ?_⟩
    have hwork := work_push s ⟨.doWrite c, .queued .success⟩
    have hpost : s.debt c = weight ⟨.doWrite c, .queued .success⟩ := if_pos hzero
    rw [hpost, ← hwork]
    exact Nat.le_refl _
  · exact ⟨h.setUnsent c _, Nat.le_add_right _ _⟩

theorem Down.answerAll (h : Down s) (c : Nat) {answered : List (List Doing)} (hd : ∀ d ∈ answered.flatten, d.ArmsNothing) :
    Down (s.answerAll c answered) ∧
      (s.answerAll c answered).work + (s.answerAll c answered).debt c ≤
        s.work + s.debt c + answered.flatten.countP Doing.isHotplug := by
  induction answered generalizing s with
  | nil => exact ⟨h, Nat.le_refl _⟩
  | cons doings answered ih =>
    rw [List.flatten_cons] at hd
    obtain ⟨hdown, hwork, hsockets⟩ := h.doesAll (fun d hm => hd d (List.mem_append_left _ hm))
    obtain ⟨hsent, hpaid⟩ := hdown.send c
    obtain ⟨hdown', hwork'⟩ := ih hsent (fun d hm => hd d (List.mem_append_right _ hm))
    refine ⟨hdown', hwork'.trans ?_⟩
    have hdebt : (s.doesAll doings).debt c = s.debt c := by
      unfold debt
      rw [hsockets]
    rw [List.flatten_cons, List.countP_append]
    omega

theorem Down.stopConnection (h : Down s) (throws : Nat → Bool) (c : Nat) : s.stopConnection throws c = s := by
  have hsame : ({ s with connections := s.connections.erase c } : EventLoop) = s := by
    rw [h.connections, List.erase_nil, ← h.connections]
  unfold EventLoop.stopConnection closeSocket
  rw [hsame, h.closed c]
  rfl

theorem Down.onRead (h : Down s) (c : Nat) (o : Outcome) (hi : ∀ d ∈ i.allDoings, d.ArmsNothing) :
    Down (s.onRead c o i) ∧
      (s.onRead c o i).work + 1 ≤ s.work + weight ⟨.read c, .queued o⟩ + i.allDoings.countP Doing.isHotplug := by
  cases o with
  | success =>
    obtain ⟨hanswered, hpaid⟩ := h.answerAll c (fun d hd => hi d (List.mem_append_left _ hd))
    obtain ⟨hdown, hwork, -⟩ := hanswered.doesAll (fun d hd => hi d (List.mem_append_right _ hd))
    have hcount : i.allDoings.countP Doing.isHotplug =
        i.answered.flatten.countP Doing.isHotplug + i.doings.countP Doing.isHotplug := List.countP_append
    have hdebt : s.debt c ≤ 2 := by
      unfold debt
      split <;> omega
    have hweight : weight ⟨.read c, .queued .success⟩ = 4 := rfl
    unfold EventLoop.onRead
    dsimp only
    split
    · rw [hdown.stopConnection]
      exact ⟨hdown, by omega⟩
    · obtain ⟨hread, hone⟩ := hdown.armSocket (j := .read c) c (by simp) (by simp)
      have hfailed : weight ⟨.read c, .queued .failed⟩ = 1 := rfl
      exact ⟨hread, by unfold doRead; omega⟩
  | failed =>
    rw [show s.onRead c .failed i = s from h.stopConnection _ c]
    exact ⟨h, Nat.le_add_right _ _⟩
  | aborted => exact ⟨h, Nat.le_add_right _ _⟩

theorem Down.doWrite (h : Down s) (c : Nat) : Down (s.doWrite c) ∧ (s.doWrite c).work = s.work + 1 :=
  h.armSocket (j := .write c) c (by simp) (by simp)

theorem Down.onWrite (h : Down s) (c : Nat) (o : Outcome) :
    Down (s.onWrite c o i) ∧ (s.onWrite c o i).work + 1 ≤ s.work + weight ⟨.write c, .queued o⟩ := by
  cases o with
  | success =>
    have hweight : weight ⟨.write c, .queued .success⟩ = 2 := rfl
    unfold EventLoop.onWrite
    dsimp only
    have hpopped := h.setUnsent c ((s.sockets c).unsent - 1)
    have hsame : (s.setUnsent c ((s.sockets c).unsent - 1)).work = s.work := rfl
    split
    · split
      · exact ⟨hpopped, by omega⟩
      · obtain ⟨hwrite, hone⟩ := hpopped.doWrite c
        exact ⟨hwrite, by omega⟩
    · obtain ⟨hwrite, hone⟩ := h.doWrite c
      exact ⟨hwrite, by omega⟩
  | failed =>
    rw [show s.onWrite c .failed i = s from h.stopConnection _ c]
    exact ⟨h, Nat.le_refl _⟩
  | aborted => exact ⟨h, Nat.le_refl _⟩

/-- **A handler that runs after the signal's polls and arms nothing**, and leaves less work. -/
theorem Down.handle (h : Down s) (hj : j ≠ .signal) (ho : j = .timer → o ≠ .success)
    (hi : ∀ d ∈ i.allDoings, d.ArmsNothing) :
    Down (s.handle o i j) ∧
      (s.handle o i j).work + 1 ≤ s.work + weight ⟨j, .queued o⟩ + i.allDoings.countP Doing.isHotplug := by
  cases j with
  | timer =>
    rw [EventLoop.handle, onTimer, if_neg (ho rfl)]
    exact ⟨h, Nat.le_add_right _ _⟩
  | accept =>
    rw [EventLoop.handle, onAccept, h.listening]
    exact ⟨h, Nat.le_add_right _ _⟩
  | read c => exact h.onRead c o hi
  | write c =>
    obtain ⟨hdown, hwork⟩ := h.onWrite (i := i) c o
    exact ⟨hdown, hwork.trans (Nat.le_add_right _ _)⟩
  | doWrite c =>
    have hweight : weight ⟨.doWrite c, .queued o⟩ = 2 := rfl
    rw [EventLoop.handle, onDoWrite]
    split
    · exact ⟨h, by omega⟩
    · obtain ⟨hdown, hwork⟩ := h.doWrite c
      exact ⟨hdown, by omega⟩
  | hotplug r =>
    obtain ⟨hdown, hwork, -⟩ := h.doesAll (fun d hd => hi d (List.mem_append_right _ hd))
    have hcount : i.doings.countP Doing.isHotplug ≤ i.allDoings.countP Doing.isHotplug :=
      (List.sublist_append_right _ _).countP_le
    have hweight : weight ⟨.hotplug r, .queued o⟩ = 1 := rfl
    rw [EventLoop.handle]
    exact ⟨hdown, by omega⟩
  | signal => exact absurd rfl hj

theorem Down.reports (h : Down s) {w : Nat} (hw : s.usb.Stopped w) {reports : List LibusbReport}
    (hr : ∀ r ∈ reports, r.ArmsNothing) :
    Down (reports.foldl EventLoop.reported s) ∧ (reports.foldl EventLoop.reported s).usb.Stopped w ∧
      (reports.foldl EventLoop.reported s).work ≤ s.work + reports.countP LibusbReport.isHotplug := by
  induction reports generalizing s with
  | nil => exact ⟨h, hw, Nat.le_refl _⟩
  | cons r reports ih =>
    obtain ⟨hdown, hwork, -⟩ := h.reported (hr r List.mem_cons_self)
    have hstopped : (s.reported r).usb.Stopped w := by
      cases r with
      | pollfd n =>
        obtain ⟨hu, hlen⟩ := h.usb.notified (hr _ List.mem_cons_self)
        rw [show s.reported (.pollfd n) = { s with usb := s.usb.notified n } from (h.setUsb hu hlen).1]
        exact (hw.notified h.usb.owns n).1
      | hotplug r => exact hw
    obtain ⟨hdown', hw', hwork'⟩ := ih hdown hstopped (fun q hq => hr q (List.mem_cons_of_mem _ hq))
    refine ⟨hdown', hw', ?_⟩
    rw [List.countP_cons]
    exact hwork'.trans (by omega)

theorem Down.onWatcher (h : Down s) {w : Nat} (hw : s.usb.Stopped w) (d : Direction) (o : Outcome)
    {reports : List LibusbReport} (hr : ∀ r ∈ reports, r.ArmsNothing) :
    Down (s.onWatcher w d o reports) ∧
      (s.onWatcher w d o reports).work ≤ s.work + reports.countP LibusbReport.isHotplug := by
  unfold EventLoop.onWatcher
  split
  · exact ⟨h, Nat.le_add_right _ _⟩
  · obtain ⟨hdown, hw', hwork⟩ := h.reports hw hr
    dsimp only
    rw [LibusbService.handlerEnds_stopped hdown.usb.owns hw']
    obtain ⟨-, hdown', hwork'⟩ := hdown.setUsb hdown.usb rfl
    exact ⟨hdown', by omega⟩

/-- **Every step after the signal's runs a handler**, which leaves less work but for what libusb reports. -/
theorem Down.step (h : Down s) {e : LoopEvent} (he : Meets s e) (hs : Step s e s') :
    Down s' ∧ s'.work + 1 ≤ s.work + e.hotplugs := by
  cases hs with
  | completes j o ho hm =>
    obtain ⟨o', ho'⟩ := h.queued _ hm.source
    cases ho'
  | ready w d o ho hm =>
    obtain ⟨o', ho'⟩ := h.usb.queued _ hm.source
    cases ho'
  | @runs j o i jobs hends =>
    have hexpiry : j = .timer → o ≠ .success := by
      rintro rfl rfl
      exact h.expiry hends.source
    have hwork := work_over hends
    obtain ⟨hdown, hless⟩ := (h.over hends).handle (h.signal _ hends.source) hexpiry (he.2.2 h.stopped)
    refine ⟨hdown, ?_⟩
    rw [hwork]
    exact hless
  | @watcher w d o reports waits hends =>
    have hw : Down { s with usb := { s.usb with waits := waits } } := h.withUsb (h.usb.over hends)
    have hwork : s.work = ({ s with usb := { s.usb with waits := waits } } : EventLoop).work + 1 := by
      have hlen := hends.length
      unfold work
      dsimp only
      omega
    obtain ⟨hdown, hless⟩ := hw.onWatcher (h.usb.stopped _ hends.source) d o (he h.stopped)
    refine ⟨hdown, ?_⟩
    rw [hwork, Nat.add_right_comm _ 1]
    exact Nat.add_le_add_right hless 1

/-- Every run after the signal's handler is bounded by the work that was left and the hotplug reports. -/
theorem Down.run {events : List LoopEvent} (hr : Run Meets s events s') (h : Down s) :
    Down s' ∧ events.length + s'.work ≤ s.work + (events.map LoopEvent.hotplugs).sum := by
  induction hr with
  | refl => exact ⟨h, Nat.le_of_eq (Nat.zero_add _)⟩
  | tail hr he hs ih =>
    obtain ⟨hdown, hwork⟩ := ih
    obtain ⟨hdown', hless⟩ := hdown.step he hs
    refine ⟨hdown', ?_⟩
    rw [List.length_append, List.map_append, List.sum_append, List.map_singleton, List.sum_singleton]
    simp only [List.length_singleton]
    omega

/-- As long as something is left, a handler can run. -/
theorem Down.progress (h : Down s) : s.Idle ∨ ∃ e s', Meets s e ∧ Step s e s' := by
  by_cases hjobs : s.jobs = []
  · by_cases hwaits : s.usb.waits = []
    · exact .inl ⟨hjobs, hwaits⟩
    · obtain ⟨⟨⟨w, d⟩, phase⟩, rest, hop⟩ := List.exists_cons_of_ne_nil hwaits
      obtain ⟨o, ho⟩ := h.usb.queued ⟨(w, d), phase⟩ (by rw [hop]; exact List.mem_cons_self)
      cases ho
      exact .inr ⟨.watcher w d o [], _, fun _ r hr => absurd hr List.not_mem_nil, .watcher s w d o [] ⟨[], rest, hop, rfl⟩⟩
  · obtain ⟨⟨j, phase⟩, rest, hop⟩ := List.exists_cons_of_ne_nil hjobs
    obtain ⟨o, ho⟩ := h.queued ⟨j, phase⟩ (by rw [hop]; exact List.mem_cons_self)
    cases ho
    refine .inr ⟨.runs j o {}, _, ⟨fun hj => ?_, fun _ => rfl, fun _ d hd => absurd hd List.not_mem_nil⟩,
      .runs s j o {} ⟨[], rest, hop, rfl⟩⟩
    exact absurd hj (h.signal ⟨j, .queued o⟩ (by rw [hop]; exact List.mem_cons_self))

/-! ## The signal -/

/-- What closing every connection makes of the loop. -/
theorem foldl_closeSocket {K : Job → Prop} (ht : ∀ c, throws c = false) (cs : List Nat) (h : Tidy K s.jobs s.sockets) :
    ∃ jobs sockets, cs.foldl (closeSocket throws) s = { s with jobs := jobs, sockets := sockets } ∧ Tidy K jobs sockets ∧
      Aborts s.jobs jobs ∧ ∀ c, (sockets c).isOpen = true → c ∉ cs ∧ (s.sockets c).isOpen = true := by
  induction cs generalizing s with
  | nil => exact ⟨s.jobs, s.sockets, rfl, h, Aborts.refl _, fun c hc => ⟨List.not_mem_nil, hc⟩⟩
  | cons c cs ih =>
    obtain ⟨jobs, sockets, heq, htidy, haborts, hopen⟩ := ih (h.close (ht c))
    refine ⟨jobs, sockets, ?_, htidy, (aborts_closeSocket (ht c)).trans haborts, fun d hd => ?_⟩
    · rw [List.foldl_cons, heq, closeSocket_eq (ht c)]
    · obtain ⟨hcs, hd⟩ := hopen d hd
      obtain ⟨hne, hd⟩ := isOpen_closeSocket (ht c) hd
      exact ⟨List.not_mem_cons_of_ne_of_not_mem hne hcs, hd⟩

/-- **The signal handler leaves nothing that waits**, where no expiry of the timer is queued. -/
theorem Live.onSignal (h : Live 0 s) (htimer : ⟨.timer, .queued .success⟩ ∉ s.jobs) (ht : ∀ c, throws c = false) :
    Down (s.onSignal throws) := by
  have htidy := (h.tidy.cancel (fun j => j == Job.timer)).cancel (fun j => j == Job.accept)
  have hcancelled := (aborts_cancel (fun j => j == Job.timer) s.jobs).trans (aborts_cancel (fun j => j == Job.accept) _)
  obtain ⟨jobs, sockets, heq, htidy, haborts, hopen⟩ := foldl_closeSocket (s := { s with
    isListening := false
    jobs := Operation.cancel (fun j => j == Job.accept) (Operation.cancel (fun j => j == Job.timer) s.jobs) })
    ht s.connections htidy
  have hclosed : ∀ c, (sockets c).isOpen = false := by
    intro c
    by_contra hc
    obtain ⟨hmem, hc⟩ := hopen c (by simpa using hc)
    exact hmem (h.member c hc)
  have hsignal : ∀ op ∈ s.jobs, op.key ≠ .signal := by
    intro op ho
    simpa using count_eq_zero_iff.1 (Nat.le_zero.1 h.signal) op ho
  have hjobs := hcancelled.trans haborts
  unfold EventLoop.onSignal EventLoop.stopAll
  dsimp only
  rw [heq]
  refine ⟨rfl, h.late, hclosed, rfl, rfl, fun op ho => ?_, hjobs.not_mem (by simp) htimer, hjobs.key_ne hsignal,
    (h.owns.stop h.idle).1⟩
  -- what may wait before the signal has been cancelled, one kind after the other
  obtain ⟨hrun, hwait⟩ := htidy op ho
  match hphase : op.phase with
  | .queued o => exact ⟨o, rfl⟩
  | .running o =>
    rw [hphase] at hrun
    cases hrun
  | .waiting =>
    obtain ⟨⟨⟨hcan, htimer⟩, haccept⟩, hsocket⟩ := hwait hphase
    match hkey : op.key with
    | .timer => simp [hkey] at htimer
    | .accept => simp [hkey] at haccept
    | .read c =>
      have := hsocket c (by simp [hkey, Job.isOf])
      rw [hclosed] at this
      cases this
    | .write c =>
      have := hsocket c (by simp [hkey, Job.isOf])
      rw [hclosed] at this
      cases this
    | .doWrite c => simp [hkey, Job.CanWait] at hcan
    | .hotplug r => simp [hkey, Job.CanWait] at hcan
    | .signal => exact absurd hkey (hjobs.key_ne hsignal op ho)

/-! ## Whole runs -/

theorem Live.step (h : Live 1 s) {e : LoopEvent} (he : Meets s e) (hs : Step s e s') : Live 1 s' ∨ Down s' := by
  cases hs with
  | completes j o ho hm => exact .inl (h.moves hm)
  | ready w d o ho hm => exact .inl (h.ready hm)
  | @runs j o i jobs hends =>
    by_cases hj : j = .signal
    · subst hj
      refine .inr (Live.onSignal (h.overSignal hends) (fun hmem => ?_) he.2.1)
      exact he.1 rfl (hends.mem hmem)
    · exact .inl ((h.over hends).handle hj he.2.1 o)
  | @watcher w d o reports waits hends => exact .inl ((h.overWatcher hends).onWatcher w d o reports)

theorem live_or_down {pollfds : List (Nat × UInt16)} {present : List Nat} {events : List LoopEvent}
    (h : Run Meets (initial pollfds present) events s) : Live 1 s ∨ Down s := by
  generalize hinit : initial pollfds present = t at h
  induction h with
  | refl => exact .inl (hinit ▸ live_initial pollfds present)
  | tail hr he hs ih =>
    rcases ih with hlive | hdown
    · exact hlive.step he hs
    · exact .inr (hdown.step he hs).1

/-- **After the termination signal nothing is polled or armed, and the loop runs out of work**: nothing waits, a handler can
run as long as something is left, and no more run than there is work, hotplug reports apart. -/
theorem shuts_down {pollfds : List (Nat × UInt16)} {present : List Nat} {events : List LoopEvent}
    (h : Run Meets (initial pollfds present) events s) (hs : s.stopped = true) :
    s.late = [] ∧ (∀ op ∈ s.jobs, ∃ o, op.phase = .queued o) ∧ (∀ op ∈ s.usb.waits, ∃ o, op.phase = .queued o) ∧
      (s.Idle ∨ ∃ e s', Meets s e ∧ Step s e s') ∧
      ∀ events' s', Run Meets s events' s' →
        events'.length + s'.work ≤ s.work + (events'.map LoopEvent.hotplugs).sum := by
  rcases live_or_down h with hlive | hdown
  · rw [hlive.running] at hs
    cases hs
  · exact ⟨hdown.late, hdown.queued, hdown.usb.queued, hdown.progress, fun events' s' hr => (hdown.run hr).2⟩

/-- A request has been received when the signal handler runs. -/
theorem shuts_down_serving : ∃ s, s.stopped = true ∧ s.work = 7 ∧ s.late = [] ∧
    ∀ events' s', Run Meets s events' s' → events'.length + s'.work ≤ s.work + (events'.map LoopEvent.hotplugs).sum := by
  have h := Run.refl (M := Meets) (initial [(3, 1)] [])
  have h := h.tail (e := .completes .accept .success) trivial (.completes _ .accept .success nofun ⟨[_], _, rfl, rfl⟩)
  have h := h.tail (e := .runs .accept .success {}) ⟨nofun, fun _ => rfl, nofun⟩
    (.runs _ .accept .success {} ⟨[_], _, rfl, rfl⟩)
  have h := h.tail (e := .completes (.read 0) .success) trivial
    (.completes _ (.read 0) .success nofun ⟨[_, _], _, rfl, rfl⟩)
  have h := h.tail (e := .completes .signal .success) trivial (.completes _ .signal .success nofun ⟨[_], _, rfl, rfl⟩)
  have h := h.tail (e := .runs .signal .success {}) ⟨fun _ => by decide, fun _ => rfl, nofun⟩
    (.runs _ .signal .success {} ⟨[_], _, rfl, rfl⟩)
  obtain ⟨hlate, -, -, -, hbound⟩ := shuts_down h rfl
  exact ⟨_, rfl, by decide, hlate, hbound⟩

/-- **A timer whose expiry is queued when it is cancelled polls again, and waits again.** -/
theorem expiry_polls : ¬ ∀ (pollfds : List (Nat × UInt16)) (present : List Nat) (events : List LoopEvent) (s : EventLoop),
    Run (fun _ _ => True) (initial pollfds present) events s → s.stopped = true → s.late = [] := by
  intro hall
  have h := Run.refl (M := fun _ _ => True) (initial [] [])
  have h := h.tail trivial (.completes _ .timer .success nofun ⟨[], _, rfl, rfl⟩)
  have h := h.tail trivial (.completes _ .signal .success nofun ⟨[_, _], _, rfl, rfl⟩)
  have h := h.tail trivial (.runs _ .signal .success {} ⟨[_, _], _, rfl, rfl⟩)
  have h := h.tail trivial (.runs _ .timer .success {} ⟨[], _, rfl, rfl⟩)
  have hlate := hall [] [] _ _ h rfl
  cases hlate

end EventLoop
end Fpga
