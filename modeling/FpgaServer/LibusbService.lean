import Mathlib.Algebra.Order.Ring.Int
import Mathlib.Data.List.Induction
import FpgaServer.Chunks
import FpgaServer.IoService
import FpgaServer.OrdMap
/-!
# LibusbService — `libusb_asio/libusb_service.cpp`

The watchers of the descriptors libusb polls, and their operations.  A watcher owns its descriptor until it is stopped, and
keeps running as long as one of its handlers is queued.  libusb reports added and removed descriptors at any time, also from
inside `handleEvents`; a handler is in its `running` phase while it is there.
-/
namespace Fpga

open Base (OrdMap Operation Outcome Phase)
open Base.Operation

/-- `POLLIN` and `POLLOUT`. -/
inductive Direction where
  | read
  | write
  deriving DecidableEq, Repr

theorem Direction.exists_iff {P : Direction → Prop} : (∃ d, P d) ↔ P .read ∨ P .write :=
  ⟨fun ⟨d, h⟩ => by cases d <;> tauto, fun h => h.elim (fun h => ⟨_, h⟩) (fun h => ⟨_, h⟩)⟩

def Direction.mask : Direction → UInt16
  | .read => 0x001
  | .write => 0x004

/-- The directions of an event mask. -/
def requested (events : UInt16) (d : Direction) : Bool := decide (events &&& d.mask ≠ 0)

/-- What libusb reports about the descriptors it polls. -/
inductive Notification where
  | added (fd : Nat) (events : UInt16)
  | removed (fd : Nat)
  deriving DecidableEq, Repr

structure LibusbService where
  fdWatchers : OrdMap Int Nat := OrdMap.empty
  /-- The descriptor of a watcher, until it is released. -/
  descriptor : Nat → Option Nat := fun _ => none
  nextWatcher : Nat := 0
  /-- The operations of the watchers. -/
  waits : List (Operation (Nat × Direction)) := []

namespace LibusbService

variable {s s' : LibusbService}

/-- `native_handle`, which is -1 after `release`. -/
def nativeHandle (s : LibusbService) (w : Nat) : Int :=
  match s.descriptor w with
  | some fd => fd
  | none => -1

def isWatching (s : LibusbService) (fd : Int) : Bool := (s.fdWatchers.find? fd).isSome

/-- `do_read` and `do_write` of a watcher. -/
def arm (s : LibusbService) (w : Nat) (d : Direction) : LibusbService := { s with waits := Operation.arm (w, d) s.waits }

/-- `libusb_service_fd_watcher::start`. -/
def startOn (s : LibusbService) (w : Nat) (events : UInt16) : LibusbService :=
  let s := if requested events .read then s.arm w .read else s
  if requested events .write then s.arm w .write else s

/-- `libusb_service_fd_watcher::stop`. -/
def stopOn (s : LibusbService) (w : Nat) : LibusbService :=
  if (s.descriptor w).isSome then
    { s with
      waits := cancel (fun k => k.1 == w) s.waits
      descriptor := Function.update s.descriptor w none }
  else s

def startWatcher (s : LibusbService) (fd : Nat) (events : UInt16) : LibusbService :=
  if s.isWatching fd then s
  else startOn { s with
      descriptor := Function.update s.descriptor s.nextWatcher (some fd)
      fdWatchers := s.fdWatchers.insert fd s.nextWatcher
      nextWatcher := s.nextWatcher + 1 } s.nextWatcher events

def stopWatcher (s : LibusbService) (fd : Nat) : LibusbService :=
  match s.fdWatchers.find? fd with
  | none => s
  | some w => stopOn { s with fdWatchers := s.fdWatchers.erase fd } w

def stop (s : LibusbService) : LibusbService :=
  { s.fdWatchers.entries.foldl (fun s e => s.stopOn e.2) s with fdWatchers := OrdMap.empty }

/-- `_pollfd_added_cb` and `_pollfd_removed_cb`. -/
def notified (s : LibusbService) : Notification → LibusbService
  | .added fd events => s.startWatcher fd events
  | .removed fd => s.stopWatcher fd

/-- The constructor, with the descriptors libusb polls from the beginning. -/
def construct (pollfds : List (Nat × UInt16)) : LibusbService :=
  pollfds.foldl (fun s e => s.startWatcher e.1 e.2) {}

/-- The end of a handler, after `handleEvents` has returned. -/
def handlerEnds (s : LibusbService) (w : Nat) (d : Direction) (o : Outcome) : LibusbService :=
  if o = .success ∧ s.isWatching (s.nativeHandle w) then s.arm w d else s

/-- What happens to the service. -/
inductive Event where
  | notified (n : Notification)
  | completes (o : Outcome)
  | starts
  | ends
  deriving DecidableEq, Repr

def Event.notification? : Event → Option Notification
  | .notified n => some n
  | _ => none

/-- libusb reports, a wait completes, and the handlers run one at a time. -/
inductive Step : LibusbService → Event → LibusbService → Prop where
  | notified (s : LibusbService) (n : Notification) : Step s (.notified n) (s.notified n)
  | completes (s : LibusbService) (w : Nat) (d : Direction) (o : Outcome) (ho : o ≠ .aborted)
    {waits : List (Operation (Nat × Direction))} (h : Moves (w, d) .waiting (.queued o) s.waits waits) :
    Step s (.completes o) { s with waits := waits }
  | starts (s : LibusbService) (w : Nat) (d : Direction) (o : Outcome) {waits : List (Operation (Nat × Direction))}
    (hidle : ∀ op ∈ s.waits, op.phase.isRunning = false) (h : Moves (w, d) (.queued o) (.running o) s.waits waits) :
    Step s .starts { s with waits := waits }
  | ends (s : LibusbService) (w : Nat) (d : Direction) (o : Outcome) {waits : List (Operation (Nat × Direction))}
    (h : Ends (w, d) (.running o) s.waits waits) : Step s .ends (handlerEnds { s with waits := waits } w d o)

inductive Run : LibusbService → List Event → LibusbService → Prop where
  | refl (s : LibusbService) : Run s [] s
  | tail {s s' s'' : LibusbService} {events : List Event} {e : Event} (h : Run s events s') (hs : Step s' e s'') :
    Run s (events ++ [e]) s''

/-! ## What is watched -/

/-- The mask with which the present watching of a descriptor began, after these notifications. -/
def beganWith (fd : Nat) : List Notification → Option UInt16 :=
  List.foldl (fun began n => match n with
    | .added fd' events => if fd' = fd then began.or (some events) else began
    | .removed fd' => if fd' = fd then none else began) none

theorem beganWith_added (fd fd' : Nat) (events : UInt16) (trace : List Notification) :
    beganWith fd' (trace ++ [.added fd events]) =
      if fd = fd' then (beganWith fd' trace).or (some events) else beganWith fd' trace := by
  unfold beganWith
  rw [List.foldl_append]
  rfl

theorem beganWith_removed (fd fd' : Nat) (trace : List Notification) :
    beganWith fd' (trace ++ [.removed fd]) = if fd = fd' then none else beganWith fd' trace := by
  unfold beganWith
  rw [List.foldl_append]
  rfl

/-- The descriptor has been added, and not removed since. -/
def Polled (fd : Nat) (trace : List Notification) : Prop :=
  ∃ pre events post, trace = pre ++ .added fd events :: post ∧ .removed fd ∉ post

theorem polled_added (fd fd' : Nat) (events : UInt16) (trace : List Notification) :
    Polled fd' (trace ++ [.added fd events]) ↔ fd = fd' ∨ Polled fd' trace := by
  constructor
  · rintro ⟨pre, events', post, h, hr⟩
    rcases Base.split_append h with ⟨mid, rfl, rfl⟩ | ⟨mid, -, hseg⟩
    · exact .inr ⟨pre, events', mid, rfl, fun hm => hr (List.mem_append_left _ hm)⟩
    · cases mid with
      | nil =>
        cases hseg
        exact .inl rfl
      | cons n mid => simp at hseg
  · rintro (rfl | ⟨pre, events', post, rfl, hr⟩)
    · exact ⟨trace, events, [], rfl, List.not_mem_nil⟩
    · exact ⟨pre, events', post ++ [.added fd events], by simp, by simpa using hr⟩

theorem polled_removed (fd fd' : Nat) (trace : List Notification) :
    Polled fd' (trace ++ [.removed fd]) ↔ fd ≠ fd' ∧ Polled fd' trace := by
  constructor
  · rintro ⟨pre, events', post, h, hr⟩
    rcases Base.split_append h with ⟨mid, rfl, rfl⟩ | ⟨mid, -, hseg⟩
    · refine ⟨fun he => hr (by simp [he]), pre, events', mid, rfl, fun hm => hr (List.mem_append_left _ hm)⟩
    · cases mid <;> simp at hseg
  · rintro ⟨hne, pre, events', post, rfl, hr⟩
    exact ⟨pre, events', post ++ [.removed fd], by simp, by simpa [hne.symm] using hr⟩

theorem beganWith_isSome_iff (fd : Nat) (trace : List Notification) : (beganWith fd trace).isSome ↔ Polled fd trace := by
  induction trace using List.reverseRecOn with
  | nil => simp [beganWith, Polled]
  | append_singleton trace n ih =>
    cases n with
    | added fd' events =>
      rw [beganWith_added, polled_added]
      by_cases h : fd' = fd
      · simp [h]
      · simp [h, ih]
    | removed fd' =>
      rw [beganWith_removed, polled_removed]
      by_cases h : fd' = fd
      · simp [h]
      · simp [h, ih]

/-! ## Who owns a descriptor -/

theorem startOn_eq (s : LibusbService) (w : Nat) (events : UInt16) :
    startOn s w events = { s with waits := (startOn s w events).waits } := by
  unfold startOn arm
  by_cases hr : requested events .read <;> by_cases hw : requested events .write <;> simp [hr, hw]

theorem mem_startOn {w : Nat} {events : UInt16} {op : Operation (Nat × Direction)} :
    op ∈ (startOn s w events).waits ↔ op ∈ s.waits ∨ ∃ d, requested events d = true ∧ op = ⟨(w, d), .waiting⟩ := by
  unfold startOn arm
  by_cases hr : requested events .read <;> by_cases hw : requested events .write <;>
    simp [hr, hw, mem_arm, Direction.exists_iff, or_assoc]

theorem count_startOn (p : Nat × Direction → Bool) (w : Nat) (events : UInt16) :
    count p (startOn s w events).waits = count p s.waits +
      ((if requested events .read && p (w, .read) then 1 else 0) + if requested events .write && p (w, .write) then 1 else 0) := by
  unfold startOn arm
  by_cases hr : requested events .read <;> by_cases hw : requested events .write <;>
    simp [hr, hw, count_arm, Nat.add_assoc]

/-- The service with a new watcher for the descriptor, that has not been started. -/
def watch (s : LibusbService) (fd : Nat) : LibusbService :=
  { s with
    descriptor := Function.update s.descriptor s.nextWatcher (some fd)
    fdWatchers := s.fdWatchers.insert fd s.nextWatcher
    nextWatcher := s.nextWatcher + 1 }

theorem startWatcher_watched {fd : Nat} (h : s.isWatching fd = true) (events : UInt16) : s.startWatcher fd events = s :=
  if_pos h

theorem startWatcher_new {fd : Nat} (h : s.fdWatchers.find? (fd : Int) = none) (events : UInt16) :
    s.startWatcher fd events = { s.watch fd with waits := (startOn (s.watch fd) s.nextWatcher events).waits } := by
  rw [← startOn_eq]
  exact if_neg (by simp [isWatching, h])

theorem stopWatcher_unknown {fd : Nat} (h : s.fdWatchers.find? (fd : Int) = none) : s.stopWatcher fd = s := by
  unfold stopWatcher
  rw [h]

/-- A watched descriptor is owned by its watcher, and only such watchers own one or have an operation that waits. -/
structure Owns (s : LibusbService) : Prop where
  watched : ∀ k w, s.fdWatchers.find? k = some w → ∃ fd : Nat, k = fd ∧ s.descriptor w = some fd
  opened : ∀ w fd, s.descriptor w = some fd → s.fdWatchers.find? fd = some w
  fresh : ∀ w, s.nextWatcher ≤ w → s.descriptor w = none ∧ ∀ op ∈ s.waits, op.key.1 ≠ w
  waiting : ∀ op ∈ s.waits, op.phase = .waiting → s.descriptor op.key.1 ≠ none

theorem owns_initial : Owns {} where
  watched k w h := by cases h
  opened w fd h := by cases h
  fresh _ _ := ⟨rfl, fun _ => by simp⟩
  waiting _ h := by simp at h

theorem Owns.startWatcher (h : Owns s) (fd : Nat) (events : UInt16) : Owns (s.startWatcher fd events) := by
  by_cases hw : (s.fdWatchers.find? (fd : Int)).isSome = true
  · rw [startWatcher_watched hw]
    exact h
  · have hnone : s.fdWatchers.find? (fd : Int) = none := by simpa using hw
    obtain ⟨hfresh, hnowaits⟩ := h.fresh s.nextWatcher (Nat.le_refl _)
    have hfind : ∀ k, (s.fdWatchers.insert fd s.nextWatcher).find? k =
        if k = (fd : Int) then some s.nextWatcher else s.fdWatchers.find? k :=
      fun k => OrdMap.find?_insert_of_fresh hnone k _
    rw [startWatcher_new hnone]
    unfold watch
    constructor
    · intro k w hk
      dsimp only at hk ⊢
      rw [hfind] at hk
      split at hk
      · rename_i he
        cases hk
        exact ⟨fd, he, Function.update_self ..⟩
      · obtain ⟨fd', rfl, hd⟩ := h.watched k w hk
        refine ⟨fd', rfl, ?_⟩
        rw [Function.update_of_ne, hd]
        rintro rfl
        rw [hfresh] at hd
        cases hd
    · intro w fd' hd
      dsimp only at hd ⊢
      rw [hfind]
      by_cases he : w = s.nextWatcher
      · subst he
        rw [Function.update_self] at hd
        cases hd
        exact if_pos rfl
      · rw [Function.update_of_ne he] at hd
        have hold := h.opened w fd' hd
        rw [if_neg, hold]
        rintro hfd
        rw [hfd, hnone] at hold
        cases hold
    · intro w hle
      dsimp only at hle ⊢
      have hne : w ≠ s.nextWatcher := by omega
      obtain ⟨hd, hnone'⟩ := h.fresh w (by omega)
      refine ⟨by rw [Function.update_of_ne hne, hd], fun op ho => ?_⟩
      rcases mem_startOn.1 ho with ho | ⟨d, -, rfl⟩
      · exact hnone' op ho
      · exact hne.symm
    · intro op ho hwait
      dsimp only at ho ⊢
      rcases mem_startOn.1 ho with ho | ⟨d, -, rfl⟩
      · rw [Function.update_of_ne (hnowaits op ho)]
        exact h.waiting op ho hwait
      · simp

/-- What `stopWatcher` does to a service that watches the descriptor. -/
theorem Owns.stopWatcher_eq (h : Owns s) {fd w : Nat} (hw : s.fdWatchers.find? (fd : Int) = some w) :
    s.descriptor w = some fd ∧ s.stopWatcher fd = { s with
      fdWatchers := s.fdWatchers.erase fd
      waits := cancel (fun k => k.1 == w) s.waits
      descriptor := Function.update s.descriptor w none } := by
  obtain ⟨fd', hfd, hd⟩ := h.watched fd w hw
  obtain rfl := Int.ofNat_inj.1 hfd
  refine ⟨hd, ?_⟩
  unfold LibusbService.stopWatcher stopOn
  rw [hw]
  simp [hd]

/-- Two watchers do not own one descriptor. -/
theorem Owns.ne_of_ne (h : Owns s) {fd fd' w w' : Nat} (hw : s.fdWatchers.find? (fd : Int) = some w)
    (hd : s.descriptor w' = some fd') (hne : w' ≠ w) : fd' ≠ fd := by
  rintro rfl
  exact hne (Option.some.inj ((h.opened w' fd' hd).symm.trans hw))

theorem Owns.stopWatcher (h : Owns s) (fd : Nat) : Owns (s.stopWatcher fd) := by
  cases hw : s.fdWatchers.find? (fd : Int) with
  | none =>
    rw [stopWatcher_unknown hw]
    exact h
  | some w =>
    obtain ⟨hopen, heq⟩ := h.stopWatcher_eq hw
    rw [heq]
    constructor
    · intro k w' hk
      dsimp only at hk ⊢
      rw [OrdMap.find?_erase] at hk
      split at hk
      · cases hk
      · rename_i hne
        obtain ⟨fd', rfl, hd⟩ := h.watched k w' hk
        refine ⟨fd', rfl, ?_⟩
        rw [Function.update_of_ne, hd]
        rintro rfl
        rw [hopen] at hd
        cases hd
        exact hne rfl
    · intro w' fd' hd
      dsimp only at hd ⊢
      by_cases he : w' = w
      · subst he
        rw [Function.update_self] at hd
        cases hd
      · rw [Function.update_of_ne he] at hd
        rw [OrdMap.find?_erase, if_neg (mt Int.ofNat_inj.1 (h.ne_of_ne hw hd he))]
        exact h.opened w' fd' hd
    · intro w' hle
      dsimp only at hle ⊢
      obtain ⟨hd, hnone⟩ := h.fresh w' hle
      constructor
      · by_cases he : w' = w
        · subst he
          exact Function.update_self ..
        · rw [Function.update_of_ne he, hd]
      · intro op ho
        obtain ⟨a, ha, rfl⟩ := mem_cancel.1 ho
        rw [key_cancelled]
        exact hnone a ha
    · intro op ho hwait
      obtain ⟨a, ha, rfl⟩ := mem_cancel.1 ho
      dsimp only
      rw [key_cancelled]
      by_cases he : a.key.1 = w
      · exact absurd hwait (cancelled_not_waiting (by simpa using he))
      · rw [Function.update_of_ne he]
        rcases phase_cancelled (fun k => k.1 == w) a with hp | ⟨hp, -, -⟩
        · exact h.waiting a ha (hp ▸ hwait)
        · exact absurd (by simpa using hp) he

theorem Owns.notified (h : Owns s) : ∀ n : Notification, Owns (s.notified n)
  | .added fd events => h.startWatcher fd events
  | .removed fd => h.stopWatcher fd

theorem owns_construct (pollfds : List (Nat × UInt16)) : Owns (construct pollfds) := by
  induction pollfds using List.reverseRecOn with
  | nil => exact owns_initial
  | append_singleton pollfds e ih =>
    rw [construct, List.foldl_append]
    exact ih.startWatcher e.1 e.2

theorem Owns.moves (h : Owns s) {k : Nat × Direction} {x y : Phase} {waits : List (Operation (Nat × Direction))}
    (hm : Moves k x y s.waits waits) (hy : y ≠ .waiting) : Owns { s with waits := waits } := by
  refine ⟨h.watched, h.opened, fun w hle => ⟨(h.fresh w hle).1, fun op ho => ?_⟩, fun op ho hwait => ?_⟩
  · rcases hm.mem ho with ho | rfl
    · exact (h.fresh w hle).2 op ho
    · exact (h.fresh w hle).2 ⟨k, x⟩ hm.source
  · rcases hm.mem ho with ho | rfl
    · exact h.waiting op ho hwait
    · exact absurd hwait hy

theorem Owns.over (h : Owns s) {k : Nat × Direction} {x : Phase} {waits : List (Operation (Nat × Direction))}
    (he : Ends k x s.waits waits) : Owns { s with waits := waits } where
  watched := h.watched
  opened := h.opened
  fresh w hle := ⟨(h.fresh w hle).1, fun op ho => (h.fresh w hle).2 op (he.mem ho)⟩
  waiting op ho := h.waiting op (he.mem ho)

theorem Owns.arm (h : Owns s) {w fd : Nat} (hd : s.descriptor w = some fd) (d : Direction) : Owns (s.arm w d) := by
  have hopen : s.descriptor w ≠ none := by
    rw [hd]
    nofun
  refine ⟨h.watched, h.opened, fun w' hle => ⟨(h.fresh w' hle).1, fun op ho => ?_⟩, fun op ho hwait => ?_⟩
  · rcases mem_arm.1 ho with ho | rfl
    · exact (h.fresh w' hle).2 op ho
    · rintro rfl
      exact hopen (h.fresh _ hle).1
  · rcases mem_arm.1 ho with ho | rfl
    · exact h.waiting op ho hwait
    · exact hopen

/-- A watcher that has been stopped is not watched. -/
theorem Owns.not_watching (h : Owns s) {w : Nat} (hd : s.descriptor w = none) : s.isWatching (s.nativeHandle w) = false := by
  have hhandle : s.nativeHandle w = -1 := by
    unfold nativeHandle
    rw [hd]
  rw [hhandle]
  unfold isWatching
  cases hw : s.fdWatchers.find? (-1) with
  | none => rfl
  | some w' =>
    obtain ⟨fd, hfd, -⟩ := h.watched _ _ hw
    omega

/-! ## The invariant -/

structure Inv (trace : List Notification) (s : LibusbService) : Prop where
  began : ∀ fd : Nat, (s.fdWatchers.find? fd).isSome = (beganWith fd trace).isSome
  watched : ∀ k w, s.fdWatchers.find? k = some w → ∃ fd : Nat, k = fd ∧ s.descriptor w = some fd
  opened : ∀ w fd, s.descriptor w = some fd → s.fdWatchers.find? fd = some w
  fresh : ∀ w, s.nextWatcher ≤ w → s.descriptor w = none ∧ ∀ op ∈ s.waits, op.key.1 ≠ w
  /-- Only the watcher of a descriptor has operations that wait, and none that has been aborted. -/
  waiting : ∀ op ∈ s.waits, op.phase = .waiting → s.descriptor op.key.1 ≠ none
  aborted : ∀ op ∈ s.waits, op.phase = .queued .aborted ∨ op.phase = .running .aborted → s.descriptor op.key.1 = none
  errorless : ∀ op ∈ s.waits, op.phase ≠ .queued .failed ∧ op.phase ≠ .running .failed
  counted : ∀ w fd events, s.descriptor w = some fd → beganWith fd trace = some events →
    ∀ d, count (fun k => k == (w, d)) s.waits = if requested events d then 1 else 0

theorem inv_initial : Inv [] {} where
  began _ := rfl
  watched k w h := by cases h
  opened w fd h := by cases h
  fresh _ _ := ⟨rfl, fun _ => by simp⟩
  waiting _ h := by simp at h
  aborted _ h := by simp at h
  errorless _ h := by simp at h
  counted w fd events h := by cases h

theorem Inv.owns {trace : List Notification} (h : Inv trace s) : Owns s := ⟨h.watched, h.opened, h.fresh, h.waiting⟩

theorem Inv.startWatcher {trace : List Notification} (h : Inv trace s) (fd : Nat) (events : UInt16) :
    Inv (trace ++ [.added fd events]) (s.startWatcher fd events) := by
  by_cases hw : (s.fdWatchers.find? (fd : Int)).isSome = true
  · -- a descriptor that is watched already stays so, with the mask it has
    have hbegan : ∀ fd', beganWith fd' (trace ++ [.added fd events]) = beganWith fd' trace := by
      intro fd'
      rw [beganWith_added]
      split
      · rename_i he
        subst he
        rw [h.began fd] at hw
        obtain ⟨events', he⟩ := Option.isSome_iff_exists.1 hw
        rw [he, Option.some_or]
      · rfl
    rw [startWatcher_watched hw]
    exact ⟨fun fd' => by rw [hbegan, h.began], h.watched, h.opened, h.fresh, h.waiting, h.aborted, h.errorless,
      fun w fd' events' hd hb => h.counted w fd' events' hd (hbegan fd' ▸ hb)⟩
  · have hnone : s.fdWatchers.find? (fd : Int) = none := by simpa using hw
    obtain ⟨hfresh, hnowaits⟩ := h.fresh s.nextWatcher (Nat.le_refl _)
    have hfind : ∀ k, (s.fdWatchers.insert fd s.nextWatcher).find? k =
        if k = (fd : Int) then some s.nextWatcher else s.fdWatchers.find? k :=
      fun k => OrdMap.find?_insert_of_fresh hnone k _
    have howns := h.owns.startWatcher fd events
    rw [startWatcher_new hnone] at howns ⊢
    unfold watch at howns ⊢
    constructor
    · intro fd'
      dsimp only
      rw [hfind, beganWith_added]
      by_cases he : fd' = fd
      · simp [he]
      · rw [if_neg (mt Int.ofNat_inj.1 he), if_neg (Ne.symm he)]
        exact h.began fd'
    · exact howns.watched
    · exact howns.opened
    · exact howns.fresh
    · exact howns.waiting
    · intro op ho haborted
      dsimp only at ho ⊢
      rcases mem_startOn.1 ho with ho | ⟨d, -, rfl⟩
      · rw [Function.update_of_ne (hnowaits op ho)]
        exact h.aborted op ho haborted
      · simp at haborted
    · intro op ho
      rcases mem_startOn.1 ho with ho | ⟨d, -, rfl⟩
      · exact h.errorless op ho
      · simp
    · intro w fd' events' hd hb d
      dsimp only at hd ⊢
      rw [count_startOn]
      by_cases he : w = s.nextWatcher
      · subst he
        rw [Function.update_self] at hd
        cases hd
        have hnobegin : beganWith fd trace = none := by
          rw [← Option.not_isSome_iff_eq_none, ← h.began fd, hnone]
          simp
        rw [beganWith_added, if_pos rfl, hnobegin, Option.none_or] at hb
        cases hb
        have hzero : count (fun k => k == (s.nextWatcher, d)) s.waits = 0 := by
          refine count_eq_zero_iff.2 (fun op ho => ?_)
          have hne := hnowaits op ho
          simp only [beq_eq_false_iff_ne]
          rintro hk
          exact hne (by rw [hk])
        rw [hzero]
        cases d <;> by_cases hr : requested events .read <;> by_cases hw' : requested events .write <;> simp [hr, hw']
      · rw [Function.update_of_ne he] at hd
        have hne : fd ≠ fd' := by
          rintro rfl
          have hold := h.opened w fd hd
          rw [hnone] at hold
          cases hold
        rw [beganWith_added, if_neg hne] at hb
        have hcount := h.counted w fd' events' hd hb d
        have hread : ((s.nextWatcher, Direction.read) == (w, d)) = false := by simp [Ne.symm he]
        have hwrite : ((s.nextWatcher, Direction.write) == (w, d)) = false := by simp [Ne.symm he]
        simpa [hread, hwrite] using hcount

theorem Inv.stopWatcher {trace : List Notification} (h : Inv trace s) (fd : Nat) :
    Inv (trace ++ [.removed fd]) (s.stopWatcher fd) := by
  cases hw : s.fdWatchers.find? (fd : Int) with
  | none =>
    have hbegan : ∀ fd', beganWith fd' (trace ++ [.removed fd]) = beganWith fd' trace := by
      intro fd'
      rw [beganWith_removed]
      split
      · rename_i he
        subst he
        have hno := h.began fd
        rw [hw] at hno
        exact (Option.not_isSome_iff_eq_none.1 (by simp [← hno])).symm
      · rfl
    rw [stopWatcher_unknown hw]
    exact ⟨fun fd' => by rw [hbegan, h.began], h.watched, h.opened, h.fresh, h.waiting, h.aborted, h.errorless,
      fun w fd' events' hd hb => h.counted w fd' events' hd (hbegan fd' ▸ hb)⟩
  | some w =>
    have howns := h.owns.stopWatcher fd
    rw [(h.owns.stopWatcher_eq hw).2] at howns ⊢
    constructor
    · intro fd'
      dsimp only
      rw [OrdMap.find?_erase, beganWith_removed]
      by_cases he : fd' = fd
      · simp [he]
      · rw [if_neg (mt Int.ofNat_inj.1 he), if_neg (Ne.symm he)]
        exact h.began fd'
    · exact howns.watched
    · exact howns.opened
    · exact howns.fresh
    · exact howns.waiting
    · intro op ho haborted
      obtain ⟨a, ha, rfl⟩ := mem_cancel.1 ho
      dsimp only
      rw [key_cancelled]
      by_cases he : a.key.1 = w
      · rw [he, Function.update_self]
      · rw [Function.update_of_ne he]
        rcases phase_cancelled (fun k => k.1 == w) a with hp | ⟨hp, -, -⟩
        · exact h.aborted a ha (hp ▸ haborted)
        · exact absurd (by simpa using hp) he
    · intro op ho
      obtain ⟨a, ha, rfl⟩ := mem_cancel.1 ho
      rcases phase_cancelled (fun k => k.1 == w) a with hp | ⟨-, -, hp⟩
      · rw [hp]
        exact h.errorless a ha
      · simp [hp]
    · intro w' fd' events hd hb d
      dsimp only at hd ⊢
      have he : w' ≠ w := by
        rintro rfl
        rw [Function.update_self] at hd
        cases hd
      rw [Function.update_of_ne he] at hd
      rw [beganWith_removed, if_neg (h.owns.ne_of_ne hw hd he).symm] at hb
      rw [count_cancel]
      exact h.counted w' fd' events hd hb d

/-- An operation of a watcher goes on to a phase in which it does not wait, and is aborted only if it was. -/
theorem Inv.moves {trace : List Notification} (h : Inv trace s) {w : Nat} {d : Direction} {x y : Phase}
    {waits : List (Operation (Nat × Direction))} (hm : Moves (w, d) x y s.waits waits) (hy : y ≠ .waiting)
    (hfailed : y ≠ .queued .failed ∧ y ≠ .running .failed)
    (haborted : y = .queued .aborted ∨ y = .running .aborted → x = .queued .aborted ∨ x = .running .aborted) :
    Inv trace { s with waits := waits } := by
  have howns := h.owns.moves hm hy
  refine ⟨h.began, howns.watched, howns.opened, howns.fresh, howns.waiting, ?_, ?_, ?_⟩
  · intro op ho hop
    rcases hm.mem ho with ho | rfl
    · exact h.aborted op ho hop
    · exact h.aborted ⟨(w, d), x⟩ hm.source (haborted hop)
  · intro op ho
    rcases hm.mem ho with ho | rfl
    · exact h.errorless op ho
    · exact hfailed
  · intro w' fd events hd hb d'
    rw [hm.count]
    exact h.counted w' fd events hd hb d'

/-- An operation of a watcher that has been stopped is over. -/
theorem Inv.over {trace : List Notification} (h : Inv trace s) {w : Nat} {d : Direction} {x : Phase}
    {waits : List (Operation (Nat × Direction))} (he : Ends (w, d) x s.waits waits) (hd : s.descriptor w = none) :
    Inv trace { s with waits := waits } := by
  have howns := h.owns.over he
  refine ⟨h.began, howns.watched, howns.opened, howns.fresh, howns.waiting, ?_, ?_, ?_⟩
  · exact fun op ho => h.aborted op (he.mem ho)
  · exact fun op ho => h.errorless op (he.mem ho)
  · intro w' fd events hd' hb d'
    have hne : ((w, d) == (w', d')) = false := by
      rw [beq_eq_false_iff_ne]
      rintro hk
      cases hk
      rw [hd] at hd'
      cases hd'
    have hcount := h.counted w' fd events hd' hb d'
    rw [he.count] at hcount
    simpa [hne] using hcount

/-- An operation of a watcher that is watched is replaced by one that waits. -/
theorem Inv.rearm {trace : List Notification} (h : Inv trace s) {w fd : Nat} {d : Direction} {x : Phase}
    {waits : List (Operation (Nat × Direction))} (he : Ends (w, d) x s.waits waits) (hd : s.descriptor w = some fd) :
    Inv trace { s with waits := Operation.arm (w, d) waits } := by
  have howns := (h.owns.over he).arm hd d
  refine ⟨h.began, howns.watched, howns.opened, howns.fresh, howns.waiting, ?_, ?_, ?_⟩
  · intro op ho haborted
    rcases mem_arm.1 ho with ho | rfl
    · exact h.aborted op (he.mem ho) haborted
    · simp at haborted
  · intro op ho
    rcases mem_arm.1 ho with ho | rfl
    · exact h.errorless op (he.mem ho)
    · simp
  · intro w' fd' events hd' hb d'
    rw [count_arm, ← he.count]
    exact h.counted w' fd' events hd' hb d'

/-- The handler of a watcher that is still watched waits again, any other one is over. -/
theorem Inv.ends {trace : List Notification} (h : Inv trace s) {w : Nat} {d : Direction} {o : Outcome}
    {waits : List (Operation (Nat × Direction))} (he : Ends (w, d) (.running o) s.waits waits) :
    Inv trace (handlerEnds { s with waits := waits } w d o) := by
  unfold handlerEnds
  cases hd : s.descriptor w with
  | none =>
    rw [(h.owns.over he).not_watching hd, if_neg (by simp)]
    exact h.over he hd
  | some fd =>
    obtain rfl : o = .success := by
      cases o with
      | success => rfl
      | aborted =>
        have hnone := h.aborted _ he.source (.inr rfl)
        rw [hd] at hnone
        cases hnone
      | failed => exact absurd rfl (h.errorless _ he.source).2
    have hhandle : nativeHandle { s with waits := waits } w = fd := by
      unfold nativeHandle
      rw [hd]
    have hwatched : isWatching { s with waits := waits } fd = true := by
      unfold isWatching
      rw [h.opened w fd hd]
      rfl
    rw [hhandle, if_pos ⟨rfl, hwatched⟩]
    exact h.rearm he hd

theorem inv_construct (pollfds : List (Nat × UInt16)) :
    Inv (pollfds.map (fun e => .added e.1 e.2)) (construct pollfds) := by
  induction pollfds using List.reverseRecOn with
  | nil => exact inv_initial
  | append_singleton pollfds e ih =>
    rw [List.map_append, construct, List.foldl_append]
    exact ih.startWatcher e.1 e.2

theorem Inv.step {trace : List Notification} (h : Inv trace s) {e : Event} (hs : Step s e s') (he : e ≠ .completes .failed) :
    Inv (trace ++ e.notification?.toList) s' := by
  cases hs with
  | notified n =>
    cases n with
    | added fd events => exact h.startWatcher fd events
    | removed fd => exact h.stopWatcher fd
  | completes w d o ho hm =>
    have hfailed : o ≠ .failed := fun h => he (by rw [h])
    rw [show trace ++ (Event.completes o).notification?.toList = trace from List.append_nil _]
    exact h.moves hm (by simp) (by simp [hfailed]) (by simp [ho])
  | starts w d o hidle hm =>
    rw [show trace ++ Event.starts.notification?.toList = trace from List.append_nil _]
    have hfailed := (h.errorless _ hm.source).1
    exact h.moves hm (by simp) (by simpa using hfailed) (by simp)
  | ends w d o hends =>
    rw [show trace ++ Event.ends.notification?.toList = trace from List.append_nil _]
    exact h.ends hends

theorem Inv.run {trace : List Notification} {events : List Event} (hr : Run s events s') (h : Inv trace s)
    (he : .completes .failed ∉ events) : Inv (trace ++ events.filterMap Event.notification?) s' := by
  induction hr with
  | refl => simpa using h
  | @tail _ _ events e _ hs ih =>
    have hi := (ih (fun hm => he (List.mem_append_left _ hm))).step hs
      (fun hm => he (List.mem_append_right _ (by simp [hm])))
    have hone : [e].filterMap Event.notification? = e.notification?.toList := by cases e <;> rfl
    rwa [List.filterMap_append, hone, ← List.append_assoc]

/-! ## Stopped watchers -/

/-- A watcher that has been started and stopped. -/
def Stopped (s : LibusbService) (w : Nat) : Prop := w < s.nextWatcher ∧ s.descriptor w = none

/-- A notification leaves a stopped watcher stopped, and gives it no operation. -/
theorem Stopped.notified (h : Owns s) {w : Nat} (hw : Stopped s w) (n : Notification) :
    Stopped (s.notified n) w ∧ count (fun k => k.1 == w) (s.notified n).waits ≤ count (fun k => k.1 == w) s.waits := by
  obtain ⟨hlt, hd⟩ := hw
  cases n with
  | added fd events =>
    have hne : w ≠ s.nextWatcher := Nat.ne_of_lt hlt
    rw [show s.notified (.added fd events) = s.startWatcher fd events from rfl]
    cases hf : s.fdWatchers.find? (fd : Int) with
    | some w' =>
      rw [startWatcher_watched (by simp [isWatching, hf])]
      exact ⟨⟨hlt, hd⟩, Nat.le_refl _⟩
    | none =>
      rw [startWatcher_new hf]
      refine ⟨⟨Nat.lt_succ_of_lt hlt, ?_⟩, ?_⟩
      · unfold watch
        dsimp only
        rw [Function.update_of_ne hne, hd]
      · rw [count_startOn]
        simp [Ne.symm hne, watch]
  | removed fd =>
    rw [show s.notified (.removed fd) = s.stopWatcher fd from rfl]
    cases hf : s.fdWatchers.find? (fd : Int) with
    | none =>
      rw [stopWatcher_unknown hf]
      exact ⟨⟨hlt, hd⟩, Nat.le_refl _⟩
    | some w' =>
      obtain ⟨hopen, heq⟩ := h.stopWatcher_eq hf
      rw [heq]
      refine ⟨⟨hlt, ?_⟩, Nat.le_of_eq (count_cancel ..)⟩
      dsimp only
      rw [Function.update_of_ne, hd]
      rintro rfl
      rw [hd] at hopen
      cases hopen

/-- A stopped watcher stays so, and gets no operation. -/
theorem Stopped.step {trace : List Notification} (h : Inv trace s) {w : Nat} (hw : Stopped s w) {e : Event} (hs : Step s e s') :
    Stopped s' w ∧ count (fun k => k.1 == w) s'.waits ≤ count (fun k => k.1 == w) s.waits := by
  cases hs with
  | notified n => exact hw.notified h.owns n
  | completes w' d o ho hm => exact ⟨hw, Nat.le_of_eq (hm.count _)⟩
  | starts w' d o hidle hm => exact ⟨hw, Nat.le_of_eq (hm.count _)⟩
  | @ends w' d o waits hends =>
    have hcount := hends.count (fun k => k.1 == w)
    unfold handlerEnds
    split
    · rename_i hrearm
      refine ⟨hw, ?_⟩
      unfold arm
      rw [count_arm, ← hcount]
    · exact ⟨hw, by dsimp only; omega⟩

theorem Stopped.run {trace : List Notification} {events : List Event} (hr : Run s events s') (h : Inv trace s)
    (he : .completes .failed ∉ events) {w : Nat} (hw : Stopped s w) :
    Stopped s' w ∧ count (fun k => k.1 == w) s'.waits ≤ count (fun k => k.1 == w) s.waits := by
  induction hr with
  | refl => exact ⟨hw, Nat.le_refl _⟩
  | @tail _ _ events e hr hs ih =>
    have he' : .completes .failed ∉ events := fun hm => he (List.mem_append_left _ hm)
    obtain ⟨hw', hle⟩ := ih he'
    obtain ⟨hw'', hle'⟩ := hw'.step (h.run hr he') hs
    exact ⟨hw'', hle'.trans hle⟩

/-- What is watched after these notifications. -/
structure Watches (trace : List Notification) (s : LibusbService) : Prop where
  /-- The watched set: what has been added and not removed since. -/
  watched : ∀ k : Int, s.isWatching k ↔ ∃ fd : Nat, k = fd ∧ Polled fd trace
  /-- One operation for each direction that was requested when the watching began, and no other. -/
  one : ∀ fd w events, s.fdWatchers.find? (Int.ofNat fd) = some w → beganWith fd trace = some events →
    ∀ d, count (fun k => k == (w, d)) s.waits = if requested events d then 1 else 0
  /-- It waits, or its handler is queued or running with success. -/
  live : ∀ k w, s.fdWatchers.find? k = some w → ∀ op ∈ s.waits, op.key.1 = w →
    op.phase = .waiting ∨ op.phase = .queued .success ∨ op.phase = .running .success
  /-- Whatever waits is of a watched descriptor. -/
  waiting : ∀ op ∈ s.waits, op.phase = .waiting → ∃ k, s.fdWatchers.find? k = some op.key.1
  /-- A stopped watcher is never given another operation, and has none that waits. -/
  stopped : ∀ w, Stopped s w → ∀ events s', Run s events s' → .completes .failed ∉ events →
    count (fun k => k.1 == w) s'.waits ≤ count (fun k => k.1 == w) s.waits ∧
    ∀ op ∈ s'.waits, op.key.1 = w → op.phase ≠ .waiting

theorem Inv.watches {trace : List Notification} (h : Inv trace s) : Watches trace s where
  watched k := by
    constructor
    · intro hk
      obtain ⟨w, hk⟩ := Option.isSome_iff_exists.1 hk
      obtain ⟨fd, rfl, -⟩ := h.watched k w hk
      refine ⟨fd, rfl, (beganWith_isSome_iff fd trace).1 ?_⟩
      rw [← h.began fd, hk]
      rfl
    · rintro ⟨fd, rfl, hp⟩
      unfold isWatching
      rw [h.began fd]
      exact (beganWith_isSome_iff fd trace).2 hp
  one fd w events hw hb := by
    obtain ⟨fd', hfd, hd⟩ := h.watched _ w hw
    obtain rfl := Int.ofNat_inj.1 hfd
    exact h.counted w fd events hd hb
  live k w hw op ho hop := by
    obtain ⟨fd, -, hd⟩ := h.watched k w hw
    have haborted := h.aborted op ho
    have herror := h.errorless op ho
    rw [hop, hd] at haborted
    match hphase : op.phase with
    | .waiting => exact .inl rfl
    | .queued .success => exact .inr (.inl rfl)
    | .running .success => exact .inr (.inr rfl)
    | .queued .aborted => simp [hphase] at haborted
    | .running .aborted => simp [hphase] at haborted
    | .queued .failed => simp [hphase] at herror
    | .running .failed => simp [hphase] at herror
  waiting op ho hwait := by
    obtain ⟨fd, hd⟩ := Option.ne_none_iff_exists'.1 (h.waiting op ho hwait)
    exact ⟨fd, h.opened _ fd hd⟩
  stopped w hw events s' hr he := by
    obtain ⟨hw', hle⟩ := hw.run hr h he
    refine ⟨hle, fun op ho hop hwait => (h.run hr he).waiting op ho hwait ?_⟩
    rw [hop]
    exact hw'.2

/-- **The watched descriptors are those libusb polls, each with one operation for every direction it is polled for**, in
every run in which no wait fails; and a stopped watcher waits never again. -/
theorem watches_polled (pollfds : List (Nat × UInt16)) {events : List Event} (h : Run (construct pollfds) events s)
    (he : .completes .failed ∉ events) :
    Watches (pollfds.map (fun e => .added e.1 e.2) ++ events.filterMap Event.notification?) s :=
  ((inv_construct pollfds).run h he).watches

/-- A descriptor is removed and added again while a handler of its watcher runs. -/
theorem watches_polled_reused : ∃ s, s.fdWatchers.entries = [(3, 2), (5, 1)] ∧
    s.waits = [⟨(1, .read), .waiting⟩, ⟨(1, .write), .waiting⟩, ⟨(2, .write), .waiting⟩] ∧
    Watches [.added 3 1, .added 5 5, .removed 3, .added 3 4] s := by
  have h := Run.refl (construct [(3, 1)])
  have h := h.tail (.notified _ (.added 5 5))
  have h := h.tail (.completes _ 0 .read .success nofun ⟨[], _, rfl, rfl⟩)
  have h := h.tail (.starts _ 0 .read .success (by decide) ⟨[], _, rfl, rfl⟩)
  have h := (h.tail (.notified _ (.removed 3))).tail (.notified _ (.added 3 4))
  have h := h.tail (.ends _ 0 .read .success ⟨[], _, rfl, rfl⟩)
  exact ⟨_, rfl, rfl, watches_polled [(3, 1)] h (by decide)⟩

end LibusbService
end Fpga
