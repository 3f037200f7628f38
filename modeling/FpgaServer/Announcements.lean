import Mathlib.Data.List.Chain
import Mathlib.Data.List.Induction
import FpgaServer.ManagerMaps
/-!
# Announcements — the notifications of the manager

A log is regular if a device is announced only while absent, and withdrawn or reported on only while present, and if the
serials listed at each notification are the present ones.  Every step of a handler extends the log regularly and keeps the
registered serials equal to the present ones (`stable_announced`), so both hold between handlers in every run.
-/
namespace Fpga

open Base (OrdMap Within final)

/-- ADDED is `true`, REMOVED is `false`. -/
def DeviceEvent.announces? (serial : String) : DeviceEvent → Option Bool
  | .added s => if s = serial then some true else none
  | .removed s => if s = serial then some false else none
  | .regChanged _ _ _ _ => none

/-- The ADDED and REMOVED notifications of a serial, in order. -/
def announcements (serial : String) (log : List Notice) : List Bool :=
  log.filterMap (fun n => n.event.announces? serial)

/-- The last of them was ADDED. -/
def Present (serial : String) (log : List Notice) : Prop := (announcements serial log).getLast? = some true

/-- Strict alternation beginning with ADDED. -/
def Alternates (l : List Bool) : Prop := l.IsChain (· ≠ ·) ∧ ∀ b, l.head? = some b → b = true

/-- What a notification presupposes of the log before it. -/
def Allowed (log : List Notice) (n : Notice) : Prop :=
  (match n.event with
    | .added s => ¬ Present s log
    | .removed s => Present s log
    | .regChanged s _ _ _ => Present s log) ∧
  ∀ s, s ∈ n.listed ↔ Present s log ∨ n.event = .added s

def Regular (log : List Notice) : Prop := ∀ pre n post, log = pre ++ n :: post → Allowed pre n

theorem announcements_snoc (serial : String) (log : List Notice) (n : Notice) :
    announcements serial (log ++ [n]) = announcements serial log ++ (n.event.announces? serial).toList := by
  rw [announcements, List.filterMap_append, announcements]
  cases h : n.event.announces? serial <;> simp [h]

theorem present_added (s serial : String) (log : List Notice) (listed : List String) :
    Present s (log ++ [⟨.added serial, listed⟩]) ↔ s = serial ∨ Present s log := by
  rw [Present, announcements_snoc]
  by_cases h : serial = s
  · simp [DeviceEvent.announces?, h]
  · simp [DeviceEvent.announces?, h, Ne.symm h, Present]

theorem present_removed (s serial : String) (log : List Notice) (listed : List String) :
    Present s (log ++ [⟨.removed serial, listed⟩]) ↔ s ≠ serial ∧ Present s log := by
  rw [Present, announcements_snoc]
  by_cases h : serial = s
  · simp [DeviceEvent.announces?, h]
  · simp [DeviceEvent.announces?, h, Ne.symm h, Present]

theorem present_regChanged (s serial : String) (addr port : UInt8) (value : UInt16) (log : List Notice)
    (listed : List String) : Present s (log ++ [⟨.regChanged serial addr port value, listed⟩]) ↔ Present s log := by
  rw [Present, announcements_snoc, DeviceEvent.announces?, Option.toList_none, List.append_nil, Present]

theorem Regular.nil : Regular [] := fun pre n post h => by simp at h

theorem Regular.snoc {log : List Notice} {n : Notice} (h : Regular log) (hn : Allowed log n) : Regular (log ++ [n]) := by
  intro pre k post hk
  rcases List.eq_nil_or_concat post with rfl | ⟨post', last, rfl⟩
  · obtain ⟨rfl, hkn⟩ := List.append_inj' hk rfl
    cases hkn
    exact hn
  · rw [List.concat_eq_append, ← List.cons_append, ← List.append_assoc] at hk
    exact h pre k post' (List.append_inj' hk rfl).1

/-- Reports about present devices, with the present serials listed. -/
theorem Regular.reports : ∀ (new : List Notice) {log : List Notice} {listed : List String}, Regular log →
    (∀ s, s ∈ listed ↔ Present s log) →
    (∀ n ∈ new, ∃ serial addr port value, n = ⟨.regChanged serial addr port value, listed⟩ ∧ serial ∈ listed) →
    Regular (log ++ new) ∧ ∀ s, Present s (log ++ new) ↔ Present s log
  | [], log, listed, h, _, _ => by
    rw [List.append_nil]
    exact ⟨h, fun _ => Iff.rfl⟩
  | n :: new, log, listed, h, hlisted, hnew => by
    obtain ⟨serial, addr, port, value, rfl, hin⟩ := hnew n List.mem_cons_self
    have hpresent := fun s => present_regChanged s serial addr port value log listed
    have hsnoc := h.snoc (n := ⟨.regChanged serial addr port value, listed⟩)
      ⟨(hlisted serial).1 hin, fun s => by simp [hlisted s]⟩
    obtain ⟨hreg, hsame⟩ := Regular.reports new hsnoc (fun s => (hlisted s).trans (hpresent s).symm)
      (fun k hk => hnew k (List.mem_cons_of_mem _ hk))
    rw [List.append_cons]
    exact ⟨hreg, fun s => (hsame s).trans (hpresent s)⟩

/-- In a regular log the announcements of every serial alternate. -/
theorem Regular.alternates {log : List Notice} (h : Regular log) (serial : String) :
    Alternates (announcements serial log) := by
  induction log using List.reverseRecOn with
  | nil => exact ⟨List.isChain_nil, fun b hb => by cases hb⟩
  | append_singleton log n ih =>
    have hprev : Regular log := fun pre k post hk => h pre k (post ++ [n]) (by rw [hk]; simp)
    obtain ⟨hchain, hhead⟩ := ih hprev
    have hallowed := (h log n [] rfl).1
    rw [announcements_snoc]
    cases hn : n.event.announces? serial with
    | none =>
      rw [Option.toList_none, List.append_nil]
      exact ⟨hchain, hhead⟩
    | some b =>
      -- the new announcement differs from the last one, and the first one is ADDED
      have hlast : (announcements serial log).getLast? = some true ↔ b = false := by
        cases he : n.event with
        | added s =>
          rw [he] at hn hallowed
          simp only [DeviceEvent.announces?] at hn
          split at hn
          · rename_i hs
            cases hn
            rw [← hs]
            exact ⟨fun hp => absurd hp hallowed, fun hb => by cases hb⟩
          · cases hn
        | removed s =>
          rw [he] at hn hallowed
          simp only [DeviceEvent.announces?] at hn
          split at hn
          · rename_i hs
            cases hn
            rw [← hs]
            exact ⟨fun _ => rfl, fun _ => hallowed⟩
          · cases hn
        | regChanged s addr port value =>
          rw [he] at hn
          cases hn
      refine ⟨List.isChain_append.2 ⟨hchain, List.isChain_singleton b, fun x hx y hy => ?_⟩, fun c hc => ?_⟩
      · have hyb : b = y := Option.some.inj hy
        rw [Option.mem_def.1 hx, hyb] at hlast
        cases x <;> cases y <;> simp at hlast ⊢
      · cases hl : announcements serial log with
        | nil =>
          rw [hl] at hc hlast
          cases hc
          cases b with
          | true => rfl
          | false => exact absurd (hlast.2 rfl) (by simp)
        | cons x l =>
          rw [hl] at hc hhead
          exact hhead c hc

namespace DeviceManager

variable {ε : Type} {m m' : DeviceManager ε} {r : Nat} {d : Device ε View}

/-- All three callbacks are set. -/
def AllSet (n : Notifier) : Prop := n.addedCb.isSome ∧ n.removedCb.isSome ∧ n.regChangeCb.isSome

/-- The log is regular, and the present devices are the registered ones.  A device that reports is registered. -/
structure Announced (descriptions : List Description) (n : Notifier) (m : DeviceManager ε) : Prop where
  sound : Sound descriptions n m
  registered : ∀ r d, m.objects r = some d → d.regChangedCb ≠ none → m.serialMap.find? d.name = some r
  regular : Regular m.notifier.log
  present : ∀ s, s ∈ m.getDeviceList ↔ Present s m.notifier.log

theorem mem_getDeviceList {s : String} : s ∈ m.getDeviceList ↔ ∃ r, m.serialMap.find? s = some r := OrdMap.mem_keys_iff

theorem log_afterAdded (h : m.notifier.addedCb.isSome) (serial : String) :
    (m.afterAdded serial).log = m.notifier.log ++ [⟨.added serial, m.getDeviceList⟩] := by
  obtain ⟨cb, hcb⟩ := Option.isSome_iff_exists.1 h
  simp only [afterAdded, hcb]

theorem log_afterRemoved (ha : m.notifier.addedCb.isSome) (hr : m.notifier.removedCb.isSome) (serial : String) :
    (m.afterRemoved serial).log = m.notifier.log ++ [⟨.removed serial, m.getDeviceList⟩] := by
  obtain ⟨cb, hcb⟩ := Option.isSome_iff_exists.1 ha
  obtain ⟨cb', hcb'⟩ := Option.isSome_iff_exists.1 hr
  simp only [afterRemoved, hcb, hcb']

variable {descriptions : List Description} {n : Notifier}

theorem Sound.isSome (h : Sound descriptions n m) (hn : AllSet n) :
    m.notifier.addedCb.isSome ∧ m.notifier.removedCb.isSome := by
  rw [h.callbacks]
  exact ⟨hn.1, hn.2.1⟩

theorem announced_works (h : Announced descriptions n m) (hsound : Sound descriptions n m') (hw : Works r m m') :
    Announced descriptions n m' := by
  obtain ⟨new, hnew, hreports⟩ := hw.reports (fun d hd => h.sound.wired r d hd)
  have hserial : m'.serialMap = m.serialMap := by rw [hw.rest]; rfl
  have hlog : m'.notifier.log = m.notifier.log ++ new := by rw [hnew]
  obtain ⟨hregular, hsame⟩ := Regular.reports new h.regular h.present (fun k hk => by
    obtain ⟨d, hd, hcb, addr, port, value, rfl⟩ := hreports k hk
    exact ⟨d.name, addr, port, value, rfl, mem_getDeviceList.2 ⟨r, h.registered r d hd hcb⟩⟩)
  refine ⟨hsound, fun q d' hd' hcb => ?_, by rw [hlog]; exact hregular, fun s => ?_⟩
  · obtain ⟨d, hd, hf⟩ := hw.object_of hd'
    rw [hserial, hf.name]
    exact h.registered q d hd (by rw [← hf.regChangedCb]; exact hcb)
  · rw [hlog, hsame, ← h.present s, mem_getDeviceList, mem_getDeviceList, hserial]

theorem announced_builds (h : Announced descriptions n m) (hsound : Sound descriptions n m') {b : Device ε View}
    (hsilent : b.regChangedCb = none) (hb : Builds m.nextRef (m.alloc b) m') : Announced descriptions n m' := by
  have hrest := eq_alloc hb
  have hserial : m'.serialMap = m.serialMap := by rw [hrest]; rfl
  have hlog : m'.notifier = m.notifier := by rw [hrest]; rfl
  refine ⟨hsound, fun q d hd hcb => ?_, by rw [hlog]; exact h.regular, fun s => ?_⟩
  · by_cases hq : q = m.nextRef
    · obtain ⟨d', hd', hf⟩ := hb.self d (hq ▸ hd)
      have hb' : (m.alloc b).objects m.nextRef = some b := withObject_self _ _ _
      rw [hb'] at hd'
      cases hd'
      exact absurd (hf.regChangedCb.trans hsilent) hcb
    · rw [hserial]
      rw [hrest] at hd
      exact h.registered q d ((Function.update_of_ne hq _ _).symm.trans hd) hcb
  · rw [hlog, ← h.present s, mem_getDeviceList, mem_getDeviceList, hserial]

theorem announced_registered (h : Announced descriptions n m) (hn : AllSet n) {regs : OrdMap AddrPort UInt16}
    (hsound : Sound descriptions n (m.registered d.libusbDevice r d regs)) (hunknown : m.serialMap.find? d.name = none) :
    Announced descriptions n (m.registered d.libusbDevice r d regs) := by
  have hser : ∀ s, (m.registered d.libusbDevice r d regs).serialMap.find? s =
      if s = d.name then some r else m.serialMap.find? s := OrdMap.find?_insert_of_fresh hunknown (v := r)
  have hlist : ∀ s, s ∈ (m.entered d.libusbDevice r d.name).getDeviceList ↔ s = d.name ∨ s ∈ m.getDeviceList := fun s =>
    OrdMap.mem_keys_insert
  have habsent : ¬ Present d.name m.notifier.log := by
    rw [← h.present, mem_getDeviceList, hunknown]
    rintro ⟨q, hq⟩
    cases hq
  have hlog : (m.registered d.libusbDevice r d regs).notifier.log =
      m.notifier.log ++ [⟨.added d.name, (m.entered d.libusbDevice r d.name).getDeviceList⟩] :=
    log_afterAdded (m := m.entered d.libusbDevice r d.name) (h.sound.isSome hn).1 d.name
  refine ⟨hsound, fun q d' hd' hcb => ?_, ?_, fun s => ?_⟩
  · by_cases hq : q = r
    · subst hq
      have hself : (m.registered d.libusbDevice q d regs).objects q = some _ := withObject_self _ _ _
      rw [hself] at hd'
      cases hd'
      rw [hser, if_pos rfl]
    · have hold := h.registered q d' ((Function.update_of_ne hq _ _).symm.trans hd') hcb
      rw [hser, if_neg (fun hname => ?_)]
      · exact hold
      · rw [hname, hunknown] at hold
        cases hold
  · rw [hlog]
    refine h.regular.snoc ⟨habsent, fun s => ?_⟩
    rw [hlist, h.present s, DeviceEvent.added.injEq, or_comm, eq_comm (a := s)]
  · rw [hlog, present_added, ← h.present s]
    exact hlist s

theorem announced_unregistered (h : Announced descriptions n m) (hn : AllSet n)
    (hsound : Sound descriptions n (m.unregistered r d)) (hs : m.serialMap.find? d.name = some r) :
    Announced descriptions n (m.unregistered r d) := by
  have hser : ∀ s, (m.unregistered r d).serialMap.find? s = if s = d.name then none else m.serialMap.find? s :=
    OrdMap.find?_erase _ _
  obtain ⟨ha, hr⟩ := h.sound.isSome hn
  have hlog : (m.unregistered r d).notifier.log = m.notifier.log ++ [⟨.removed d.name, m.getDeviceList⟩] :=
    log_afterRemoved ha hr d.name
  refine ⟨hsound, fun q d' hd' hcb => ?_, ?_, fun s => ?_⟩
  · have hqr : q ≠ r := by
      rintro rfl
      have hself : (m.unregistered q d).objects q = none := withObject_self _ _ _
      rw [hself] at hd'
      cases hd'
    have hold := h.registered q d' ((Function.update_of_ne hqr _ _).symm.trans hd') hcb
    rw [hser, if_neg (fun hname => ?_)]
    · exact hold
    · rw [hname, hs] at hold
      exact hqr (Option.some.inj hold).symm
  · rw [hlog]
    refine h.regular.snoc ⟨(h.present _).1 (mem_getDeviceList.2 ⟨r, hs⟩), fun s => ?_⟩
    rw [h.present s]
    simp
  · rw [hlog, present_removed, ← h.present s, mem_getDeviceList, hser, mem_getDeviceList]
    by_cases hname : s = d.name <;> simp [hname]

theorem stable_announced (hq : Quiet n) (hn : AllSet n) : Stable (Announced descriptions n : DeviceManager ε → Prop) :=
  have hs : Stable (Sound descriptions n : DeviceManager ε → Prop) := stable_sound descriptions hq
  { consistent := fun h => h.sound.consistent
    quiet := fun h => hs.quiet h.sound
    works := fun h hw => announced_works h (hs.works h.sound hw) hw
    builds := fun h hb => announced_builds h (hs.builds h.sound hb) rfl hb
    registered := fun h hd hcb hfree hunknown hdesc hkeys =>
      announced_registered h hn (hs.registered h.sound hd hcb hfree hunknown hdesc hkeys) hunknown
    unregistered := fun h hser hd => announced_unregistered h hn (hs.unregistered h.sound hser hd) hser
    armed := fun h => ⟨hs.armed h.sound, h.registered, h.regular, h.present⟩ }

variable [Ftdi ε] [Programmer ε]

/-- **The notifications of every run**, with all callbacks set and none throwing: ADDED and REMOVED alternate for each
serial, a device is registered when the last was ADDED, and changes are reported only in between. -/
theorem notifications_alternate (hq : Quiet n) (hn : AllSet n) (hlog : n.log = []) (h : Reachable descriptions n m) :
    (∀ serial, Alternates (announcements serial m.notifier.log)) ∧
    (∀ serial, serial ∈ m.getDeviceList ↔ (announcements serial m.notifier.log).getLast? = some true) ∧
    ∀ pre notice post, m.notifier.log = pre ++ notice :: post →
      (∀ serial addr port value, notice.event = .regChanged serial addr port value →
        (announcements serial pre).getLast? = some true) ∧
      ∀ serial, serial ∈ notice.listed ↔
        (announcements serial (pre ++ [notice])).getLast? = some true ∨ notice.event = .removed serial := by
  have hinit : Announced descriptions n (initial descriptions n : DeviceManager ε) := by
    refine ⟨sound_initial descriptions n, fun r d hd => (by cases hd), ?_, fun s => ?_⟩
    · show Regular n.log
      rw [hlog]
      exact Regular.nil
    · show s ∈ [] ↔ Present s n.log
      rw [hlog]
      simp [Present, announcements]
  have hm := (stable_announced hq hn).reachable hinit h
  refine ⟨hm.regular.alternates, hm.present, fun pre notice post hsplit => ⟨fun s addr port value he => ?_, fun s => ?_⟩⟩
  · have hallowed := (hm.regular pre notice post hsplit).1
    rw [he] at hallowed
    exact hallowed
  · obtain ⟨hallowed, hlisted⟩ := hm.regular pre notice post hsplit
    rw [hlisted]
    obtain ⟨event, listed⟩ := notice
    cases event with
    | added serial =>
      have := present_added s serial pre listed
      rw [Present] at this
      rw [this]
      simp [or_comm, eq_comm]
    | removed serial =>
      have := present_removed s serial pre listed
      rw [Present] at this
      rw [this]
      by_cases hs : serial = s
      · subst hs
        simpa using hallowed
      · simp [hs, Ne.symm hs]
    | regChanged serial addr port value =>
      have := present_regChanged s serial addr port value pre listed
      rw [Present] at this
      rw [this]
      simp

/-- The manager of `oneDevice` after a register pass and the unplugging of its device. -/
def polledAndRemoved : Option (DeviceManager (Line RegisterFile)) :=
  (oneDevice.step .periodicRegisterUpdates).bind (fun m => m.step (.usbDeviceRemoved 7))

theorem reachable_polledAndRemoved {m : DeviceManager (Line RegisterFile)} (h : polledAndRemoved = some m) :
    Reachable oneDescription setNotifier m := by
  obtain ⟨u, hu, hm⟩ := Option.bind_eq_some_iff.1 h
  exact .step _ (.step _ reachable_oneDevice hu) hm

theorem log_polledAndRemoved : polledAndRemoved.map (fun m => m.notifier.log.map (·.event)) = some
    [.added "FPGA0001", .regChanged "FPGA0001" 1 0 5, .regChanged "FPGA0001" 2 0 5, .removed "FPGA0001"] := by
  decide +kernel

theorem notifications_alternate_one : ∃ m : DeviceManager (Line RegisterFile), m.notifier.log.map (·.event) =
      [.added "FPGA0001", .regChanged "FPGA0001" 1 0 5, .regChanged "FPGA0001" 2 0 5, .removed "FPGA0001"] ∧
    (∀ serial, Alternates (announcements serial m.notifier.log)) ∧
    ∀ serial, serial ∈ m.getDeviceList ↔ (announcements serial m.notifier.log).getLast? = some true := by
  obtain ⟨m, hm, hlog⟩ := Option.map_eq_some_iff.1 log_polledAndRemoved
  have h := notifications_alternate quiet_setNotifier ⟨rfl, rfl, rfl⟩ rfl (reachable_polledAndRemoved hm)
  exact ⟨m, hlog, h.1, h.2.1⟩

end DeviceManager
end Fpga
