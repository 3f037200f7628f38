import FpgaServer.Line
import FpgaServer.ManagerStep
/-!
# ManagerMaps — the two maps of the manager

`Consistent` ties the two maps and the objects together.  `Stable P` is what a property that implies it must survive to
survive every handler: a program on one device, a bring-up, entering a device and removing one; the handlers are taken
apart once, for any stable property (`Stable.reachable`).
-/
namespace Fpga

open Base (OrdMap Within final)

namespace DeviceManager

variable {ε : Type} {m m' : DeviceManager ε} {r : Nat} {d : Device ε View}

/-- Each entry of a map is an object with the other entry. -/
structure Paired (m : DeviceManager ε) : Prop where
  device : ∀ p r, m.deviceMap.find? p = some r →
    ∃ d, m.objects r = some d ∧ d.libusbDevice = p ∧ m.serialMap.find? d.name = some r
  serial : ∀ s r, m.serialMap.find? s = some r →
    ∃ d, m.objects r = some d ∧ d.name = s ∧ m.deviceMap.find? d.libusbDevice = some r
  fresh : ∀ r d, m.objects r = some d → r < m.nextRef

/-- Each entry of a map is an object with the other entry, and a registered device tracks the watchlist of the first
description that matches its serial. -/
structure Consistent (m : DeviceManager ε) : Prop where
  device : ∀ p r, m.deviceMap.find? p = some r →
    ∃ d, m.objects r = some d ∧ d.libusbDevice = p ∧ m.serialMap.find? d.name = some r
  serial : ∀ s r, m.serialMap.find? s = some r →
    ∃ d, m.objects r = some d ∧ d.name = s ∧ m.deviceMap.find? d.libusbDevice = some r
  tracks : ∀ s r d, m.serialMap.find? s = some r → m.objects r = some d →
    ∃ desc, findDescription s m.descriptions = some desc ∧ ∀ k, k ∈ d.trackedRegs.keys ↔ k ∈ desc.watchlist
  fresh : ∀ r d, m.objects r = some d → r < m.nextRef

theorem Consistent.paired (h : Consistent m) : Paired m := ⟨h.device, h.serial, h.fresh⟩

theorem Paired.consistent (h : Paired m) (htracks : ∀ s r d, m.serialMap.find? s = some r → m.objects r = some d →
    ∃ desc, findDescription s m.descriptions = some desc ∧ ∀ k, k ∈ d.trackedRegs.keys ↔ k ∈ desc.watchlist) :
    Consistent m := ⟨h.device, h.serial, htracks, h.fresh⟩

theorem mem_values_iff {κ : Type} [LinearOrder κ] {f : OrdMap κ Nat} : r ∈ f.entries.map Prod.snd ↔ ∃ k, f.find? k = some r := by
  rw [List.mem_map]
  constructor
  · rintro ⟨⟨k, q⟩, hk, rfl⟩
    exact ⟨k, OrdMap.mem_entries_iff.1 hk⟩
  · rintro ⟨k, hk⟩
    exact ⟨(k, r), OrdMap.mem_entries_iff.2 hk, rfl⟩

/-- A registered object is the entry of its name and of its handle, and of nothing else. -/
theorem Paired.device_unique (h : Paired m) (hd : m.objects r = some d) {p : Nat} (hp : m.deviceMap.find? p = some r) :
    p = d.libusbDevice := by
  obtain ⟨d', hd', rfl, -⟩ := h.device p r hp
  rw [hd] at hd'
  cases hd'
  rfl

theorem Paired.serial_unique (h : Paired m) (hd : m.objects r = some d) {s : String}
    (hs : m.serialMap.find? s = some r) : s = d.name := by
  obtain ⟨d', hd', rfl, -⟩ := h.serial s r hs
  rw [hd] at hd'
  cases hd'
  rfl

theorem Paired.handle (h : Paired m) (hs : m.serialMap.find? d.name = some r) (hd : m.objects r = some d) :
    m.deviceMap.find? d.libusbDevice = some r := by
  obtain ⟨d', hd', -, hp⟩ := h.serial d.name r hs
  rw [hd] at hd'
  cases hd'
  exact hp

/-- Without its two entries nothing owns the object. -/
theorem Paired.not_owned (h : Paired m) (hd : m.objects r = some d) (n : Notifier) :
    ¬ ({ m with serialMap := m.serialMap.erase d.name, deviceMap := m.deviceMap.erase d.libusbDevice, notifier := n } :
      DeviceManager ε).Owned r := by
  rintro (hr | hr)
  · obtain ⟨p, hp⟩ := mem_values_iff.1 hr
    rw [OrdMap.find?_erase] at hp
    split at hp
    · cases hp
    · rename_i hne
      exact hne (h.device_unique hd hp)
  · obtain ⟨s, hs⟩ := mem_values_iff.1 hr
    rw [OrdMap.find?_erase] at hs
    split at hs
    · cases hs
    · rename_i hne
      exact hne (h.serial_unique hd hs)

/-! ## The steps keep the maps paired -/

theorem Works.object (h : Works r m m') {q : Nat} (hd : m.objects q = some d) :
    ∃ d', m'.objects q = some d' ∧ DeviceFrame d d' := by
  by_cases hq : q = r
  · subst hq
    have hself := h.self
    rw [hd] at hself
    cases hd' : m'.objects q with
    | none => rw [hd'] at hself; cases hself
    | some d' =>
      rw [hd'] at hself
      cases hself with
      | some hf => exact ⟨d', rfl, hf⟩
  · refine ⟨d, ?_, .refl d⟩
    rw [h.rest]
    exact (Function.update_of_ne hq _ _).trans hd

theorem Works.object_of (h : Works r m m') {q : Nat} {d' : Device ε View} (hd : m'.objects q = some d') :
    ∃ d, m.objects q = some d ∧ DeviceFrame d d' := by
  cases hq : m.objects q with
  | some d =>
    obtain ⟨d'', hd'', hf⟩ := h.object hq
    rw [hd] at hd''
    cases hd''
    exact ⟨d, rfl, hf⟩
  | none =>
    by_cases hr : q = r
    · have hself := h.self
      rw [← hr, hq, hd] at hself
      cases hself
    · rw [h.rest] at hd
      have hsame : m.objects q = some d' := (Function.update_of_ne hr _ _).symm.trans hd
      rw [hq] at hsame
      cases hsame

/-- The maps stay and every registered object keeps its name and its handle. -/
theorem Paired.transfer (h : Paired m) (hdevice : m'.deviceMap = m.deviceMap) (hserial : m'.serialMap = m.serialMap)
    (hobject : ∀ r d, r < m.nextRef → m.objects r = some d →
      ∃ d', m'.objects r = some d' ∧ d'.name = d.name ∧ d'.libusbDevice = d.libusbDevice)
    (hfresh : ∀ r d, m'.objects r = some d → r < m'.nextRef) : Paired m' where
  device p r hp := by
    rw [hdevice] at hp
    obtain ⟨d, hd, rfl, hs⟩ := h.device p r hp
    obtain ⟨d', hd', hname, hhandle⟩ := hobject r d (h.fresh r d hd) hd
    exact ⟨d', hd', hhandle, by rw [hserial, hname]; exact hs⟩
  serial s r hs := by
    rw [hserial] at hs
    obtain ⟨d, hd, rfl, hp⟩ := h.serial s r hs
    obtain ⟨d', hd', hname, hhandle⟩ := hobject r d (h.fresh r d hd) hd
    exact ⟨d', hd', hname, by rw [hdevice, hhandle]; exact hp⟩
  fresh := hfresh

theorem Paired.congr (h : Paired m) (hobj : m'.objects = m.objects) (hnext : m'.nextRef = m.nextRef)
    (hser : m'.serialMap = m.serialMap) (hdev : m'.deviceMap = m.deviceMap) : Paired m' :=
  h.transfer hdev hser (fun r d _ hd => ⟨d, by rw [hobj]; exact hd, rfl, rfl⟩)
    (fun r d hd => by rw [hnext]; exact h.fresh r d (by rw [← hobj]; exact hd))

theorem paired_builds (h : Paired m) {b : Device ε View} (hb : Builds m.nextRef (m.alloc b) m') : Paired m' := by
  have hrest := eq_alloc hb
  have hother : ∀ q, q ≠ m.nextRef → m'.objects q = m.objects q := fun q hq => by
    rw [hrest]
    exact Function.update_of_ne hq _ _
  refine h.transfer (by rw [hrest]; rfl) (by rw [hrest]; rfl) (fun q d hq hd => ?_) (fun q d hd => ?_)
  · exact ⟨d, (hother q (Nat.ne_of_lt hq)).trans hd, rfl, rfl⟩
  · have hnext : m'.nextRef = m.nextRef + 1 := by rw [hrest]
    rw [hnext]
    by_cases hq : q = m.nextRef
    · omega
    · rw [hother q hq] at hd
      have := h.fresh q d hd
      omega

theorem paired_entered (h : Paired m) (hd : m.objects r = some d) (hfree : m.deviceMap.find? d.libusbDevice = none)
    (hunknown : m.serialMap.find? d.name = none) : Paired (m.entered d.libusbDevice r d.name) := by
  have hmap : ∀ p, (m.entered d.libusbDevice r d.name).deviceMap.find? p =
      if p = d.libusbDevice then some r else m.deviceMap.find? p := OrdMap.find?_insert_of_fresh hfree (v := r)
  have hser : ∀ s, (m.entered d.libusbDevice r d.name).serialMap.find? s =
      if s = d.name then some r else m.serialMap.find? s := OrdMap.find?_insert_of_fresh hunknown (v := r)
  refine ⟨fun p q hp => ?_, fun s q hs => ?_, h.fresh⟩
  · rw [hmap] at hp
    split at hp
    · cases hp
      rename_i hpd
      exact ⟨d, hd, hpd.symm, by rw [hser, if_pos rfl]⟩
    · obtain ⟨d', hd', hpd, hs⟩ := h.device p q hp
      refine ⟨d', hd', hpd, ?_⟩
      rw [hser, if_neg (fun hname => ?_)]
      · exact hs
      · rw [hname, hunknown] at hs
        cases hs
  · rw [hser] at hs
    split at hs
    · cases hs
      rename_i hsd
      exact ⟨d, hd, hsd.symm, by rw [hmap, if_pos rfl]⟩
    · obtain ⟨d', hd', hsd, hp⟩ := h.serial s q hs
      refine ⟨d', hd', hsd, ?_⟩
      rw [hmap, if_neg (fun hhandle => ?_)]
      · exact hp
      · rw [hhandle, hfree] at hp
        cases hp

theorem find?_unregistered_device (m : DeviceManager ε) (r : Nat) (d : Device ε View) (p : Nat) :
    (m.unregistered r d).deviceMap.find? p = if p = d.libusbDevice then none else m.deviceMap.find? p :=
  OrdMap.find?_erase _ _ _

theorem find?_unregistered_serial (m : DeviceManager ε) (r : Nat) (d : Device ε View) (s : String) :
    (m.unregistered r d).serialMap.find? s = if s = d.name then none else m.serialMap.find? s :=
  OrdMap.find?_erase _ _ _

theorem unregistered_other (m : DeviceManager ε) (d : Device ε View) {q : Nat} (hq : q ≠ r) :
    (m.unregistered r d).objects q = m.objects q := Function.update_of_ne hq _ _

theorem unregistered_sub {q : Nat} {d' : Device ε View} (hd' : (m.unregistered r d).objects q = some d') :
    m.objects q = some d' := by
  by_cases hq : q = r
  · subst hq
    have hnone : (m.unregistered q d).objects q = none := withObject_self _ _ _
    rw [hnone] at hd'
    cases hd'
  · rwa [unregistered_other m d hq] at hd'

theorem paired_unregistered (h : Paired m) (hs : m.serialMap.find? d.name = some r) (hd : m.objects r = some d) :
    Paired (m.unregistered r d) := by
  have hp : m.deviceMap.find? d.libusbDevice = some r := h.handle hs hd
  refine ⟨fun p q hq => ?_, fun s q hq => ?_, fun q d' hd' => h.fresh q d' (unregistered_sub hd')⟩
  · rw [find?_unregistered_device] at hq
    split at hq
    · cases hq
    · rename_i hne
      obtain ⟨d', hd', rfl, hs'⟩ := h.device p q hq
      have hqr : q ≠ r := by
        rintro rfl
        exact hne (h.device_unique hd hq)
      refine ⟨d', by rw [unregistered_other m d hqr]; exact hd', rfl, ?_⟩
      rw [find?_unregistered_serial, if_neg (fun hname => ?_)]
      · exact hs'
      · rw [hname, hs] at hs'
        exact hqr (Option.some.inj hs').symm
  · rw [find?_unregistered_serial] at hq
    split at hq
    · cases hq
    · rename_i hne
      obtain ⟨d', hd', rfl, hp'⟩ := h.serial s q hq
      have hqr : q ≠ r := by
        rintro rfl
        exact hne (h.serial_unique hd hq)
      refine ⟨d', by rw [unregistered_other m d hqr]; exact hd', rfl, ?_⟩
      rw [find?_unregistered_device, if_neg (fun hhandle => ?_)]
      · exact hp'
      · rw [hhandle, hp] at hp'
        exact hqr (Option.some.inj hp').symm

/-! ## The steps keep the maps consistent -/

/-- The maps stay and every registered object moves within its frame. -/
theorem Consistent.transfer (h : Consistent m) (hdevice : m'.deviceMap = m.deviceMap) (hserial : m'.serialMap = m.serialMap)
    (hdesc : m'.descriptions = m.descriptions)
    (hobject : ∀ r d, r < m.nextRef → m.objects r = some d → ∃ d', m'.objects r = some d' ∧ DeviceFrame d d')
    (hfresh : ∀ r d, m'.objects r = some d → r < m'.nextRef) : Consistent m' := by
  refine (h.paired.transfer hdevice hserial (fun r d hr hd => ?_) hfresh).consistent (fun s r d' hs hd' => ?_)
  · obtain ⟨d', hd', hf⟩ := hobject r d hr hd
    exact ⟨d', hd', hf.name, hf.libusbDevice⟩
  · rw [hserial] at hs
    obtain ⟨d, hd, -, -⟩ := h.serial s r hs
    obtain ⟨desc, hfind, hkeys⟩ := h.tracks s r d hs hd
    obtain ⟨d'', hd'', hf⟩ := hobject r d (h.fresh r d hd) hd
    rw [hd'] at hd''
    cases hd''
    exact ⟨desc, by rw [hdesc]; exact hfind, fun k => by rw [hf.keys]; exact hkeys k⟩

theorem consistent_works (h : Consistent m) (hw : Works r m m') : Consistent m' := by
  have hrest := hw.rest
  refine h.transfer (by rw [hrest]; rfl) (by rw [hrest]; rfl) (by rw [hrest]; rfl)
    (fun q d _ hd => hw.object hd) (fun q d' hd' => ?_)
  obtain ⟨d, hd, -⟩ := hw.object_of hd'
  rw [hrest]
  exact h.fresh q d hd

theorem consistent_builds (h : Consistent m) {b : Device ε View} (hb : Builds m.nextRef (m.alloc b) m') : Consistent m' := by
  have hrest := eq_alloc hb
  refine h.transfer (by rw [hrest]; rfl) (by rw [hrest]; rfl) (by rw [hrest]; rfl) (fun q d hq hd => ?_)
    (paired_builds h.paired hb).fresh
  refine ⟨d, ?_, .refl d⟩
  rw [hrest]
  exact (Function.update_of_ne (Nat.ne_of_lt hq) _ _).trans hd

theorem consistent_registered (h : Consistent m) {desc : Description} {regs : OrdMap AddrPort UInt16}
    (hd : m.objects r = some d) (hfree : m.deviceMap.find? d.libusbDevice = none)
    (hunknown : m.serialMap.find? d.name = none) (hdesc : findDescription d.name m.descriptions = some desc)
    (hkeys : ∀ k, k ∈ regs.keys ↔ k ∈ desc.watchlist) : Consistent (m.registered d.libusbDevice r d regs) := by
  have hself : (m.registered d.libusbDevice r d regs).objects r =
      some { d with trackedRegs := regs, regChangedCb := some onRegChange } := withObject_self _ _ _
  have hother : ∀ q, q ≠ r → (m.registered d.libusbDevice r d regs).objects q = m.objects q :=
    fun q hq => Function.update_of_ne hq _ _
  have hser : ∀ s, (m.registered d.libusbDevice r d regs).serialMap.find? s =
      if s = d.name then some r else m.serialMap.find? s := OrdMap.find?_insert_of_fresh hunknown (v := r)
  have hpaired : Paired (m.registered d.libusbDevice r d regs) := by
    refine (paired_entered h.paired hd hfree hunknown).transfer rfl rfl (fun q e _ he => ?_) (fun q e he => ?_)
    · by_cases hq : q = r
      · subst hq
        cases hd.symm.trans he
        exact ⟨_, hself, rfl, rfl⟩
      · exact ⟨e, (hother q hq).trans he, rfl, rfl⟩
    · by_cases hq : q = r
      · rw [hq]
        exact h.fresh r d hd
      · rw [hother q hq] at he
        exact h.fresh q e he
  refine hpaired.consistent (fun s q d' hs hd' => ?_)
  rw [hser] at hs
  split at hs
  · cases hs
    rename_i hsd
    rw [hself] at hd'
    cases hd'
    exact ⟨desc, by rw [hsd]; exact hdesc, hkeys⟩
  · -- no entry of the old map is this object
    have hne : q ≠ r := by
      rintro rfl
      rw [h.paired.serial_unique hd hs, hunknown] at hs
      cases hs
    rw [hother q hne] at hd'
    exact h.tracks s q d' hs hd'

theorem consistent_unregistered (h : Consistent m) (hs : m.serialMap.find? d.name = some r) (hd : m.objects r = some d) :
    Consistent (m.unregistered r d) := by
  refine (paired_unregistered h.paired hs hd).consistent (fun s q d' hs' hd' => ?_)
  rw [find?_unregistered_serial] at hs'
  split at hs'
  · cases hs'
  · exact h.tracks s q d' hs' (unregistered_sub hd')

/-! ## Stable properties -/

/-- What a property has to survive to survive every handler. -/
structure Stable (P : DeviceManager ε → Prop) : Prop where
  consistent : ∀ {m}, P m → Consistent m
  quiet : ∀ {m}, P m → ∀ cb, m.notifier.addedCb = some cb → ∀ serial, cb serial = none
  works : ∀ {m m' r}, P m → Works r m m' → P m'
  builds : ∀ {m m' dev serial usb}, P m → Builds m.nextRef (m.alloc (blank dev serial usb)) m' → P m'
  registered : ∀ {m r d desc regs}, P m → m.objects r = some d → d.regChangedCb = none →
    m.deviceMap.find? d.libusbDevice = none → m.serialMap.find? d.name = none →
    findDescription d.name m.descriptions = some desc → (∀ k, k ∈ regs.keys ↔ k ∈ desc.watchlist) →
    P (m.registered d.libusbDevice r d regs)
  unregistered : ∀ {m r d}, P m → m.serialMap.find? d.name = some r → m.objects r = some d → P (m.unregistered r d)
  armed : ∀ {m}, P m → P { m with timerWaits := m.timerWaits + 1 }

/-- The step keeps the property, if it holds. -/
def Keeps (P : DeviceManager ε → Prop) (m m' : DeviceManager ε) : Prop := P m → P m'

instance (P : DeviceManager ε → Prop) : IsPreorder (DeviceManager ε) (Keeps P) where
  refl _ := id
  trans _ _ _ h h' := h' ∘ h

variable {P : DeviceManager ε → Prop}

theorem Stable.onDevice (hP : Stable P) {α : Type} {x : DeviceM ε View α} (hx : Within Operates x) (r : Nat) :
    Within (Keeps P) (onDevice r x) := (works_onDevice hx).imp (fun _ _ hw hm => hP.works hm hw)

/-- No callback throws. -/
def Quiet (n : Notifier) : Prop :=
  (∀ cb, n.addedCb = some cb → ∀ serial, cb serial = none) ∧ (∀ cb, n.removedCb = some cb → ∀ serial, cb serial = none) ∧
    ∀ cb, n.regChangeCb = some cb → ∀ serial addr port value, cb serial addr port value = none

/-- The state of a run with these descriptions and callbacks. -/
structure Sound (descriptions : List Description) (n : Notifier) (m : DeviceManager ε) : Prop where
  consistent : Consistent m
  wired : ∀ r d, m.objects r = some d → Wired d
  descriptions : m.descriptions = descriptions
  callbacks : m.notifier = { n with log := m.notifier.log }

theorem callbacks_afterAdded {n : Notifier} (h : m.notifier = { n with log := m.notifier.log }) (serial : String) :
    m.afterAdded serial = { n with log := (m.afterAdded serial).log } := by
  unfold afterAdded
  split
  · exact h
  · rw [h]

theorem callbacks_afterRemoved {n : Notifier} (h : m.notifier = { n with log := m.notifier.log }) (serial : String) :
    m.afterRemoved serial = { n with log := (m.afterRemoved serial).log } := by
  unfold afterRemoved
  split
  · rw [h]
  · exact h

theorem stable_sound (descriptions : List Description) {n : Notifier} (hn : Quiet n) :
    Stable (Sound descriptions n : DeviceManager ε → Prop) where
  consistent h := h.consistent
  quiet {m} h cb hcb := by
    rw [h.callbacks] at hcb
    exact hn.1 cb hcb
  works {m m' r} h hw := by
    obtain ⟨new, hnew, -⟩ := hw.reports (fun d hd => h.wired r d hd)
    refine ⟨consistent_works h.consistent hw, fun q d' hd' => ?_, by rw [hw.rest]; exact h.descriptions, ?_⟩
    · obtain ⟨d, hd, hf⟩ := hw.object_of hd'
      exact hf.wired (h.wired q d hd)
    · rw [hnew, h.callbacks]
  builds {m m' dev serial usb} h hb := by
    refine ⟨consistent_builds h.consistent hb, fun q d hd => ?_, by rw [eq_alloc hb]; exact h.descriptions, ?_⟩
    · by_cases hq : q = m.nextRef
      · obtain ⟨d', hd', hf⟩ := hb.self d (hq ▸ hd)
        have hblank : (m.alloc (blank dev serial usb)).objects m.nextRef = some (blank dev serial usb) :=
          withObject_self _ _ _
        rw [hblank] at hd'
        cases hd'
        exact Or.inl hf.regChangedCb
      · rw [eq_alloc hb] at hd
        exact h.wired q d ((Function.update_of_ne hq _ _).symm.trans hd)
    · rw [eq_alloc hb]
      exact h.callbacks
  registered {m r d desc regs} h hd _ hfree hunknown hdesc hkeys := by
    refine ⟨consistent_registered h.consistent hd hfree hunknown hdesc hkeys, fun q d' hd' => ?_, h.descriptions,
      callbacks_afterAdded (m := m.entered d.libusbDevice r d.name) h.callbacks d.name⟩
    by_cases hq : q = r
    · subst hq
      have hself : (m.registered d.libusbDevice q d regs).objects q = some _ := withObject_self _ _ _
      rw [hself] at hd'
      cases hd'
      exact Or.inr rfl
    · exact h.wired q d' ((Function.update_of_ne hq _ _).symm.trans hd')
  unregistered {m r d} h hs hd := by
    refine ⟨consistent_unregistered h.consistent hs hd, fun q d' hd' => ?_, h.descriptions,
      callbacks_afterRemoved h.callbacks d.name⟩
    by_cases hq : q = r
    · subst hq
      have hself : (m.unregistered q d).objects q = none := withObject_self _ _ _
      rw [hself] at hd'
      cases hd'
    · exact h.wired q d' ((Function.update_of_ne hq _ _).symm.trans hd')
  armed h := ⟨⟨h.consistent.device, h.consistent.serial, h.consistent.tracks, h.consistent.fresh⟩, h.wired, h.descriptions,
    h.callbacks⟩

theorem sound_initial (descriptions : List Description) (n : Notifier) :
    Sound descriptions n (initial descriptions n : DeviceManager ε) := by
  refine ⟨⟨fun p r h => ?_, fun s r h => ?_, fun s r d h => ?_, fun r d h => ?_⟩, fun r d h => ?_, rfl, rfl⟩ <;> cases h

/-! ## The handlers -/

variable [Ftdi ε]

/-- A pointer to an object without an owner destroys it. -/
theorem run_release (ho : ¬ m.Owned r) (hd : m.objects r = some d) : (release r).run m = .ok () (m.withObject r none) := by
  obtain ⟨t, ht⟩ := close_returns ⟨d, ⟨m.notifier, m.getDeviceList⟩⟩
  have hout := (silent_close.ok ht).out
  have hclose : (onDevice r Device.close).run m = .ok () (m.withObject r (some t.dev)) := by
    rw [run_onDevice_some hd, ht]
    simp only [putBack, hout]
    rfl
  simp only [release, EStateM.run_bind, EStateM.run_get, if_neg ho, hclose]
  show EStateM.Result.ok () ((m.withObject r (some t.dev)).withObject r none) = _
  rw [withObject_withObject]

/-- **Removing a device** takes it out of both maps and destroys it, with one call of the removed callback. -/
theorem run_removeDevice (h : Paired m) (hs : m.serialMap.find? d.name = some r) (hd : m.objects r = some d) :
    (removeDevice d.name).run m = .ok () (m.unregistered r d) := by
  have hderef : ∀ n, (deref r).run { m with notifier := n } = .ok d { m with notifier := n } := by
    intro n
    simp only [deref, EStateM.run_bind, EStateM.run_get, hd]
    rfl
  have hrelease := run_release (h.not_owned hd (m.afterRemoved d.name)) (d := d) hd
  simp only [removeDevice, EStateM.run_bind, EStateM.run_get, hs, run_notifyRemoved, hderef, EStateM.run_modify, hrelease]
  rfl

theorem Stable.removeDevice (hP : Stable P) (serial : String) : Within (Keeps P) (removeDevice serial : ManagerM ε Unit) := by
  intro m hm
  cases hs : m.serialMap.find? serial with
  | none =>
    have hrun : (DeviceManager.removeDevice serial).run m = .ok () m := by
      simp only [DeviceManager.removeDevice, EStateM.run_bind, EStateM.run_get, hs]
      rfl
    rw [hrun]
    exact hm
  | some r =>
    obtain ⟨d, hd, rfl, -⟩ := (hP.consistent hm).serial serial r hs
    rw [run_removeDevice (hP.consistent hm).paired hs hd]
    exact hP.unregistered hm hs hd

theorem Stable.rules (hP : Stable P) : HandlerRules (Keeps P) where
  poll r := hP.onDevice operates_updateTrackedRegs r
  request r op := hP.onDevice (operates_deviceOp op) r
  removes := hP.removeDevice
  armed _ hm := hP.armed hm

variable [Programmer ε]

theorem Stable.bringUp (hP : Stable P) (dev : Nat) (strings : Except String String) (usb : ε) :
    Within (Keeps P) (bringUp dev strings usb) := by
  intro m hm
  rcases (bringUp_spec dev strings usb m).1 with hsame | ⟨serial, hbuilds⟩
  · rw [hsame]
    exact hm
  · exact hP.builds hm hbuilds

theorem run_usbDeviceAdded_known {dev : Nat} (hdev : m.hasDevice dev = true) (strings : Except String String) (usb : ε) :
    (usbDeviceAdded dev strings usb).run m = .ok () m := by
  simp only [usbDeviceAdded, EStateM.run_bind, EStateM.run_get, if_pos hdev]
  rfl

theorem run_usbDeviceAdded {dev : Nat} (hdev : ¬ m.hasDevice dev = true) (strings : Except String String) (usb : ε) :
    (usbDeviceAdded dev strings usb).run m = match (bringUp dev strings usb).run m with
      | .error (.exception _) u => .ok () u
      | .error e u => .error e u
      | .ok none u => .ok () u
      | .ok (some (r, desc)) u => (catchException (register dev r desc) (fun _ => pure ())).run u := by
  simp only [usbDeviceAdded, EStateM.run_bind, EStateM.run_get, if_neg hdev, catchException, Base.run_handle]
  cases (bringUp dev strings usb).run m with
  | error e u => cases e <;> rfl
  | ok o u => cases o <;> rfl

/-- **What the added handler keeps**: what a bring-up keeps, and then the entering of the device it has built. -/
theorem final_usbDeviceAdded {dev : Nat} {strings : Except String String} {usb : ε} (hm : P m)
    (hup : P (final ((bringUp dev strings usb).run m)))
    (hregister : ∀ d desc u, ¬ m.hasDevice dev = true → (bringUp dev strings usb).run m = .ok (some (m.nextRef, desc)) u →
      BroughtUp dev m u d desc → P u → P (final ((register d.libusbDevice m.nextRef desc).run u))) :
    P (final ((usbDeviceAdded dev strings usb).run m)) := by
  by_cases hdev : m.hasDevice dev = true
  · rw [run_usbDeviceAdded_known hdev]
    exact hm
  · rw [run_usbDeviceAdded hdev]
    cases hb : (bringUp dev strings usb).run m with
    | error e u =>
      rw [hb] at hup
      cases e <;> exact hup
    | ok o u =>
      rw [hb] at hup
      cases o with
      | none => exact hup
      | some x =>
        obtain ⟨q, desc⟩ := x
        obtain ⟨rfl, d, hbrought⟩ := (bringUp_spec dev strings usb m).2 q desc u hb
        refine final_catchException ?_ (fun _ _ ht => ht)
        rw [← hbrought.libusbDevice]
        exact hregister d desc u hdev hb hbrought hup

theorem Stable.usbDeviceAdded (hP : Stable P) (dev : Nat) (strings : Except String String) (usb : ε) :
    Within (Keeps P) (usbDeviceAdded dev strings usb) := by
  refine fun m hm => final_usbDeviceAdded hm (hP.bringUp dev strings usb m hm) (fun d desc u hdev _ hbrought hu => ?_)
  obtain ⟨regs, hreg, hkeys⟩ := run_register hbrought.object (fun cb hcb => hP.quiet hu cb hcb d.name) d.libusbDevice desc
  rw [hreg]
  exact hP.registered hu hbrought.object hbrought.silent (hbrought.handle_free hdev) hbrought.serial_free hbrought.description
    (fun k => by
      rw [hkeys, hbrought.untracked]
      simp)

theorem Stable.step (hP : Stable P) {a : Action ε} (h : m.step a = some m') (hm : P m) : P m' :=
  within_step (hP.rules.action hP.usbDeviceAdded
    (fun _ => handles_reprogramDevice.imp (fun _ _ hh hm => hP.works hm hh.works)) a) h hm

/-- **A stable property that holds initially holds between handlers in every run.** -/
theorem Stable.reachable (hP : Stable P) {descriptions : List Description} {notifier : Notifier}
    (hinit : P (initial descriptions notifier)) (h : Reachable descriptions notifier m) : P m := by
  induction h with
  | initial => exact hinit
  | step a _ hs ih => exact hP.step hs ih

/-- A bring-up that does not yield a device leaves both maps as they were. -/
theorem maps_of_failed_bringUp {dev : Nat} {strings : Except String String} {usb : ε}
    (h : ∀ x u, (bringUp dev strings usb).run m ≠ .ok (some x) u) :
    (final ((usbDeviceAdded dev strings usb).run m)).deviceMap = m.deviceMap ∧
      (final ((usbDeviceAdded dev strings usb).run m)).serialMap = m.serialMap := by
  have hup : (final ((bringUp dev strings usb).run m)).deviceMap = m.deviceMap ∧
      (final ((bringUp dev strings usb).run m)).serialMap = m.serialMap := by
    rcases (bringUp_spec dev strings usb m).1 with hsame | ⟨serial, hbuilds⟩
    · rw [hsame]
      exact ⟨rfl, rfl⟩
    · rw [eq_alloc hbuilds]
      exact ⟨rfl, rfl⟩
  by_cases hdev : m.hasDevice dev = true
  · rw [run_usbDeviceAdded_known hdev]
    exact ⟨rfl, rfl⟩
  · rw [run_usbDeviceAdded hdev]
    cases hb : (bringUp dev strings usb).run m with
    | error e u =>
      rw [hb] at hup
      cases e <;> exact hup
    | ok o u =>
      rw [hb] at hup
      cases o with
      | none => exact hup
      | some x => exact absurd hb (h x u)

/-- **The two maps are mutually inverse in every run**, with callbacks that do not throw. -/
theorem maps_mutually_inverse {descriptions : List Description} {n : Notifier} (hn : Quiet n)
    (h : Reachable descriptions n m) :
    (∀ p s r, m.deviceMap.find? p = some r →
      (m.serialMap.find? s = some r ↔ ∃ d, m.objects r = some d ∧ d.name = s ∧ d.libusbDevice = p)) ∧
    (∀ p r, m.deviceMap.find? p = some r →
      ∃ d, m.objects r = some d ∧ d.libusbDevice = p ∧ m.serialMap.find? d.name = some r) ∧
    (∀ s r, m.serialMap.find? s = some r →
      ∃ d, m.objects r = some d ∧ d.name = s ∧ m.deviceMap.find? d.libusbDevice = some r) ∧
    (∀ s r d, m.serialMap.find? s = some r → m.objects r = some d →
      ∃ desc, findDescription s descriptions = some desc ∧ ∀ k, k ∈ d.trackedRegs.keys ↔ k ∈ desc.watchlist) ∧
    ∀ dev strings usb, (∀ x u, (bringUp dev strings usb).run m ≠ .ok (some x) u) →
      (final ((usbDeviceAdded dev strings usb).run m)).deviceMap = m.deviceMap ∧
        (final ((usbDeviceAdded dev strings usb).run m)).serialMap = m.serialMap := by
  have hs := (stable_sound descriptions hn).reachable (sound_initial descriptions n) h
  refine ⟨fun p s r hp => ⟨fun hser => ?_, fun hobj => ?_⟩, hs.consistent.device, hs.consistent.serial, ?_,
    fun dev strings usb => maps_of_failed_bringUp⟩
  · obtain ⟨d, hd, rfl, hp'⟩ := hs.consistent.serial s r hser
    exact ⟨d, hd, rfl, (hs.consistent.paired.device_unique hd hp).symm⟩
  · obtain ⟨d, hd, rfl, -⟩ := hobj
    obtain ⟨d', hd', -, hser⟩ := hs.consistent.device p r hp
    rw [hd] at hd'
    cases hd'
    exact hser
  · rw [← hs.descriptions]
    exact hs.consistent.tracks

/-- A manager that has just brought up one device. -/
def oneDescription : List Description := [⟨"FPGA", "", [⟨1, 0⟩, ⟨2, 0⟩]⟩]

def setNotifier : Notifier := ⟨some (fun _ => none), some (fun _ => none), some (fun _ _ _ _ => none), []⟩

theorem quiet_setNotifier : Quiet setNotifier := by
  refine ⟨fun cb h _ => ?_, fun cb h _ => ?_, fun cb h _ _ _ _ => ?_⟩ <;> cases h <;> rfl

def bringUpOne : Action (Line RegisterFile) :=
  .usbDeviceAdded 7 (.ok "FPGA0001") ⟨⟨boundary, ⟨fun _ => 5⟩, [], []⟩, [], [], [], []⟩

def oneDevice : DeviceManager (Line RegisterFile) :=
  (step (initial oneDescription setNotifier) bringUpOne).getD (initial oneDescription setNotifier)

theorem step_bringUpOne : (step (initial oneDescription setNotifier) bringUpOne).isSome = true := by decide +kernel

theorem reachable_oneDevice : Reachable oneDescription setNotifier oneDevice := by
  refine .step bringUpOne .initial ?_
  obtain ⟨m, hm⟩ := Option.isSome_iff_exists.1 step_bringUpOne
  rw [oneDevice, hm]
  rfl

theorem maps_mutually_inverse_one :
    (∃ d, oneDevice.objects 0 = some d ∧ d.libusbDevice = 7 ∧ oneDevice.serialMap.find? d.name = some 0) ∧
    ∃ d, oneDevice.objects 0 = some d ∧ d.name = "FPGA0001" ∧ oneDevice.deviceMap.find? d.libusbDevice = some 0 :=
  have h := maps_mutually_inverse quiet_setNotifier reachable_oneDevice
  ⟨h.2.1 7 0 (by decide +kernel), h.2.2.1 "FPGA0001" 0 (by decide +kernel)⟩

end DeviceManager
end Fpga
