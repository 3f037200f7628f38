import Mathlib.Data.List.AList
import FpgaServer.Effect
import FpgaServer.FpgaClientBase
import FpgaServer.Toggles
/-!
# ClientDevices — the device objects of the client and the callbacks on them

The client with its dictionary of device objects, every callback that has been made, and what subclasses add to it: mixins,
and constructors and callbacks that may raise an exception.  An exception ends the call and leaves the client as it is then;
packets that have not been looked at are looked at with the next data.  A device is entered and announced, or deleted and
announced, in one piece, so the callbacks follow the dictionary however a call ends (`devices_tracked`).
-/
namespace Fpga

open Base (Toggles Within final)

/-- A device object: which one, and the prefix whose mixin it is made with. -/
structure FpgaDevice where
  id : Nat
  serial : String
  mixin : Option String
  deriving DecidableEq, Repr

inductive DeviceCallback where
  | deviceAdded (serial : String) (device : FpgaDevice)
  | deviceRemoved (serial : String)
  | regChanged (device : FpgaDevice) (addr port value : Obj)

/-- The client.  A new device is entered at the front, so the keys of the dictionary are those of `devices` from the back. -/
structure DeviceClient where
  unread : List (Option Packet) := []
  answers : List Packet := []
  devices : AList (fun _ : String => FpgaDevice) := ∅
  created : Nat := 0
  callbacks : List DeviceCallback := []

/-- `DEVICE_MIXIN_MAP`, and what constructing a device and the last callback raise. -/
structure ClientSubclass where
  mixinMap : List String
  construct : DeviceClient → String → Option String
  callback : List DeviceCallback → Option String

abbrev ClientM (α : Type) := EStateM String DeviceClient α

namespace DeviceClient

open FpgaClientBase (decode listing)

variable (S : ClientSubclass)

def raiseSome : Option String → ClientM Unit
  | none => pure ()
  | some e => throw e

/-- A callback is made. -/
def notify (callback : DeviceCallback) : ClientM Unit := do
  modify (fun c => { c with callbacks := c.callbacks ++ [callback] })
  let c ← get
  raiseSome (S.callback c.callbacks)

/-- An object of `DEVICE_BASE_CLASS`, with the first mixin whose prefix the serial has. -/
def newDevice (c : DeviceClient) (serial : String) : FpgaDevice :=
  ⟨c.created, serial, S.mixinMap.find? (fun p => serial.startsWith p)⟩

/-- `__handle_added`. -/
def handleAdded (serial : String) : ClientM Unit := do
  let c ← get
  if serial ∈ c.devices then
    return
  raiseSome (S.construct c serial)
  let device := newDevice S c serial
  set { c with devices := c.devices.insert serial device, created := c.created + 1 }
  notify S (.deviceAdded serial device)

/-- `__handle_removed`. -/
def handleRemoved (serial : String) : ClientM Unit := do
  let c ← get
  if serial ∉ c.devices then
    return
  set { c with devices := c.devices.erase serial }
  notify S (.deviceRemoved serial)

/-- `__handle_reg_changed`. -/
def handleRegChanged (serial : String) (addr port value : Obj) : ClientM Unit := do
  let c ← get
  match c.devices.lookup serial with
  | none => pure ()
  | some device => notify S (.regChanged device addr port value)

/-- One round of the loop of `_parse_data`; `none` is a packet without a code. -/
def parsePacket : Option Packet → ClientM Unit
  | none => throw "invalid packet received"
  | some packet =>
    if packet.rcode ≤ 0 then
      modify (fun c => { c with answers := c.answers ++ [packet] })
    else if packet.rcode = rpcRcodeAdded then
      match packet.fields[0]?.bind decode with
      | none => throw "no serial"
      | some serial => handleAdded S serial
    else if packet.rcode = rpcRcodeRemoved then
      match packet.fields[0]?.bind decode with
      | none => throw "no serial"
      | some serial => handleRemoved S serial
    else if packet.rcode = rpcRcodeRegChanged then
      match packet.fields.take 4 with
      | [serial, addr, port, value] =>
        match decode serial with
        | none => throw "no serial"
        | some serial => handleRegChanged S serial addr port value
      | _ => throw "not enough values to unpack"
    else
      pure ()

/-- The loop over the packets the unpacker holds. -/
def parsePackets : List (Option Packet) → ClientM Unit
  | [] => pure ()
  | packet :: unread => do
    modify (fun c => { c with unread := unread })
    parsePacket S packet
    parsePackets unread

/-- `_parse_data`, given the packets that the data completes. -/
def parseData (packets : List (Option Packet)) : ClientM Unit := do
  let c ← get
  parsePackets S (c.unread ++ packets)

/-- The rest of `_wait_for_answer`, when there is an answer. -/
def takeAnswer (packet : Packet) (answers : List Packet) : ClientM Packet := do
  modify (fun c => { c with answers := answers })
  if packet.rcode ≠ 0 then
    throw "returned error"
  else
    return packet

/-- `_wait_for_answer`, given the data that each call of `_require_data` brings; the one after fails. -/
def waitForAnswer : List (List (Option Packet)) → ClientM Packet
  | [] => do
    let c ← get
    match c.answers with
    | packet :: answers => takeAnswer packet answers
    | [] => throw "no response from server"
  | chunk :: chunks => do
    let c ← get
    match c.answers with
    | packet :: answers => takeAnswer packet answers
    | [] => do
      parseData S chunk
      waitForAnswer chunks

def addMissing : List String → ClientM Unit
  | [] => pure ()
  | serial :: deviceList => do
    let c ← get
    if serial ∉ c.devices then
      handleAdded S serial
    addMissing deviceList

def removeOthers (deviceList : List String) : List String → ClientM Unit
  | [] => pure ()
  | serial :: keys => do
    if serial ∉ deviceList then
      handleRemoved S serial
    removeOthers deviceList keys

/-- `__handle_device_list_changes`, after the serials have been decoded. -/
def handleDeviceListChanges (deviceList : List String) : ClientM Unit := do
  -- check for devices that were not added yet
  addMissing S deviceList
  -- check for devices that haven't been removed yet
  let c ← get
  removeOthers S deviceList c.devices.keys.reverse

/-- `get_device_list`, after the request has been sent. -/
def getDeviceList (chunks : List (List (Option Packet))) : ClientM (List String) := do
  let packet ← waitForAnswer S chunks
  match listing packet with
  | none => throw "no device list"
  | some deviceList =>
    handleDeviceListChanges S deviceList
    return deviceList

/-! ## The callbacks and the dictionary -/

/-- What the callbacks say about a serial: a device when it is added, and none when it is removed. -/
def changes (serial : String) (callbacks : List DeviceCallback) : List (Option FpgaDevice) :=
  callbacks.filterMap (fun
    | .deviceAdded s device => if s = serial then some (some device) else none
    | .deviceRemoved s => if s = serial then some none else none
    | .regChanged _ _ _ _ => none)

theorem changes_append (serial : String) (callbacks more : List DeviceCallback) :
    changes serial (callbacks ++ more) = changes serial callbacks ++ changes serial more := List.filterMap_append

/-- The callbacks that are made lead from the device of each serial before to the one after. -/
def Tracks (c c' : DeviceClient) : Prop := ∃ callbacks, c'.callbacks = c.callbacks ++ callbacks ∧
  ∀ serial, Toggles (c.devices.lookup serial) (changes serial callbacks) (c'.devices.lookup serial)

instance : IsPreorder DeviceClient Tracks where
  refl c := ⟨[], (List.append_nil _).symm, fun _ => rfl⟩
  trans := by
    rintro c d e ⟨callbacks, hd, h⟩ ⟨more, he, h'⟩
    refine ⟨callbacks ++ more, by rw [he, hd, List.append_assoc], fun serial => ?_⟩
    rw [changes_append]
    exact (h serial).append (h' serial)

theorem tracks_of_eq {c c' : DeviceClient} (hdevices : c'.devices = c.devices) (hcallbacks : c'.callbacks = c.callbacks) :
    Tracks c c' := ⟨[], by rw [hcallbacks, List.append_nil], fun serial => by rw [hdevices]; rfl⟩

theorem final_notify (callback : DeviceCallback) (c : DeviceClient) :
    final ((notify S callback).run c) = { c with callbacks := c.callbacks ++ [callback] } := by
  simp only [notify, EStateM.run_bind, EStateM.run_modify, EStateM.run_get, raiseSome]
  split <;> rfl

/-- A device is entered and announced. -/
theorem tracks_entered {c c' : DeviceClient} {serial : String} {device : FpgaDevice} (hnew : serial ∉ c.devices)
    (hdevices : c'.devices = c.devices.insert serial device)
    (hcallbacks : c'.callbacks = c.callbacks ++ [.deviceAdded serial device]) : Tracks c c' := by
  refine ⟨_, hcallbacks, fun s => ?_⟩
  rw [hdevices]
  by_cases hs : serial = s
  · subst hs
    rw [AList.lookup_eq_none.2 hnew, AList.lookup_insert]
    simp [changes, Toggles]
  · rw [AList.lookup_insert_ne (Ne.symm hs)]
    simp [changes, hs, Toggles]

/-- A device is deleted and announced. -/
theorem tracks_deleted {c c' : DeviceClient} {serial : String} (hin : serial ∈ c.devices)
    (hdevices : c'.devices = c.devices.erase serial) (hcallbacks : c'.callbacks = c.callbacks ++ [.deviceRemoved serial]) :
    Tracks c c' := by
  refine ⟨_, hcallbacks, fun s => ?_⟩
  rw [hdevices]
  by_cases hs : serial = s
  · subst hs
    rw [AList.lookup_erase]
    simp [changes, Toggles, AList.lookup_isSome.2 hin]
  · rw [AList.lookup_erase_ne (Ne.symm hs)]
    simp [changes, hs, Toggles]

theorem handleAdded_cases (serial : String) (c : DeviceClient) :
    (serial ∈ c.devices ∧ (handleAdded S serial).run c = .ok () c) ∨
    (serial ∉ c.devices ∧ ∃ e, (handleAdded S serial).run c = .error e c) ∨
    (serial ∉ c.devices ∧ (handleAdded S serial).run c = (notify S (.deviceAdded serial (newDevice S c serial))).run
      { c with devices := c.devices.insert serial (newDevice S c serial), created := c.created + 1 }) := by
  by_cases hin : serial ∈ c.devices
  · refine .inl ⟨hin, ?_⟩
    simp only [handleAdded, EStateM.run_bind, EStateM.run_get, if_pos hin]
    rfl
  · refine .inr ?_
    cases hconstruct : S.construct c serial with
    | some e =>
      refine .inl ⟨hin, e, ?_⟩
      simp only [handleAdded, EStateM.run_bind, EStateM.run_get, if_neg hin, hconstruct]
      rfl
    | none =>
      refine .inr ⟨hin, ?_⟩
      simp only [handleAdded, EStateM.run_bind, EStateM.run_get, if_neg hin, hconstruct]
      rfl

theorem handleRemoved_cases (serial : String) (c : DeviceClient) :
    (serial ∉ c.devices ∧ (handleRemoved S serial).run c = .ok () c) ∨
    (serial ∈ c.devices ∧ (handleRemoved S serial).run c =
      (notify S (.deviceRemoved serial)).run { c with devices := c.devices.erase serial }) := by
  by_cases hin : serial ∈ c.devices
  · refine .inr ⟨hin, ?_⟩
    simp only [handleRemoved, EStateM.run_bind, EStateM.run_get, if_neg (not_not.2 hin)]
    rfl
  · refine .inl ⟨hin, ?_⟩
    simp only [handleRemoved, EStateM.run_bind, EStateM.run_get, if_pos hin]
    rfl

theorem tracks_handleAdded (serial : String) : Within Tracks (handleAdded S serial) := by
  intro c
  rcases handleAdded_cases S serial c with ⟨-, hrun⟩ | ⟨-, e, hrun⟩ | ⟨hnew, hrun⟩
  · rw [hrun]
    exact refl c
  · rw [hrun]
    exact refl c
  · rw [hrun, final_notify]
    exact tracks_entered hnew rfl rfl

theorem tracks_handleRemoved (serial : String) : Within Tracks (handleRemoved S serial) := by
  intro c
  rcases handleRemoved_cases S serial c with ⟨-, hrun⟩ | ⟨hin, hrun⟩
  · rw [hrun]
    exact refl c
  · rw [hrun, final_notify]
    exact tracks_deleted hin rfl rfl

theorem tracks_handleRegChanged (serial : String) (addr port value : Obj) :
    Within Tracks (handleRegChanged S serial addr port value) := by
  refine Within.get.bind (fun c => ?_)
  split
  · exact Within.pure _
  · intro d
    rw [final_notify]
    exact ⟨_, rfl, fun serial => rfl⟩

theorem tracks_parsePacket (packet : Option Packet) : Within Tracks (parsePacket S packet) := by
  unfold parsePacket
  split
  · exact Within.throw _
  split
  · exact Within.modify (fun c => tracks_of_eq rfl rfl)
  split
  · split
    · exact Within.throw _
    · exact tracks_handleAdded S _
  split
  · split
    · exact Within.throw _
    · exact tracks_handleRemoved S _
  split
  · split
    · split
      · exact Within.throw _
      · exact tracks_handleRegChanged S _ _ _ _
    · exact Within.throw _
  · exact Within.pure _

theorem tracks_parsePackets : ∀ packets, Within Tracks (parsePackets S packets)
  | [] => Within.pure _
  | packet :: unread => by
    have hunread : Within Tracks (modify (fun c => { c with unread := unread }) : ClientM PUnit) :=
      Within.modify (fun c => tracks_of_eq rfl rfl)
    exact hunread.bind (fun _ => (tracks_parsePacket S packet).bind (fun _ => tracks_parsePackets unread))

theorem tracks_parseData (packets : List (Option Packet)) : Within Tracks (parseData S packets) :=
  Within.get.bind (fun _ => tracks_parsePackets S _)

theorem tracks_takeAnswer (packet : Packet) (answers : List Packet) : Within Tracks (takeAnswer packet answers) := by
  have hanswers : Within Tracks (modify (fun c => { c with answers := answers }) : ClientM PUnit) :=
    Within.modify (fun c => tracks_of_eq rfl rfl)
  refine hanswers.bind (fun _ => ?_)
  split
  · exact Within.throw _
  · exact Within.pure _

theorem tracks_waitForAnswer : ∀ chunks, Within Tracks (waitForAnswer S chunks)
  | [] => by
    refine Within.get.bind (fun c => ?_)
    split
    · exact tracks_takeAnswer _ _
    · exact Within.throw _
  | chunk :: chunks => by
    refine Within.get.bind (fun c => ?_)
    split
    · exact tracks_takeAnswer _ _
    · exact (tracks_parseData S chunk).bind (fun _ => tracks_waitForAnswer chunks)

theorem tracks_addMissing : ∀ deviceList, Within Tracks (addMissing S deviceList)
  | [] => Within.pure _
  | serial :: deviceList => by
    refine Within.get.bind (fun c => ?_)
    split
    · exact (tracks_handleAdded S serial).bind (fun _ => tracks_addMissing deviceList)
    · exact tracks_addMissing deviceList

theorem tracks_removeOthers (deviceList : List String) : ∀ keys, Within Tracks (removeOthers S deviceList keys)
  | [] => Within.pure _
  | serial :: keys => by
    unfold removeOthers
    split
    · exact (tracks_handleRemoved S serial).bind (fun _ => tracks_removeOthers deviceList keys)
    · exact tracks_removeOthers deviceList keys

theorem tracks_handleDeviceListChanges (deviceList : List String) : Within Tracks (handleDeviceListChanges S deviceList) :=
  (tracks_addMissing S deviceList).bind (fun _ => Within.get.bind (fun _ => tracks_removeOthers S deviceList _))

theorem tracks_getDeviceList (chunks : List (List (Option Packet))) : Within Tracks (getDeviceList S chunks) := by
  refine (tracks_waitForAnswer S chunks).bind (fun packet => ?_)
  split
  · exact Within.throw _
  · exact (tracks_handleDeviceListChanges S _).bind (fun _ => Within.pure _)

/-! ## The client without its objects -/

/-- The serials in the order of the dictionary, and the answers. -/
def forget (c : DeviceClient) : FpgaClientBase := ⟨c.answers, c.devices.keys.reverse⟩

theorem mem_forget {c : DeviceClient} {serial : String} : serial ∈ c.forget.devices ↔ serial ∈ c.devices := by
  rw [forget, List.mem_reverse, AList.mem_keys]

theorem ok_notify {callback : DeviceCallback} {c c' : DeviceClient} (h : (notify S callback).run c = .ok () c') :
    c' = { c with callbacks := c.callbacks ++ [callback] } := by
  have hfinal := final_notify S callback c
  rwa [h] at hfinal

theorem forget_handleAdded {serial : String} {c c' : DeviceClient} (h : (handleAdded S serial).run c = .ok () c') :
    c'.forget = c.forget.handleAdded serial := by
  rcases handleAdded_cases S serial c with ⟨hin, hrun⟩ | ⟨-, e, hrun⟩ | ⟨hnew, hrun⟩
  · rw [h] at hrun
    cases hrun
    rw [FpgaClientBase.handleAdded, if_pos (mem_forget.2 hin)]
  · rw [h] at hrun
    cases hrun
  · obtain rfl := ok_notify S (hrun ▸ h)
    rw [FpgaClientBase.handleAdded, if_neg (fun hin => hnew (mem_forget.1 hin))]
    simp only [forget, AList.keys_insert, List.reverse_cons]
    rw [List.erase_of_not_mem (fun hin => hnew (AList.mem_keys.2 hin))]

theorem forget_handleRemoved {serial : String} {c c' : DeviceClient} (h : (handleRemoved S serial).run c = .ok () c') :
    c'.forget = c.forget.handleRemoved serial := by
  rcases handleRemoved_cases S serial c with ⟨hnew, hrun⟩ | ⟨hin, hrun⟩
  · rw [h] at hrun
    cases hrun
    rw [FpgaClientBase.handleRemoved, if_pos (fun hin => hnew (mem_forget.1 hin))]
  · obtain rfl := ok_notify S (hrun ▸ h)
    rw [FpgaClientBase.handleRemoved, if_neg (not_not.2 (mem_forget.2 hin))]
    have hkeys : (c.devices.keys.erase serial).reverse = c.devices.keys.reverse.filter (· ≠ serial) := by
      rw [c.devices.keys_nodup.erase_eq_filter, List.filter_reverse]
      refine congrArg List.reverse (List.filter_congr (fun s _ => ?_))
      by_cases hs : s = serial <;> simp [hs]
    simp only [forget, AList.keys_erase, hkeys]

theorem forget_handleRegChanged {serial : String} {addr port value : Obj} {c c' : DeviceClient}
    (h : (handleRegChanged S serial addr port value).run c = .ok () c') : c'.forget = c.forget := by
  simp only [handleRegChanged, EStateM.run_bind, EStateM.run_get] at h
  split at h
  · cases h
    rfl
  · rw [ok_notify S h]
    rfl

/-- **A packet that raises nothing** does to the answers and serials what it does without the objects. -/
theorem forget_parsePacket {packet : Packet} {c c' : DeviceClient} (h : (parsePacket S (some packet)).run c = .ok () c') :
    c.forget.parsePacket packet = some c'.forget := by
  unfold parsePacket at h
  unfold FpgaClientBase.parsePacket
  dsimp only at h
  split at h
  · rename_i hcode
    rw [if_pos hcode]
    cases h
    rfl
  rename_i hcode
  rw [if_neg hcode]
  have hserial : ∀ g : String → FpgaClientBase, (do
      let serial ← decode (← packet.fields[0]?)
      return g serial) = (packet.fields[0]?.bind decode).map g := by
    intro g
    cases packet.fields[0]? with
    | none => rfl
    | some field => cases hfield : decode field <;> simp [hfield]
  rw [hserial, hserial]
  split at h
  · rename_i hcode
    rw [if_pos hcode]
    split at h
    · cases h
    · rename_i hdecode
      rw [hdecode, Option.map_some, forget_handleAdded S h]
  rename_i hcode
  rw [if_neg hcode]
  split at h
  · rename_i hcode
    rw [if_pos hcode]
    split at h
    · cases h
    · rename_i hdecode
      rw [hdecode, Option.map_some, forget_handleRemoved S h]
  rename_i hcode
  rw [if_neg hcode]
  split at h
  · rename_i hcode
    rw [if_pos hcode]
    obtain ⟨serial, addr, port, value, name, hfields, hdecode, hchanged⟩ : ∃ serial addr port value name,
        packet.fields.take 4 = [serial, addr, port, value] ∧ decode serial = some name ∧
          (handleRegChanged S name addr port value).run c = .ok () c' := by
      split at h
      · rename_i hfields
        split at h
        · cases h
        · rename_i hdecode
          exact ⟨_, _, _, _, _, hfields, hdecode, h⟩
      · cases h
    simp only [hfields, hdecode]
    rw [forget_handleRegChanged S hchanged]
    rfl
  · rename_i hcode
    rw [if_neg hcode]
    cases h
    rfl

theorem forget_parsePackets : ∀ (packets : List Packet) {c c' : DeviceClient},
    (parsePackets S (packets.map some)).run c = .ok () c' → c.forget.parseData packets = some c'.forget
  | [], c, c', h => by
    cases h
    rfl
  | packet :: packets, c, c', h => by
    rw [List.map_cons, parsePackets, EStateM.run_bind, EStateM.run_modify] at h
    obtain ⟨_, d, hpacket, h⟩ := Base.bind_ok_iff.1 h
    have hpacket := forget_parsePacket S hpacket
    exact Option.bind_eq_some_iff.2 ⟨_, hpacket, forget_parsePackets packets h⟩

theorem forget_addMissing : ∀ (deviceList : List String) {c c' : DeviceClient}, (addMissing S deviceList).run c = .ok () c' →
    c'.forget = deviceList.foldl (fun c serial => if serial ∉ c.devices then c.handleAdded serial else c) c.forget
  | [], c, c', h => by
    cases h
    rfl
  | serial :: deviceList, c, c', h => by
    simp only [addMissing, EStateM.run_bind, EStateM.run_get] at h
    rw [List.foldl_cons]
    by_cases hin : serial ∈ c.devices
    · rw [if_neg (not_not.2 hin)] at h
      rw [if_neg (not_not.2 (mem_forget.2 hin))]
      exact forget_addMissing deviceList h
    · rw [if_pos hin] at h
      rw [if_pos (fun h => hin (mem_forget.1 h))]
      obtain ⟨_, d, hadded, h⟩ := Base.bind_ok_iff.1 h
      rw [← forget_handleAdded S hadded]
      exact forget_addMissing deviceList h

theorem forget_removeOthers (deviceList : List String) : ∀ (keys : List String) {c c' : DeviceClient},
    (removeOthers S deviceList keys).run c = .ok () c' →
    c'.forget = keys.foldl (fun c serial => if serial ∉ deviceList then c.handleRemoved serial else c) c.forget
  | [], c, c', h => by
    cases h
    rfl
  | serial :: keys, c, c', h => by
    rw [removeOthers] at h
    rw [List.foldl_cons]
    by_cases hin : serial ∈ deviceList
    · rw [if_neg (not_not.2 hin)] at h
      rw [if_neg (not_not.2 hin)]
      exact forget_removeOthers deviceList keys h
    · rw [if_pos hin] at h
      rw [if_pos hin]
      obtain ⟨_, d, hremoved, h⟩ := Base.bind_ok_iff.1 h
      rw [← forget_handleRemoved S hremoved]
      exact forget_removeOthers deviceList keys h

/-- **A device list that raises nothing** does to the serials what it does without the objects. -/
theorem forget_handleDeviceListChanges {deviceList : List String} {c c' : DeviceClient}
    (h : (handleDeviceListChanges S deviceList).run c = .ok () c') :
    c'.forget = c.forget.handleDeviceListChanges deviceList := by
  obtain ⟨_, d, hadded, h⟩ := Base.bind_ok_iff.1 h
  have hadded := forget_addMissing S deviceList hadded
  have hremoved := forget_removeOthers S deviceList d.devices.keys.reverse h
  rw [hremoved, FpgaClientBase.handleDeviceListChanges, ← hadded]
  rfl

/-! ## A device list -/

theorem addMissing_changes : ∀ (deviceList : List String) {c c' : DeviceClient}, (addMissing S deviceList).run c = .ok () c' →
    ∃ callbacks, c'.callbacks = c.callbacks ++ callbacks ∧
      ∀ s, (changes s callbacks).length = if s ∈ deviceList ∧ s ∉ c.devices then 1 else 0
  | [], c, c', h => by
    cases h
    exact ⟨[], (List.append_nil _).symm, fun s => by simp [changes]⟩
  | serial :: deviceList, c, c', h => by
    simp only [addMissing, EStateM.run_bind, EStateM.run_get] at h
    by_cases hin : serial ∈ c.devices
    · rw [if_neg (not_not.2 hin)] at h
      obtain ⟨callbacks, hcallbacks, hcount⟩ := addMissing_changes deviceList h
      refine ⟨callbacks, hcallbacks, fun s => ?_⟩
      rw [hcount]
      by_cases hs : s = serial
      · simp [hs, hin]
      · simp [hs]
    · rw [if_pos hin] at h
      obtain ⟨_, d, hadded, h⟩ := Base.bind_ok_iff.1 h
      obtain ⟨callbacks, hcallbacks, hcount⟩ := addMissing_changes deviceList h
      rcases handleAdded_cases S serial c with ⟨hnot, -⟩ | ⟨-, e, hrun⟩ | ⟨-, hrun⟩
      · exact absurd hnot hin
      · rw [hadded] at hrun
        cases hrun
      · obtain rfl := ok_notify S (hrun ▸ hadded)
        refine ⟨_, hcallbacks.trans (List.append_assoc _ _ _), fun s => ?_⟩
        rw [changes_append, List.length_append, hcount]
        by_cases hs : s = serial
        · simp [hs, hin, changes]
        · simp [hs, Ne.symm hs, changes]

theorem removeOthers_changes (deviceList : List String) : ∀ (keys : List String) {c c' : DeviceClient},
    (removeOthers S deviceList keys).run c = .ok () c' → ∃ callbacks, c'.callbacks = c.callbacks ++ callbacks ∧
      ∀ s, (changes s callbacks).length = if s ∈ keys ∧ s ∈ c.devices ∧ s ∉ deviceList then 1 else 0
  | [], c, c', h => by
    cases h
    exact ⟨[], (List.append_nil _).symm, fun s => by simp [changes]⟩
  | serial :: keys, c, c', h => by
    rw [removeOthers] at h
    by_cases hlisted : serial ∈ deviceList
    · rw [if_neg (not_not.2 hlisted)] at h
      obtain ⟨callbacks, hcallbacks, hcount⟩ := removeOthers_changes deviceList keys h
      refine ⟨callbacks, hcallbacks, fun s => ?_⟩
      rw [hcount]
      by_cases hs : s = serial
      · simp [hs, hlisted]
      · simp [hs]
    · rw [if_pos hlisted] at h
      obtain ⟨_, d, hremoved, h⟩ := Base.bind_ok_iff.1 h
      obtain ⟨callbacks, hcallbacks, hcount⟩ := removeOthers_changes deviceList keys h
      rcases handleRemoved_cases S serial c with ⟨hnot, hrun⟩ | ⟨hin, hrun⟩
      · rw [hremoved] at hrun
        cases hrun
        refine ⟨callbacks, hcallbacks, fun s => ?_⟩
        rw [hcount]
        by_cases hs : s = serial
        · simp [hs, hnot]
        · simp [hs]
      · obtain rfl := ok_notify S (hrun ▸ hremoved)
        refine ⟨_, hcallbacks.trans (List.append_assoc _ _ _), fun s => ?_⟩
        rw [changes_append, List.length_append, hcount]
        by_cases hs : s = serial
        · simp [hs, hin, hlisted, changes]
        · simp [hs, Ne.symm hs, changes]

/-- **One callback for each serial that differs**, and the serials are those of the list. -/
theorem handleDeviceListChanges_changes {deviceList : List String} {c c' : DeviceClient}
    (h : (handleDeviceListChanges S deviceList).run c = .ok () c') :
    ∃ callbacks, c'.callbacks = c.callbacks ++ callbacks ∧ ∀ s, (s ∈ c'.devices ↔ s ∈ deviceList) ∧
      (changes s callbacks).length = if s ∈ deviceList ↔ s ∈ c.devices then 0 else 1 := by
  have hforget := forget_handleDeviceListChanges S h
  obtain ⟨_, d, hadded, h⟩ := Base.bind_ok_iff.1 h
  obtain ⟨added, hd, hcountAdded⟩ := addMissing_changes S deviceList hadded
  obtain ⟨removed, hc', hcountRemoved⟩ := removeOthers_changes S deviceList d.devices.keys.reverse h
  have hmem : ∀ s, s ∈ d.devices ↔ s ∈ deviceList ∨ s ∈ c.devices := by
    intro s
    rw [← mem_forget, forget_addMissing S deviceList hadded, FpgaClientBase.mem_foldl_added, mem_forget]
  refine ⟨added ++ removed, by rw [hc', hd, List.append_assoc], fun s => ⟨?_, ?_⟩⟩
  · rw [← mem_forget, hforget, FpgaClientBase.mem_handleDeviceListChanges]
  · rw [changes_append, List.length_append, hcountAdded, hcountRemoved]
    simp only [List.mem_reverse, ← AList.mem_keys, hmem]
    by_cases hlisted : s ∈ deviceList <;> by_cases hin : s ∈ c.devices <;> simp [hlisted, hin]

/-! ## In every run -/

/-- Data arrives in the event loop, the device list is refreshed, or another call waits for its answer. -/
inductive ClientTurn where
  | data (packets : List (Option Packet))
  | getDeviceList (chunks : List (List (Option Packet)))
  | request (chunks : List (List (Option Packet)))

/-- The client after a turn, returning or raising an exception. -/
def turn (c : DeviceClient) : ClientTurn → DeviceClient
  | .data packets => final ((parseData S packets).run c)
  | .getDeviceList chunks => final ((getDeviceList S chunks).run c)
  | .request chunks => final ((waitForAnswer S chunks).run c)

def turns (c : DeviceClient) (ts : List ClientTurn) : DeviceClient := ts.foldl (turn S) c

theorem tracks_turn (c : DeviceClient) (t : ClientTurn) : Tracks c (turn S c t) := by
  cases t with
  | data packets => exact tracks_parseData S packets c
  | getDeviceList chunks => exact tracks_getDeviceList S chunks c
  | request chunks => exact tracks_waitForAnswer S chunks c

theorem tracks_turns : ∀ (ts : List ClientTurn) (c : DeviceClient), Tracks c (turns S c ts)
  | [], c => refl c
  | t :: ts, c => IsTrans.trans _ _ _ (tracks_turn S c t) (tracks_turns ts (turn S c t))

/-- **The callbacks on each serial** begin with an addition and alternate, and the last one says whether the serial is a key
and with which object; a device that is not removed stays the same object; a refresh that returns leaves the serials of its
list, with one callback for each serial that differed. -/
theorem devices_tracked (before : List ClientTurn) :
    let c := turns S {} before
    (∀ serial, (false :: (changes serial c.callbacks).map Option.isSome).IsChain (· ≠ ·) ∧
      c.devices.lookup serial = (changes serial c.callbacks).getLast?.join) ∧
    (∀ more serial device, c.devices.lookup serial = some device →
      ∃ callbacks, (turns S c more).callbacks = c.callbacks ++ callbacks ∧
        (.deviceRemoved serial ∉ callbacks → (turns S c more).devices.lookup serial = some device)) ∧
    ∀ chunks deviceList c', (getDeviceList S chunks).run c = .ok deviceList c' →
      ∃ packet c₁ callbacks, (waitForAnswer S chunks).run c = .ok packet c₁ ∧ listing packet = some deviceList ∧
        c'.callbacks = c₁.callbacks ++ callbacks ∧ ∀ serial, (serial ∈ c'.devices ↔ serial ∈ deviceList) ∧
          (changes serial callbacks).length = if serial ∈ deviceList ↔ serial ∈ c₁.devices then 0 else 1 := by
  refine ⟨fun serial => ?_, fun more serial device hdevice => ?_, fun chunks deviceList c' h => ?_⟩
  · obtain ⟨callbacks, hcallbacks, htoggles⟩ := tracks_turns S before {}
    have htoggles := htoggles serial
    rw [List.nil_append] at hcallbacks
    rw [hcallbacks]
    refine ⟨htoggles.chain, ?_⟩
    rw [← htoggles.last]
    cases (changes serial callbacks).getLast? with
    | none => rfl
    | some x => rfl
  · obtain ⟨callbacks, hcallbacks, htoggles⟩ := tracks_turns S more (turns S {} before)
    refine ⟨callbacks, hcallbacks, fun hkept => ?_⟩
    have htoggles := htoggles serial
    rw [hdevice] at htoggles
    refine htoggles.kept (fun hnone => hkept ?_)
    obtain ⟨callback, hin, hcallback⟩ := List.mem_filterMap.1 hnone
    cases callback with
    | deviceAdded s d => simp at hcallback
    | deviceRemoved s =>
      obtain rfl : s = serial := by simpa using hcallback
      exact hin
    | regChanged d addr port value => simp at hcallback
  · obtain ⟨packet, c₁, hwait, h⟩ := Base.bind_ok_iff.1 h
    split at h
    · cases h
    · rename_i deviceList' hlisting
      obtain ⟨_, c₂, hchanges, h⟩ := Base.bind_ok_iff.1 h
      cases h
      obtain ⟨callbacks, hcallbacks, hserials⟩ := handleDeviceListChanges_changes S hchanges
      exact ⟨packet, c₁, callbacks, hwait, hlisting, hcallbacks, hserials⟩

/-- Of two devices that were added, the list keeps one and adds another. -/
example : ((turns ⟨[], fun _ _ => none, fun _ => none⟩ {} [.data [some (rpcEventAdded "A"), some (rpcEventAdded "B")],
    .getDeviceList [[some (rpcReplyValue (.array [.str "B", .str "C"]))]]]).devices.entries.map (fun e => (e.1, e.2.id))) =
    [("C", 2), ("B", 1)] := by decide

end DeviceClient
end Fpga
