import FpgaServer.Command
import FpgaServer.Msgpack
/-!
# FpgaClientBase — the Python client

The client keeps the answers it has not used and the serials of the devices it knows, in the order of its dictionary; the
device objects and the callbacks on them are left to the subclasses.  What raises an exception in Python is `none` here.
-/
namespace Fpga

structure FpgaClientBase where
  answers : List Packet := []
  devices : List String := []

/-- The calls that go to the server. -/
inductive Request where
  | getDeviceList
  | reprogramDevice (serial : String)
  | readReg (serial : String) (addr port : UInt8)
  | writeReg (serial : String) (addr port : UInt8) (val : UInt16)
  | readRegN (serial : String) (addr port : UInt8) (nWords : UInt32)
  | writeRegN (serial : String) (addr port : UInt8) (data : List UInt16)
  | readRaw (serial : String) (nBytes : UInt32)
  | writeRaw (serial : String) (data : List UInt8)
  deriving DecidableEq, Repr

/-- The object a call sends. -/
def Request.object : Request → Obj
  | .getDeviceList => .array [.str "devicelist"]
  | .reprogramDevice serial => .array [.str "reprogram", .str serial]
  | .readReg serial addr port => .array [.str "readreg", .str serial, .int addr.toNat, .int port.toNat]
  | .writeReg serial addr port val =>
    .array [.str "writereg", .str serial, .int addr.toNat, .int port.toNat, .int val.toNat]
  | .readRegN serial addr port nWords =>
    .array [.str "readregn", .str serial, .int addr.toNat, .int port.toNat, .int nWords.toNat]
  | .writeRegN serial addr port data =>
    .array [.str "writeregn", .str serial, .int addr.toNat, .int port.toNat, .bin (data.flatMap be16)]
  | .readRaw serial nBytes => .array [.str "readraw", .str serial, .int nBytes.toNat]
  | .writeRaw serial data => .array [.str "writeraw", .str serial, .bin data]

namespace FpgaClientBase

def handleAdded (c : FpgaClientBase) (serial : String) : FpgaClientBase :=
  if serial ∈ c.devices then c else { c with devices := c.devices ++ [serial] }

def handleRemoved (c : FpgaClientBase) (serial : String) : FpgaClientBase :=
  if serial ∉ c.devices then c else { c with devices := c.devices.filter (· ≠ serial) }

/-- `x.decode()` of a string object. -/
def decode : Obj → Option String
  | .str s => some s
  | .bin data => String.fromUTF8? ⟨data.toArray⟩
  | _ => none

/-- One round of the loop of `_parse_data`. -/
def parsePacket (c : FpgaClientBase) (packet : Packet) : Option FpgaClientBase :=
  if packet.rcode ≤ 0 then
    some { c with answers := c.answers ++ [packet] }
  else if packet.rcode = rpcRcodeAdded then do
    let serial ← decode (← packet.fields[0]?)
    return c.handleAdded serial
  else if packet.rcode = rpcRcodeRemoved then do
    let serial ← decode (← packet.fields[0]?)
    return c.handleRemoved serial
  else if packet.rcode = rpcRcodeRegChanged then
    match packet.fields.take 4 with
    | [serial, _, _, _] => do
      let _ ← decode serial
      -- the change is handed to the device object, or ignored without one
      return c
    | _ => none
  else
    -- unknown packet type: a warning
    some c

/-- `_parse_data`, given the packets that the data completes. -/
def parseData (c : FpgaClientBase) : List Packet → Option FpgaClientBase
  | [] => some c
  | packet :: packets => do parseData (← c.parsePacket packet) packets

def handleDeviceListChanges (c : FpgaClientBase) (deviceList : List String) : FpgaClientBase :=
  -- check for devices that were not added yet
  let c := deviceList.foldl (fun c serial => if serial ∉ c.devices then c.handleAdded serial else c) c
  -- check for devices that haven't been removed yet
  c.devices.foldl (fun c serial => if serial ∉ deviceList then c.handleRemoved serial else c) c

/-- What iterating over an object yields. -/
def iterate : Obj → Option (List Obj)
  | .array items => some items
  | .map entries => some (entries.map (·.1))
  | .str s => some (s.toUTF8.toList.map (fun b => .int b.toNat))
  | .bin data => some (data.map (fun b => .int b.toNat))
  | _ => none

/-- The serials an answer lists. -/
def listing (packet : Packet) : Option (List String) :=
  (packet.fields[0]?.bind iterate).bind (fun items => items.mapM decode)

/-- The rest of a call with the answer it takes: the client after it, and what the call returns.  A buffer is returned as
it is, before it is read as an array of numbers. -/
def finish (c : FpgaClientBase) (request : Request) (packet : Packet) : FpgaClientBase × Option Obj :=
  if packet.rcode ≠ 0 then (c, none)
  else
    match request with
    | .getDeviceList =>
      match listing packet with
      | none => (c, none)
      | some deviceList => (c.handleDeviceListChanges deviceList, packet.fields[0]?)
    | .writeReg _ _ _ _ | .writeRegN _ _ _ _ | .writeRaw _ _ => (c, some .nil)
    | _ => (c, packet.fields[0]?)

theorem mem_handleAdded {c : FpgaClientBase} {serial s : String} :
    s ∈ (c.handleAdded serial).devices ↔ s = serial ∨ s ∈ c.devices := by
  unfold handleAdded
  by_cases h : serial ∈ c.devices
  · rw [if_pos h]
    exact ⟨.inr, fun hs => hs.elim (fun he => he ▸ h) id⟩
  · rw [if_neg h]
    simp [or_comm]

theorem mem_handleRemoved {c : FpgaClientBase} {serial s : String} :
    s ∈ (c.handleRemoved serial).devices ↔ s ≠ serial ∧ s ∈ c.devices := by
  unfold handleRemoved
  by_cases h : serial ∈ c.devices
  · simp [h, and_comm]
  · rw [if_pos h]
    exact ⟨fun hs => ⟨fun he => h (he ▸ hs), hs⟩, And.right⟩

theorem mem_foldl_added {s : String} : ∀ (deviceList : List String) (c : FpgaClientBase),
    (s ∈ (deviceList.foldl (fun c serial => if serial ∉ c.devices then c.handleAdded serial else c) c).devices ↔
      s ∈ deviceList ∨ s ∈ c.devices)
  | [], c => by simp
  | serial :: deviceList, c => by
    rw [List.foldl_cons, mem_foldl_added deviceList, List.mem_cons]
    split
    · rw [mem_handleAdded]
      tauto
    · rename_i h
      have hin : serial ∈ c.devices := not_not.1 h
      constructor
      · tauto
      · rintro ((rfl | hs) | hs)
        · exact .inr hin
        · exact .inl hs
        · exact .inr hs

theorem mem_foldl_removed {s : String} (deviceList : List String) : ∀ (keys : List String) (c : FpgaClientBase),
    (s ∈ (keys.foldl (fun c serial => if serial ∉ deviceList then c.handleRemoved serial else c) c).devices ↔
      s ∈ c.devices ∧ (s ∈ keys → s ∈ deviceList))
  | [], c => by simp
  | serial :: keys, c => by
    rw [List.foldl_cons, mem_foldl_removed deviceList keys, List.mem_cons]
    split
    · rename_i h
      rw [mem_handleRemoved]
      constructor
      · rintro ⟨⟨hne, hs⟩, hk⟩
        exact ⟨hs, fun hin => hk (hin.resolve_left hne)⟩
      · rintro ⟨hs, hk⟩
        exact ⟨⟨fun he => h (he ▸ hk (.inl he)), hs⟩, fun hin => hk (.inr hin)⟩
    · rename_i h
      have hin : serial ∈ deviceList := not_not.1 h
      constructor
      · rintro ⟨hs, hk⟩
        exact ⟨hs, fun hin' => hin'.elim (fun he => he ▸ hin) hk⟩
      · rintro ⟨hs, hk⟩
        exact ⟨hs, fun hin' => hk (.inr hin')⟩

/-- A device list replaces the key set. -/
theorem mem_handleDeviceListChanges {c : FpgaClientBase} {deviceList : List String} {s : String} :
    s ∈ (c.handleDeviceListChanges deviceList).devices ↔ s ∈ deviceList := by
  unfold handleDeviceListChanges
  dsimp only
  rw [mem_foldl_removed, mem_foldl_added]
  tauto

theorem answers_handleAdded (c : FpgaClientBase) (serial : String) : (c.handleAdded serial).answers = c.answers := by
  unfold handleAdded
  split <;> rfl

theorem answers_handleRemoved (c : FpgaClientBase) (serial : String) : (c.handleRemoved serial).answers = c.answers := by
  unfold handleRemoved
  split <;> rfl

theorem answers_handleDeviceListChanges (c : FpgaClientBase) (deviceList : List String) :
    (c.handleDeviceListChanges deviceList).answers = c.answers := by
  have hfold : ∀ (P : FpgaClientBase → String → Prop) [∀ c s, Decidable (P c s)]
      (f : FpgaClientBase → String → FpgaClientBase), (∀ c s, (f c s).answers = c.answers) →
      ∀ (l : List String) (c : FpgaClientBase),
        (l.foldl (fun c serial => if P c serial then f c serial else c) c).answers = c.answers := by
    intro P _ f hf l
    induction l with
    | nil => exact fun _ => rfl
    | cons serial l ih =>
      intro c
      rw [List.foldl_cons, ih]
      split
      · exact hf c serial
      · rfl
  unfold handleDeviceListChanges
  exact (hfold (fun _ serial => serial ∉ deviceList) _ answers_handleRemoved _ _).trans
    (hfold (fun c serial => serial ∉ c.devices) _ answers_handleAdded _ _)

/-- A call takes no answer but its own one. -/
theorem answers_finish (c : FpgaClientBase) (request : Request) (packet : Packet) :
    (c.finish request packet).1.answers = c.answers := by
  unfold finish
  split
  · rfl
  · split
    · split
      · rfl
      · exact answers_handleDeviceListChanges c _
    all_goals rfl

/-- A call changes the devices only where it is a `get_device_list` that returns. -/
theorem finish_cases (c : FpgaClientBase) (request : Request) (packet : Packet) :
    ((c.finish request packet).1 = c ∧ (request = .getDeviceList → (c.finish request packet).2 = none)) ∨
    (request = .getDeviceList ∧ packet.rcode = 0 ∧ ∃ deviceList, listing packet = some deviceList ∧
      (c.finish request packet).1 = c.handleDeviceListChanges deviceList) := by
  unfold finish
  split
  · exact .inl ⟨rfl, fun _ => rfl⟩
  rename_i hok
  cases request with
  | getDeviceList =>
    cases hl : listing packet with
    | none => exact .inl ⟨rfl, fun _ => rfl⟩
    | some deviceList => exact .inr ⟨rfl, not_not.1 hok, deviceList, rfl, rfl⟩
  | _ => exact .inl ⟨rfl, fun h => (by cases h)⟩

/-- What a packet says about the presence of a device. -/
def presence (serial : String) (packet : Packet) : Option Bool :=
  if packet.fields[0]?.bind decode = some serial then
    if packet.rcode = rpcRcodeAdded then some true
    else if packet.rcode = rpcRcodeRemoved then some false
    else none
  else none

/-- Whether a device is present after the packets. -/
def presentAfter (serial : String) (b : Bool) (packets : List Packet) : Bool :=
  packets.foldl (fun b packet => (presence serial packet).getD b) b

theorem presence_eq {packet : Packet} {serial : String} (h : packet.fields[0]?.bind decode = some serial) (s : String) :
    presence s packet = if serial = s then
      if packet.rcode = rpcRcodeAdded then some true
      else if packet.rcode = rpcRcodeRemoved then some false
      else none
    else none := by
  unfold presence
  simp [h]

theorem parsePacket_spec {c c' : FpgaClientBase} {packet : Packet} (h : c.parsePacket packet = some c') :
    c'.answers = c.answers ++ (if packet.rcode ≤ 0 then [packet] else []) ∧
    ∀ s, decide (s ∈ c'.devices) = (presence s packet).getD (decide (s ∈ c.devices)) := by
  have hcodes : rpcRcodeRemoved ≠ rpcRcodeAdded := by decide
  unfold parsePacket at h
  split at h
  · rename_i hle
    cases h
    have hadded : packet.rcode ≠ rpcRcodeAdded := by unfold rpcRcodeAdded; omega
    have hremoved : packet.rcode ≠ rpcRcodeRemoved := by unfold rpcRcodeRemoved; omega
    simp [presence, hle, hadded, hremoved]
  rename_i hle
  rw [if_neg hle, List.append_nil]
  split at h
  · rename_i hcode
    obtain ⟨field, hfield, h⟩ := Option.bind_eq_some_iff.1 h
    obtain ⟨serial, hserial, h⟩ := Option.bind_eq_some_iff.1 h
    cases h
    refine ⟨answers_handleAdded c serial, fun s => ?_⟩
    rw [presence_eq (by rw [hfield, Option.bind_some, hserial]), if_pos hcode]
    by_cases hs : serial = s
    · simp [hs, mem_handleAdded]
    · simp [hs, Ne.symm hs, mem_handleAdded]
  rename_i hadded
  split at h
  · rename_i hcode
    obtain ⟨field, hfield, h⟩ := Option.bind_eq_some_iff.1 h
    obtain ⟨serial, hserial, h⟩ := Option.bind_eq_some_iff.1 h
    cases h
    refine ⟨answers_handleRemoved c serial, fun s => ?_⟩
    rw [presence_eq (by rw [hfield, Option.bind_some, hserial]), if_neg hadded, if_pos hcode]
    by_cases hs : serial = s
    · simp [hs, mem_handleRemoved]
    · simp [hs, Ne.symm hs, mem_handleRemoved]
  rename_i hremoved
  have hnone : ∀ s, presence s packet = none := fun s => by simp [presence, hadded, hremoved]
  obtain rfl : c = c' := by
    split at h
    · split at h
      · obtain ⟨_, -, h⟩ := Option.bind_eq_some_iff.1 h
        exact Option.some.inj h
      · cases h
    · exact Option.some.inj h
  exact ⟨rfl, fun s => by rw [hnone, Option.getD_none]⟩

/-- The answers of the data are kept for the calls, its events move the devices. -/
theorem parseData_spec : ∀ {packets : List Packet} {c c' : FpgaClientBase}, c.parseData packets = some c' →
    c'.answers = c.answers ++ packets.filter (fun packet => packet.rcode ≤ 0) ∧
    ∀ s, decide (s ∈ c'.devices) = presentAfter s (decide (s ∈ c.devices)) packets
  | [], c, c', h => by
    cases h
    exact ⟨(List.append_nil _).symm, fun s => rfl⟩
  | packet :: packets, c, c', h => by
    obtain ⟨c₁, h₁, h₂⟩ := Option.bind_eq_some_iff.1 h
    obtain ⟨ha₁, hd₁⟩ := parsePacket_spec h₁
    obtain ⟨ha₂, hd₂⟩ := parseData_spec h₂
    constructor
    · rw [ha₂, ha₁, List.filter_cons]
      split <;> simp_all
    · intro s
      rw [hd₂, hd₁]
      rfl

end FpgaClientBase
end Fpga
