import Mathlib.Data.List.TakeWhile
import FpgaServer.Json
import FpgaServer.Watchlists
/-!
# Config — `config/Config.cpp`

`Config::fromFile` makes a JSON document the device descriptions of the manager.  It does not use its argument: whatever file
is named, `config.json` is read.  Each number of a watchlist entry becomes a byte, and six bits of a read command, and neither
step checks it.  So a configuration is faithful to the named file only as far as `config.json` agrees with that file and its
registers fit the command (`fromFile_faithful`).
-/
namespace Fpga

open Base (OrdMap)

/-- A whole `device_description_t`. -/
structure DeviceDescription extends Description where
  name : String

structure Config where
  deviceDescriptions : List DeviceDescription
  port : Int

/-- What `fromFile` rests on: the files, `Json::parse`, and the value of a cast to `int` where the language leaves it
undefined. -/
structure ConfigSource where
  file : String → Option (List UInt8)
  parse : List UInt8 → Except String Json
  undefinedCast : Option Rat → Int

/-- The string a `const char*` is read as: up to the first NUL. -/
def cString (bytes : List UInt8) : List UInt8 := bytes.takeWhile (· ≠ 0)

namespace ConfigSource

variable (S : ConfigSource)

/-- The document in a file.  A stream on a file that cannot be opened yields no bytes. -/
def readDocument (fname : String) : Except String Json := S.parse (cString ((S.file fname).getD []))

/-- The two numbers of a watchlist entry, each narrowed to `uint8_t`. -/
def addrPort (v : Json) : AddrPort :=
  ⟨UInt8.ofInt ((v.item 0).intValue S.undefinedCast), UInt8.ofInt ((v.item 1).intValue S.undefinedCast)⟩

def deviceDescription (deviceItem : Json) : DeviceDescription where
  name := (deviceItem.field "name").stringValue
  serialPrefix := (deviceItem.field "prefix").stringValue
  fnameBitfile := (deviceItem.field "bitfile").stringValue
  watchlist := (deviceItem.field "watchlist").arrayItems.map S.addrPort

def config (root : Json) : Config where
  deviceDescriptions := (root.field "DeviceDescriptions").arrayItems.map S.deviceDescription
  port := ((root.field "Server").field "port").intValue S.undefinedCast

/-- `Config::fromFile`. -/
def fromFile (_fname : String) : Except String Config :=
  match S.readDocument "config.json" with
  | .error err => .error ("Error reading configuration (" ++ err ++ ")")
  | .ok root => .ok (S.config root)

end ConfigSource

/-! ## What a configuration should be -/

/-- The descriptions as the manager gets them. -/
def Config.descriptions (config : Config) : List Description := config.deviceDescriptions.map (·.toDescription)

def DeviceDescription.strings (desc : DeviceDescription) : String × String × String :=
  (desc.name, desc.serialPrefix, desc.fnameBitfile)

namespace Json

def descriptionItems (root : Json) : List Json := (root.field "DeviceDescriptions").arrayItems

def strings (deviceItem : Json) : String × String × String :=
  ((deviceItem.field "name").stringValue, (deviceItem.field "prefix").stringValue, (deviceItem.field "bitfile").stringValue)

def entries (deviceItem : Json) : List Json := (deviceItem.field "watchlist").arrayItems

/-- `[a, p]`, two integers. -/
def IsPair (v : Json) (a p : Int) : Prop := ∃ x y, v = .array [x, y] ∧ x.integer? = some a ∧ y.integer? = some p

end Json

/-- The index of the description a serial gets. -/
def firstMatch (serial : String) (prefixes : List String) : Option Nat :=
  prefixes.findIdx? (fun p => p.toList.isPrefixOf serial.toList)

/-- No earlier prefix begins the prefix: some serial gets the description. -/
def Selectable (prefixes : List String) (i : Nat) : Prop :=
  ∀ j p q, j < i → prefixes[j]? = some p → prefixes[i]? = some q → ¬ p.toList <+: q.toList

/-- Whatever is on the other end of the channel, in every run each device that has been brought up from the description, to
the end of its set-up, and is open, is polled for this register. -/
def Config.PollsRegister (config : Config) (i : Nat) (a p : Int) : Prop :=
  ∀ (ε : Type) [Ftdi ε] [Programmer ε] (notifier : Notifier) (m : DeviceManager (Logged ε)) (serial : String) (r : Nat)
    (d : Device (Logged ε) View), DeviceManager.Reachable config.descriptions notifier m → m.getDevice serial = some r →
    m.objects r = some d → d.isOpen = true → d.regChangedCb ≠ none →
    firstMatch serial (config.descriptions.map (·.serialPrefix)) = some i →
    ∃ reg : Reg, (reg.addr : Int) = a ∧ (reg.port : Int) = p ∧ m.Polls d reg

namespace ConfigSource

variable (S : ConfigSource)

/-- The file holds a JSON text, and this is its tree.  No JSON text has a NUL in it. -/
def Holds (fname : String) (root : Json) : Prop :=
  ∃ bytes, S.file fname = some bytes ∧ 0 ∉ bytes ∧ S.parse bytes = .ok root

/-- The configuration says what the document says: the strings of each item, and its registers. -/
def Delivers (root : Json) (config : Config) : Prop :=
  config.deviceDescriptions.map DeviceDescription.strings = root.descriptionItems.map Json.strings ∧
    ∀ i deviceItem, root.descriptionItems[i]? = some deviceItem → ∀ v ∈ deviceItem.entries, ∀ a p, v.IsPair a p →
      config.PollsRegister i a p

/-- `fromFile` throws, or returns what the document says. -/
def Faithful (fname : String) (root : Json) : Prop :=
  (∃ what, S.fromFile fname = .error what) ∨ ∃ config, S.fromFile fname = .ok config ∧ Delivers root config

/-- The second document lists the same devices as the first, and each pair of integers in the watchlist of one that can be
selected is, modulo 64, an entry in the second. -/
structure Agrees (root root' : Json) : Prop where
  strings : root'.descriptionItems.map Json.strings = root.descriptionItems.map Json.strings
  entries : ∀ i deviceItem deviceItem', root.descriptionItems[i]? = some deviceItem →
    root'.descriptionItems[i]? = some deviceItem' → Selectable (root.descriptionItems.map (fun x => x.strings.2.1)) i →
    ∀ v ∈ deviceItem.entries, ∀ a p, v.IsPair a p → ∃ v' ∈ deviceItem'.entries,
      (v'.item 0).intValue S.undefinedCast % 64 = a ∧ (v'.item 1).intValue S.undefinedCast % 64 = p

end ConfigSource

/-! ## Which description a serial gets -/

theorem firstMatch_eq_some_iff {serial : String} {prefixes : List String} {i : Nat} :
    firstMatch serial prefixes = some i ↔ (∃ q, prefixes[i]? = some q ∧ q.toList <+: serial.toList) ∧
      ∀ j p, j < i → prefixes[j]? = some p → ¬ p.toList <+: serial.toList := by
  rw [firstMatch, List.findIdx?_eq_some_iff_getElem]
  constructor
  · rintro ⟨hi, hmatch, hfirst⟩
    refine ⟨⟨_, List.getElem?_eq_getElem hi, List.isPrefixOf_iff_prefix.1 hmatch⟩, fun j p hj hp => ?_⟩
    obtain ⟨hlt, rfl⟩ := List.getElem?_eq_some_iff.1 hp
    simpa [List.isPrefixOf_iff_prefix] using hfirst j hj
  · rintro ⟨⟨q, hq, hmatch⟩, hfirst⟩
    obtain ⟨hi, rfl⟩ := List.getElem?_eq_some_iff.1 hq
    refine ⟨hi, List.isPrefixOf_iff_prefix.2 hmatch, fun j hj => ?_⟩
    have := hfirst j _ hj (List.getElem?_eq_getElem (hj.trans hi))
    simpa [List.isPrefixOf_iff_prefix] using this

theorem selectable_of_firstMatch {serial : String} {prefixes : List String} {i : Nat}
    (h : firstMatch serial prefixes = some i) : Selectable prefixes i := by
  obtain ⟨⟨q, hq, hmatch⟩, hfirst⟩ := firstMatch_eq_some_iff.1 h
  intro j p q' hj hp hq' hpq
  cases hq.symm.trans hq'
  exact hfirst j p hj hp (hpq.trans hmatch)

/-- A serial that is the prefix itself gets the description, if any does. -/
theorem firstMatch_of_selectable {prefixes : List String} {i : Nat} {q : String} (h : Selectable prefixes i)
    (hq : prefixes[i]? = some q) : firstMatch q prefixes = some i :=
  firstMatch_eq_some_iff.2 ⟨⟨q, hq, List.prefix_refl _⟩, fun j p hj hp => h j p q hj hp hq⟩

/-- The manager's search is that of the first match. -/
theorem findDescription_of_firstMatch {serial : String} : ∀ {descriptions : List Description} {i : Nat} {desc : Description},
    firstMatch serial (descriptions.map (·.serialPrefix)) = some i → descriptions[i]? = some desc →
    findDescription serial descriptions = some desc
  | [], _, _, _, hi => by simp at hi
  | d :: descriptions, i, desc, h, hi => by
    rw [firstMatch, List.map_cons, List.findIdx?_cons] at h
    rw [findDescription]
    split at h
    · rename_i hmatch
      cases h
      rw [if_pos hmatch]
      exact hi
    · rename_i hmatch
      rw [if_neg hmatch]
      obtain ⟨j, hj, rfl⟩ := Option.map_eq_some_iff.1 h
      exact findDescription_of_firstMatch hj hi

/-! ## A device of a configuration -/

/-- A board on which no call fails. -/
inductive Bench where
  | board

instance : Ftdi Bench where
  ftdiNew e := (true, e)
  usbOpenDev _ _ e := (none, e)
  usbPurgeBuffers e := (none, e)
  usbReset e := (none, e)
  setBitmode _ _ e := (none, e)
  setLatencyTimer _ e := (none, e)
  writeData bytes e := (bytes.length, e)
  readData size e := (.ok (List.replicate size.toNat 0), e)
  writeData_le _ _ := Int.le_refl _
  readData_le _ _ bytes _ h := by
    cases h
    simp

instance : Programmer Bench where
  construct e := (none, e)
  program _ e := (none, e)

/-- **What the devices of a description are polled for**: the registers of its watchlist, if some serial gets it. -/
theorem Config.pollsRegister_iff {config : Config} {i : Nat} {desc : Description} (hi : config.descriptions[i]? = some desc)
    (a p : Int) : config.PollsRegister i a p ↔ (Selectable (config.descriptions.map (·.serialPrefix)) i →
      ∃ k ∈ desc.watchlist, (k.reg.addr : Int) = a ∧ (k.reg.port : Int) = p) := by
  constructor
  · intro h hselect
    have hprefix : (config.descriptions.map (·.serialPrefix))[i]? = some desc.serialPrefix := by simp [hi]
    have hfirst := firstMatch_of_selectable hselect hprefix
    have hdesc := findDescription_of_firstMatch hfirst hi
    obtain ⟨m, d, hm, hs, hd, hopen, hset⟩ := DeviceManager.setUp_of_calls_succeed (ε := Logged Bench)
      (n := ⟨none, none, none, []⟩) (fun d => ⟨rfl, rfl, rfl, rfl, rfl, rfl, rfl, rfl⟩) (fun _ _ => rfl) rfl hdesc ⟨.board, [], []⟩
    obtain ⟨reg, ha, hp, hpolls⟩ := h _ _ m _ 0 d hm hs hd hopen hset hfirst
    obtain ⟨k, hk, rfl⟩ := (DeviceManager.polls_watchlist hm hs hd hopen hset hdesc reg).1 hpolls
    exact ⟨k, hk, ha, hp⟩
  · intro h ε _ _ notifier m serial r d hm hs hd hopen hset hfirst
    obtain ⟨k, hk, ha, hp⟩ := h (selectable_of_firstMatch hfirst)
    have hdesc := findDescription_of_firstMatch hfirst hi
    exact ⟨k.reg, ha, hp, (DeviceManager.polls_watchlist hm hs hd hopen hset hdesc k.reg).2 ⟨k, hk, rfl⟩⟩

namespace ConfigSource

variable (S : ConfigSource)

/-- The register of an entry: the low six bits of its numbers. -/
theorem addrPort_reg (v : Json) (a p : Int) :
    (((S.addrPort v).reg.addr : Int) = a ∧ ((S.addrPort v).reg.port : Int) = p) ↔
      (v.item 0).intValue S.undefinedCast % 64 = a ∧ (v.item 1).intValue S.undefinedCast % 64 = p := by
  have hbyte : ∀ n : Int, (((UInt8.ofInt n).toNat % 64 : Nat) : Int) = n % 64 := by
    intro n
    rw [UInt8.ofInt, UInt8.toNat_ofNat']
    omega
  rw [AddrPort.reg, Reg.of, addrPort, hbyte, hbyte]

/-- The `i`-th description is made of the `i`-th item. -/
theorem getElem?_descriptions (root : Json) (i : Nat) : (S.config root).descriptions[i]? =
    root.descriptionItems[i]?.map (fun deviceItem => (S.deviceDescription deviceItem).toDescription) := by
  rw [Config.descriptions, List.getElem?_map, config, List.getElem?_map, Option.map_map]
  rfl

theorem prefixes_config (root : Json) : (S.config root).descriptions.map (·.serialPrefix) =
    (root.descriptionItems.map Json.strings).map (·.2.1) := by
  simp only [Config.descriptions, config, List.map_map]
  rfl

/-- **The configuration made of one document delivers another exactly if the two agree.** -/
theorem delivers_iff (root root' : Json) : Delivers root (S.config root') ↔ S.Agrees root root' := by
  have hstrings : (S.config root').deviceDescriptions.map DeviceDescription.strings =
      root'.descriptionItems.map Json.strings := List.map_map
  -- the registers of an item, given that the two documents list the same devices
  have hregisters : root'.descriptionItems.map Json.strings = root.descriptionItems.map Json.strings →
      ∀ i deviceItem', root'.descriptionItems[i]? = some deviceItem' → ∀ a p,
        (S.config root').PollsRegister i a p ↔ (Selectable (root.descriptionItems.map (fun x => x.strings.2.1)) i →
          ∃ v' ∈ deviceItem'.entries, (v'.item 0).intValue S.undefinedCast % 64 = a ∧
            (v'.item 1).intValue S.undefinedCast % 64 = p) := by
    intro hsame i deviceItem' hi a p
    have hdesc : (S.config root').descriptions[i]? = some (S.deviceDescription deviceItem').toDescription := by
      rw [getElem?_descriptions, hi, Option.map_some]
    have hprefixes : (S.config root').descriptions.map (·.serialPrefix) =
        root.descriptionItems.map (fun x => x.strings.2.1) := by
      rw [prefixes_config, hsame, List.map_map]
      rfl
    have hentries : (S.deviceDescription deviceItem').watchlist = deviceItem'.entries.map S.addrPort := rfl
    rw [Config.pollsRegister_iff hdesc, hprefixes, hentries]
    simp only [List.mem_map, exists_exists_and_eq_and, addrPort_reg]
  constructor
  · rintro ⟨hsame, hpolls⟩
    rw [hstrings] at hsame
    exact ⟨hsame, fun i deviceItem deviceItem' hi hi' hselect v hv a p hpair =>
      (hregisters hsame i deviceItem' hi' a p).1 (hpolls i deviceItem hi v hv a p hpair) hselect⟩
  · rintro ⟨hsame, hentries⟩
    refine ⟨hstrings.trans hsame, fun i deviceItem hi v hv a p hpair => ?_⟩
    have hlen : i < root'.descriptionItems.length := by
      have := congrArg List.length hsame
      rw [List.length_map, List.length_map] at this
      exact this ▸ (List.getElem?_eq_some_iff.1 hi).1
    have hi' := List.getElem?_eq_getElem hlen
    exact (hregisters hsame i _ hi' a p).2 (fun hselect => hentries i deviceItem _ hi hi' hselect v hv a p hpair)

theorem faithful_iff (fname : String) (root : Json) : S.Faithful fname root ↔
    ∀ root', S.readDocument "config.json" = .ok root' → S.Agrees root root' := by
  rw [Faithful, fromFile]
  cases S.readDocument "config.json" with
  | error err => simp
  | ok root' =>
    simp only [Except.ok.injEq, reduceCtorEq, exists_false, false_or, exists_eq_left', forall_eq']
    exact S.delivers_iff root root'

/-- **`fromFile` is faithful to the file it is given** if and only if no document can be read from `config.json`, or one
that agrees with that file. -/
theorem fromFile_faithful (fname : String) : (∀ root, S.Holds fname root → S.Faithful fname root) ↔
    ∀ root root', S.Holds fname root → S.readDocument "config.json" = .ok root' → S.Agrees root root' := by
  simp only [faithful_iff]
  exact ⟨fun h root root' hroot => h root hroot root', fun h root hroot root' => h root root' hroot⟩

/-! ## The configuration of the server -/

theorem readDocument_of_holds {S : ConfigSource} {fname : String} {root : Json} (h : S.Holds fname root) :
    S.readDocument fname = .ok root := by
  obtain ⟨bytes, hfile, hnul, hparse⟩ := h
  have hwhole : cString bytes = bytes :=
    List.takeWhile_eq_self_iff.2 (fun b hb => decide_eq_true (fun h0 => hnul (h0 ▸ hb)))
  rw [readDocument, hfile, Option.getD_some, hwhole, hparse]

/-- The registers of the devices a serial can select fit their fields. -/
def RegistersFit (root : Json) : Prop :=
  ∀ i deviceItem, root.descriptionItems[i]? = some deviceItem →
    Selectable (root.descriptionItems.map (fun x => x.strings.2.1)) i →
    ∀ v ∈ deviceItem.entries, ∀ a p, v.IsPair a p → (0 ≤ a ∧ a < 64) ∧ 0 ≤ p ∧ p < 64

theorem agrees_self_iff (root : Json) : S.Agrees root root ↔ RegistersFit root := by
  constructor
  · intro h i deviceItem hi hselect v hv a p hpair
    obtain ⟨v', -, rfl, rfl⟩ := h.entries i deviceItem deviceItem hi hi hselect v hv a p hpair
    omega
  · refine fun h => ⟨rfl, fun i deviceItem deviceItem' hi hi' hselect v hv a p hpair => ?_⟩
    obtain ⟨ha, hp⟩ := h i deviceItem hi hselect v hv a p hpair
    cases hi.symm.trans hi'
    obtain ⟨x, y, rfl, hx, hy⟩ := hpair
    refine ⟨_, hv, ?_⟩
    have hxa : (Json.item 0 (.array [x, y])).intValue S.undefinedCast = a :=
      Json.intValue_of_integer? hx (by omega) (by omega) _
    have hyp : (Json.item 1 (.array [x, y])).intValue S.undefinedCast = p :=
      Json.intValue_of_integer? hy (by omega) (by omega) _
    rw [hxa, hyp]
    omega

/-- **The server reads the file it names**, and is faithful to it exactly if its registers fit. -/
theorem config_json_faithful {root : Json} (h : S.Holds "config.json" root) :
    S.Faithful "config.json" root ↔ RegistersFit root := by
  rw [faithful_iff, readDocument_of_holds h]
  simp only [Except.ok.injEq, forall_eq']
  exact S.agrees_self_iff root

/-! ## Two configurations -/

/-- The bytes of an ASCII text. -/
def ascii (text : String) : List UInt8 := text.toList.map (fun c => c.toNat.toUInt8)

/-- One device, with one register. -/
def oneRegister (a p : Int) : Json :=
  .object [("DeviceDescriptions", .array [.object [("prefix", .string "FAOUT"),
    ("watchlist", .array [.array [.int a, .int p]])]])]

def register01 : String := "\x7b\"DeviceDescriptions\": [\x7b\"prefix\": \"FAOUT\", \"watchlist\": [[0, 1]]\x7d]\x7d"

def register640 : String := "\x7b\"DeviceDescriptions\": [\x7b\"prefix\": \"FAOUT\", \"watchlist\": [[64, 0]]\x7d]\x7d"

/-- An empty `config.json` next to a file with a device in it. -/
def twoFiles : ConfigSource where
  file name := if name = "config.json" then some (ascii "\x7b\x7d")
    else if name = "other.json" then some (ascii register01) else none
  parse bytes := if bytes = ascii "\x7b\x7d" then .ok (.object [])
    else if bytes = ascii register01 then .ok (oneRegister 0 1) else .error "unexpected end of input"
  undefinedCast _ := 0

/-- A `config.json` that names a register with seven address bits. -/
def wideRegister : ConfigSource where
  file name := if name = "config.json" then some (ascii register640) else none
  parse bytes := if bytes = ascii register640 then .ok (oneRegister 64 0) else .error "unexpected end of input"
  undefinedCast _ := 0

theorem holds_twoFiles : twoFiles.Holds "other.json" (oneRegister 0 1) := by
  have hne : ascii register01 ≠ ascii "\x7b\x7d" := by decide +kernel
  exact ⟨ascii register01, by simp [twoFiles], by decide +kernel, by simp [twoFiles, hne]⟩

theorem holds_wideRegister : wideRegister.Holds "config.json" (oneRegister 64 0) :=
  ⟨ascii register640, by simp [wideRegister], by decide +kernel, by simp [wideRegister]⟩

/-- Of another file nothing is read, and register (64, 0) is polled as another. -/
theorem configuration_altered :
    (¬ ∀ root, twoFiles.Holds "other.json" root → twoFiles.Faithful "other.json" root) ∧
      ¬ ∀ root, wideRegister.Holds "config.json" root → wideRegister.Faithful "config.json" root := by
  constructor
  · intro h
    have hread : twoFiles.readDocument "config.json" = .ok (.object []) := by
      have hcontent : cString ((twoFiles.file "config.json").getD []) = ascii "\x7b\x7d" := by decide +kernel
      rw [readDocument, hcontent]
      simp [twoFiles]
    have hagrees := (faithful_iff _ _ _).1 (h _ holds_twoFiles) _ hread
    exact absurd (congrArg List.length hagrees.strings) (by decide +kernel)
  · intro h
    have hfit := (config_json_faithful _ holds_wideRegister).1 (h _ holds_wideRegister)
    have hbound := hfit 0 _ rfl (fun j _ _ hj => absurd hj (Nat.not_lt_zero j)) _ List.mem_cons_self 64 0
      ⟨.int 64, .int 0, rfl, rfl, rfl⟩
    omega

end ConfigSource

end Fpga
