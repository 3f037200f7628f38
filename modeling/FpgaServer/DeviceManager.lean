import Mathlib.Data.String.Basic
import Mathlib.Logic.Function.Basic
import FpgaServer.Device
/-!
# DeviceManager — `devices/DeviceManager.cpp`

Devices are shared objects: a map entry holds a reference into `objects`, and an object is destroyed with its last owner.
The callbacks of the manager are kept as what each of them does to its caller (return, or throw a text); every invocation
is logged with the serials `getDeviceList` lists at that moment.  What a hotplug handler reads from the bus (the
descriptor strings, the state of the USB device it brings up) is an input of the handler.
-/
namespace Fpga

open Base (OrdMap zoom)

/-- A `device_description_t`; its display name is only printed. -/
structure Description where
  serialPrefix : String
  fnameBitfile : String
  watchlist : List AddrPort

/-- `find_description`: the first description whose prefix the serial starts with. -/
def findDescription (serial : String) : List Description → Option Description
  | [] => none
  | d :: descriptions =>
    if d.serialPrefix.toList.isPrefixOf serial.toList then some d else findDescription serial descriptions

inductive DeviceEvent where
  | added (serial : String)
  | removed (serial : String)
  | regChanged (serial : String) (addr port : UInt8) (value : UInt16)
  deriving DecidableEq, Repr

/-- One invocation of a callback. -/
structure Notice where
  event : DeviceEvent
  listed : List String
  deriving DecidableEq, Repr

/-- The three callbacks, each set or empty; a callback that is set returns `some what` where it throws. -/
structure Notifier where
  addedCb : Option (String → Option String)
  removedCb : Option (String → Option String)
  regChangeCb : Option (String → UInt8 → UInt8 → UInt16 → Option String)
  log : List Notice

/-- What a callback sees. -/
structure View where
  notifier : Notifier
  listed : List String

def notify (event : DeviceEvent) (throws : Option String) : EStateM Fault View Unit := do
  modify (fun v => { v with notifier := { v.notifier with log := v.notifier.log ++ [⟨event, v.listed⟩] } })
  match throws with
  | none => pure ()
  | some what => raise what

/-- The change callback `_usbDeviceAdded` installs on a device. -/
def onRegChange (serial : String) (addr port : UInt8) (value : UInt16) : EStateM Fault View Unit := do
  let v ← get
  match v.notifier.regChangeCb with
  | none => pure ()
  | some cb => notify (.regChanged serial addr port value) (cb serial addr port value)

structure DeviceManager (ε : Type) where
  descriptions : List Description
  deviceMap : OrdMap Nat Nat
  serialMap : OrdMap String Nat
  objects : Nat → Option (Device ε View)
  nextRef : Nat
  notifier : Notifier
  timerWaits : Nat

abbrev ManagerM (ε α : Type) := EStateM Fault (DeviceManager ε) α

namespace DeviceManager

variable {ε : Type}

def initial (descriptions : List Description) (notifier : Notifier) : DeviceManager ε where
  descriptions := descriptions
  deviceMap := OrdMap.empty
  serialMap := OrdMap.empty
  objects _ := none
  nextRef := 0
  notifier := notifier
  timerWaits := 0

def hasDevice (m : DeviceManager ε) (dev : Nat) : Bool := (m.deviceMap.find? dev).isSome

def hasSerial (m : DeviceManager ε) (serial : String) : Bool := (m.serialMap.find? serial).isSome

def getDeviceList (m : DeviceManager ε) : List String := m.serialMap.keys

def getDevice (m : DeviceManager ε) (serial : String) : Option Nat := m.serialMap.find? serial

/-- A callback of the manager itself. -/
def withView (x : EStateM Fault View Unit) : ManagerM ε Unit :=
  zoom (fun m => ⟨m.notifier, m.getDeviceList⟩) (fun v m => { m with notifier := v.notifier }) x

/-- `r->x()`; a reference to no object is dangling. -/
def onDevice {α : Type} (r : Nat) (x : DeviceM ε View α) : ManagerM ε α := do
  let m ← get
  match m.objects r with
  | none => throw .crash
  | some d =>
    zoom (fun m => ⟨d, ⟨m.notifier, m.getDeviceList⟩⟩)
      (fun s m => { m with objects := Function.update m.objects r (some s.dev), notifier := s.out.notifier }) x

def deref (r : Nat) : ManagerM ε (Device ε View) := do
  let m ← get
  match m.objects r with
  | none => throw .crash
  | some d => pure d

/-- Some entry of a map owns the object. -/
def Owned (m : DeviceManager ε) (r : Nat) : Prop :=
  r ∈ m.deviceMap.entries.map Prod.snd ∨ r ∈ m.serialMap.entries.map Prod.snd

instance (m : DeviceManager ε) (r : Nat) : Decidable (m.Owned r) := inferInstanceAs (Decidable (_ ∨ _))

def freeObject (r : Nat) : ManagerM ε Unit := modify (fun m => { m with objects := Function.update m.objects r none })

variable [Ftdi ε]

/-- A local pointer to the object ends: without another owner the object is destroyed, which closes it. -/
def release (r : Nat) : ManagerM ε Unit := do
  let m ← get
  if m.Owned r then
    pure ()
  else do
    onDevice r Device.close
    freeObject r

/-- `std::make_shared<Device>(dev, serial)`: the constructor opens the device; one that throws leaves no object. -/
def makeDevice (dev : Nat) (serial : String) (usb : ε) : ManagerM ε Nat := do
  let m ← get
  let r := m.nextRef
  set { m with
    objects := Function.update m.objects r (some
      { name := serial, libusbDevice := dev, ftdi := none, trackedRegs := OrdMap.empty, regChangedCb := none,
        contexts := [], nextContext := 0, usb := usb })
    nextRef := r + 1 }
  catchException (onDevice r Device.openDevice) (fun what => do
    freeObject r
    raise what)
  return r

/-- A programmer call on the device, and the exception it may throw. -/
def programmerCall (f : ε → Option String × ε) : DeviceM ε View Unit := do
  match ← Device.usbCall f with
  | none => pure ()
  | some what => raise what

variable [Programmer ε]

/-- `DeviceManager::reprogramDevice`. -/
def reprogramDevice : Option Nat → ManagerM ε Bool
  | none => pure false
  | some r => do
    let m ← get
    let d ← deref r
    match findDescription d.name m.descriptions with
    | none => return false
    | some desc =>
      if desc.fnameBitfile = "" then
        return false
      onDevice r Device.close
      catchException
        (onDevice r (do
          programmerCall Programmer.construct
          programmerCall (Programmer.program desc.fnameBitfile)))
        (fun what => do
          onDevice r Device.openDevice
          raise what)
      onDevice r Device.openDevice
      return true

/-- The first half of the `try` block of `_usbDeviceAdded`, up to a programmed device that is to be registered; `none`
where the handler returns before. -/
def bringUp (dev : Nat) (strings : Except String String) (usb : ε) : ManagerM ε (Option (Nat × Description)) := do
  match strings with
  | .error what => raise what
  | .ok serial =>
    let m ← get
    if m.hasSerial serial then
      return none
    match findDescription serial m.descriptions with
    | none => return none
    | some desc =>
      let r ← makeDevice dev serial usb
      -- an exception leaves the block, and with it the only pointer to the device
      catchException (do let _ ← reprogramDevice (some r)) (fun what => do
        release r
        raise what)
      return some (r, desc)

def trackAll (r : Nat) : List AddrPort → ManagerM ε Unit
  | [] => pure ()
  | k :: watchlist => do
    onDevice r (Device.trackReg k.addr k.port)
    trackAll r watchlist

/-- The second half: enter the device, announce it, set up its tracking. -/
def register (dev r : Nat) (desc : Description) : ManagerM ε Unit := do
  let d ← deref r
  modify (fun m => { m with deviceMap := m.deviceMap.insert dev r })
  modify (fun m => { m with serialMap := m.serialMap.insert d.name r })
  let m ← get
  match m.notifier.addedCb with
  | none => pure ()
  | some cb => withView (notify (.added d.name) (cb d.name))
  trackAll r desc.watchlist
  onDevice r (Device.setRegChangedCallback onRegChange)

/-- `DeviceManager::_usbDeviceAdded`, with the strings read from the device and the state it is found in. -/
def usbDeviceAdded (dev : Nat) (strings : Except String String) (usb : ε) : ManagerM ε Unit := do
  let m ← get
  if m.hasDevice dev then
    return
  catchException
    (do
      match ← bringUp dev strings usb with
      | none => pure ()
      | some (r, desc) => register dev r desc)
    (fun _ => pure ())

/-- The removed callback, guarded as the source guards it: by the added callback. -/
def notifyRemoved (serial : String) : ManagerM ε Unit := do
  let m ← get
  if m.notifier.addedCb.isSome then
    match m.notifier.removedCb with
    | none => raise "bad_function_call"
    | some cb => withView (notify (.removed serial) (cb serial))

/-- `DeviceManager::_removeDevice`. -/
def removeDevice (serial : String) : ManagerM ε Unit := do
  let m ← get
  match m.serialMap.find? serial with
  | none => pure ()
  | some r =>
    catchException (notifyRemoved serial) (fun _ => pure ())
    let d ← deref r
    modify (fun m => { m with serialMap := m.serialMap.erase serial })
    modify (fun m => { m with deviceMap := m.deviceMap.erase d.libusbDevice })
    release r

/-- `DeviceManager::_usbDeviceRemoved`. -/
def usbDeviceRemoved (dev : Nat) : ManagerM ε Unit := do
  let m ← get
  match m.deviceMap.find? dev with
  | none => pure ()
  | some r =>
    let d ← deref r
    removeDevice d.name

/-- The loop of `_periodicRegisterUpdates` over the elements it has not visited yet.  The iterator moves on before the
device is polled; stepping to an element that has been erased meanwhile would be a crash. -/
def pollDevices : List (String × Nat) → ManagerM ε Unit
  | [] => pure ()
  | (serial, r) :: rest => do
    let m ← get
    if m.serialMap.find? serial ≠ some r then
      throw .crash
    else do
      catchException (onDevice r Device.updateTrackedRegs) (fun _ => do
        let d ← deref r
        removeDevice d.name)
      pollDevices rest

/-- `DeviceManager::_periodicRegisterUpdates`. -/
def periodicRegisterUpdates : ManagerM ε Unit := do
  let m ← get
  pollDevices m.serialMap.entries
  modify (fun m => { m with timerWaits := m.timerWaits + 1 })

/-! ## Runs -/

/-- What a request does to the device it names. -/
inductive DeviceOp where
  | writeReg (addr port : UInt8) (value : UInt16)
  | readReg (addr port : UInt8)
  | writeRegN (addr port : UInt8) (data : List UInt16)
  | readRegN (addr port : UInt8) (n : Nat)
  | writeRaw (data : List UInt8)
  | readRaw (n : Nat)
  deriving DecidableEq, Repr

def DeviceOp.run : DeviceOp → DeviceM ε View Unit
  | .writeReg addr port value => Device.writeReg addr port value
  | .readReg addr port => do let _ ← Device.readReg addr port
  | .writeRegN addr port data => Device.writeRegN addr port data
  | .readRegN addr port n => do let _ ← Device.readRegN addr port n
  | .writeRaw data => Device.writeRaw data
  | .readRaw n => do let _ ← Device.readRaw n

/-- What the event loop runs: a hotplug handler, the timer handler, or a request. -/
inductive Action (ε : Type) where
  | usbDeviceAdded (dev : Nat) (strings : Except String String) (usb : ε)
  | usbDeviceRemoved (dev : Nat)
  | periodicRegisterUpdates
  | reprogram (serial : String)
  | device (serial : String) (op : DeviceOp)

def Action.run : Action ε → ManagerM ε Unit
  | .usbDeviceAdded dev strings usb => DeviceManager.usbDeviceAdded dev strings usb
  | .usbDeviceRemoved dev => DeviceManager.usbDeviceRemoved dev
  | .periodicRegisterUpdates => DeviceManager.periodicRegisterUpdates
  | .reprogram serial => do
    let m ← get
    -- the request handler answers an exception with an error reply
    catchException (do let _ ← reprogramDevice (m.getDevice serial)) (fun _ => pure ())
  | .device serial op => do
    let m ← get
    match m.getDevice serial with
    | none => pure ()
    | some r => catchException (onDevice r op.run) (fun _ => pure ())

/-- The state after the handler; none if an exception escapes it or it crashes: the event loop has ended. -/
def step (m : DeviceManager ε) (a : Action ε) : Option (DeviceManager ε) :=
  match a.run.run m with
  | .ok _ m' => some m'
  | .error _ _ => none

/-- The states reached between handlers. -/
inductive Reachable (descriptions : List Description) (notifier : Notifier) : DeviceManager ε → Prop where
  | initial : Reachable descriptions notifier (initial descriptions notifier)
  | step {m m' : DeviceManager ε} (a : Action ε) (h : Reachable descriptions notifier m) (hs : m.step a = some m') :
    Reachable descriptions notifier m'

end DeviceManager
end Fpga
