import FpgaServer.Calls
import FpgaServer.DeviceManager
/-!
# DeviceHandles — the calls of the manager that take or keep a `libusb_device`

The manager once more, call by call: a handler is a program whose calls go to libusb and libftdi.  A pointer is passed by
`LibUsbDevice`, `Device::open` and the programmer; every other call is made on an open handle, and handles are counted.  The
two maps of the manager are one list, for they hold the same devices, and a stretch of transfers on one handle is one call.
-/
namespace Fpga

open Base (Calls EveryRun)

/-- What is done on an open `ftdi_context`. -/
inductive ContextCall where
  | usbPurgeBuffers
  | usbReset
  | setBitmode
  | setLatencyTimer
  | readData
  | mpsseSend
  | jtagChain
  | programBitfile
  | registers
  deriving DecidableEq, Repr

inductive UsbCall where
  | getDeviceDescriptor (dev : Nat)
  | libusbOpen (dev : Nat)
  | getStringDescriptor (dev : Nat)
  | libusbClose (dev : Nat)
  | ftdiNew
  | ftdiUsbOpenDev (dev : Nat) (i : Interface)
  | onContext (dev : Nat) (c : ContextCall)
  | ftdiUsbClose (dev : Nat)
  deriving DecidableEq, Repr

/-- A call fails with a text, or returns; `getStringDescriptor` returns the string. -/
abbrev UsbAnswer := Except String String

namespace UsbCall

/-- The pointer the call is handed. -/
def passes : UsbCall → Option Nat
  | .getDeviceDescriptor dev => some dev
  | .libusbOpen dev => some dev
  | .ftdiUsbOpenDev dev _ => some dev
  | _ => none

/-- The open handles after the call.  A failed `ftdi_usb_open_dev` leaves none behind once its context is freed. -/
def after (c : UsbCall) (r : UsbAnswer) (handles : Nat → Nat) : Nat → Nat :=
  match c, r with
  | .libusbOpen dev, .ok _ => Function.update handles dev (handles dev + 1)
  | .ftdiUsbOpenDev dev _, .ok _ => Function.update handles dev (handles dev + 1)
  | .libusbClose dev, _ => Function.update handles dev (handles dev - 1)
  | .ftdiUsbClose dev, _ => Function.update handles dev (handles dev - 1)
  | _, _ => handles

/-- Calls with a transfer handle the events of libusb until it is done. -/
def handlesEvents : UsbCall → Bool
  | .getStringDescriptor _ => true
  | .ftdiUsbOpenDev _ _ => true
  | .onContext _ _ => true
  | _ => false

end UsbCall

/-- Code of a device object, whose state is whether `m_ftdi` is set. -/
abbrev UsbM (α : Type) := ExceptT String (StateT Bool (Calls UsbCall UsbAnswer)) α

namespace UsbM

def ask (c : UsbCall) : UsbM UsbAnswer := liftM (Calls.ask c : Calls UsbCall UsbAnswer UsbAnswer)

def orThrow : UsbAnswer → UsbM String
  | .ok text => pure text
  | .error what => throw what

/-- The exit of a failed call: clean up, then throw the error text. -/
def exitOn (r : UsbAnswer) (cleanUp : UsbM Unit) : UsbM Unit :=
  match r with
  | .ok _ => pure ()
  | .error what => do
    cleanUp
    throw what

/-- A scope with an object in it: the destructor runs where the scope is left, also by an exception. -/
def scope {α : Type} (destructor : UsbM Unit) (x : UsbM α) : UsbM α := do
  let a ← tryCatch x (fun what => do
    destructor
    throw what)
  destructor
  return a

/-- `ftdi_usb_close` and `ftdi_free`. -/
def closeContext (dev : Nat) : UsbM Unit := do
  let _ ← ask (.ftdiUsbClose dev)

/-- `getUsbDeviceStrings`, with the `LibUsbDevice` in it. -/
def getUsbDeviceStrings (dev : Nat) : UsbM String := do
  let _ ← orThrow (← ask (.getDeviceDescriptor dev))
  let _ ← orThrow (← ask (.libusbOpen dev))
  scope (do let _ ← ask (.libusbClose dev)) (do
    let _manufacturer ← orThrow (← ask (.getStringDescriptor dev))
    let _product ← orThrow (← ask (.getStringDescriptor dev))
    orThrow (← ask (.getStringDescriptor dev)))

def ftdiNew : UsbM Unit := do
  match ← ask .ftdiNew with
  | .ok _ => pure ()
  | .error _ => throw "ftdi_new failed"

/-- `Device::open`. -/
def openDevice (dev : Nat) : UsbM Unit := do
  if ← get then
    return
  -- interface A
  ftdiNew
  exitOn (← ask (.ftdiUsbOpenDev dev .A)) (pure ())
  -- interface B; no exit of this part closes the context of A
  ftdiNew
  exitOn (← ask (.ftdiUsbOpenDev dev .B)) (pure ())
  exitOn (← ask (.onContext dev .usbPurgeBuffers)) (closeContext dev)
  closeContext dev
  -- A again
  exitOn (← ask (.onContext dev .usbReset)) (closeContext dev)
  exitOn (← ask (.onContext dev .setBitmode)) (closeContext dev)
  exitOn (← ask (.onContext dev .setLatencyTimer)) (closeContext dev)
  set true

/-- `Device::close`. -/
def close (dev : Nat) : UsbM Unit := do
  if ← get then
    let _ ← ask (.onContext dev .setBitmode)
    closeContext dev
    set false

/-- The constructor of `IOFtdi`: one that throws runs no destructor, so an open context stays open. -/
def ioFtdi (dev : Nat) : UsbM Unit := do
  let failed : UsbM Unit := throw "Error initializing IOFtdi"
  exitOn (← ask .ftdiNew) failed
  exitOn (← ask (.ftdiUsbOpenDev dev .B)) failed
  exitOn (← ask (.onContext dev .setBitmode)) failed
  exitOn (← ask (.onContext dev .usbPurgeBuffers)) failed
  exitOn (← ask (.onContext dev .setLatencyTimer)) failed
  exitOn (← ask (.onContext dev .setBitmode)) failed
  let _ ← ask (.onContext dev .readData)
  exitOn (← ask (.onContext dev .mpsseSend)) (pure ())

/-- `IOFtdi::deinit`. -/
def deinit (dev : Nat) : UsbM Unit := do
  let _ ← ask (.onContext dev .mpsseSend)
  let _ ← ask (.onContext dev .setBitmode)
  let _ ← ask (.onContext dev .usbReset)
  closeContext dev

/-- `DeviceProgrammer programmer(dev)` and `programmer.program(..)`. -/
def program (dev : Nat) : UsbM Unit := do
  ioFtdi dev
  scope (deinit dev) (do
    exitOn (← ask (.onContext dev .jtagChain)) (pure ())
    exitOn (← ask (.onContext dev .programBitfile)) (pure ()))

/-- `DeviceManager::reprogramDevice` on the device object. -/
def reprogramDevice (descriptions : List Description) (serial : String) (dev : Nat) : UsbM Bool := do
  match findDescription serial descriptions with
  | none => return false
  | some desc =>
    if desc.fnameBitfile = "" then
      return false
    close dev
    tryCatch (program dev) (fun what => do
      openDevice dev
      throw what)
    openDevice dev
    return true

end UsbM

/-- A registered device. -/
structure ManagedDevice where
  serial : String
  libusbDevice : Nat
  isOpen : Bool
  tracksRegs : Bool
  deriving DecidableEq, Repr

/-- Code of the manager, from the registered devices to those after it. -/
abbrev ManagerCalls := Calls UsbCall UsbAnswer (List ManagedDevice)

namespace ManagerCalls

def hasDevice (devices : List ManagedDevice) (dev : Nat) : Bool := devices.any (fun d => d.libusbDevice = dev)

def hasSerial (devices : List ManagedDevice) (serial : String) : Bool := devices.any (fun d => d.serial = serial)

def getDevice (devices : List ManagedDevice) (serial : String) : Option ManagedDevice :=
  devices.find? (fun d => d.serial = serial)

/-- The `try` block of `_usbDeviceAdded` up to a device to be registered; `none` where it returns before. -/
def bringUp (descriptions : List Description) (devices : List ManagedDevice) (dev : Nat) :
    UsbM (Option (String × Description)) := do
  let serial ← UsbM.getUsbDeviceStrings dev
  if hasSerial devices serial then
    return none
  match findDescription serial descriptions with
  | none => return none
  | some desc =>
    UsbM.openDevice dev
    -- an exception leaves the block, and with it the only pointer to the device
    tryCatch (do let _ ← UsbM.reprogramDevice descriptions serial dev) (fun what => do
      UsbM.close dev
      throw what)
    return some (serial, desc)

/-- `DeviceManager::_usbDeviceAdded`. -/
def usbDeviceAdded (descriptions : List Description) (devices : List ManagedDevice) (dev : Nat) : ManagerCalls :=
  if hasDevice devices dev then
    pure devices
  else do
    match ← (bringUp descriptions devices dev).run.run false with
    | (.ok (some (serial, desc)), isOpen) => return devices ++ [⟨serial, dev, isOpen, decide (desc.watchlist ≠ [])⟩]
    | _ => return devices

/-- `DeviceManager::_removeDevice`: the last pointer to the device goes, which closes it. -/
def removeDevice (devices : List ManagedDevice) (serial : String) : ManagerCalls :=
  match getDevice devices serial with
  | none => pure devices
  | some d => do
    let _ ← (UsbM.close d.libusbDevice).run.run d.isOpen
    return devices.filter (fun e => e.serial ≠ serial)

/-- `DeviceManager::_usbDeviceRemoved`. -/
def usbDeviceRemoved (devices : List ManagedDevice) (dev : Nat) : ManagerCalls :=
  match devices.find? (fun d => d.libusbDevice = dev) with
  | none => pure devices
  | some d => removeDevice devices d.serial

/-- `Device::updateTrackedRegs`: nothing to track, or a transfer, or no context to transfer on. -/
def updateTrackedRegs (d : ManagedDevice) : Calls UsbCall UsbAnswer UsbAnswer :=
  if d.tracksRegs then
    if d.isOpen then Calls.ask (.onContext d.libusbDevice .registers) else pure (.error "FTDI write error")
  else pure (.ok "")

/-- The loop of `_periodicRegisterUpdates`, over the devices it has not visited yet. -/
def pollDevices : List ManagedDevice → List ManagedDevice → ManagerCalls
  | [], devices => pure devices
  | d :: rest, devices => do
    match ← updateTrackedRegs d with
    | .ok _ => pollDevices rest devices
    | .error _ => do
      let devices ← removeDevice devices d.serial
      pollDevices rest devices

def periodicRegisterUpdates (devices : List ManagedDevice) : ManagerCalls := pollDevices devices devices

/-- A request to reprogram; the request handler answers an exception with an error reply. -/
def reprogram (descriptions : List Description) (devices : List ManagedDevice) (serial : String) : ManagerCalls :=
  match getDevice devices serial with
  | none => pure devices
  | some d => do
    let r ← (UsbM.reprogramDevice descriptions d.serial d.libusbDevice).run.run d.isOpen
    return devices.map (fun e => if e.serial = serial then { e with isOpen := r.2 } else e)

/-- Any other request to a device: transfers on its context. -/
def deviceRequest (devices : List ManagedDevice) (serial : String) : ManagerCalls :=
  match getDevice devices serial with
  | none => pure devices
  | some d => do
    if d.isOpen then
      let _ ← Calls.ask (.onContext d.libusbDevice .registers)
    return devices

end ManagerCalls

/-! ## Which pointers are passed -/

/-- The call passes no pointer but those of `S`. -/
def UsbCall.Only (S : Nat → Prop) (c : UsbCall) : Prop := ∀ dev, c.passes = some dev → S dev

variable {S : Nat → Prop} {P : UsbCall → Prop} {dev : Nat}

theorem UsbCall.only_of_none {c : UsbCall} (h : c.passes = none) : c.Only S := by
  intro dev hdev
  rw [h] at hdev
  cases hdev

theorem UsbCall.only_of_some {c : UsbCall} (h : c.passes = some dev) (hdev : S dev) : c.Only S := by
  intro q hq
  rw [h] at hq
  cases hq
  exact hdev

namespace UsbM

theorem every_orThrow (r : UsbAnswer) : EveryRun P (orThrow r) := by
  cases r with
  | ok text => exact EveryRun.pure _
  | error what => exact EveryRun.throw _

theorem every_exitOn (r : UsbAnswer) {cleanUp : UsbM Unit} (h : EveryRun P cleanUp) : EveryRun P (exitOn r cleanUp) := by
  cases r with
  | ok text => exact EveryRun.pure _
  | error what => exact h.bind (fun _ => EveryRun.throw _)

theorem every_scope {α : Type} {destructor : UsbM Unit} {x : UsbM α} (hd : EveryRun P destructor) (hx : EveryRun P x) :
    EveryRun P (scope destructor x) := by
  refine (hx.tryCatch (fun what => hd.bind (fun _ => EveryRun.throw _))).bind (fun a => ?_)
  exact hd.bind (fun _ => EveryRun.pure _)

theorem only_ask {c : UsbCall} (h : c.passes = none) : EveryRun (UsbCall.Only S) (ask c) :=
  EveryRun.ask (UsbCall.only_of_none h)

theorem only_pass {c : UsbCall} (h : c.passes = some dev) (hdev : S dev) : EveryRun (UsbCall.Only S) (ask c) :=
  EveryRun.ask (UsbCall.only_of_some h hdev)

theorem only_closeContext (dev : Nat) : EveryRun (UsbCall.Only S) (closeContext dev) :=
  (only_ask rfl).bind (fun _ => EveryRun.pure _)

theorem only_close (dev : Nat) : EveryRun (UsbCall.Only S) (close dev) := by
  refine EveryRun.get.bind (fun isOpen => ?_)
  split
  · refine (only_ask rfl).bind (fun _ => ?_)
    exact (only_closeContext dev).bind (fun _ => EveryRun.set _)
  · exact EveryRun.pure _

theorem only_ftdiNew : EveryRun (UsbCall.Only S) ftdiNew := by
  refine (only_ask rfl).bind (fun r => ?_)
  cases r with
  | ok text => exact EveryRun.pure _
  | error what => exact EveryRun.throw _

theorem only_getUsbDeviceStrings (hdev : S dev) : EveryRun (UsbCall.Only S) (getUsbDeviceStrings dev) := by
  have hstring : EveryRun (UsbCall.Only S) (do orThrow (← ask (.getStringDescriptor dev))) :=
    (only_ask rfl).bind (fun r => every_orThrow r)
  refine (only_pass rfl hdev).bind (fun r => (every_orThrow r).bind (fun _ => ?_))
  refine (only_pass rfl hdev).bind (fun r => (every_orThrow r).bind (fun _ => ?_))
  refine every_scope ((only_ask rfl).bind (fun _ => EveryRun.pure _)) ?_
  refine (only_ask rfl).bind (fun r => (every_orThrow r).bind (fun _ => ?_))
  exact (only_ask rfl).bind (fun r => (every_orThrow r).bind (fun _ => hstring))

theorem only_openDevice (hdev : S dev) : EveryRun (UsbCall.Only S) (openDevice dev) := by
  have hexit : ∀ c : ContextCall, ∀ {x : UsbM Unit}, EveryRun (UsbCall.Only S) x →
      EveryRun (UsbCall.Only S) (do exitOn (← ask (.onContext dev c)) (closeContext dev); x) := by
    intro c x hx
    exact (only_ask rfl).bind (fun r => (every_exitOn r (only_closeContext dev)).bind (fun _ => hx))
  refine EveryRun.get.bind (fun isOpen => ?_)
  split
  · exact EveryRun.pure _
  · refine only_ftdiNew.bind (fun _ => (only_pass rfl hdev).bind (fun r => ?_))
    refine (every_exitOn r (EveryRun.pure _)).bind (fun _ => ?_)
    refine only_ftdiNew.bind (fun _ => (only_pass rfl hdev).bind (fun r => ?_))
    refine (every_exitOn r (EveryRun.pure _)).bind (fun _ => hexit _ ?_)
    refine (only_closeContext dev).bind (fun _ => ?_)
    exact hexit _ (hexit _ (hexit _ (EveryRun.set _)))

theorem only_ioFtdi (hdev : S dev) : EveryRun (UsbCall.Only S) (ioFtdi dev) := by
  have hexit : ∀ {c : UsbCall} {x : UsbM Unit} (what : String), EveryRun (UsbCall.Only S) (ask c) →
      EveryRun (UsbCall.Only S) x → EveryRun (UsbCall.Only S) (do exitOn (← ask c) (throw what); x) := by
    intro c x what hc hx
    exact hc.bind (fun r => (every_exitOn r (EveryRun.throw _)).bind (fun _ => hx))
  refine hexit _ (only_ask rfl) (hexit _ (only_pass rfl hdev) ?_)
  refine hexit _ (only_ask rfl) (hexit _ (only_ask rfl) (hexit _ (only_ask rfl) (hexit _ (only_ask rfl) ?_)))
  refine (only_ask rfl).bind (fun _ => (only_ask rfl).bind (fun r => ?_))
  exact every_exitOn r (EveryRun.pure _)

theorem only_deinit (dev : Nat) : EveryRun (UsbCall.Only S) (deinit dev) := by
  refine (only_ask rfl).bind (fun _ => (only_ask rfl).bind (fun _ => (only_ask rfl).bind (fun _ => ?_)))
  exact only_closeContext dev

theorem only_program (hdev : S dev) : EveryRun (UsbCall.Only S) (program dev) := by
  refine (only_ioFtdi hdev).bind (fun _ => every_scope (only_deinit dev) ?_)
  refine (only_ask rfl).bind (fun r => (every_exitOn r (EveryRun.pure _)).bind (fun _ => ?_))
  exact (only_ask rfl).bind (fun r => every_exitOn r (EveryRun.pure _))

theorem only_reprogramDevice (descriptions : List Description) (serial : String) (hdev : S dev) :
    EveryRun (UsbCall.Only S) (reprogramDevice descriptions serial dev) := by
  unfold reprogramDevice
  split
  · exact EveryRun.pure _
  · split
    · exact EveryRun.pure _
    · refine (only_close dev).bind (fun _ => ?_)
      refine ((only_program hdev).tryCatch (fun what => ?_)).bind (fun _ => ?_)
      · exact (only_openDevice hdev).bind (fun _ => EveryRun.throw _)
      · exact (only_openDevice hdev).bind (fun _ => EveryRun.pure _)

end UsbM

namespace ManagerCalls

open UsbM

theorem only_bringUp (descriptions : List Description) (devices : List ManagedDevice) (hdev : S dev) :
    EveryRun (UsbCall.Only S) (bringUp descriptions devices dev) := by
  refine (only_getUsbDeviceStrings hdev).bind (fun serial => ?_)
  split
  · exact EveryRun.pure _
  · split
    · exact EveryRun.pure _
    · refine (only_openDevice hdev).bind (fun _ => EveryRun.bind (EveryRun.tryCatch ?_ (fun what => ?_)) (fun _ => ?_))
      · exact (only_reprogramDevice _ _ hdev).bind (fun _ => EveryRun.pure _)
      · exact (only_close dev).bind (fun _ => EveryRun.throw _)
      · exact EveryRun.pure _

/-- The arrival handler passes the pointer it was posted with. -/
theorem only_usbDeviceAdded (descriptions : List Description) (devices : List ManagedDevice) (hdev : S dev) :
    (usbDeviceAdded descriptions devices dev).Every (UsbCall.Only S) := by
  unfold usbDeviceAdded
  split
  · trivial
  · refine (only_bringUp descriptions devices hdev false).bind (fun r => ?_)
    split <;> trivial

theorem only_removeDevice (devices : List ManagedDevice) (serial : String) :
    (removeDevice devices serial).Every (UsbCall.Only S) := by
  unfold removeDevice
  split
  · trivial
  · exact (only_close _ _).bind (fun _ => trivial)

theorem only_usbDeviceRemoved (devices : List ManagedDevice) (dev : Nat) :
    (usbDeviceRemoved devices dev).Every (UsbCall.Only S) := by
  unfold usbDeviceRemoved
  split
  · trivial
  · exact only_removeDevice devices _

theorem only_updateTrackedRegs (d : ManagedDevice) : (updateTrackedRegs d).Every (UsbCall.Only S) := by
  unfold updateTrackedRegs
  split
  · split
    · exact Calls.Every.ask (UsbCall.only_of_none rfl)
    · trivial
  · trivial

theorem only_pollDevices : ∀ (rest devices : List ManagedDevice), (pollDevices rest devices).Every (UsbCall.Only S)
  | [], devices => trivial
  | d :: rest, devices => by
    refine (only_updateTrackedRegs d).bind (fun r => ?_)
    cases r with
    | ok text => exact only_pollDevices rest devices
    | error what => exact (only_removeDevice devices _).bind (fun devices => only_pollDevices rest devices)

theorem only_deviceRequest (devices : List ManagedDevice) (serial : String) :
    (deviceRequest devices serial).Every (UsbCall.Only S) := by
  unfold deviceRequest
  split
  · trivial
  · split
    · exact (Calls.Every.ask (UsbCall.only_of_none rfl)).bind (fun _ => trivial)
    · trivial

/-- A request to reprogram passes the pointer of the device it names. -/
theorem only_reprogram (descriptions : List Description) (devices : List ManagedDevice) (serial : String)
    (h : ∀ d, getDevice devices serial = some d → S d.libusbDevice) :
    (reprogram descriptions devices serial).Every (UsbCall.Only S) := by
  unfold reprogram
  split
  · trivial
  · rename_i d hd
    exact (only_reprogramDevice _ _ (h d hd) _).bind (fun _ => trivial)

end ManagerCalls

end Fpga
