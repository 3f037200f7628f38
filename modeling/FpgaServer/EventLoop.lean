import FpgaServer.LibusbService
import FpgaServer.Posted
/-!
# EventLoop — the operations of the process

The handlers of the process as the event loop sees them: which operation each one finishes, which ones it begins, and what
the termination signal does.  What the data decides is an input of a handler: what the code it calls reports and broadcasts
meanwhile, which messages a read completes, whether a packet is sent in full, whether a `shutdown` throws.  An operation
begun on a closed socket fails at once.  `late` is what is polled or armed after the signal handler has run.
-/
namespace Fpga

open Base (Operation Outcome Phase Report)
open Base.Operation

/-- The operations besides the waits of the watchers; those without a peer are posted handlers. -/
inductive Job where
  | timer
  | accept
  | read (c : Nat)
  | write (c : Nat)
  | doWrite (c : Nat)
  | hotplug (r : Report Nat)
  | signal
  deriving DecidableEq, Repr

/-- The operation is one of the socket of the client. -/
def Job.isOf (c : Nat) : Job → Bool
  | .read d => d == c
  | .write d => d == c
  | _ => false

/-- `unsent` is the length of `m_msgbuffer_out`. -/
structure Socket where
  isOpen : Bool := false
  unsent : Nat := 0

inductive Mark where
  | pollsRegisters
  | armsTimer
  | armsAccept
  | armsWatcher
  deriving DecidableEq, Repr

/-- What libusb reports to the service, while it handles events or opens and closes devices. -/
inductive LibusbReport where
  | pollfd (n : Notification)
  | hotplug (r : Report Nat)
  deriving DecidableEq, Repr

/-- What the code of the manager and the request handler does to the loop. -/
inductive Doing where
  | reported (r : LibusbReport)
  | broadcasts
  deriving DecidableEq, Repr

/-- What the data makes of a handler: the messages of a read that are answered, with what each of them does, then what else
the handler does, and whether the connection is stopped. -/
structure HandlerInput where
  answered : List (List Doing) := []
  doings : List Doing := []
  stops : Bool := false
  sentInFull : Bool := true
  shutdownThrows : Nat → Bool := fun _ => false

structure EventLoop where
  jobs : List (Operation Job) := []
  usb : LibusbService := {}
  isListening : Bool := false
  sockets : Nat → Socket := fun _ => {}
  connections : List Nat := []
  accepted : Nat := 0
  stopped : Bool := false
  late : List Mark := []

namespace EventLoop

def mark (s : EventLoop) (m : Mark) : EventLoop := if s.stopped then { s with late := s.late ++ [m] } else s

/-! ## What the handlers call -/

/-- `io_service::post`. -/
def post (s : EventLoop) (j : Job) : EventLoop := { s with jobs := s.jobs ++ [⟨j, .queued .success⟩] }

/-- `m_timer.expires_from_now` and `m_timer.async_wait`. -/
def armTimer (s : EventLoop) : EventLoop :=
  { s with jobs := arm .timer (cancel (fun j => j == Job.timer) s.jobs) }.mark .armsTimer

/-- `Server::do_accept`. -/
def doAccept (s : EventLoop) : EventLoop := { s with jobs := arm .accept s.jobs }.mark .armsAccept

/-- `async_read_some` and `async_write_some` of a client's socket. -/
def armSocket (s : EventLoop) (c : Nat) (j : Job) : EventLoop :=
  { s with jobs := s.jobs ++ [⟨j, if (s.sockets c).isOpen then .waiting else .queued .failed⟩] }

/-- The service after something that may have begun waits of watchers. -/
def setUsb (s : EventLoop) (usb : LibusbService) : EventLoop :=
  if s.usb.waits.length < usb.waits.length then { s with usb := usb }.mark .armsWatcher else { s with usb := usb }

def reported (s : EventLoop) : LibusbReport → EventLoop
  | .pollfd n => s.setUsb (s.usb.notified n)
  | .hotplug r => s.post (.hotplug r)

def setUnsent (s : EventLoop) (c n : Nat) : EventLoop :=
  { s with sockets := Function.update s.sockets c { s.sockets c with unsent := n } }

/-- `ClientConnection::send`. -/
def send (s : EventLoop) (c : Nat) : EventLoop :=
  (if (s.sockets c).unsent = 0 then s.post (.doWrite c) else s).setUnsent c ((s.sockets c).unsent + 1)

/-- `ConnectionManager::sendAll`. -/
def sendAll (s : EventLoop) : EventLoop := s.connections.foldl send s

def does (s : EventLoop) : Doing → EventLoop
  | .reported r => s.reported r
  | .broadcasts => s.sendAll

def doesAll (s : EventLoop) (doings : List Doing) : EventLoop := doings.foldl does s

/-- `ClientConnection::stop`; a `shutdown` that throws skips `close`. -/
def closeSocket (throws : Nat → Bool) (s : EventLoop) (c : Nat) : EventLoop :=
  if (s.sockets c).isOpen && !throws c then
    { s with
      sockets := Function.update s.sockets c { s.sockets c with isOpen := false }
      jobs := cancel (Job.isOf c) s.jobs }
  else s

/-- `ConnectionManager::stop`. -/
def stopConnection (s : EventLoop) (throws : Nat → Bool) (c : Nat) : EventLoop :=
  closeSocket throws { s with connections := s.connections.erase c } c

/-- `ConnectionManager::stopAll`. -/
def stopAll (s : EventLoop) (throws : Nat → Bool) : EventLoop :=
  { s.connections.foldl (closeSocket throws) s with connections := [] }

/-- `ClientConnection::do_read` and `do_write`, where there is a packet to send. -/
def doRead (s : EventLoop) (c : Nat) : EventLoop := s.armSocket c (.read c)

def doWrite (s : EventLoop) (c : Nat) : EventLoop := s.armSocket c (.write c)

/-- `ConnectionManager::start` with a new connection. -/
def start (s : EventLoop) : EventLoop :=
  doRead { s with
    sockets := Function.update s.sockets s.accepted { isOpen := true }
    connections := s.connections ++ [s.accepted]
    accepted := s.accepted + 1 } s.accepted

/-! ## The handlers -/

/-- `DeviceManager::_periodicRegisterUpdates`. -/
def periodicRegisterUpdates (s : EventLoop) (doings : List Doing) : EventLoop :=
  ((s.mark .pollsRegisters).doesAll doings).armTimer

def onTimer (s : EventLoop) (o : Outcome) (doings : List Doing) : EventLoop :=
  if o = .success then s.periodicRegisterUpdates doings else s

def onAccept (s : EventLoop) (o : Outcome) : EventLoop :=
  if s.isListening then
    if o = .success then s.start.doAccept else s.doAccept
  else s

/-- The messages of a read that are answered. -/
def answerAll (s : EventLoop) (c : Nat) (answered : List (List Doing)) : EventLoop :=
  answered.foldl (fun s doings => (s.doesAll doings).send c) s

def onRead (s : EventLoop) (c : Nat) (o : Outcome) (i : HandlerInput) : EventLoop :=
  match o with
  | .success =>
    let s := (s.answerAll c i.answered).doesAll i.doings
    if i.stops then s.stopConnection i.shutdownThrows c else s.doRead c
  | .failed => s.stopConnection i.shutdownThrows c
  | .aborted => s

def onWrite (s : EventLoop) (c : Nat) (o : Outcome) (i : HandlerInput) : EventLoop :=
  match o with
  | .success =>
    if i.sentInFull then
      let s := s.setUnsent c ((s.sockets c).unsent - 1)
      if (s.sockets c).unsent = 0 then s else s.doWrite c
    else s.doWrite c
  | .failed => s.stopConnection i.shutdownThrows c
  | .aborted => s

/-- The posted `do_write`. -/
def onDoWrite (s : EventLoop) (c : Nat) : EventLoop := if (s.sockets c).unsent = 0 then s else s.doWrite c

/-- The signal handler: `DeviceManager::stop`, `Server::stop` and `libusb_service::stop`. -/
def onSignal (s : EventLoop) (throws : Nat → Bool) : EventLoop :=
  let s := { s with jobs := cancel (fun j => j == Job.timer) s.jobs }
  let s := { s with isListening := false, jobs := cancel (fun j => j == Job.accept) s.jobs }.stopAll throws
  { s with usb := s.usb.stop, stopped := true }

def handle (s : EventLoop) (o : Outcome) (i : HandlerInput) : Job → EventLoop
  | .timer => s.onTimer o i.doings
  | .accept => s.onAccept o
  | .read c => s.onRead c o i
  | .write c => s.onWrite c o i
  | .doWrite c => s.onDoWrite c
  | .hotplug _ => s.doesAll i.doings
  | .signal => s.onSignal i.shutdownThrows

/-- The handler of a watcher. -/
def onWatcher (s : EventLoop) (w : Nat) (d : Direction) (o : Outcome) (reports : List LibusbReport) : EventLoop :=
  if o = .aborted then s
  else
    let s := reports.foldl reported s
    s.setUsb (s.usb.handlerEnds w d o)

/-! ## Runs -/

inductive LoopEvent where
  | completes (j : Job) (o : Outcome)
  | ready (w : Nat) (d : Direction) (o : Outcome)
  | runs (j : Job) (o : Outcome) (i : HandlerInput)
  | watcher (w : Nat) (d : Direction) (o : Outcome) (reports : List LibusbReport)

/-- A wait completes, or a queued handler runs. -/
inductive Step : EventLoop → LoopEvent → EventLoop → Prop where
  | completes (s : EventLoop) (j : Job) (o : Outcome) (ho : o ≠ .aborted) {jobs : List (Operation Job)}
    (h : Moves j .waiting (.queued o) s.jobs jobs) : Step s (.completes j o) { s with jobs := jobs }
  | ready (s : EventLoop) (w : Nat) (d : Direction) (o : Outcome) (ho : o ≠ .aborted)
    {waits : List (Operation (Nat × Direction))} (h : Moves (w, d) .waiting (.queued o) s.usb.waits waits) :
    Step s (.ready w d o) { s with usb := { s.usb with waits := waits } }
  | runs (s : EventLoop) (j : Job) (o : Outcome) (i : HandlerInput) {jobs : List (Operation Job)}
    (h : Ends j (.queued o) s.jobs jobs) : Step s (.runs j o i) (handle { s with jobs := jobs } o i j)
  | watcher (s : EventLoop) (w : Nat) (d : Direction) (o : Outcome) (reports : List LibusbReport)
    {waits : List (Operation (Nat × Direction))} (h : Ends (w, d) (.queued o) s.usb.waits waits) :
    Step s (.watcher w d o reports) (onWatcher { s with usb := { s.usb with waits := waits } } w d o reports)

/-- The runs whose events all meet a condition. -/
inductive Run (M : EventLoop → LoopEvent → Prop) : EventLoop → List LoopEvent → EventLoop → Prop where
  | refl (s : EventLoop) : Run M s [] s
  | tail {s s' s'' : EventLoop} {events : List LoopEvent} {e : LoopEvent} (h : Run M s events s') (he : M s' e)
    (hs : Step s' e s'') : Run M s (events ++ [e]) s''

/-- `main`, with the descriptors libusb polls from the beginning and the devices that are there. -/
def initial (pollfds : List (Nat × UInt16)) (present : List Nat) : EventLoop :=
  let s := { usb := LibusbService.construct pollfds, isListening := true : EventLoop }
  let s := (present.foldl (fun s dev => s.post (.hotplug (.arrived dev))) s).periodicRegisterUpdates []
  { s.doAccept with jobs := arm .signal s.doAccept.jobs }

end EventLoop
end Fpga
