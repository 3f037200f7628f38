import FpgaServer.ClientConnection
import FpgaServer.Multicast
/-!
# Server — the connections of the server

`ClientConnection::do_read`, `ConnectionManager` and `Server` over any application: what a request does, and what a device
handler does, are the packets broadcast meanwhile, in order, and the new state; a request gives a reply or throws.  The log
is the server's as `Multicast` has it.  `Mailed` relates the log to the queues at every moment, inside a handler as well;
between handlers the log deals with one request at a time (`Sound`).
-/
namespace Fpga

open Base (Act Interleave)
open Base.Act

/-- `σ` is the application's state, `α` its requests, `ι` what else the event loop runs; `none` ends the process. -/
structure Application (σ α ι : Type) where
  handleRequest : α → σ → Option (List Buffer × Option Buffer × σ)
  act : ι → σ → Option (List Buffer × σ)

/-- In some state the request leads to these broadcasts, and to this reply if it does not throw. -/
def Application.Handles {σ α ι : Type} (A : Application σ α ι) (request : α) (events : List Buffer)
    (reply : Option Buffer) : Prop :=
  ∃ app app', A.handleRequest request app = some (events, reply, app')

/-- How the unpacker stops: at an incomplete message, of which it has so many bytes, or at an error. -/
inductive Ending where
  | incomplete (messageSize : Nat)
  | unpackError
  deriving DecidableEq, Repr

/-- How a read completes: with data, given as what the unpacker makes of it, or with an error. -/
inductive Completion (α : Type) where
  | data (messages : List α) (ending : Ending)
  | error (aborted : Bool)
  deriving DecidableEq, Repr

structure Client (α : Type) where
  outgoing : Outgoing := {}
  /-- The handler of an asynchronous read has not run yet. -/
  reading : Bool := false
  /-- What it is queued with, once the read has completed. -/
  completion : Option (Completion α) := none
  isOpen : Bool := true
  /-- What `shutdown` would do to the socket now. -/
  shutdownThrows : Bool := false

/-- `ClientConnection::stop`: a `shutdown` that throws skips `close`.  Closing the socket aborts a read that has not
completed. -/
def Client.stop {α : Type} (client : Client α) : Client α :=
  if client.isOpen && !client.shutdownThrows then
    { client with
      isOpen := false
      completion := if client.reading && client.completion.isNone then some (.error true) else client.completion }
  else client

theorem Client.stop_outgoing {α : Type} (client : Client α) : client.stop.outgoing = client.outgoing := by
  unfold Client.stop
  split <;> rfl

theorem Client.stop_reading {α : Type} (client : Client α) : client.stop.reading = client.reading := by
  unfold Client.stop
  split <;> rfl

theorem Client.stop_stop {α : Type} (client : Client α) : client.stop.stop = client.stop := by
  unfold Client.stop
  by_cases h : client.isOpen && !client.shutdownThrows
  · rw [if_pos h]
    exact if_neg (by simp)
  · rw [if_neg h, if_neg h]

theorem Client.stop_with {α : Type} (client : Client α) (o : Outgoing) :
    { client with outgoing := o }.stop = { client.stop with outgoing := o } := by
  unfold Client.stop
  dsimp only
  split <;> rfl

structure Server (σ α : Type) where
  app : σ
  connections : List Nat := []
  clients : Nat → Client α := fun _ => {}
  accepted : Nat := 0
  isListening : Bool := true
  log : List (Act Nat α Buffer) := []

def controlMsgMaxBytes : Nat := 10 * 1024 * 1024

namespace Server

variable {σ α ι : Type}

def onClient (n : Server σ α) (c : Nat) (f : Client α → Client α) : Server σ α :=
  { n with clients := Function.update n.clients c (f (n.clients c)) }

def record (n : Server σ α) (a : Act Nat α Buffer) : Server σ α := { n with log := n.log ++ [a] }

/-- `ClientConnection::send`. -/
def send (n : Server σ α) (c : Nat) (buffer : Buffer) : Server σ α :=
  n.onClient c (fun client => { client with outgoing := client.outgoing.send buffer })

/-- `ClientConnection::do_read` up to the completion of the read. -/
def doRead (n : Server σ α) (c : Nat) : Server σ α := n.onClient c (fun client => { client with reading := true })

/-- The handler of a read has been taken off the queue. -/
def readDone (n : Server σ α) (c : Nat) : Server σ α :=
  n.onClient c (fun client => { client with reading := false, completion := none })

/-- `ConnectionManager::start` with a new connection. -/
def start (n : Server σ α) : Server σ α :=
  doRead { n.record (.join n.accepted) with connections := n.connections ++ [n.accepted], accepted := n.accepted + 1 }
    n.accepted

/-- `ClientConnection::stop`, of a connection that is out of the set. -/
def stopClient (n : Server σ α) (c : Nat) : Server σ α :=
  (n.record (.leave c)).onClient c Client.stop

/-- `ConnectionManager::stop`. -/
def stop (n : Server σ α) (c : Nat) : Server σ α := stopClient { n with connections := n.connections.erase c } c

/-- `ConnectionManager::stopAll`. -/
def stopAll (n : Server σ α) : Server σ α := { n.connections.foldl stopClient n with connections := [] }

/-- `ConnectionManager::sendAll`. -/
def sendAll (n : Server σ α) (buffer : Buffer) : Server σ α :=
  n.connections.foldl (fun n c => n.send c buffer) (n.record (.broadcast buffer))

/-- The handler of `async_accept`. -/
def onAccept (n : Server σ α) (error : Bool) : Server σ α :=
  if n.isListening then
    if error then n else n.start
  else n

/-- `Server::stop`. -/
def close (n : Server σ α) : Server σ α := { n with isListening := false }.stopAll

/-- The packets broadcast by a handler of the application, and the state it leaves. -/
def notify (n : Server σ α) (events : List Buffer) (app : σ) : Server σ α := { events.foldl sendAll n with app := app }

/-- The loop over the parsed messages; false if a request throws, which stops the connection. -/
def handleMessages (A : Application σ α ι) (c : Nat) : List α → Server σ α → Option (Server σ α × Bool)
  | [], n => some (n, true)
  | request :: messages, n =>
    match A.handleRequest request n.app with
    | none => none
    | some (events, reply, app) =>
      let n := (n.record (.ask c request)).notify events app
      match reply with
      | none => some (n.stop c, false)
      | some buffer => handleMessages A c messages ((n.record (.answer c buffer)).send c buffer)

/-- The handler of `async_read_some` where the read succeeds. -/
def onRead (A : Application σ α ι) (c : Nat) (messages : List α) (ending : Ending) (n : Server σ α) :
    Option (Server σ α) :=
  match handleMessages A c messages (n.readDone c) with
  | none => none
  | some (n, false) => some n
  | some (n, true) =>
    match ending with
    | .unpackError => some (n.stop c)
    | .incomplete messageSize => some (if messageSize > controlMsgMaxBytes then n.stop c else n.doRead c)

/-- The same where it fails; a read that was aborted is not reported. -/
def onReadError (n : Server σ α) (c : Nat) (aborted : Bool) : Server σ α :=
  let n := n.readDone c
  if aborted then n else n.stop c

def setOutgoing (n : Server σ α) (c : Nat) (o : Outgoing) : Server σ α :=
  n.onClient c (fun client => { client with outgoing := o })

/-- The result of a read is queued for its handler. -/
def queueCompletion (n : Server σ α) (c : Nat) (completion : Completion α) : Server σ α :=
  n.onClient c (fun client => { client with completion := some completion })

def setShutdown (n : Server σ α) (c : Nat) (throws : Bool) : Server σ α :=
  n.onClient c (fun client => { client with shutdownThrows := throws })

/-- What the event loop runs, and what the sockets do meanwhile. -/
inductive Step (A : Application σ α ι) : Server σ α → Server σ α → Prop where
  | accept (n : Server σ α) (error : Bool) : Step A n (n.onAccept error)
  | complete (n : Server σ α) (c : Nat) (completion : Completion α) (hc : (n.clients c).reading = true)
    (hq : (n.clients c).completion = none) (ho : (n.clients c).isOpen = true ∨ ∃ aborted, completion = .error aborted) :
    Step A n (n.queueCompletion c completion)
  | shutdown (n : Server σ α) (c : Nat) (throws : Bool) : Step A n (n.setShutdown c throws)
  | read (n n' : Server σ α) (c : Nat) (messages : List α) (ending : Ending) (hc : (n.clients c).reading = true)
    (hq : (n.clients c).completion = some (.data messages ending)) (hn : onRead A c messages ending n = some n') :
    Step A n n'
  | readError (n : Server σ α) (c : Nat) (aborted : Bool) (hc : (n.clients c).reading = true)
    (hq : (n.clients c).completion = some (.error aborted)) : Step A n (n.onReadError c aborted)
  | transfer (n : Server σ α) (c : Nat) (o : Outgoing) (ho : (n.clients c).outgoing.Transfer o) :
    Step A n (n.setOutgoing c o)
  | writeError (n : Server σ α) (c : Nat) (o : Outgoing) (aborted : Bool) (hc : c < n.accepted)
    (ho : (n.clients c).outgoing.Fails o) :
    Step A n (if aborted then n.setOutgoing c o else (n.setOutgoing c o).stop c)
  | act (n : Server σ α) (i : ι) (events : List Buffer) (app : σ) (h : A.act i n.app = some (events, app)) :
    Step A n (n.notify events app)
  | close (n : Server σ α) : Step A n n.close

/-- The server has just begun to listen. -/
def initial (app : σ) : Server σ α where
  app := app

/-! ## The queues and the log -/

theorem foldl_send (buffer : Buffer) : ∀ (cs : List Nat) (n : Server σ α), cs.Nodup →
    cs.foldl (fun n c => n.send c buffer) n = { n with
      clients := fun c =>
        if c ∈ cs then { n.clients c with outgoing := (n.clients c).outgoing.send buffer } else n.clients c }
  | [], n, _ => by simp
  | d :: cs, n, h => by
    obtain ⟨hd, hcs⟩ := List.nodup_cons.1 h
    rw [List.foldl_cons, foldl_send buffer cs _ hcs]
    unfold send onClient
    congr 1
    funext c
    by_cases hc : c = d
    · subst hc
      simp [hd]
    · simp [hc]

theorem foldl_stopClient : ∀ (cs : List Nat) (n : Server σ α), cs.foldl stopClient n = { n with
    log := n.log ++ cs.map .leave
    clients := fun c => if c ∈ cs then (n.clients c).stop else n.clients c }
  | [], n => by simp
  | d :: cs, n => by
    rw [List.foldl_cons, foldl_stopClient cs]
    unfold stopClient onClient record
    congr 1
    · funext c
      by_cases hc : c = d
      · subst hc
        simp [Client.stop_stop]
      · simp [hc]
    · simp

/-- The set holds the clients that are in, and their queues have received their mail. -/
structure Mailed (n : Server σ α) : Prop where
  nodup : n.connections.Nodup
  member : ∀ c, c ∈ n.connections ↔ joined c n.log = true
  enqueued : ∀ c, (n.clients c).outgoing.sent = (mail c n.log).map (Sum.elim id id)
  orderly : ∀ c, (n.clients c).outgoing.Orderly

theorem mailed_initial (app : σ) : Mailed (initial app : Server σ α) where
  nodup := List.nodup_nil
  member _ := by simp [initial, joined]
  enqueued _ := rfl
  orderly _ := Outgoing.orderly_initial

theorem Mailed.sendAll {n : Server σ α} (h : Mailed n) (buffer : Buffer) : Mailed (n.sendAll buffer) := by
  unfold Server.sendAll
  rw [foldl_send buffer _ _ h.nodup]
  constructor
  · exact h.nodup
  · intro c
    dsimp only [record]
    rw [h.member c, joined_snoc]
    exact Iff.rfl
  · intro c
    have hm := h.member c
    have he := h.enqueued c
    dsimp only [record]
    rw [mail_snoc, List.map_append, ← he]
    by_cases hc : c ∈ n.connections
    · simp [hc, hm.1 hc, inbox, Outgoing.send]
    · simp [hc, mt hm.2 hc, inbox]
  · intro c
    dsimp only [record]
    split
    · exact (h.orderly c).send buffer
    · exact h.orderly c

theorem Mailed.foldl_sendAll {n : Server σ α} (h : Mailed n) : ∀ events : List Buffer, Mailed (events.foldl Server.sendAll n) := by
  intro events
  induction events generalizing n with
  | nil => exact h
  | cons e events ih => exact ih (h.sendAll e)

theorem Mailed.answer {n : Server σ α} (h : Mailed n) (c : Nat) (buffer : Buffer) :
    Mailed ((n.record (.answer c buffer)).send c buffer) := by
  constructor
  · exact h.nodup
  · intro d
    dsimp only [Server.send, onClient, record]
    rw [h.member d, joined_snoc]
    exact Iff.rfl
  · intro d
    have he := h.enqueued d
    dsimp only [Server.send, onClient, record]
    rw [mail_snoc, List.map_append, ← he]
    by_cases hd : d = c
    · subst hd
      simp [inbox, Outgoing.send]
    · simp [hd, Ne.symm hd, inbox]
  · intro d
    dsimp only [Server.send, onClient, record]
    by_cases hd : d = c
    · subst hd
      simpa using (h.orderly d).send buffer
    · simpa [hd] using h.orderly d

/-- Steps that enqueue nothing, with acts that nobody receives. -/
theorem Mailed.quiet {n n' : Server σ α} {more : List (Act Nat α Buffer)} (h : Mailed n) (hconn : n'.connections.Nodup)
    (hlog : n'.log = n.log ++ more) (hmember : ∀ c, c ∈ n'.connections ↔ joined c (n.log ++ more) = true)
    (hmail : ∀ c, mail c (n.log ++ more) = mail c n.log)
    (hout : ∀ c, (n'.clients c).outgoing = (n.clients c).outgoing) : Mailed n' := by
  constructor
  · exact hconn
  · intro c
    rw [hlog]
    exact hmember c
  · intro c
    rw [hlog, hmail, hout, h.enqueued]
  · intro c
    rw [hout]
    exact h.orderly c

theorem Mailed.onClient {n : Server σ α} (h : Mailed n) (c : Nat) {f : Client α → Client α}
    (hf : (f (n.clients c)).outgoing.sent = (n.clients c).outgoing.sent) (ho : (f (n.clients c)).outgoing.Orderly) :
    Mailed (n.onClient c f) := by
  refine ⟨h.nodup, h.member, fun d => Eq.trans ?_ (h.enqueued d), fun d => ?_⟩
  · unfold Server.onClient
    by_cases hd : d = c
    · subst hd
      simp [hf]
    · simp [hd]
  · unfold Server.onClient
    by_cases hd : d = c
    · subst hd
      simpa using ho
    · simpa [hd] using h.orderly d

theorem Mailed.ask {n : Server σ α} (h : Mailed n) (c : Nat) (request : α) : Mailed (n.record (.ask c request)) := by
  refine h.quiet h.nodup rfl (fun d => ?_) (fun d => ?_) (fun _ => rfl)
  · rw [joined_snoc]
    exact h.member d
  · rw [mail_snoc]
    exact List.append_nil _

theorem Mailed.start {n : Server σ α} (h : Mailed n) (hfresh : .join n.accepted ∉ n.log) : Mailed n.start := by
  have hnew : n.accepted ∉ n.connections := fun hm =>
    hfresh ((mem_join_of_run ((h.member _).1 hm)).resolve_left (by simp))
  have hjoined : Mailed { n.record (.join n.accepted) with
      connections := n.connections ++ [n.accepted], accepted := n.accepted + 1 } := by
    refine h.quiet ?_ rfl (fun c => ?_) (fun c => ?_) (fun _ => rfl)
    · refine List.nodup_append.2 ⟨h.nodup, List.pairwise_singleton _ _, fun a ha b hb hab => ?_⟩
      cases List.mem_singleton.1 hb
      exact hnew (hab ▸ ha)
    · rw [joined_snoc, joins, ← Bool.decide_coe (joined c n.log)]
      simp [h.member, eq_comm (a := c)]
    · rw [mail_snoc]
      exact List.append_nil _
  unfold Server.start doRead
  exact hjoined.onClient _ rfl (h.orderly _)

theorem Mailed.stop {n : Server σ α} (h : Mailed n) (c : Nat) : Mailed (n.stop c) := by
  have hleft : Mailed (record { n with connections := n.connections.erase c } (.leave c)) := by
    refine h.quiet (h.nodup.erase c) rfl (fun d => ?_) (fun d => ?_) (fun _ => rfl)
    · unfold record
      rw [h.nodup.mem_erase_iff, h.member, joined_snoc, joins]
      simp [and_comm, eq_comm (a := c)]
    · rw [mail_snoc]
      exact List.append_nil _
  have hout := Client.stop_outgoing (n.clients c)
  unfold Server.stop stopClient
  exact hleft.onClient _ (congrArg Outgoing.sent hout) (hout.symm ▸ h.orderly c)

theorem Mailed.stopAll {n : Server σ α} (h : Mailed n) : Mailed n.stopAll := by
  unfold Server.stopAll
  rw [foldl_stopClient]
  refine h.quiet List.nodup_nil rfl (fun c => ?_) (fun c => ?_) (fun c => ?_)
  · rw [joined_append, run_leaves]
    simpa using (h.member c).2
  · rw [mail_append, run_leaves, List.append_nil]
  · dsimp only
    split
    · exact Client.stop_outgoing _
    · rfl

/-! ## One handler at a time -/

/-- What a handler leaves alone: nobody joins, and of a client only the queue changes, unless it is stopped. -/
structure Keeps (n n' : Server σ α) (more : List (Act Nat α Buffer)) : Prop where
  log : n'.log = n.log ++ more
  joins : ∀ d, .join d ∉ more
  accepted : n'.accepted = n.accepted
  clients : ∀ d, .leave d ∉ more ∧ (∃ o, n'.clients d = { n.clients d with outgoing := o }) ∨
    .leave d ∈ more ∧ ∃ o, n'.clients d = { (n.clients d).stop with outgoing := o }

theorem Keeps.reading {n n' : Server σ α} {more : List (Act Nat α Buffer)} (h : Keeps n n' more) (d : Nat) :
    (n'.clients d).reading = (n.clients d).reading := by
  rcases h.clients d with ⟨-, o, ho⟩ | ⟨-, o, ho⟩
  · rw [ho]
  · rw [ho]
    exact Client.stop_reading _

theorem keeps_refl (n : Server σ α) : Keeps n n [] where
  log := (List.append_nil _).symm
  joins _ := List.not_mem_nil
  accepted := rfl
  clients _ := .inl ⟨List.not_mem_nil, _, rfl⟩

theorem Keeps.trans {n n' n'' : Server σ α} {more more' : List (Act Nat α Buffer)} (h : Keeps n n' more)
    (h' : Keeps n' n'' more') : Keeps n n'' (more ++ more') where
  log := by rw [h'.log, h.log, List.append_assoc]
  joins d hd := (List.mem_append.1 hd).elim (h.joins d) (h'.joins d)
  accepted := h'.accepted.trans h.accepted
  clients d := by
    rw [List.mem_append, not_or]
    rcases h.clients d with ⟨hd, o, ho⟩ | ⟨hd, o, ho⟩ <;> rcases h'.clients d with ⟨hd', o', ho'⟩ | ⟨hd', o', ho'⟩
    · exact .inl ⟨⟨hd, hd'⟩, o', by rw [ho', ho]⟩
    · exact .inr ⟨.inr hd', o', by rw [ho', ho, Client.stop_with]⟩
    · exact .inr ⟨.inl hd, o', by rw [ho', ho]⟩
    · exact .inr ⟨.inl hd, o', by rw [ho', ho, Client.stop_with, Client.stop_stop]⟩

theorem keeps_record (n : Server σ α) {a : Act Nat α Buffer} (ha : ∀ d, a ≠ .join d ∧ a ≠ .leave d) :
    Keeps n (n.record a) [a] where
  log := rfl
  joins d hd := (ha d).1 (List.mem_singleton.1 hd).symm
  accepted := rfl
  clients d := .inl ⟨fun hd => (ha d).2 (List.mem_singleton.1 hd).symm, _, rfl⟩

theorem keeps_outgoing (n : Server σ α) (c : Nat) (f : Outgoing → Outgoing) :
    Keeps n (n.onClient c (fun client => { client with outgoing := f client.outgoing })) [] where
  log := (List.append_nil _).symm
  joins _ := List.not_mem_nil
  accepted := rfl
  clients d := by
    refine .inl ⟨List.not_mem_nil, ?_⟩
    unfold onClient
    by_cases hd : d = c
    · subst hd
      exact ⟨_, Function.update_self ..⟩
    · exact ⟨_, Function.update_of_ne hd ..⟩

theorem keeps_stop (n : Server σ α) (c : Nat) : Keeps n (n.stop c) [.leave c] where
  log := rfl
  joins := by simp
  accepted := rfl
  clients d := by
    unfold Server.stop stopClient onClient record
    by_cases hd : d = c
    · subst hd
      exact .inr ⟨List.mem_singleton_self _, _, Function.update_self ..⟩
    · exact .inl ⟨by simp [hd], _, Function.update_of_ne hd ..⟩

theorem keeps_close (n : Server σ α) : Keeps n n.close (n.connections.map .leave) := by
  unfold close stopAll
  rw [foldl_stopClient]
  refine ⟨rfl, by simp, rfl, fun d => ?_⟩
  by_cases hd : d ∈ n.connections
  · exact .inr ⟨by simpa using hd, _, if_pos hd⟩
  · exact .inl ⟨by simpa using hd, _, if_neg hd⟩

theorem keeps_answer (n : Server σ α) (c : Nat) (buffer : Buffer) :
    Keeps n ((n.record (.answer c buffer)).send c buffer) [.answer c buffer] :=
  (keeps_record n (by simp)).trans (keeps_outgoing _ c (·.send buffer))

theorem keeps_sendAll {n : Server σ α} (h : n.connections.Nodup) (buffer : Buffer) :
    Keeps n (n.sendAll buffer) [.broadcast buffer] := by
  unfold sendAll
  rw [foldl_send buffer _ _ h]
  refine ⟨rfl, by simp, rfl, fun d => .inl ⟨by simp, ?_⟩⟩
  dsimp only
  split
  · exact ⟨_, rfl⟩
  · exact ⟨_, rfl⟩

theorem keeps_notify {n : Server σ α} (h : Mailed n) (events : List Buffer) (app : σ) :
    Keeps n (n.notify events app) (events.map .broadcast) := by
  have hfold : ∀ (events : List Buffer) {n : Server σ α}, Mailed n →
      Keeps n (events.foldl sendAll n) (events.map .broadcast) := by
    intro events
    induction events with
    | nil => exact fun _ => keeps_refl _
    | cons e events ih => exact fun h => (keeps_sendAll h.nodup e).trans (ih (h.sendAll e))
  exact ⟨(hfold events h).log, (hfold events h).joins, (hfold events h).accepted, (hfold events h).clients⟩

theorem Mailed.notify {n : Server σ α} (h : Mailed n) (events : List Buffer) (app : σ) : Mailed (n.notify events app) :=
  ⟨(h.foldl_sendAll events).nodup, (h.foldl_sendAll events).member, (h.foldl_sendAll events).enqueued,
    (h.foldl_sendAll events).orderly⟩

variable {A : Application σ α ι}

/-- What a read makes of its messages: each is answered before the next, up to one that throws, which ends in a stop. -/
structure Handled (A : Application σ α ι) (c : Nat) (messages : List α) (n n' : Server σ α) (ok : Bool)
    (asked : List (Act Nat α Buffer)) : Prop where
  mailed : Mailed n'
  served : Served A.Handles n'.log
  keeps : Keeps n n' (asked ++ if ok then [] else [.leave c])
  stays : ∀ d, .leave d ∉ asked
  others : ∀ d, d ≠ c → dialogue d (asked ++ if ok then [] else [.leave c]) = []
  answered : ok = true → ¬ Hanging c n'.log ∧ asks c asked = messages
  thrown : ok = false → Hanging c n'.log ∧ asks c asked <+: messages

theorem handleMessages_spec (c : Nat) : ∀ (messages : List α) {n n' : Server σ α} {ok : Bool},
    handleMessages A c messages n = some (n', ok) → Mailed n → Served A.Handles n.log → ¬ Hanging c n.log →
    ∃ asked, Handled A c messages n n' ok asked
  | [], n, n', ok, h, hm, hs, hc => by
    cases h
    exact ⟨[], hm, hs, keeps_refl _, fun _ => List.not_mem_nil, fun _ _ => rfl, fun _ => ⟨hc, rfl⟩, by simp⟩
  | request :: messages, n, n', ok, h, hm, hs, hc => by
    rw [handleMessages] at h
    cases hr : A.handleRequest request n.app with
    | none => simp [hr] at h
    | some r =>
      obtain ⟨events, reply, app⟩ := r
      have hnotified := (hm.ask c request).notify events app
      have hkept := (keeps_record n (a := .ask c request) (by simp)).trans (keeps_notify (hm.ask c request) events app)
      simp only [hr] at h
      cases reply with
      | none =>
        cases h
        have hk := hkept.trans (keeps_stop _ c)
        refine ⟨[.ask c request] ++ events.map .broadcast, hnotified.stop c, ?_, hk, by simp, fun d hd => ?_, by simp,
          fun _ => ⟨?_, ?_⟩⟩
        · rw [hk.log]
          exact .dropped c request events hs hc ⟨_, _, hr⟩
        · exact (dialogue_dropped d c request events).trans (if_neg (Ne.symm hd))
        · rw [hk.log]
          exact hanging_dropped c n.log request events
        · rw [List.singleton_append, asks_ask]
          exact List.prefix_append [request] messages
      | some buffer =>
        have hk := hkept.trans (keeps_answer _ c buffer)
        have hlog : _ = n.log ++ .ask c request :: (events.map .broadcast ++ [.answer c buffer]) := hk.log
        obtain ⟨asked, hh⟩ := handleMessages_spec c messages h (hnotified.answer c buffer)
          (by
            rw [hlog]
            exact .exchange c request events buffer hs hc ⟨_, _, hr⟩)
          (by
            rw [hlog]
            exact not_hanging_exchange c request events buffer)
        have hall := hk.trans hh.keeps
        have hasks : asks c ([.ask c request] ++ events.map .broadcast ++ [.answer c buffer] ++ asked) =
            request :: asks c asked := by
          rw [asks_append]
          exact congrArg (· ++ asks c asked) (asks_exchange c request events buffer)
        rw [← List.append_assoc] at hall
        refine ⟨_, hh.mailed, hh.served, hall, fun d hin => ?_, fun d hdc => ?_, fun hok => ⟨(hh.answered hok).1, ?_⟩,
          fun hok => ⟨(hh.thrown hok).1, ?_⟩⟩
        · rcases List.mem_append.1 hin with hin | hin
          · simp at hin
          · exact hh.stays d hin
        · rw [List.append_assoc, dialogue_append, hh.others d hdc, List.append_nil]
          exact (dialogue_exchange d c request events buffer).trans (if_neg (Ne.symm hdc))
        · rw [hasks, (hh.answered hok).2]
        · rw [hasks]
          exact (List.prefix_cons_inj request).2 (hh.thrown hok).2

/-- The invariant between handlers. -/
structure Sound (A : Application σ α ι) (n : Server σ α) : Prop where
  mailed : Mailed n
  served : Served A.Handles n.log
  waiting : ∀ c, Hanging c n.log → (n.clients c).reading = false
  fresh : ∀ c, n.accepted ≤ c → .join c ∉ n.log ∧ dialogue c n.log = [] ∧ (n.clients c).reading = false

theorem sound_initial (app : σ) : Sound A (initial app : Server σ α) where
  mailed := mailed_initial app
  served := .nil
  waiting _ _ := rfl
  fresh _ _ := ⟨List.not_mem_nil, rfl, rfl⟩

/-- For each client, a handler either adds nothing to its dialogue and starts no read, or leaves its dialogue in order. -/
theorem Sound.extend {n n' : Server σ α} {more : List (Act Nat α Buffer)} (h : Sound A n) (hm : Mailed n')
    (hs : Served A.Handles n'.log) (hlog : n'.log = n.log ++ more) (hjoin : ∀ d, .join d ∉ more)
    (hacc : n'.accepted = n.accepted)
    (hd : ∀ d, (dialogue d more = [] ∧ ((n'.clients d).reading = true → (n.clients d).reading = true)) ∨
      (d < n.accepted ∧ (Hanging d n'.log → (n'.clients d).reading = false))) : Sound A n' := by
  constructor
  · exact hm
  · exact hs
  · intro d hh
    rcases hd d with ⟨hnone, hread⟩ | ⟨-, hwait⟩
    · rw [hlog, hanging_append hnone] at hh
      exact Bool.eq_false_iff.2 (fun ht => Bool.eq_false_iff.1 (h.waiting d hh) (hread ht))
    · exact hwait hh
  · intro d hle
    rw [hacc] at hle
    obtain ⟨hj, hq, hr⟩ := h.fresh d hle
    rcases hd d with ⟨hnone, hread⟩ | ⟨hlt, -⟩
    · refine ⟨?_, ?_, Bool.eq_false_iff.2 (fun ht => Bool.eq_false_iff.1 hr (hread ht))⟩
      · rw [hlog]
        exact fun hin => (List.mem_append.1 hin).elim hj (hjoin d)
      · rw [hlog, dialogue_append, hq, hnone]
        rfl
    · omega

/-- A handler without a request. -/
theorem Sound.keeps {n n' : Server σ α} {more : List (Act Nat α Buffer)} (h : Sound A n) (hk : Keeps n n' more)
    (hm : Mailed n') (hs : Served A.Handles (n.log ++ more)) (hd : ∀ d, dialogue d more = []) : Sound A n' :=
  h.extend hm (hk.log ▸ hs) hk.log hk.joins hk.accepted (fun d => .inl ⟨hd d, fun hr => hk.reading d ▸ hr⟩)

theorem Sound.onClient {n : Server σ α} (h : Sound A n) (c : Nat) {f : Client α → Client α}
    (hf : (f (n.clients c)).outgoing.sent = (n.clients c).outgoing.sent) (ho : (f (n.clients c)).outgoing.Orderly)
    (hr : (f (n.clients c)).reading = true → (n.clients c).reading = true) : Sound A (n.onClient c f) := by
  refine h.extend (h.mailed.onClient c hf ho) h.served (List.append_nil _).symm (fun _ => List.not_mem_nil) rfl
    (fun d => .inl ⟨rfl, ?_⟩)
  unfold Server.onClient
  by_cases hd : d = c
  · subst hd
    simpa using hr
  · simp [hd]

theorem Sound.stop {n : Server σ α} (h : Sound A n) (c : Nat) : Sound A (n.stop c) :=
  h.keeps (keeps_stop n c) (h.mailed.stop c) (.leave c h.served) (fun _ => rfl)

theorem served_leaves {R : α → List Buffer → Option Buffer → Prop} : ∀ (cs : List Nat) {log : List (Act Nat α Buffer)},
    Served R log → Served R (log ++ cs.map .leave)
  | [], log, h => by rwa [List.map_nil, List.append_nil]
  | c :: cs, log, h => by
    rw [List.map_cons, List.append_cons]
    exact served_leaves cs (.leave c h)

theorem served_broadcasts {R : α → List Buffer → Option Buffer → Prop} : ∀ (bs : List Buffer)
    {log : List (Act Nat α Buffer)}, Served R log → Served R (log ++ bs.map .broadcast)
  | [], log, h => by rwa [List.map_nil, List.append_nil]
  | b :: bs, log, h => by
    rw [List.map_cons, List.append_cons]
    exact served_broadcasts bs (.broadcast b h)

theorem Sound.notify {n : Server σ α} (h : Sound A n) (events : List Buffer) (app : σ) : Sound A (n.notify events app) :=
  h.keeps (keeps_notify h.mailed events app) (h.mailed.notify events app) (served_broadcasts events h.served)
    (fun d => dialogue_broadcasts d events)

theorem Sound.close {n : Server σ α} (h : Sound A n) : Sound A n.close := by
  have hm : Mailed { n with isListening := false } := ⟨h.mailed.nodup, h.mailed.member, h.mailed.enqueued, h.mailed.orderly⟩
  refine h.keeps (keeps_close n) hm.stopAll (served_leaves _ h.served) (fun d => ?_)
  unfold dialogue
  rw [List.filterMap_map]
  exact List.filterMap_eq_nil_iff.2 (fun _ _ => rfl)

theorem Sound.start {n : Server σ α} (h : Sound A n) : Sound A n.start := by
  obtain ⟨hjoin, hdialogue, -⟩ := h.fresh n.accepted (Nat.le_refl _)
  have hclients : ∀ d, ((n.start.clients d).reading = if d = n.accepted then true else (n.clients d).reading) := by
    intro d
    unfold Server.start doRead Server.onClient
    by_cases hd : d = n.accepted
    · subst hd
      simp
    · simp [hd, record]
  have hnone : ∀ d, dialogue d [(.join n.accepted : Act Nat α Buffer)] = [] := fun _ => rfl
  have hlog : n.start.log = n.log ++ [.join n.accepted] := rfl
  constructor
  · exact h.mailed.start hjoin
  · exact .join _ h.served hjoin
  · intro d hh
    rw [hlog, hanging_append (hnone d)] at hh
    rw [hclients, if_neg]
    · exact h.waiting d hh
    · rintro rfl
      obtain ⟨a, ha⟩ := hh
      rw [hdialogue] at ha
      cases ha
  · intro d hle
    have hle : n.accepted + 1 ≤ d := hle
    obtain ⟨hj, hq, hr⟩ := h.fresh d (by omega)
    refine ⟨?_, ?_, ?_⟩
    · rw [hlog]
      intro hin
      rcases List.mem_append.1 hin with hin | hin
      · exact hj hin
      · cases List.mem_singleton.1 hin
        omega
    · rw [hlog, dialogue_append, hq]
      rfl
    · rw [hclients, if_neg (by omega)]
      exact hr

/-- After the loop the connection is left to itself, stopped, or read again; the last only if every message was answered. -/
theorem onRead_cases {n n' : Server σ α} {c : Nat} {messages : List α} {ending : Ending}
    (h : onRead A c messages ending n = some n') :
    ∃ n₁ ok, handleMessages A c messages (n.readDone c) = some (n₁, ok) ∧
      (ok = false ∧ n' = n₁ ∨ ok = true ∧ (n' = n₁.stop c ∨ n' = n₁.doRead c)) := by
  unfold onRead at h
  cases hr : handleMessages A c messages (n.readDone c) with
  | none => simp [hr] at h
  | some r =>
    obtain ⟨n₁, ok⟩ := r
    refine ⟨n₁, ok, rfl, ?_⟩
    cases ok with
    | false => exact .inl ⟨rfl, by simpa [hr] using h.symm⟩
    | true =>
      cases ending with
      | unpackError => exact .inr ⟨rfl, .inl (by simpa [hr] using h.symm)⟩
      | incomplete messageSize =>
        by_cases hsize : messageSize > controlMsgMaxBytes
        · exact .inr ⟨rfl, .inl (by simpa [hr, hsize] using h.symm)⟩
        · exact .inr ⟨rfl, .inr (by simpa [hr, hsize] using h.symm)⟩

/-- A running read is of an accepted connection whose requests have been answered, and stays so until it completes. -/
theorem Sound.beforeRead {n : Server σ α} {c : Nat} (h : Sound A n) (hc : (n.clients c).reading = true) :
    Sound A (n.readDone c) ∧ ¬ Hanging c n.log ∧ c < n.accepted := by
  refine ⟨h.onClient c rfl (h.mailed.orderly c) (by simp), fun hh => ?_, ?_⟩
  · simp [h.waiting c hh] at hc
  · by_contra hle
    simp [(h.fresh c (by omega)).2.2] at hc

theorem Sound.read {n n' : Server σ α} {c : Nat} {messages : List α} {ending : Ending} (h : Sound A n)
    (hc : (n.clients c).reading = true) (hn : onRead A c messages ending n = some n') : Sound A n' := by
  obtain ⟨hdone, hcurrent, hlt⟩ := h.beforeRead hc
  obtain ⟨n₁, ok, hr, hn⟩ := onRead_cases hn
  obtain ⟨asked, hh⟩ := handleMessages_spec c messages hr hdone.mailed hdone.served hcurrent
  have hk := hh.keeps
  have hidle : (n₁.clients c).reading = false := by
    rw [hk.reading c]
    simp [readDone, Server.onClient]
  -- the reading flag of the connection is down, whatever became of its last request
  have h₁ : Sound A n₁ := hdone.extend hh.mailed hh.served hk.log hk.joins hk.accepted (fun d => by
    by_cases hdc : d = c
    · subst hdc
      exact .inr ⟨hlt, fun _ => hidle⟩
    · exact .inl ⟨hh.others d hdc, fun hr => hk.reading d ▸ hr⟩)
  rcases hn with ⟨rfl, rfl⟩ | ⟨rfl, rfl | rfl⟩
  · exact h₁
  · exact h₁.stop c
  · refine h₁.extend (h₁.mailed.onClient c rfl (h₁.mailed.orderly c)) h₁.served (List.append_nil _).symm (fun _ => List.not_mem_nil) rfl
      (fun d => ?_)
    by_cases hdc : d = c
    · subst hdc
      exact .inr ⟨hk.accepted ▸ hlt, fun hhang => absurd hhang (hh.answered rfl).1⟩
    · exact .inl ⟨rfl, fun hr => by simpa [doRead, Server.onClient, hdc] using hr⟩

theorem sent_transfer {o o' : Outgoing} (h : o.Transfer o') : o'.sent = o.sent := by
  cases h <;> rfl

theorem sent_fails {o o' : Outgoing} (h : o.Fails o') : o'.sent = o.sent := by
  cases h
  rfl

theorem Sound.step {n n' : Server σ α} (h : Sound A n) (hs : Step A n n') : Sound A n' := by
  cases hs with
  | accept error =>
    unfold onAccept
    split
    · split
      · exact h
      · exact h.start
    · exact h
  | complete c completion hc hq ho => exact h.onClient c rfl (h.mailed.orderly c) id
  | shutdown c throws => exact h.onClient c rfl (h.mailed.orderly c) id
  | read _ c messages ending hc hq hn => exact h.read hc hn
  | readError c aborted hc hq =>
    have hdone : Sound A (n.readDone c) := h.onClient c rfl (h.mailed.orderly c) (by simp)
    unfold onReadError
    dsimp only
    split
    · exact hdone
    · exact hdone.stop c
  | transfer c o ho => exact h.onClient c (sent_transfer ho) ((h.mailed.orderly c).step (.transfer ho)) id
  | writeError c o aborted hc ho =>
    have hout : Sound A (n.setOutgoing c o) := h.onClient c (sent_fails ho) ((h.mailed.orderly c).step (.fails ho)) id
    split
    · exact hout
    · exact hout.stop c
  | act i events app ha => exact h.notify events app
  | close => exact h.close

theorem Sound.run {n n' : Server σ α} (h : Sound A n) (hr : Relation.ReflTransGen (Step A) n n') : Sound A n' := by
  induction hr with
  | refl => exact h
  | tail _ hs ih => exact ih.step hs

theorem Sound.log_grows {n n' : Server σ α} (h : Sound A n) (hs : Step A n n') : n.log <+: n'.log := by
  cases hs with
  | accept error =>
    unfold onAccept
    split
    · split
      · exact List.prefix_rfl
      · exact List.prefix_append _ _
    · exact List.prefix_rfl
  | complete c completion hc hq ho => exact List.prefix_rfl
  | shutdown c throws => exact List.prefix_rfl
  | read _ c messages ending hc hq hn =>
    obtain ⟨hdone, hcurrent, -⟩ := h.beforeRead hc
    obtain ⟨n₁, ok, hr, hn⟩ := onRead_cases hn
    obtain ⟨asked, hh⟩ := handleMessages_spec c messages hr hdone.mailed hdone.served hcurrent
    have hpre : n.log <+: n₁.log := ⟨_, hh.keeps.log.symm⟩
    rcases hn with ⟨-, rfl⟩ | ⟨-, rfl | rfl⟩
    · exact hpre
    · exact hpre.trans (List.prefix_append _ _)
    · exact hpre
  | readError c aborted hc hq =>
    unfold onReadError
    dsimp only
    split
    · exact List.prefix_rfl
    · exact List.prefix_append _ _
  | transfer c o ho => exact List.prefix_rfl
  | writeError c o aborted hc ho =>
    split
    · exact List.prefix_rfl
    · exact List.prefix_append _ _
  | act i events app ha => exact ⟨_, (keeps_notify h.mailed events app).log.symm⟩
  | close => exact ⟨_, (keeps_close n).log.symm⟩

theorem Sound.run_grows {n n' : Server σ α} (h : Sound A n) (hr : Relation.ReflTransGen (Step A) n n') :
    n.log <+: n'.log := by
  induction hr with
  | refl => exact List.prefix_rfl
  | tail hr hs ih => exact ih.trans ((h.run hr).log_grows hs)

/-- What has been enqueued to a connection by the time between two handlers. -/
structure Enqueued (A : Application σ α ι) (n : Server σ α) (c : Nat) : Prop where
  registered : c ∈ n.connections ↔ joined c n.log = true
  /-- The replies, one for each request and in the order of the requests, and the broadcasts while it was registered. -/
  interleaved : ∃ exchanges dropped, dialogue c n.log = paired exchanges dropped ∧
    (∀ e ∈ exchanges, A.Handles e.1 e.2.1 (some e.2.2)) ∧
    (∀ request, dropped = some request → ∃ events, A.Handles request events none) ∧
    Interleave (exchanges.map (fun e => e.2.2)) (heard c false n.log) (n.clients c).outgoing.sent
  /-- What is broadcast while a request of the connection is handled goes before the reply. -/
  precedes : ∀ pre buffer post, n.log = pre ++ .answer c buffer :: post → ∃ before request events after,
    pre = before ++ .ask c request :: events.map .broadcast ∧ A.Handles request events (some buffer) ∧
    (n.clients c).outgoing.sent = (mail c before).map (Sum.elim id id) ++
      ((if joined c before then events else []) ++ buffer :: after)
  /-- Connections registered throughout a stretch of a run are sent the same broadcasts in it. -/
  shared : ∀ n' d, Relation.ReflTransGen (Step A) n n' → c ∈ n.connections → d ∈ n.connections →
    c ∈ n'.connections → d ∈ n'.connections → ∃ more, n'.log = n.log ++ more ∧ ∀ e, e = c ∨ e = d →
      ∃ between, (n'.clients e).outgoing.sent = (n.clients e).outgoing.sent ++ between ∧
        Interleave (more.filterMap (answer? e)) (more.filterMap broadcast?) between

/-- **Every queue is an interleaving of its own replies and of the broadcasts**, in every run of the event loop. -/
theorem enqueued_interleaved (A : Application σ α ι) (app : σ) {n : Server σ α}
    (h : Relation.ReflTransGen (Step A) (initial app) n) (c : Nat) : Enqueued A n c := by
  have hs := (sound_initial app).run h
  constructor
  · exact hs.mailed.member c
  · obtain ⟨exchanges, dropped, hd, hes, hdropped⟩ := hs.served.dialogue c
    refine ⟨exchanges, dropped, hd, hes, hdropped, ?_⟩
    have hmail := interleave_mail c n.log
    rw [← answers_dialogue, hd, answers_paired, ← hs.mailed.enqueued] at hmail
    exact hmail
  · intro pre buffer post hlog
    obtain ⟨before, request, events, rfl, hr⟩ := hs.served.answered hlog
    refine ⟨before, request, events, ((inbox c).run (joined c before) post).2.map (Sum.elim id id), rfl, hr, ?_⟩
    rw [hs.mailed.enqueued, hlog, List.append_assoc, List.cons_append, mail_exchange, List.map_append, List.map_append]
    cases joined c before <;> simp
  · intro n' d hr hc hd hc' hd'
    have hs' := hs.run hr
    obtain ⟨more, hmore⟩ := hs.run_grows hr
    refine ⟨more, hmore.symm, fun e he => ?_⟩
    have hin : e ∈ n.connections ∧ e ∈ n'.connections := by
      rcases he with rfl | rfl
      · exact ⟨hc, hc'⟩
      · exact ⟨hd, hd'⟩
    have hserved := hs'.served
    have hin' := (hs'.mailed.member e).1 hin.2
    rw [← hmore] at hserved hin'
    refine ⟨_, ?_, mail_of_member ((hs.mailed.member e).1 hin.1) hin' hserved.joins_once⟩
    rw [hs'.mailed.enqueued, hs.mailed.enqueued, ← hmore, mail_append, List.map_append]

/-- The bytes a socket has accepted are the first ones of what was enqueued to its connection. -/
theorem accepted_in_order (A : Application σ α ι) (app : σ) {n : Server σ α}
    (h : Relation.ReflTransGen (Step A) (initial app) n) (c : Nat) :
    (n.clients c).outgoing.accepted <+: ((mail c n.log).map (Sum.elim id id)).flatten := by
  have hs := (sound_initial app).run h
  rw [← hs.mailed.enqueued c, ← (hs.mailed.orderly c).bytes]
  exact List.prefix_append _ _

/-- An application that broadcasts a zero and echoes the request. -/
def echo : Application Unit UInt8 Unit where
  handleRequest request app := some ([[0]], some [request], app)
  act _ app := some ([[1]], app)

theorem reachable_echo : ∃ n, Relation.ReflTransGen (Step echo) (initial ()) n ∧
    n.log = [.join 0, .join 1, .ask 0 5, .broadcast [0], .answer 0 [5], .broadcast [1], .leave 0] := by
  have h := Relation.ReflTransGen.refl.tail (Step.accept (A := echo) (initial ()) false)
  have h := (h.tail (.accept _ false)).tail (.complete _ 0 (.data [5] (.incomplete 0)) rfl rfl (.inl rfl))
  have h := (h.tail (.read _ _ 0 [5] (.incomplete 0) rfl rfl rfl)).tail (.act _ () _ _ rfl)
  have h := h.tail (.complete _ 0 (.error false) rfl rfl (.inl rfl))
  exact ⟨_, h.tail (.readError _ 0 false rfl rfl), rfl⟩

theorem enqueued_interleaved_echo : ∃ n : Server Unit UInt8,
    n.log = [.join 0, .join 1, .ask 0 5, .broadcast [0], .answer 0 [5], .broadcast [1], .leave 0] ∧
    Enqueued echo n 0 := by
  obtain ⟨n, h, hlog⟩ := reachable_echo
  exact ⟨n, hlog, enqueued_interleaved echo () h 0⟩

end Server
end Fpga
