import Mathlib.Logic.Relation
import FpgaServer.Command
/-!
# ClientConnection — the outgoing side of a connection

The queue of buffers, the offset into its first buffer, and what the connection has running in the io service: the posted
`do_write` calls and the asynchronous writes that have not completed.  `Outgoing` adds what the socket sees.  The steps are
those of the io service, in any order; `Writing` says which of the two is running and is kept by every step.
-/
namespace Fpga

abbrev Buffer := List UInt8

structure ClientConnection where
  msgbufferOut : List Buffer := []
  msgbufferOutOffset : Nat := 0
  /-- The posted calls of `do_write`. -/
  posted : Nat := 0
  /-- The asynchronous writes that are running, each with the bytes it was offered. -/
  writes : List Buffer := []
  deriving DecidableEq, Repr

namespace ClientConnection

/-- If there is no write in progress, schedule a `do_write` call. -/
def send (c : ClientConnection) (buffer : Buffer) : ClientConnection :=
  { c with
    posted := if c.msgbufferOut.isEmpty then c.posted + 1 else c.posted
    msgbufferOut := c.msgbufferOut ++ [buffer] }

def doWrite (c : ClientConnection) : ClientConnection :=
  match c.msgbufferOut with
  | [] => c
  | packet :: _ => { c with writes := c.writes ++ [packet.drop c.msgbufferOutOffset] }

/-- The completion handler of a write; `none` where it takes the front of an empty queue. -/
def onWritten (c : ClientConnection) (bytesTransferred : Nat) : Option ClientConnection :=
  match c.msgbufferOut with
  | [] => none
  | packet :: queue =>
    if c.msgbufferOutOffset + bytesTransferred ≠ packet.length then
      -- still bytes left to send
      some { c with msgbufferOutOffset := c.msgbufferOutOffset + bytesTransferred }.doWrite
    else
      -- all bytes sent, more packets to send?
      let c := { c with msgbufferOut := queue, msgbufferOutOffset := 0 }
      some (if queue.isEmpty then c else c.doWrite)

/-- The rest of the front buffer, then the remaining buffers. -/
def unsent (c : ClientConnection) : Buffer :=
  match c.msgbufferOut with
  | [] => []
  | packet :: queue => packet.drop c.msgbufferOutOffset ++ queue.flatten

/-- The offset is within the front buffer, and zero without one. -/
def InFront (c : ClientConnection) : Prop :=
  match c.msgbufferOut with
  | [] => c.msgbufferOutOffset = 0
  | packet :: _ => c.msgbufferOutOffset ≤ packet.length

theorem doWrite_cons {c : ClientConnection} {packet : Buffer} {queue : List Buffer} (h : c.msgbufferOut = packet :: queue) :
    c.doWrite = { c with writes := c.writes ++ [packet.drop c.msgbufferOutOffset] } := by
  unfold doWrite
  rw [h]

theorem inFront_send {c : ClientConnection} (h : c.InFront) (buffer : Buffer) : (c.send buffer).InFront := by
  unfold InFront at h ⊢
  cases hq : c.msgbufferOut with
  | nil =>
    rw [hq] at h
    simp [send, hq, show c.msgbufferOutOffset = 0 from h]
  | cons packet queue =>
    rw [hq] at h
    simp only [send, hq, List.cons_append]
    exact h

theorem unsent_send {c : ClientConnection} (h : c.InFront) (buffer : Buffer) :
    (c.send buffer).unsent = c.unsent ++ buffer := by
  unfold InFront at h
  unfold unsent
  cases hq : c.msgbufferOut with
  | nil =>
    rw [hq] at h
    simp [send, hq, show c.msgbufferOutOffset = 0 from h]
  | cons packet queue => simp [send, hq]

end ClientConnection

/-- A connection with the buffers passed to `send`, the bytes its socket has accepted, and whether a write has failed. -/
structure Outgoing where
  connection : ClientConnection := {}
  sent : List Buffer := []
  accepted : Buffer := []
  failed : Bool := false
  deriving DecidableEq, Repr

namespace Outgoing

open ClientConnection

def send (o : Outgoing) (buffer : Buffer) : Outgoing :=
  { o with connection := o.connection.send buffer, sent := o.sent ++ [buffer] }

/-- A posted `do_write` runs, or a write completes without an error. -/
inductive Transfer : Outgoing → Outgoing → Prop where
  | doWrite (o : Outgoing) (n : Nat) (h : o.connection.posted = n + 1) :
    Transfer o { o with connection := { o.connection with posted := n }.doWrite }
  | written (o : Outgoing) (earlier : List Buffer) (offered : Buffer) (later : List Buffer) (bytesTransferred : Nat)
    (c : ClientConnection) (h : o.connection.writes = earlier ++ offered :: later)
    (hn : bytesTransferred ≤ offered.length)
    (hc : { o.connection with writes := earlier ++ later }.onWritten bytesTransferred = some c) :
    Transfer o { o with connection := c, accepted := o.accepted ++ offered.take bytesTransferred }

/-- A write completes with an error. -/
inductive Fails : Outgoing → Outgoing → Prop where
  | mk (o : Outgoing) (earlier : List Buffer) (offered : Buffer) (later : List Buffer)
    (h : o.connection.writes = earlier ++ offered :: later) :
    Fails o { o with connection := { o.connection with writes := earlier ++ later }, failed := true }

inductive Step : Outgoing → Outgoing → Prop where
  | send (o : Outgoing) (buffer : Buffer) : Step o (o.send buffer)
  | transfer {o o' : Outgoing} (h : Transfer o o') : Step o o'
  | fails {o o' : Outgoing} (h : Fails o o') : Step o o'

/-- What is running for the queue: nothing, a posted call, or a write of the rest of the front buffer. -/
inductive Writing : Outgoing → Prop where
  | idle {o : Outgoing} (hp : o.connection.posted = 0) (hw : o.connection.writes = [])
    (hq : o.failed = false ↔ o.connection.msgbufferOut = []) : Writing o
  | posted {o : Outgoing} (hp : o.connection.posted = 1) (hw : o.connection.writes = [])
    (hq : o.connection.msgbufferOut ≠ []) (hf : o.failed = false) : Writing o
  | writing {o : Outgoing} (packet : Buffer) (queue : List Buffer) (hp : o.connection.posted = 0)
    (hw : o.connection.writes = [packet.drop o.connection.msgbufferOutOffset])
    (hq : o.connection.msgbufferOut = packet :: queue) (hf : o.failed = false) : Writing o

/-- The invariant of the outgoing side: nothing is lost, and the queue is served by one writer. -/
structure Orderly (o : Outgoing) : Prop where
  offset : o.connection.InFront
  bytes : o.accepted ++ o.connection.unsent = o.sent.flatten
  writing : Writing o

theorem orderly_initial : Orderly {} :=
  ⟨rfl, rfl, .idle rfl rfl (by simp)⟩

theorem Orderly.send {o : Outgoing} (h : Orderly o) (buffer : Buffer) : Orderly (o.send buffer) := by
  constructor
  · exact inFront_send h.offset buffer
  · unfold Outgoing.send
    simp only [unsent_send h.offset, ← List.append_assoc, h.bytes, List.flatten_append, List.flatten_singleton]
  · unfold Outgoing.send ClientConnection.send
    cases h.writing with
    | idle hp hw hq =>
      by_cases he : o.connection.msgbufferOut = []
      · exact .posted (by simp [he, hp]) hw (by simp) (hq.2 he)
      · exact .idle (by simp [he, hp]) hw (by simp [he, hq])
    | posted hp hw hq hf => exact .posted (by simp [hq, hp]) hw (by simp) hf
    | writing packet queue hp hw hq hf =>
      exact .writing packet (queue ++ [buffer]) (by simp [hq, hp]) hw (by simp [hq]) hf

theorem Orderly.doWrite {o : Outgoing} (h : Orderly o) {n : Nat} (hn : o.connection.posted = n + 1) :
    Orderly { o with connection := { o.connection with posted := n }.doWrite } := by
  cases h.writing with
  | idle hp hw hq => rw [hp] at hn; cases hn
  | writing packet queue hp hw hq hf => rw [hp] at hn; cases hn
  | posted hp hw hq hf =>
    obtain rfl : n = 0 := by omega
    obtain ⟨packet, queue, hc⟩ := List.exists_cons_of_ne_nil hq
    rw [doWrite_cons (c := { o.connection with posted := 0 }) hc]
    constructor
    · exact h.offset
    · exact h.bytes
    · exact .writing packet queue rfl (by simp [hw]) hc hf

/-- A completed write finds its packet at the front of the queue. -/
theorem Writing.front {o : Outgoing} (h : Writing o) {earlier later : List Buffer} {offered : Buffer}
    (hw : o.connection.writes = earlier ++ offered :: later) :
    earlier = [] ∧ later = [] ∧ o.connection.posted = 0 ∧ o.failed = false ∧
      ∃ packet queue, o.connection.msgbufferOut = packet :: queue ∧
        offered = packet.drop o.connection.msgbufferOutOffset := by
  cases h with
  | idle hp hw' hq => rw [hw'] at hw; simp at hw
  | posted hp hw' hq hf => rw [hw'] at hw; simp at hw
  | writing packet queue hp hw' hq hf =>
    rw [hw'] at hw
    cases earlier with
    | nil =>
      simp only [List.nil_append, List.cons.injEq] at hw
      exact ⟨rfl, hw.2.symm, hp, hf, packet, queue, hq, hw.1.symm⟩
    | cons => simp at hw

theorem Orderly.written {o : Outgoing} (h : Orderly o) {earlier later : List Buffer} {offered : Buffer}
    {bytesTransferred : Nat} {c : ClientConnection} (hw : o.connection.writes = earlier ++ offered :: later)
    (hn : bytesTransferred ≤ offered.length)
    (hc : { o.connection with writes := earlier ++ later }.onWritten bytesTransferred = some c) :
    Orderly { o with connection := c, accepted := o.accepted ++ offered.take bytesTransferred } := by
  obtain ⟨rfl, rfl, hp, hf, packet, queue, hq, rfl⟩ := h.writing.front hw
  have hoff := h.offset
  have hbytes := h.bytes
  simp only [InFront, unsent, hq] at hoff hbytes
  rw [List.length_drop] at hn
  simp only [onWritten, hq, List.append_nil] at hc
  split at hc
  · -- the write was partial: the next one starts where it stopped
    rw [doWrite_cons rfl] at hc
    cases hc
    constructor
    · unfold InFront
      dsimp only
      omega
    · rw [← hbytes]
      simp only [unsent, List.append_assoc]
      rw [← List.append_assoc (List.take _ _), ← List.drop_drop, List.take_append_drop]
    · exact .writing packet queue hp rfl rfl hf
  · rename_i hlen
    have hall : bytesTransferred = (packet.drop o.connection.msgbufferOutOffset).length := by
      rw [List.length_drop]
      omega
    rw [hall, List.take_length]
    rw [← List.append_assoc] at hbytes
    cases queue with
    | nil =>
      cases hc
      constructor
      · rfl
      · exact hbytes
      · exact .idle hp rfl ⟨fun _ => rfl, fun _ => hf⟩
    | cons next queue =>
      cases hc
      constructor
      · exact Nat.zero_le _
      · exact hbytes
      · exact .writing next queue hp rfl rfl hf

theorem Orderly.fails {o : Outgoing} (h : Orderly o) {earlier later : List Buffer} {offered : Buffer}
    (hw : o.connection.writes = earlier ++ offered :: later) :
    Orderly { o with connection := { o.connection with writes := earlier ++ later }, failed := true } := by
  obtain ⟨rfl, rfl, hp, -, packet, queue, hq, -⟩ := h.writing.front hw
  exact ⟨h.offset, h.bytes, .idle hp rfl (by simp [hq])⟩

theorem Orderly.step {o o' : Outgoing} (h : Orderly o) (hs : Step o o') : Orderly o' := by
  cases hs with
  | send buffer => exact h.send buffer
  | transfer ht =>
    cases ht with
    | doWrite n hn => exact h.doWrite hn
    | written earlier offered later n c hw hn hc => exact h.written hw hn hc
  | fails hf =>
    cases hf with
    | mk earlier offered later hw => exact h.fails hw

theorem Orderly.run {o o' : Outgoing} (h : Orderly o) (hr : Relation.ReflTransGen Step o o') : Orderly o' := by
  induction hr with
  | refl => exact h
  | tail _ hs ih => exact ih.step hs

/-- **The bytes of the buffers passed to `send` reach the socket in order and by one writer.** -/
theorem writes_in_order (o : Outgoing) (h : Relation.ReflTransGen Step {} o) :
    o.accepted ++ o.connection.unsent = o.sent.flatten ∧
    o.connection.posted + o.connection.writes.length ≤ 1 ∧
    (o.failed = false → (o.connection.msgbufferOut ≠ [] ↔ o.connection.posted + o.connection.writes.length = 1)) ∧
    (o.connection.writes ≠ [] → o.connection.msgbufferOut ≠ []) ∧
    o.connection.InFront := by
  have ho := orderly_initial.run h
  cases ho.writing with
  | idle hp hw hq =>
    refine ⟨ho.bytes, by simp [hp, hw], fun hf => ?_, fun hne => absurd hw hne, ho.offset⟩
    simp [hp, hw, hq.1 hf]
  | posted hp hw hq hf => simp [hp, hw, hq, ho.bytes, ho.offset]
  | writing packet queue hp hw hq hf => simp [hp, hw, hq, ho.bytes, ho.offset]

/-- Two bytes of a buffer are accepted while the next one waits. -/
def partly : Outgoing where
  connection := { msgbufferOut := [[1, 2, 3], [4]], msgbufferOutOffset := 2, writes := [[3]] }
  sent := [[1, 2, 3], [4]]
  accepted := [1, 2]

theorem reachable_partly : Relation.ReflTransGen Step {} partly := by
  have h := Relation.ReflTransGen.refl.tail (Step.send {} [1, 2, 3])
  have h := (h.tail (.transfer (.doWrite _ 0 rfl))).tail (Step.send _ [4])
  exact h.tail (.transfer (.written _ [] [1, 2, 3] [] 2 _ rfl (by decide) rfl))

theorem writes_in_order_partly :
    ([1, 2] ++ ([3] ++ [4]) : Buffer) = [[1, 2, 3], [4]].flatten ∧
    partly.connection.posted + partly.connection.writes.length ≤ 1 ∧
    (partly.failed = false → (partly.connection.msgbufferOut ≠ [] ↔
      partly.connection.posted + partly.connection.writes.length = 1)) ∧
    (partly.connection.writes ≠ [] → partly.connection.msgbufferOut ≠ []) ∧ partly.connection.InFront :=
  writes_in_order partly reachable_partly

end Outgoing
end Fpga
