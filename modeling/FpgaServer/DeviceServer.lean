import FpgaServer.ReadStream
import FpgaServer.RequestReply
/-!
# DeviceServer — the application of `main`

A request is handled by the request handler on the device manager, and every notification of the manager is broadcast.  The
request handler answers its own exceptions, so no message of a stream has its connection dropped (`device_stream_served`).
-/
namespace Fpga

open DeviceManager (Action)

variable {ε : Type} [Ftdi ε] [Programmer ε]

/-- The packets of the notifications that have been made since. -/
def announced (event : DeviceEvent → Buffer) (m m' : DeviceManager ε) : List Buffer :=
  (m'.notifier.log.drop m.notifier.log.length).map (fun n => event n.event)

/-- The device manager, and how the next allocations of the request handler go.  What the packer makes of a reply and of an
event are parameters. -/
def deviceServer (C : Conversions) (encode : List Token → Buffer) (event : DeviceEvent → Buffer) :
    Application (DeviceManager ε × List Bool) Obj (Action ε) where
  handleRequest request app :=
    match (RequestHandler.handleRequest C request).run ⟨app.1, [], app.2⟩ with
    | .ok _ s => some (announced event app.1 s.manager, some (encode s.reply), s.manager, s.memory)
    | .error (.exception _) s => some (announced event app.1 s.manager, none, s.manager, s.memory)
    | .error _ _ => none
  act a app := (app.1.step a).map (fun m => (announced event app.1 m, m, app.2))

/-- Every request is replied to. -/
theorem deviceServer_replies (C : Conversions) (encode : List Token → Buffer) (event : DeviceEvent → Buffer) (request : Obj)
    (app : DeviceManager ε × List Bool) (events : List Buffer) (app' : DeviceManager ε × List Bool) :
    (deviceServer C encode event).handleRequest request app ≠ some (events, none, app') := by
  intro h
  simp only [deviceServer] at h
  cases hr : (RequestHandler.handleRequest C request).run ⟨app.1, [], app.2⟩ with
  | ok _ s =>
    rw [hr] at h
    cases h
  | error e s =>
    cases e with
    | exception what => exact RequestHandler.handleRequest_throws_nothing C request _ s what hr
    | crash =>
      rw [hr] at h
      cases h
    | overrun =>
      rw [hr] at h
      cases h

namespace Server

open Unpacker (Incomplete)

/-- **The messages of a stream are handled once each and in order, and no read drops the connection, however the stream is
split**: the device server with every allocation granted. -/
theorem device_stream_served {β : Type} {U : Unpacker β Obj} {WellFormed : Obj → Buffer → Prop} {Holds : β → Buffer → Prop}
    (hU : U.Unpacks WellFormed Holds) (C : Conversions) (encode : List Token → Buffer) (event : DeviceEvent → Buffer)
    (descriptions : List Description) (notifier : Notifier) (c : Nat) {u₀ : β} (hu₀ : Holds u₀ [])
    (messages : List (Obj × Buffer)) (hm : ∀ x ∈ messages, Small WellFormed x.1 x.2) (p : Buffer)
    (hp : Incomplete (Small WellFormed) p) {s : Feed (DeviceManager ε × List Bool) Obj β}
    (h : Relation.ReflTransGen (Feed.Step U (deviceServer C encode event) c)
      { server := initial (DeviceManager.initial descriptions notifier, []), unpacker := u₀ } s)
    (hs : s.received <+: bytesOf messages ++ p) :
    ∃ first rest q, messages = first ++ rest ∧ s.received = bytesOf first ++ q ∧ Incomplete (Small WellFormed) q ∧
      s.Undropped U (deviceServer C encode event) c first rest (bytesOf messages ++ p) := by
  obtain ⟨first, rest, q, hsplit, hreceived, hq, hserved⟩ := stream_served hU hu₀ hm hp h hs
  exact ⟨first, rest, q, hsplit, hreceived, hq, hserved.undropped (deviceServer_replies C encode event) (Feed.sound h)⟩

/-- Integers are read as objects. -/
def integer (x : UInt8) : Obj := .int x.toNat

/-- The server without a device, whose packets say nothing. -/
def idleServer : Application (DeviceManager RequestHandler.Wearing × List Bool) Obj (Action RequestHandler.Wearing) :=
  deviceServer RequestHandler.byType (fun _ => []) (fun _ => [])

/-- Two integers in two reads, the second of which completes the second integer: both are answered. -/
theorem device_stream_integers : ∃ s : Feed (DeviceManager RequestHandler.Wearing × List Bool) Obj Buffer,
    s.received = [5, 204, 200] ∧
    s.server.log = [.join 0, .ask 0 (.int 5), .answer 0 [], .ask 0 (.int 200), .answer 0 []] ∧
    ∃ first rest q, [(integer 5, [5]), (integer 200, [204, 200])] = first ++ rest ∧ s.received = bytesOf first ++ q ∧
      Incomplete (Small (SmallInt integer)) q ∧ s.Undropped (smallInts integer) idleServer 0 first rest [5, 204, 200] := by
  have h := Relation.ReflTransGen.refl.tail (Feed.Step.other (U := smallInts integer) (A := idleServer) (c := 0)
    ⟨initial (DeviceManager.initial [] DeviceManager.setNotifier, []), [], []⟩ _ (.accept _ false) nofun)
  have h := h.tail (.deliver _ [5, 204] [integer 5] (.incomplete 1) [204] rfl rfl rfl
    (.message rfl (smallInts_waits integer [204] rfl)))
  have h := h.tail (.other _ _ (.read _ _ 0 [integer 5] (.incomplete 1) rfl rfl rfl) nofun)
  have h := h.tail (.deliver _ [200] [integer 200] (.incomplete 0) [] rfl rfl rfl
    (.message rfl (smallInts_waits integer [] rfl)))
  have h := h.tail (.other _ _ (.read _ _ 0 [integer 200] (.incomplete 0) rfl rfl rfl) nofun)
  have hsmall : ∀ x ∈ [(integer 5, [(5 : UInt8)]), (integer 200, [204, 200])], Small (SmallInt integer) x.1 x.2 := by
    intro x hx
    simp only [List.mem_cons, List.not_mem_nil, or_false] at hx
    rcases hx with rfl | rfl
    · exact ⟨⟨5, rfl, .inl ⟨by decide, rfl⟩⟩, by decide⟩
    · exact ⟨⟨200, rfl, .inr rfl⟩, by decide⟩
  exact ⟨_, rfl, rfl, device_stream_served (unpacks_smallInts integer) RequestHandler.byType (fun _ => []) (fun _ => []) []
    DeviceManager.setNotifier 0 rfl _ hsmall [] (.inl rfl) h (by exact List.prefix_rfl)⟩

end Server
end Fpga
