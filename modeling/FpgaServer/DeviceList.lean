import FpgaServer.Chunks
import FpgaServer.Conversation
/-!
# DeviceList — the devices the client knows

The devices reach the client as events, which it applies while it parses, and as lists, which `get_device_list` applies
when it returns.  An event parsed after the answer in the same chunk is applied before the list.  If no call is abandoned and
such events leave the list as it is, the client knows the registered devices whenever nothing is under way
(`devices_in_sync`).
-/
namespace Fpga

open Base (split_append)
open FpgaClientBase

/-- The packets lead from the devices to the registered ones. -/
def Converges (registered devices : List String) (packets : List Packet) : Prop :=
  ∀ s, presentAfter s (decide (s ∈ devices)) packets = decide (s ∈ registered)

theorem presentAfter_append (s : String) (b : Bool) (packets more : List Packet) :
    presentAfter s b (packets ++ more) = presentAfter s (presentAfter s b packets) more := by
  unfold presentAfter
  rw [List.foldl_append]

/-- The packet says what changes in the registered devices. -/
def Announces (registered : List String) (packet : Packet) (registered' : List String) : Prop :=
  ∀ s, (presence s packet).getD (decide (s ∈ registered)) = decide (s ∈ registered')

theorem Converges.snoc {registered registered' devices : List String} {packets : List Packet} {packet : Packet}
    (h : Converges registered devices packets) (ha : Announces registered packet registered') :
    Converges registered' devices (packets ++ [packet]) := by
  intro s
  rw [presentAfter_append, h s]
  exact ha s

/-- The packets on the way from a device list may be taken off its end once they leave the list as it is. -/
theorem Converges.drop {registered deviceList : List String} {packets more : List Packet}
    (h : Converges registered deviceList (packets ++ more)) (hp : Converges deviceList deviceList packets) :
    Converges registered deviceList more := by
  intro s
  have := h s
  rwa [presentAfter_append, hp s] at this

theorem announces_added {registered : List String} (serial : String) :
    Announces registered (rpcEventAdded serial) (registered ++ [serial]) := by
  intro s
  have hfield : (rpcEventAdded serial).fields[0]?.bind decode = some serial := rfl
  rw [presence_eq hfield]
  by_cases hs : serial = s
  · simp [hs, rpcEventAdded]
  · simp [hs, Ne.symm hs]

theorem announces_removed {registered : List String} (serial : String) :
    Announces registered (rpcEventRemoved serial) (registered.filter (· ≠ serial)) := by
  intro s
  have hfield : (rpcEventRemoved serial).fields[0]?.bind decode = some serial := rfl
  rw [presence_eq hfield]
  by_cases hs : serial = s
  · simp [hs, rpcEventRemoved, rpcRcodeAdded, rpcRcodeRemoved]
  · simp [hs, Ne.symm hs]

theorem announces_regChanged {registered : List String} (serial : String) (addr port : UInt8) (value : UInt16) :
    Announces registered (rpcEventRegChanged serial addr port value) registered := by
  intro s
  have hnone : presence s (rpcEventRegChanged serial addr port value) = none := by
    simp [presence, rpcEventRegChanged, rpcRcodeAdded, rpcRcodeRemoved, rpcRcodeRegChanged]
  rw [hnone, Option.getD_none]

theorem announces_reply {registered : List String} {packet : Packet} (h : packet.rcode ≤ 0) :
    Announces registered packet registered := by
  intro s
  have hadded : packet.rcode ≠ rpcRcodeAdded := by unfold rpcRcodeAdded; omega
  have hremoved : packet.rcode ≠ rpcRcodeRemoved := by unfold rpcRcodeRemoved; omega
  have hnone : presence s packet = none := by simp [presence, hadded, hremoved]
  rw [hnone, Option.getD_none]

theorem mapM_decode (serials : List String) : (serials.map Obj.str).mapM decode = some serials := by
  induction serials with
  | nil => rfl
  | cons s serials ih =>
    rw [List.map_cons, List.mapM_cons, ih]
    rfl

theorem listing_reply (registered : List String) (value : Obj) :
    listing (reply registered .getDeviceList (.ok value)) = some registered := mapM_decode registered

namespace Conversation

/-- No call is abandoned, and what a waiting `get_device_list` parses behind its answer leaves the list as it is. -/
def Undisturbed (v : Conversation) : Turn → Prop
  | .timeout => False
  | .requireData n => v.call = some .getDeviceList → ∀ pre packet post deviceList,
    v.flight.take n = pre ++ packet :: post → packet.rcode = 0 → listing packet = some deviceList →
    Converges deviceList deviceList post
  | _ => True

structure InSync (v : Conversation) : Prop where
  paired : Paired v
  kept : v.abandoned = 0
  devices : v.refreshed = true → Converges v.registered v.client.devices v.flight
  inFlight : v.call = some .getDeviceList → ∀ pre packet post deviceList, v.flight = pre ++ packet :: post →
    packet.rcode = 0 → listing packet = some deviceList → Converges v.registered deviceList post
  arrived : v.call = some .getDeviceList → ∀ packet ∈ v.client.answers, packet.rcode = 0 → ∀ deviceList,
    listing packet = some deviceList → Converges v.registered deviceList v.flight

theorem inSync_initial (registered : List String) : InSync (initial registered) where
  paired := paired_initial registered
  kept := rfl
  devices h := by cases h
  inFlight h := by cases h
  arrived h := by cases h

/-- Once every answer has been taken there is none on the way or at the client. -/
theorem Paired.drained {v : Conversation} (h : Paired v) (hle : v.replies.length ≤ v.consumed.length) :
    v.client.answers = [] ∧ ∀ packet ∈ v.flight, ¬ packet.rcode ≤ 0 := by
  have hlen := congrArg List.length h.answers
  simp only [List.length_append, List.length_map] at hlen
  constructor
  · exact List.eq_nil_of_length_eq_zero (by omega)
  · intro packet hp hrcode
    have hnil := List.eq_nil_of_length_eq_zero (l := v.flight.filter (fun packet => packet.rcode ≤ 0)) (by omega)
    exact List.filter_eq_nil_iff.1 hnil packet hp (by simpa using hrcode)

theorem InSync.quiet {v : Conversation} (h : InSync v) (hc : v.call = none) :
    v.client.answers = [] ∧ ∀ packet ∈ v.flight, ¬ packet.rcode ≤ 0 := by
  apply h.paired.drained
  have hreq := h.paired.requests
  have hrep := h.paired.replied
  simp only [h.kept, hc, ↓reduceIte] at hreq
  omega

theorem InSync.event {v : Conversation} {packet : Packet} {registered : List String} (h : InSync v)
    (hp : ¬ packet.rcode ≤ 0) (ha : Announces v.registered packet registered) :
    InSync { v.send packet with registered := registered } := by
  constructor
  · exact h.paired.event hp rfl
  · exact h.kept
  · exact fun hr => (h.devices hr).snoc ha
  · intro hc pre p post deviceList hflight hok hlist
    rcases split_append hflight with ⟨mid, hmid, rfl⟩ | ⟨mid, -, hmid⟩
    · exact (h.inFlight hc pre p mid deviceList hmid hok hlist).snoc ha
    · have hin : p ∈ [packet] := hmid ▸ by simp
      rw [← List.mem_singleton.1 hin, hok] at hp
      exact absurd (Int.le_refl 0) hp
  · exact fun hc p hp hok deviceList hlist => (h.arrived hc p hp hok deviceList hlist).snoc ha

/-- The request that is answered next is that of the call. -/
theorem InSync.answering {v : Conversation} (h : InSync v) {request : Request}
    (hr : v.requests[v.replies.length]? = some request) :
    v.call = some request ∧ v.client.answers = [] ∧ ∀ packet ∈ v.flight, ¬ packet.rcode ≤ 0 := by
  have hlen := congrArg List.length h.paired.answers
  have hreq := h.paired.requests
  have hlt := (List.getElem?_eq_some_iff.1 hr).1
  simp only [h.kept, List.length_append, List.length_map] at hlen hreq
  cases hc : v.call with
  | none =>
    simp only [hc, ↓reduceIte] at hreq
    omega
  | some r =>
    simp only [hc, reduceCtorEq, ↓reduceIte] at hreq
    have hlast := h.paired.current r hc
    rw [List.getLast?_eq_getElem?, show v.requests.length - 1 = v.replies.length by omega, hr] at hlast
    exact ⟨hlast.symm, h.paired.drained (by omega)⟩

theorem InSync.answer {v : Conversation} (h : InSync v) {request : Request} {outcome : Outcome}
    (hr : v.requests[v.replies.length]? = some request) :
    InSync { v.send (reply v.registered request outcome) with
      replies := v.replies ++ [reply v.registered request outcome] } := by
  obtain ⟨hcall, hnone, hflight⟩ := h.answering hr
  have ha : Announces v.registered _ v.registered := announces_reply (rcode_reply v.registered request outcome)
  constructor
  · exact h.paired.answer hr
  · exact h.kept
  · exact fun hf => (h.devices hf).snoc ha
  · intro hc pre packet post deviceList hsplit hok hlist
    rcases split_append hsplit with ⟨mid, hmid, -⟩ | ⟨mid, -, hmid⟩
    · exact absurd (hok ▸ Int.le_refl 0) (hflight packet (hmid ▸ by simp))
    · obtain ⟨rfl, rfl, rfl⟩ : mid = [] ∧ reply v.registered request outcome = packet ∧ post = [] := by
        cases mid with
        | nil => exact ⟨rfl, (List.cons.inj hmid).1, (List.cons.inj hmid).2.symm⟩
        | cons x mid => simp at hmid
      -- the list is that of the registered devices, and nothing follows it yet
      cases Option.some.inj (hcall.symm.trans hc)
      cases outcome with
      | error text => exact absurd hok (by decide : (-1 : Int) ≠ 0)
      | ok value =>
        rw [listing_reply] at hlist
        cases hlist
        exact fun s => rfl
  · intro hc packet hp
    have : packet ∈ v.client.answers := hp
    rw [hnone] at this
    cases this

theorem InSync.readyRead {v v' : Conversation} {n : Nat} (h : InSync v) (hc : v.call = none) (hv : v.parse n = some v') :
    InSync v' := by
  have hp := h.paired.parse hv
  obtain ⟨client, hclient, rfl⟩ := Option.map_eq_some_iff.1 hv
  refine ⟨hp, h.kept, fun hr s => ?_, fun hc' => ?_, fun hc' => ?_⟩
  · have := h.devices hr s
    rw [← List.take_append_drop n v.flight, presentAfter_append, ← (parseData_spec hclient).2] at this
    exact this
  · exact absurd (hc.symm.trans hc') (by simp)
  · exact absurd (hc.symm.trans hc') (by simp)

theorem InSync.requireData {v v' : Conversation} {n : Nat} (h : InSync v) (ha : v.client.answers = [])
    (hu : v.Undisturbed (.requireData n)) (hv : v.parse n = some v') : InSync v' := by
  have hp := h.paired.parse hv
  obtain ⟨client, hclient, rfl⟩ := Option.map_eq_some_iff.1 hv
  have hchunk := List.take_append_drop n v.flight
  constructor
  · exact hp
  · exact h.kept
  · intro hr s
    have := h.devices hr s
    rw [← hchunk, presentAfter_append, ← (parseData_spec hclient).2] at this
    exact this
  · intro hc pre packet post deviceList hsplit
    refine h.inFlight hc (v.flight.take n ++ pre) packet post deviceList ?_
    have hsplit : v.flight.drop n = pre ++ packet :: post := hsplit
    rw [List.append_assoc, ← hsplit, hchunk]
  · intro hc packet hin hok deviceList hlist
    have hin : packet ∈ client.answers := hin
    rw [(parseData_spec hclient).1, ha, List.nil_append] at hin
    obtain ⟨pre, post, hsplit⟩ := List.append_of_mem (List.mem_filter.1 hin).1
    -- the list was right for what followed it, and the part of that in the same chunk changes nothing
    have hfollow := h.inFlight hc pre packet (post ++ v.flight.drop n) deviceList
      (by rw [← List.cons_append, ← List.append_assoc, ← hsplit, hchunk]) hok hlist
    exact hfollow.drop (hu hc pre packet post deviceList hsplit hok hlist)

theorem InSync.call {v : Conversation} (h : InSync v) (request : Request) (hc : v.call = none) :
    InSync { v with requests := v.requests ++ [request], call := some request } := by
  obtain ⟨hnone, hflight⟩ := h.quiet hc
  refine ⟨h.paired.call request hc, h.kept, h.devices, fun _ pre packet post _ hsplit hok => ?_, fun _ packet hin => ?_⟩
  · have hsplit : v.flight = pre ++ packet :: post := hsplit
    exact absurd (hok ▸ Int.le_refl 0) (hflight packet (hsplit ▸ by simp))
  · have hin : packet ∈ v.client.answers := hin
    rw [hnone] at hin
    cases hin

theorem InSync.finish {v v' : Conversation} (h : InSync v) (hv : v.step .finish = some v') : InSync v' := by
  have hp := h.paired.step hv
  obtain ⟨request, answer, answers, hc, ha, rfl⟩ := step_finish hv
  refine ⟨hp, h.kept, fun hr => ?_, fun hn => (by cases hn), fun hn => (by cases hn)⟩
  dsimp only at hr ⊢
  rcases finish_cases { v.client with answers := answers } request answer with
    ⟨hsame, hres⟩ | ⟨rfl, hok, deviceList, hlist, hdone⟩
  · rw [hsame]
    refine h.devices ?_
    by_cases hreq : request = .getDeviceList
    · simpa [hres hreq] using hr
    · simpa [hreq] using hr
  · intro s
    have harrived := h.arrived hc answer (by rw [ha]; exact List.mem_cons_self) hok deviceList hlist s
    rw [hdone, ← harrived]
    congr 1
    simp [mem_handleDeviceListChanges]

theorem InSync.step {v v' : Conversation} (h : InSync v) {t : Turn} (hu : v.Undisturbed t) (hs : v.step t = some v') :
    InSync v' := by
  cases t with
  | added serial =>
    obtain ⟨-, rfl⟩ := step_added hs
    exact h.event (rcode_added serial) (announces_added serial)
  | removed serial =>
    obtain ⟨-, rfl⟩ := step_removed hs
    exact h.event (rcode_removed serial) (announces_removed serial)
  | regChanged serial addr port value =>
    cases hs
    exact h.event (rcode_regChanged serial addr port value) (announces_regChanged serial addr port value)
  | answer outcome =>
    obtain ⟨request, hr, rfl⟩ := step_answer hs
    exact h.answer hr
  | call request =>
    obtain ⟨hc, rfl⟩ := step_call hs
    exact h.call request hc
  | readyRead n => exact h.readyRead (step_readyRead hs).1 (step_readyRead hs).2
  | requireData n =>
    obtain ⟨request, -, ha, hv⟩ := step_requireData hs
    exact h.requireData ha hu hv
  | timeout => cases hu
  | finish => exact h.finish hs

theorem InSync.reachable {registered : List String} {v : Conversation} (h : Reachable Undisturbed registered v) :
    InSync v := by
  induction h with
  | initial => exact inSync_initial registered
  | step t _ hu hs ih => exact ih.step hu hs

/-- **The client knows the registered devices** when everything sent has been parsed and some `get_device_list` has
returned, in every run that is undisturbed. -/
theorem devices_in_sync (registered : List String) (v : Conversation) (h : Reachable Undisturbed registered v)
    (hflight : v.flight = []) (hrefreshed : v.refreshed = true) (s : String) :
    s ∈ v.client.devices ↔ s ∈ v.registered := by
  have hs := (InSync.reachable h).devices hrefreshed s
  rw [hflight] at hs
  exact decide_eq_decide.1 hs

/-- A device is added right after the list is sent. -/
def addedBehindAnswer : List Turn := [.call .getDeviceList, .answer (.ok .nil), .added "FPGA0002"]

/-- In one chunk with the list the new device is lost. -/
theorem one_chunk_loses_device : ∃ v, Reachable (fun _ _ => True) ["FPGA0001"] v ∧
    (initial ["FPGA0001"]).run (addedBehindAnswer ++ [.requireData 2, .finish]) = some v ∧
    v.flight = [] ∧ v.call = none ∧ v.refreshed = true ∧
    "FPGA0002" ∈ v.registered ∧ "FPGA0002" ∉ v.client.devices := by
  have hrun : ∃ v, (initial ["FPGA0001"]).run (addedBehindAnswer ++ [.requireData 2, .finish]) = some v ∧
      v.flight = [] ∧ v.call = none ∧ v.refreshed = true ∧ v.registered = ["FPGA0001", "FPGA0002"] ∧
      v.client.devices = ["FPGA0001"] := ⟨_, rfl, rfl, rfl, rfl, rfl, rfl⟩
  obtain ⟨v, hv, hflight, hcall, hrefreshed, hregistered, hdevices⟩ := hrun
  refine ⟨v, Reachable.run .initial hv, hv, hflight, hcall, hrefreshed, ?_, ?_⟩
  · rw [hregistered]
    decide
  · rw [hdevices]
    decide

/-- In two chunks it is not. -/
theorem devices_in_sync_two_chunks : ∃ v : Conversation, v.registered = ["FPGA0001", "FPGA0002"] ∧ v.flight = [] ∧
    ∀ s, s ∈ v.client.devices ↔ s ∈ v.registered := by
  have h : Reachable Undisturbed ["FPGA0001"] (initial ["FPGA0001"]) := .initial
  have h := (h.step (.call .getDeviceList) trivial rfl).step (.answer (.ok .nil)) trivial rfl
  have h := h.step (.added "FPGA0002") trivial rfl
  have hu : ∀ pre packet post deviceList, [rpcReplyValue (.array [.str "FPGA0001"])] = pre ++ packet :: post →
      packet.rcode = 0 → listing packet = some deviceList → Converges deviceList deviceList post := by
    intro pre packet post deviceList hsplit _ _
    cases pre with
    | nil =>
      cases hsplit
      exact fun s => rfl
    | cons x pre => simp at hsplit
  have h := ((h.step (.requireData 1) (fun _ => hu) rfl).step .finish trivial rfl).step (.readyRead 1) trivial rfl
  exact ⟨_, rfl, rfl, devices_in_sync _ _ h rfl rfl⟩

end Conversation
end Fpga
