import FpgaServer.FpgaClientBase
/-!
# Conversation — a client and the server it is connected to

The server moves its devices, announces them and answers the requests in order; its packets reach the client in order, cut
into chunks anywhere; the client makes one call after another, and parses what comes in between.  A call is numbered by its
request.  The answers carry no number, so a call takes the oldest answer it has: the `k`-th one taken is the one to request
`k` (`answers_consumed`), which is the call's own exactly if no call before it was abandoned.
-/
namespace Fpga

open FpgaClientBase

/-- An answer taken by a call. -/
structure Consumed where
  call : Nat
  abandonedBefore : Nat
  answer : Packet
  result : Option Obj

structure Conversation where
  registered : List String
  requests : List Request := []
  replies : List Packet := []
  flight : List Packet := []
  client : FpgaClientBase := {}
  call : Option Request := none
  abandoned : Nat := 0
  consumed : List Consumed := []
  /-- Some `get_device_list` has returned. -/
  refreshed : Bool := false

/-- How a request ends at the server. -/
inductive Outcome where
  | ok (value : Obj)
  | error (text : String)

/-- The server's answer; a device list is what it has registered. -/
def reply (registered : List String) : Request → Outcome → Packet
  | _, .error text => rpcReplyError text
  | .getDeviceList, .ok _ => rpcReplyValue (.array (registered.map .str))
  | _, .ok value => rpcReplyValue value

/-- The server's turns, the client's calls, and the ways data reaches the client: from the event loop, or for a call that
waits.  A chunk is given by the number of packets it completes. -/
inductive Turn where
  | added (serial : String)
  | removed (serial : String)
  | regChanged (serial : String) (addr port : UInt8) (value : UInt16)
  | answer (outcome : Outcome)
  | call (request : Request)
  | readyRead (n : Nat)
  | requireData (n : Nat)
  | timeout
  | finish

namespace Conversation

def send (v : Conversation) (packet : Packet) : Conversation := { v with flight := v.flight ++ [packet] }

/-- `_parse_data` of the next packets. -/
def parse (v : Conversation) (n : Nat) : Option Conversation :=
  (v.client.parseData (v.flight.take n)).map (fun client => { v with client := client, flight := v.flight.drop n })

/-- A turn, where it is possible. -/
def step (v : Conversation) : Turn → Option Conversation
  | .added serial =>
    if serial ∈ v.registered then none
    else some { v.send (rpcEventAdded serial) with registered := v.registered ++ [serial] }
  | .removed serial =>
    if serial ∈ v.registered then
      some { v.send (rpcEventRemoved serial) with registered := v.registered.filter (· ≠ serial) }
    else none
  | .regChanged serial addr port value => some (v.send (rpcEventRegChanged serial addr port value))
  | .answer outcome =>
    match v.requests[v.replies.length]? with
    | none => none
    | some request =>
      let packet := reply v.registered request outcome
      some { v.send packet with replies := v.replies ++ [packet] }
  | .call request =>
    match v.call with
    | none => some { v with requests := v.requests ++ [request], call := some request }
    | some _ => none
  | .readyRead n =>
    match v.call with
    | none => v.parse n
    | some _ => none
  | .requireData n =>
    match v.call, v.client.answers with
    | some _, [] => v.parse n
    | _, _ => none
  | .timeout =>
    match v.call, v.client.answers with
    | some _, [] => some { v with call := none, abandoned := v.abandoned + 1 }
    | _, _ => none
  | .finish =>
    match v.call, v.client.answers with
    | some request, answer :: answers =>
      let (client, result) := { v.client with answers := answers }.finish request answer
      some { v with
        client := client
        call := none
        consumed := v.consumed ++ [⟨v.requests.length - 1, v.abandoned, answer, result⟩]
        refreshed := v.refreshed || (decide (request = .getDeviceList) && result.isSome) }
    | _, _ => none

/-- A new connection to a server with some devices. -/
def initial (registered : List String) : Conversation where
  registered := registered

/-- The states of the runs whose turns meet a condition. -/
inductive Reachable (P : Conversation → Turn → Prop) (registered : List String) : Conversation → Prop where
  | initial : Reachable P registered (initial registered)
  | step {v v' : Conversation} (t : Turn) (h : Reachable P registered v) (ht : P v t) (hs : v.step t = some v') :
    Reachable P registered v'

/-! ## What a turn does -/

theorem step_added {v v' : Conversation} {serial : String} (h : v.step (.added serial) = some v') :
    serial ∉ v.registered ∧ v' = { v.send (rpcEventAdded serial) with registered := v.registered ++ [serial] } := by
  rw [step] at h
  split at h
  · cases h
  · rename_i hs
    exact ⟨hs, (Option.some.inj h).symm⟩

theorem step_removed {v v' : Conversation} {serial : String} (h : v.step (.removed serial) = some v') :
    serial ∈ v.registered ∧
      v' = { v.send (rpcEventRemoved serial) with registered := v.registered.filter (· ≠ serial) } := by
  rw [step] at h
  split at h
  · rename_i hs
    exact ⟨hs, (Option.some.inj h).symm⟩
  · cases h

theorem step_answer {v v' : Conversation} {outcome : Outcome} (h : v.step (.answer outcome) = some v') :
    ∃ request, v.requests[v.replies.length]? = some request ∧
      v' = { v.send (reply v.registered request outcome) with
        replies := v.replies ++ [reply v.registered request outcome] } := by
  rw [step] at h
  split at h
  · cases h
  · rename_i request hr
    exact ⟨request, hr, (Option.some.inj h).symm⟩

theorem step_call {v v' : Conversation} {request : Request} (h : v.step (.call request) = some v') :
    v.call = none ∧ v' = { v with requests := v.requests ++ [request], call := some request } := by
  rw [step] at h
  split at h
  · rename_i hc
    exact ⟨hc, (Option.some.inj h).symm⟩
  · cases h

theorem step_readyRead {v v' : Conversation} {n : Nat} (h : v.step (.readyRead n) = some v') :
    v.call = none ∧ v.parse n = some v' := by
  rw [step] at h
  split at h
  · rename_i hc
    exact ⟨hc, h⟩
  · cases h

theorem step_requireData {v v' : Conversation} {n : Nat} (h : v.step (.requireData n) = some v') :
    ∃ request, v.call = some request ∧ v.client.answers = [] ∧ v.parse n = some v' := by
  rw [step] at h
  split at h
  · rename_i request hc ha
    exact ⟨request, hc, ha, h⟩
  · cases h

theorem step_timeout {v v' : Conversation} (h : v.step .timeout = some v') :
    ∃ request, v.call = some request ∧ v' = { v with call := none, abandoned := v.abandoned + 1 } := by
  rw [step] at h
  split at h
  · rename_i request hc _
    exact ⟨request, hc, (Option.some.inj h).symm⟩
  · cases h

theorem step_finish {v v' : Conversation} (h : v.step .finish = some v') :
    ∃ request answer answers, v.call = some request ∧ v.client.answers = answer :: answers ∧
      v' = { v with
        client := (({ v.client with answers := answers } : FpgaClientBase).finish request answer).1
        call := none
        consumed := v.consumed ++ [⟨v.requests.length - 1, v.abandoned, answer,
          (({ v.client with answers := answers } : FpgaClientBase).finish request answer).2⟩]
        refreshed := v.refreshed || (decide (request = .getDeviceList) &&
          (({ v.client with answers := answers } : FpgaClientBase).finish request answer).2.isSome) } := by
  rw [step] at h
  split at h
  · rename_i request answer answers hc ha
    exact ⟨request, answer, answers, hc, ha, (Option.some.inj h).symm⟩
  · cases h

/-! ## Which answer a call takes -/

/-- The answers make their way in order from the server to the calls, and each call accounts for one request. -/
structure Paired (v : Conversation) : Prop where
  answers : v.replies =
    v.consumed.map (·.answer) ++ (v.client.answers ++ v.flight.filter (fun packet => packet.rcode ≤ 0))
  requests : v.requests.length = v.consumed.length + v.abandoned + (if v.call = none then 0 else 1)
  current : ∀ request, v.call = some request → v.requests.getLast? = some request
  replied : v.replies.length ≤ v.requests.length
  calls : ∀ (k : Nat) (u : Consumed), v.consumed[k]? = some u → u.call = k + u.abandonedBefore ∧
    ∃ request c, v.requests[u.call]? = some request ∧ u.result = (finish c request u.answer).2

theorem paired_initial (registered : List String) : Paired (initial registered) where
  answers := rfl
  requests := rfl
  current _ h := by cases h
  replied := Nat.le_refl _
  calls _ _ h := by cases h

theorem rcode_reply (registered : List String) (request : Request) (outcome : Outcome) :
    (reply registered request outcome).rcode ≤ 0 := by
  cases outcome with
  | ok value => cases request <;> exact Int.le_refl 0
  | error text => cases request <;> exact (by decide : (-1 : Int) ≤ 0)

theorem rcode_added (serial : String) : ¬ (rpcEventAdded serial).rcode ≤ 0 := (by decide : ¬ (1 : Int) ≤ 0)

theorem rcode_removed (serial : String) : ¬ (rpcEventRemoved serial).rcode ≤ 0 := (by decide : ¬ (2 : Int) ≤ 0)

theorem rcode_regChanged (serial : String) (addr port : UInt8) (value : UInt16) :
    ¬ (rpcEventRegChanged serial addr port value).rcode ≤ 0 := (by decide : ¬ (3 : Int) ≤ 0)

/-- An event of the server. -/
theorem Paired.event {v v' : Conversation} {packet : Packet} (h : Paired v) (hp : ¬ packet.rcode ≤ 0)
    (hv : v' = { v.send packet with registered := v'.registered }) : Paired v' := by
  rw [hv]
  refine ⟨?_, h.requests, h.current, h.replied, h.calls⟩
  dsimp only [send]
  rw [List.filter_append, List.filter_singleton]
  simpa [hp] using h.answers

theorem Paired.parse {v v' : Conversation} {n : Nat} (h : Paired v) (hv : v.parse n = some v') : Paired v' := by
  obtain ⟨client, hc, rfl⟩ := Option.map_eq_some_iff.1 hv
  refine ⟨?_, h.requests, h.current, h.replied, h.calls⟩
  dsimp only
  rw [(parseData_spec hc).1, List.append_assoc, ← List.filter_append, List.take_append_drop]
  exact h.answers

theorem Paired.answer {v : Conversation} (h : Paired v) {request : Request} {outcome : Outcome}
    (hr : v.requests[v.replies.length]? = some request) :
    Paired { v.send (reply v.registered request outcome) with
      replies := v.replies ++ [reply v.registered request outcome] } := by
  constructor
  · dsimp only [send]
    rw [List.filter_append, ← List.append_assoc v.client.answers, ← List.append_assoc (v.consumed.map _), ← h.answers]
    simp [rcode_reply]
  · exact h.requests
  · exact h.current
  · have := (List.getElem?_eq_some_iff.1 hr).1
    rw [List.length_append, List.length_singleton]
    exact this
  · exact h.calls

theorem Paired.call {v : Conversation} (h : Paired v) (request : Request) (hc : v.call = none) :
    Paired { v with requests := v.requests ++ [request], call := some request } := by
  constructor
  · exact h.answers
  · have := h.requests
    simpa [hc] using this
  · intro r hr
    cases hr
    simp
  · have := h.replied
    simp only [List.length_append]
    omega
  · intro k u hu
    obtain ⟨hcall, r, c, hr, hres⟩ := h.calls k u hu
    have := (List.getElem?_eq_some_iff.1 hr).1
    exact ⟨hcall, r, c, by rw [List.getElem?_append_left this, hr], hres⟩

theorem Paired.timeout {v : Conversation} (h : Paired v) {request : Request} (hc : v.call = some request) :
    Paired { v with call := none, abandoned := v.abandoned + 1 } := by
  refine ⟨h.answers, ?_, fun r hr => (by cases hr), h.replied, h.calls⟩
  have := h.requests
  simp [hc] at this ⊢
  omega

theorem Paired.finish {v : Conversation} (h : Paired v) {request : Request} {answer : Packet} {answers : List Packet}
    {client : FpgaClientBase} {result : Option Obj} (refreshed : Bool) (hc : v.call = some request)
    (ha : v.client.answers = answer :: answers)
    (hf : ({ v.client with answers := answers } : FpgaClientBase).finish request answer = (client, result)) :
    Paired { v with
      client := client, call := none
      consumed := v.consumed ++ [⟨v.requests.length - 1, v.abandoned, answer, result⟩], refreshed := refreshed } := by
  have hcount := h.requests
  simp only [hc, reduceCtorEq, ↓reduceIte] at hcount
  have hkept : client.answers = answers := by
    have := answers_finish { v.client with answers := answers } request answer
    rwa [hf] at this
  constructor
  · have := h.answers
    rw [ha] at this
    simpa [hkept] using this
  · simp only [List.length_append, List.length_singleton, ↓reduceIte]
    omega
  · intro r hr
    cases hr
  · exact h.replied
  · intro k u hu
    rcases Nat.lt_or_ge k v.consumed.length with hk | hk
    · rw [List.getElem?_append_left hk] at hu
      exact h.calls k u hu
    · rw [List.getElem?_append_right hk] at hu
      obtain ⟨hlt, hu⟩ := List.getElem?_eq_some_iff.1 hu
      rw [List.length_singleton] at hlt
      obtain rfl : u = ⟨v.requests.length - 1, v.abandoned, answer, result⟩ := by
        rw [← hu]
        simp
      refine ⟨by dsimp only; omega, request, _, ?_, (congrArg Prod.snd hf).symm⟩
      rw [← List.getLast?_eq_getElem?]
      exact h.current request hc

theorem Paired.step {v v' : Conversation} (h : Paired v) {t : Turn} (hs : v.step t = some v') : Paired v' := by
  cases t with
  | added serial =>
    obtain ⟨-, rfl⟩ := step_added hs
    exact h.event (rcode_added serial) rfl
  | removed serial =>
    obtain ⟨-, rfl⟩ := step_removed hs
    exact h.event (rcode_removed serial) rfl
  | regChanged serial addr port value =>
    cases hs
    exact h.event (rcode_regChanged serial addr port value) rfl
  | answer outcome =>
    obtain ⟨request, hr, rfl⟩ := step_answer hs
    exact h.answer hr
  | call request =>
    obtain ⟨hc, rfl⟩ := step_call hs
    exact h.call request hc
  | readyRead n => exact h.parse (step_readyRead hs).2
  | requireData n =>
    obtain ⟨request, hc, ha, hv⟩ := step_requireData hs
    exact h.parse hv
  | timeout =>
    obtain ⟨request, hc, rfl⟩ := step_timeout hs
    exact h.timeout hc
  | finish =>
    obtain ⟨request, answer, answers, hc, ha, rfl⟩ := step_finish hs
    exact h.finish _ hc ha rfl

theorem Paired.reachable {P : Conversation → Turn → Prop} {registered : List String} {v : Conversation}
    (h : Reachable P registered v) : Paired v := by
  induction h with
  | initial => exact paired_initial registered
  | step t _ _ hs ih => exact ih.step hs

/-- **The answers are taken in the order of the requests**: the `k`-th one taken is the server's answer to request `k`.  The
call that takes it is that of request `k` exactly if none of the calls before it was abandoned. -/
theorem answers_consumed (registered : List String) (v : Conversation) (h : Reachable (fun _ _ => True) registered v)
    (k : Nat) (u : Consumed) (hu : v.consumed[k]? = some u) :
    v.replies[k]? = some u.answer ∧
    (∃ request c, v.requests[u.call]? = some request ∧ u.result = (finish c request u.answer).2) ∧
    (u.call = k ↔ u.abandonedBefore = 0) := by
  have hp := Paired.reachable h
  obtain ⟨hcall, hresult⟩ := hp.calls k u hu
  refine ⟨?_, hresult, by omega⟩
  have hlt := (List.getElem?_eq_some_iff.1 hu).1
  rw [hp.answers, List.getElem?_append_left (by rwa [List.length_map]), List.getElem?_map, hu, Option.map_some]

def run (v : Conversation) : List Turn → Option Conversation
  | [] => some v
  | t :: turns => (v.step t).bind (fun v => v.run turns)

theorem Reachable.run {registered : List String} : ∀ {turns : List Turn} {v v' : Conversation},
    Reachable (fun _ _ => True) registered v → v.run turns = some v' → Reachable (fun _ _ => True) registered v'
  | [], v, v', h, hr => by
    cases hr
    exact h
  | t :: turns, v, v', h, hr => by
    obtain ⟨u, hu, hr⟩ := Option.bind_eq_some_iff.1 hr
    exact Reachable.run (.step t h trivial hu) hr

/-- A read whose answer comes too late, and another one. -/
def lateAnswer : List Turn :=
  [.call (.readReg "FPGA0001" 1 0), .requireData 0, .timeout, .answer (.ok (.int 5)), .readyRead 1,
    .call (.readReg "FPGA0001" 2 0), .answer (.ok (.int 7)), .finish]

/-- The second read returns what the first register held. -/
theorem call_takes_late_answer : ∃ v u, Reachable (fun _ _ => True) ["FPGA0001"] v ∧ v.consumed[0]? = some u ∧
    u.call = 1 ∧ v.requests[1]? = some (.readReg "FPGA0001" 2 0) ∧ v.replies[1]? = some (rpcReplyValue (.int 7)) ∧
    u.result = some (.int 5) := by
  have hrun : ∃ v, (initial ["FPGA0001"]).run lateAnswer = some v ∧
      v.consumed = [⟨1, 1, rpcReplyValue (.int 5), some (.int 5)⟩] ∧
      v.requests[1]? = some (.readReg "FPGA0001" 2 0) ∧ v.replies[1]? = some (rpcReplyValue (.int 7)) :=
    ⟨_, rfl, rfl, rfl, rfl⟩
  obtain ⟨v, hv, hconsumed, hrequest, hreply⟩ := hrun
  exact ⟨v, _, Reachable.run .initial hv, by rw [hconsumed]; rfl, rfl, hrequest, hreply, rfl⟩

/-- A read that is answered in time, another one that is not, and a third. -/
def thenLate : List Turn :=
  [.call (.readReg "FPGA0001" 1 0), .answer (.ok (.int 5)), .requireData 1, .finish,
    .call (.readReg "FPGA0001" 2 0), .timeout, .answer (.ok (.int 7)), .call (.reprogramDevice "FPGA0001"),
    .requireData 1, .finish]

theorem answers_consumed_then_late : ∃ v u w, (initial ["FPGA0001"]).run thenLate = some v ∧
    v.consumed[0]? = some u ∧ v.replies[0]? = some u.answer ∧ u.call = 0 ∧
    v.consumed[1]? = some w ∧ v.replies[1]? = some w.answer ∧ w.call ≠ 1 := by
  have hrun : ∃ v, (initial ["FPGA0001"]).run thenLate = some v ∧ v.consumed =
      [⟨0, 0, rpcReplyValue (.int 5), some (.int 5)⟩, ⟨2, 1, rpcReplyValue (.int 7), some (.int 7)⟩] := ⟨_, rfl, rfl⟩
  obtain ⟨v, hv, hconsumed⟩ := hrun
  have hreach := Reachable.run .initial hv
  have hu := answers_consumed _ v hreach 0 _ (by rw [hconsumed]; rfl)
  have hw := answers_consumed _ v hreach 1 _ (by rw [hconsumed]; rfl)
  exact ⟨v, _, _, hv, by rw [hconsumed]; rfl, hu.1, hu.2.2.2 rfl, by rw [hconsumed]; rfl, hw.1,
    fun h => Nat.one_ne_zero (hw.2.2.1 h)⟩

end Conversation
end Fpga
