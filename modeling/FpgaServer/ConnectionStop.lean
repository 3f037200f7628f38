import FpgaServer.Server
/-!
# ConnectionStop — a connection that has been stopped

It is out of the set for good in every run.  Its socket is closed, and its requests are over, in the runs whose stops meet
neither of two things: a `shutdown` that throws, which skips `close`, and a read that is queued with messages, whose handler
passes them on.
-/
namespace Fpga

open Base (Act Transducer)
open Base.Act

theorem Client.stop_isOpen {α : Type} {client : Client α} (h : client.isOpen = true → client.shutdownThrows = false) :
    client.stop.isOpen = false := by
  unfold Client.stop
  by_cases ho : client.isOpen = true
  · simp [ho, h ho]
  · simp [ho]

/-- Data that has been read is not given up. -/
theorem Client.stop_data {α : Type} {client : Client α} {messages : List α} {ending : Ending} :
    client.stop.completion = some (.data messages ending) ↔ client.completion = some (.data messages ending) := by
  unfold Client.stop
  by_cases ho : (client.isOpen && !client.shutdownThrows) = true
  · rw [if_pos ho]
    cases client.completion with
    | none => by_cases hr : client.reading <;> simp [hr]
    | some completion => simp
  · rw [if_neg ho]

namespace Server

variable {σ α ι : Type} {A : Application σ α ι}

/-- `ClientConnection::stop` of `c` in the step. -/
def Stops (n n' : Server σ α) (c : Nat) : Prop := ∃ more, n'.log = n.log ++ more ∧ .leave c ∈ more

/-- The stops of the step: `shutdown` does not throw, and no read is queued with messages but the one that is handled. -/
def StopsCleanly (A : Application σ α ι) (n n' : Server σ α) : Prop := ∀ c, Stops n n' c →
  ((n.clients c).isOpen = true → (n.clients c).shutdownThrows = false) ∧
  ∀ messages ending, (n.clients c).completion = some (.data messages ending) →
    messages = [] ∨ (n.clients c).reading = true ∧ onRead A c messages ending n = some n'

def CleanStep (A : Application σ α ι) (n n' : Server σ α) : Prop := Step A n n' ∧ StopsCleanly A n n'

theorem Keeps.data {n n' : Server σ α} {more : List (Act Nat α Buffer)} (h : Keeps n n' more) {c : Nat}
    {messages : List α} {ending : Ending} :
    (n'.clients c).completion = some (.data messages ending) ↔ (n.clients c).completion = some (.data messages ending) := by
  rcases h.clients c with ⟨-, o, ho⟩ | ⟨-, o, ho⟩
  · rw [ho]
  · rw [ho]
    exact Client.stop_data

/-- What a read adds to the log: requests of its connection and what they broadcast, and at most one stop, the last thing. -/
theorem onRead_spec {n n' : Server σ α} (h : Sound A n) {c : Nat} {messages : List α} {ending : Ending}
    (hc : (n.clients c).reading = true) (hn : onRead A c messages ending n = some n') :
    ∃ asked last n₂, Keeps (n.readDone c) n₂ (asked ++ last) ∧ (n' = n₂ ∨ n' = n₂.doRead c) ∧
      (∀ d, .leave d ∉ asked) ∧ (last = [] ∨ last = [.leave c]) ∧ (∀ d a, .ask d a ∈ asked → d = c ∧ messages ≠ []) := by
  obtain ⟨hdone, hcurrent, -⟩ := h.beforeRead hc
  obtain ⟨n₁, ok, hr, hn⟩ := onRead_cases hn
  obtain ⟨asked, hh⟩ := handleMessages_spec c messages hr hdone.mailed hdone.served hcurrent
  have hk := hh.keeps
  have hasked : ∀ d a, .ask d a ∈ asked → d = c ∧ messages ≠ [] := by
    intro d a ha
    constructor
    · by_contra hdc
      exact List.ne_nil_of_mem (ask_mem_dialogue (List.mem_append_left _ ha)) (hh.others d hdc)
    · rintro rfl
      cases hr
      obtain rfl : asked = [] := by simpa using hk.log
      cases ha
  rcases hn with ⟨rfl, rfl⟩ | ⟨rfl, rfl | rfl⟩
  · exact ⟨asked, _, n', hk, .inl rfl, hh.stays, .inr rfl, hasked⟩
  · refine ⟨asked, [.leave c], _, ?_, .inl rfl, hh.stays, .inr rfl, hasked⟩
    simpa using hk.trans (keeps_stop n₁ c)
  · exact ⟨asked, _, n₁, hk, .inr rfl, hh.stays, .inl rfl, hasked⟩

/-! ## Out of the set -/

/-- Connections that have been stopped have been accepted, and are not in the set. -/
def Left (n : Server σ α) : Prop := ∀ c, .leave c ∈ n.log → c < n.accepted ∧ joined c n.log = false

theorem Left.keeps {n n' : Server σ α} {more : List (Act Nat α Buffer)} (h : Left n) (hk : Keeps n n' more)
    (hm : ∀ c, .leave c ∈ more → c < n.accepted) : Left n' := by
  intro c hc
  rw [hk.log] at hc ⊢
  rw [hk.accepted, joined_append]
  rcases List.mem_append.1 hc with hold | hnew
  · obtain ⟨hlt, hout⟩ := h c hold
    refine ⟨hlt, Bool.eq_false_iff.2 (fun ht => ?_)⟩
    rw [hout] at ht
    exact hk.joins c ((mem_join_of_run ht).resolve_left (by simp))
  · refine ⟨hm c hnew, Bool.eq_false_iff.2 (fun ht => ?_)⟩
    obtain ⟨more₁, more₂, rfl⟩ := List.append_of_mem hnew
    rw [Transducer.run_append, Transducer.run_cons] at ht
    have hback := (mem_join_of_run ht).resolve_left (by simp [inbox, joins])
    exact hk.joins c (by simp [hback])

theorem Left.step {n n' : Server σ α} (h : Left n) (hs : Sound A n) (hn : Step A n n') : Left n' := by
  cases hn with
  | accept error =>
    unfold onAccept
    split
    · split
      · exact h
      · intro c hc
        have hold : .leave c ∈ n.log := (List.mem_append.1 hc).resolve_right (by simp)
        obtain ⟨hlt, hout⟩ := h c hold
        have hlog : n.start.log = n.log ++ [.join n.accepted] := rfl
        refine ⟨Nat.lt_succ_of_lt hlt, ?_⟩
        rw [hlog, joined_snoc, hout]
        simpa [joins] using hlt.ne'
    · exact h
  | complete c completion hc hq ho => exact h
  | shutdown c throws => exact h
  | read _ c messages ending hc hq hn =>
    obtain ⟨asked, last, n₂, hk, hn', hleave, hlast, -⟩ := onRead_spec hs hc hn
    have h₂ : Left n₂ := by
      refine Left.keeps (n := n.readDone c) h hk (fun d hd => ?_)
      rcases hlast with rfl | rfl
      · exact absurd (by simpa using hd) (hleave d)
      · obtain rfl : d = c := by simpa [hleave d] using hd
        exact (hs.beforeRead hc).2.2
    rcases hn' with rfl | rfl
    · exact h₂
    · exact h₂
  | readError c aborted hc hq =>
    unfold onReadError
    dsimp only
    split
    · exact h
    · exact Left.keeps (n := n.readDone c) h (keeps_stop _ c) (by simp [(hs.beforeRead hc).2.2, readDone, Server.onClient])
  | transfer c o ho => exact h
  | writeError c o aborted hc ho =>
    split
    · exact h
    · exact Left.keeps (n := n.setOutgoing c o) h (keeps_stop _ c) (by simpa [setOutgoing, Server.onClient] using hc)
  | act i events app ha => exact h.keeps (keeps_notify hs.mailed events app) (by simp)
  | close =>
    refine h.keeps (keeps_close n) (fun c hc => ?_)
    have hc : c ∈ n.connections := by simpa using hc
    have hjoin := (mem_join_of_run ((hs.mailed.member c).1 hc)).resolve_left (by simp)
    by_contra hle
    exact (hs.fresh c (by omega)).1 hjoin

/-! ## Closed and silent -/

/-- What a stop leaves of a connection. -/
structure Ended (n : Server σ α) (c : Nat) : Prop where
  closed : (n.clients c).isOpen = false
  silent : DoneAsking c n.log
  /-- No read is queued that has messages to pass on. -/
  spent : ∀ messages ending, (n.clients c).completion = some (.data messages ending) → messages = []

theorem Ended.keeps {n n' : Server σ α} {more : List (Act Nat α Buffer)} {c : Nat} (hk : Keeps n n' more)
    (h : .leave c ∈ n.log → Ended n c) (hsilent : DoneAsking c n'.log)
    (hclean : .leave c ∈ more → ((n.clients c).isOpen = true → (n.clients c).shutdownThrows = false) ∧
      ∀ messages ending, (n.clients c).completion = some (.data messages ending) → messages = [])
    (hc : .leave c ∈ n'.log) : Ended n' c := by
  rw [hk.log, List.mem_append] at hc
  constructor
  · rcases hk.clients c with ⟨hm, o, ho⟩ | ⟨hm, o, ho⟩
    · rw [ho]
      exact (h (hc.resolve_right hm)).closed
    · rw [ho]
      exact Client.stop_isOpen (hclean hm).1
  · exact hsilent
  · intro messages ending hdata
    rw [hk.data] at hdata
    rcases hc with hold | hnew
    · exact (h hold).spent messages ending hdata
    · exact (hclean hnew).2 messages ending hdata

/-- A handler that passes on no request of the connection. -/
theorem Ended.quiet {n n' : Server σ α} {more : List (Act Nat α Buffer)} {c : Nat} (hk : Keeps n n' more)
    (h : .leave c ∈ n.log → Ended n c) (hask : ∀ a, .ask c a ∉ more)
    (hclean : .leave c ∈ more → ((n.clients c).isOpen = true → (n.clients c).shutdownThrows = false) ∧
      ∀ messages ending, (n.clients c).completion = some (.data messages ending) → messages = [])
    (hc : .leave c ∈ n'.log) : Ended n' c := by
  refine Ended.keeps hk h ?_ hclean hc
  rw [hk.log]
  refine DoneAsking.append ?_ hask
  by_cases hold : .leave c ∈ n.log
  · exact (h hold).silent
  · exact doneAsking_of_not_mem hold

theorem Ended.onClient {n : Server σ α} {c : Nat} (h : Ended n c) (d : Nat) {f : Client α → Client α}
    (ho : (f (n.clients d)).isOpen = (n.clients d).isOpen)
    (hq : d = c → ∀ messages ending, (f (n.clients d)).completion = some (.data messages ending) → messages = []) :
    Ended (n.onClient d f) c := by
  by_cases hcd : c = d
  · subst hcd
    have hclient : (n.onClient c f).clients c = f (n.clients c) := Function.update_self ..
    refine ⟨?_, h.silent, ?_⟩
    · rw [hclient, ho]
      exact h.closed
    · rw [hclient]
      exact hq rfl
  · have hclient : (n.onClient d f).clients c = n.clients c := Function.update_of_ne hcd ..
    refine ⟨?_, h.silent, ?_⟩
    · rw [hclient]
      exact h.closed
    · rw [hclient]
      exact h.spent

/-- The read that is handled leaves none queued. -/
theorem onRead_completion {n n' : Server σ α} (h : Sound A n) {c : Nat} {messages : List α} {ending : Ending}
    (hc : (n.clients c).reading = true) (hn : onRead A c messages ending n = some n') :
    ∀ messages' ending', (n'.clients c).completion ≠ some (.data messages' ending') := by
  intro messages' ending' hdata
  obtain ⟨asked, last, n₂, hk, hn', -⟩ := onRead_spec h hc hn
  have hdone : (n₂.clients c).completion = some (.data messages' ending') := by
    rcases hn' with rfl | rfl
    · exact hdata
    · simpa [doRead, Server.onClient] using hdata
  simpa [readDone, Server.onClient] using hk.data.1 hdone

/-- A step that is no read of the connection stops it with no messages queued. -/
theorem StopsCleanly.keeps {n n' : Server σ α} {more : List (Act Nat α Buffer)} (hclean : StopsCleanly A n n')
    (h : Sound A n) (hk : Keeps n n' more) {c : Nat} (hm : .leave c ∈ more) :
    ((n.clients c).isOpen = true → (n.clients c).shutdownThrows = false) ∧
      ∀ messages ending, (n.clients c).completion = some (.data messages ending) → messages = [] := by
  obtain ⟨hshut, hspent⟩ := hclean c ⟨more, hk.log, hm⟩
  refine ⟨hshut, fun messages ending hdata => (hspent messages ending hdata).resolve_right ?_⟩
  rintro ⟨hc, hn⟩
  exact onRead_completion h hc hn messages ending (hk.data.2 hdata)

theorem Ended.readDone {n : Server σ α} {c : Nat} (h : Ended n c) (d : Nat) : Ended (n.readDone d) c :=
  h.onClient d rfl (fun _ _ _ hm => by cases hm)

theorem Ended.read {n n' : Server σ α} (hs : Sound A n) {d : Nat} {messages : List α} {ending : Ending}
    (hd : (n.clients d).reading = true) (hq : (n.clients d).completion = some (.data messages ending))
    (hn : onRead A d messages ending n = some n') (hclean : StopsCleanly A n n') {c : Nat}
    (h : .leave c ∈ n.log → Ended n c) (hc : .leave c ∈ n'.log) : Ended n' c := by
  obtain ⟨asked, last, n₂, hk, hn', hleave, hlast, hask⟩ := onRead_spec hs hd hn
  have hlog : n'.log = n.log ++ (asked ++ last) := by
    rcases hn' with rfl | rfl <;> exact hk.log
  have h₂ : Ended n₂ c := by
    refine Ended.keeps hk (fun hold => (h hold).readDone d) ?_ (fun hm => ?_) ?_
    · rw [hk.log]
      by_cases hold : .leave c ∈ n.log
      · -- the messages of a connection that was stopped before are none
        refine (h hold).silent.append (fun a ha => ?_)
        rcases List.mem_append.1 ha with ha | ha
        · obtain ⟨rfl, hne⟩ := hask c a ha
          exact hne ((h hold).spent messages ending hq)
        · rcases hlast with rfl | rfl <;> simp at ha
      · rw [← List.append_assoc]
        refine DoneAsking.append (doneAsking_of_not_mem (fun hm => (List.mem_append.1 hm).elim hold (hleave c))) (fun a ha => ?_)
        rcases hlast with rfl | rfl <;> simp at ha
    · obtain rfl : c = d := by
        rcases hlast with rfl | rfl
        · simp [hleave c] at hm
        · simpa [hleave c] using hm
      refine ⟨?_, ?_⟩
      · simpa [Server.readDone, Server.onClient] using (hclean c ⟨_, hlog, hm⟩).1
      · simp [Server.readDone, Server.onClient]
    · rw [hk.log]
      exact hlog ▸ hc
  rcases hn' with rfl | rfl
  · exact h₂
  · exact h₂.onClient d rfl (fun hdc => hdc ▸ h₂.spent)

theorem Ended.step {n n' : Server σ α} (hs : Sound A n) (h : ∀ c, .leave c ∈ n.log → Ended n c) (hn : CleanStep A n n') :
    ∀ c, .leave c ∈ n'.log → Ended n' c := by
  intro c hc
  obtain ⟨hn, hclean⟩ := hn
  cases hn with
  | accept error =>
    unfold onAccept at hc ⊢
    by_cases hl : n.isListening
    · cases error with
      | true =>
        simp only [hl, if_true] at hc ⊢
        exact h c hc
      | false =>
        simp only [hl, if_true, Bool.false_eq_true, if_false] at hc ⊢
        have hold : .leave c ∈ n.log := (List.mem_append.1 hc).resolve_right (by simp)
        have hjoined : Ended { n.record (.join n.accepted) with
            connections := n.connections ++ [n.accepted], accepted := n.accepted + 1 } c :=
          ⟨(h c hold).closed, (h c hold).silent.append (by simp), (h c hold).spent⟩
        refine hjoined.onClient n.accepted (f := fun client => { client with reading := true }) rfl ?_
        rintro rfl
        exact (h _ hold).spent
    · simp only [hl] at hc ⊢
      exact h c hc
  | complete d completion hd hq ho =>
    refine (h c hc).onClient d rfl (fun hdc messages ending hm => ?_)
    subst hdc
    -- the socket is closed, so the read has failed
    rcases ho with ho | ⟨aborted, rfl⟩
    · rw [(h d hc).closed] at ho
      cases ho
    · cases hm
  | shutdown d throws =>
    refine (h c hc).onClient d (f := fun client => { client with shutdownThrows := throws }) rfl ?_
    rintro rfl
    exact (h _ hc).spent
  | read _ d messages ending hd hq hn => exact Ended.read hs hd hq hn hclean (h c) hc
  | readError d aborted hd hq =>
    unfold onReadError at hc hclean ⊢
    cases aborted with
    | true => exact (h c hc).readDone d
    | false =>
      have hk := keeps_stop (n.readDone d) d
      refine Ended.quiet hk (fun hold => (h c hold).readDone d) (by simp) (fun hm => ?_) hc
      obtain rfl : c = d := by simpa using hm
      refine ⟨?_, ?_⟩
      · simpa [Server.readDone, Server.onClient] using (hclean c ⟨_, hk.log, hm⟩).1
      · simp [Server.readDone, Server.onClient]
  | transfer d o ho =>
    refine (h c hc).onClient d (f := fun client => { client with outgoing := o }) rfl ?_
    rintro rfl
    exact (h _ hc).spent
  | writeError d o aborted hd ho =>
    cases aborted with
    | true =>
      refine (h c hc).onClient d (f := fun client => { client with outgoing := o }) rfl ?_
      rintro rfl
      exact (h _ hc).spent
    | false =>
      have hk : Keeps n ((n.setOutgoing d o).stop d) [.leave d] := (keeps_outgoing n d (fun _ => o)).trans (keeps_stop _ d)
      exact Ended.quiet hk (h c) (by simp) (hclean.keeps hs hk) hc
  | act i events app ha =>
    exact Ended.quiet (keeps_notify hs.mailed events app) (h c) (by simp) (fun hm => by simp at hm) hc
  | close => exact Ended.quiet (keeps_close n) (h c) (by simp) (hclean.keeps hs (keeps_close n)) hc

theorem left_of_reachable (A : Application σ α ι) (app : σ) {n : Server σ α}
    (h : Relation.ReflTransGen (Step A) (initial app) n) {c : Nat} (hc : .leave c ∈ n.log) : c ∉ n.connections := by
  have hleft : Left n := by
    clear hc
    induction h with
    | refl => exact fun _ hm => absurd hm List.not_mem_nil
    | tail hr hs ih => exact ih.step ((sound_initial app).run hr) hs
  rw [((sound_initial app).run h).mailed.member, (hleft c hc).2]
  exact Bool.false_ne_true

theorem run_of_clean {n n' : Server σ α} (h : Relation.ReflTransGen (CleanStep A) n n') :
    Relation.ReflTransGen (Step A) n n' := by
  induction h with
  | refl => exact .refl
  | tail _ hs ih => exact ih.tail hs.1

/-- **A connection that has been stopped is out of the set, its socket is closed, and no request of it is handled any
more**, in the runs where every stop is a clean one. -/
theorem stopped_for_good (A : Application σ α ι) (app : σ) {n : Server σ α}
    (h : Relation.ReflTransGen (CleanStep A) (initial app) n) (c : Nat) (hc : .leave c ∈ n.log) :
    c ∉ n.connections ∧ Ended n c := by
  refine ⟨left_of_reachable A app (run_of_clean h) hc, ?_⟩
  induction h generalizing c with
  | refl => exact absurd hc List.not_mem_nil
  | tail hr hs ih => exact Ended.step ((sound_initial app).run (run_of_clean hr)) ih hs c hc

theorem cleanStep_quiet {n n' : Server σ α} (h : Step A n n') (more : List (Act Nat α Buffer))
    (hlog : n'.log = n.log ++ more) (hm : ∀ c, .leave c ∉ more) : CleanStep A n n' := by
  refine ⟨h, ?_⟩
  rintro c ⟨more', hmore, hc⟩
  rw [hlog, List.append_cancel_left_eq] at hmore
  exact absurd (hmore ▸ hc) (hm c)

theorem stopped_for_good_echo : ∃ n : Server Unit UInt8, n.log = [.join 0, .leave 0] ∧ 0 ∉ n.connections ∧ Ended n 0 := by
  have h := Relation.ReflTransGen.refl.tail
    (cleanStep_quiet (A := echo) (.accept (initial ()) false) [.join 0] rfl (by simp))
  have h := h.tail (cleanStep_quiet (.complete _ 0 (.error false) rfl rfl (.inl rfl)) [] rfl (by simp))
  have h := h.tail ⟨.readError _ 0 false rfl rfl, ?_⟩
  · exact ⟨_, rfl, stopped_for_good echo () h 0 (by simp [onReadError, Server.stop, stopClient, record, onClient])⟩
  · rintro c ⟨more, hmore, hc⟩
    obtain rfl : more = [.leave 0] := (List.append_cancel_left hmore).symm
    obtain rfl : c = 0 := by simpa using hc
    exact ⟨fun _ => rfl, fun _ _ hdata => by cases hdata⟩

/-- A read is queued with a request when the server closes; a `shutdown` throws. -/
theorem stopped_yet_served :
    (∃ n, Relation.ReflTransGen (Step echo) (initial ()) n ∧
      n.log = [.join 0, .leave 0, .ask 0 5, .broadcast [0], .answer 0 [5]] ∧ ¬ DoneAsking 0 n.log) ∧
    ∃ n, Relation.ReflTransGen (Step echo) (initial ()) n ∧ n.log = [.join 0, .leave 0] ∧ (n.clients 0).isOpen = true := by
  have h := Relation.ReflTransGen.refl.tail (Step.accept (A := echo) (initial ()) false)
  constructor
  · have hq := (h.tail (.complete _ 0 (.data [5] (.incomplete 0)) rfl rfl (.inl rfl))).tail (.close _)
    refine ⟨_, hq.tail (.read _ _ 0 [5] (.incomplete 0) rfl rfl rfl), rfl, fun hs => ?_⟩
    exact hs [.join 0] [.ask 0 5, .broadcast [0], .answer 0 [5]] rfl 5 List.mem_cons_self
  · have hq := (h.tail (.complete _ 0 (.error false) rfl rfl (.inl rfl))).tail (.shutdown _ 0 true)
    exact ⟨_, hq.tail (.readError _ 0 false rfl rfl), rfl, rfl⟩

end Server
end Fpga
