import Mathlib.Data.List.Infix
import FpgaServer.DeviceServer
/-!
# OversizeMessage — when the limit on the size of a message is enforced

The size is looked at only when a read has been handled, and then only that of the message that is still incomplete: a
message that grows from no more than the limit to its end within one read is handled, however long it is.  So nothing longer
than the limit is handled if and only if a read ends within the first message that is too long, after more than the limit of
its bytes (`limit_enforced`); there the connection is dropped.
-/
namespace Fpga

open Base (Act)
open Base.Act

namespace Unpacker

variable {β α : Type} {U : Unpacker β α} {WellFormed : α → Buffer → Prop} {Holds : β → Buffer → Prop}

/-- The documented behaviour of the unpacker on any bytes: encodings end where they say they do, a message is yielded only
if it has been received, and what is held is what is counted. -/
structure Parses (U : Unpacker β α) (WellFormed : α → Buffer → Prop) (Holds : β → Buffer → Prop) : Prop
    extends Unpacks U WellFormed Holds where
  delimited : ∀ {m b m' b'}, WellFormed m b → WellFormed m' b' → b <+: b' → m = m' ∧ b = b'
  nonempty : ∀ {m b}, WellFormed m b → b ≠ []
  sound : ∀ {u u' b m}, Holds u b → U.next u = some (some m, u') → ∃ enc rest, b = enc ++ rest ∧ WellFormed m enc
  counts : ∀ {u u' b}, Holds u b → U.next u = some (none, u') → Holds u' b ∧ U.messageSize u' = b.length

/-- The bytes are these messages, and then something that does not begin with a complete one. -/
structure Parsed (WellFormed : α → Buffer → Prop) (b : Buffer) (messages : List (α × Buffer)) (q : Buffer) : Prop where
  wellFormed : ∀ x ∈ messages, WellFormed x.1 x.2
  bytes : b = bytesOf messages ++ q
  ends : ∀ m enc, WellFormed m enc → ¬ enc <+: q

theorem bytesOf_append (messages more : List (α × Buffer)) : bytesOf (messages ++ more) = bytesOf messages ++ bytesOf more := by
  simp [bytesOf]

/-- More bytes complete more messages. -/
theorem Parsed.more {b d q q' : Buffer} {messages more : List (α × Buffer)} (h : Parsed WellFormed b messages q)
    (h' : Parsed WellFormed (q ++ d) more q') : Parsed WellFormed (b ++ d) (messages ++ more) q' where
  wellFormed x hx := (List.mem_append.1 hx).elim (h.wellFormed x) (h'.wellFormed x)
  bytes := by rw [h.bytes, List.append_assoc, h'.bytes, bytesOf_append, List.append_assoc]
  ends := h'.ends

/-- **What a read completes** are the complete messages at the front of what is held. -/
theorem Drains.parsed (hU : U.Parses WellFormed Holds) {u u' : β} {messages : List α} {ending : Ending}
    (hd : U.Drains u messages ending u') : ∀ {b : Buffer}, Holds u b →
    ∃ read q, Parsed WellFormed b read q ∧ messages = read.map Prod.fst ∧
      ∀ n, ending = .incomplete n → n = q.length ∧ Holds u' q := by
  -- a complete message at the front would have been yielded
  have hends : ∀ {u : β} {b : Buffer}, Holds u b → (∀ m u', U.next u ≠ some (some m, u')) →
      Parsed WellFormed b [] b := by
    refine fun {u b} hu hnone => ⟨nofun, rfl, ?_⟩
    rintro m enc hm ⟨rest, rfl⟩
    obtain ⟨u', hnext, -⟩ := hU.yields hm hu
    exact hnone m u' hnext
  induction hd with
  | @waits u u' h =>
    intro b hu
    obtain ⟨hu', hsize⟩ := hU.counts hu h
    refine ⟨[], b, hends hu (by simp [h]), rfl, fun n hn => ?_⟩
    cases hn
    exact ⟨hsize, hu'⟩
  | @error u h =>
    intro b hu
    exact ⟨[], b, hends hu (by simp [h]), rfl, nofun⟩
  | @message u u' u'' m messages ending h hd ih =>
    intro b hu
    obtain ⟨enc, rest, rfl, hm⟩ := hU.sound hu h
    obtain ⟨v, hv, hrest⟩ := hU.yields hm hu
    rw [h] at hv
    obtain rfl : u' = v := by simpa using hv
    obtain ⟨read, q, hread, rfl, hending⟩ := ih hrest
    refine ⟨(m, enc) :: read, q, ⟨fun x hx => ?_, ?_, hread.ends⟩, rfl, hending⟩
    · rcases List.mem_cons.1 hx with rfl | hx
      · exact hm
      · exact hread.wellFormed x hx
    · rw [bytesOf_cons, List.append_assoc, ← hread.bytes]

/-- The loop over `next` ends: every message it yields takes bytes away. -/
theorem drains_ends (hU : U.Parses WellFormed Holds) : ∀ (size : Nat) {u : β} {b : Buffer}, Holds u b → b.length ≤ size →
    ∃ messages ending u', U.Drains u messages ending u'
  | size, u, b, hu, hb => by
    cases h : U.next u with
    | none => exact ⟨_, _, _, .error h⟩
    | some r =>
      obtain ⟨o, u'⟩ := r
      cases o with
      | none => exact ⟨_, _, _, .waits h⟩
      | some m =>
        obtain ⟨enc, rest, rfl, hm⟩ := hU.sound hu h
        obtain ⟨v, hv, hrest⟩ := hU.yields hm hu
        rw [h] at hv
        obtain rfl : u' = v := by simpa using hv
        have henc := List.length_pos_iff.2 (hU.nonempty hm)
        rw [List.length_append] at hb
        cases size with
        | zero => omega
        | succ size =>
          obtain ⟨messages, ending, u'', hd⟩ := drains_ends hU size hrest (by omega)
          exact ⟨_, _, _, .message h hd⟩

end Unpacker

namespace Server

variable {σ α β ι : Type} {A : Application σ α ι} {U : Unpacker β α} {c : Nat} {WellFormed : α → Buffer → Prop}
  {Holds : β → Buffer → Prop}

open Unpacker

/-! ## The split of a stream -/

/-- Of all messages of the stream that are too long, this is the first. -/
structure FirstOversize (WellFormed : α → Buffer → Prop) (stream : Buffer) (before : List (α × Buffer)) (x : α × Buffer) :
    Prop where
  small : ∀ y ∈ before, Small WellFormed y.1 y.2
  wellFormed : WellFormed x.1 x.2
  oversize : controlMsgMaxBytes < x.2.length
  arrives : bytesOf (before ++ [x]) <+: stream

/-- A read ends within the message that follows these, after more than the limit of its bytes. -/
def CutShort (reads : List Buffer) (before : List (α × Buffer)) (x : α × Buffer) : Prop :=
  ∃ first p, first <+: reads ∧ first.flatten = bytesOf before ++ p ∧ controlMsgMaxBytes < p.length ∧ p.length < x.2.length

/-- The first message that is too long, if there is one, is cut short. -/
def Interrupted (WellFormed : α → Buffer → Prop) (reads : List Buffer) : Prop :=
  ∀ before x, FirstOversize WellFormed reads.flatten before x → CutShort reads before x

/-! ## A connection that is sent reads -/

/-- The server, the unpacker of one connection, what it has been sent and what is still to come. -/
structure Intake (σ α β : Type) where
  server : Server σ α
  unpacker : β
  taken : List Buffer
  coming : List Buffer

/-- The next read of the connection completes, or anything else happens. -/
inductive Intake.Step (U : Unpacker β α) (A : Application σ α ι) (c : Nat) : Intake σ α β → Intake σ α β → Prop where
  | deliver (s : Intake σ α β) (d : Buffer) (ds : List Buffer) (messages : List α) (ending : Ending) (u' : β)
    (hds : s.coming = d :: ds) (hc : (s.server.clients c).reading = true) (hq : (s.server.clients c).completion = none)
    (ho : (s.server.clients c).isOpen = true) (hd : U.Drains (U.bufferConsumed s.unpacker d) messages ending u') :
    Step U A c s ⟨s.server.queueCompletion c (.data messages ending), u', s.taken ++ [d], ds⟩
  | other (s : Intake σ α β) (n' : Server σ α) (hs : Server.Step A s.server n')
    (hdata : ∀ messages ending, (n'.clients c).completion = some (.data messages ending) →
      (s.server.clients c).completion = some (.data messages ending)) : Step U A c s { s with server := n' }

/-- Nothing has been accepted yet, and all reads are to come. -/
def Intake.start (app : σ) (u₀ : β) (reads : List Buffer) : Intake σ α β := ⟨initial app, u₀, [], reads⟩

/-- The messages passed on are the first ones of the stream and none is too long; a connection that waits for more holds no
more than the limit of an incomplete message. -/
def Intake.WithinLimit (WellFormed : α → Buffer → Prop) (c : Nat) (s : Intake σ α β) : Prop :=
  ∃ handled, (∀ x ∈ handled, Small WellFormed x.1 x.2) ∧ asks c s.server.log = handled.map Prod.fst ∧
    bytesOf handled <+: s.taken.flatten ∧
    ((s.server.clients c).reading = true → (s.server.clients c).completion = none →
      ∃ q, s.taken.flatten = bytesOf handled ++ q ∧ q.length ≤ controlMsgMaxBytes)

/-! ## One step -/

/-- A read runs on from before the step, or the connection is a new one. -/
theorem Step.reading_accepted {n n' : Server σ α} (h : Sound A n) (hs : Step A n n') (c : Nat) :
    n.accepted ≤ n'.accepted ∧
      ((n'.clients c).reading = true → (n.clients c).reading = true ∨ n.accepted ≤ c) := by
  have hkeeps : ∀ {u v : Server σ α} {more : List (Act Nat α Buffer)}, u.accepted = n.accepted →
      ((u.clients c).reading = true → (n.clients c).reading = true) → Keeps u v more → n.accepted ≤ v.accepted ∧
      ((v.clients c).reading = true → (n.clients c).reading = true ∨ n.accepted ≤ c) := by
    intro u v more hacc hread hk
    refine ⟨le_of_eq (hk.accepted.trans hacc).symm, fun hr => .inl (hread ?_)⟩
    rwa [hk.reading c] at hr
  have hdone : ∀ d, ((n.readDone d).clients c).reading = true → (n.clients c).reading = true := by
    intro d hr
    by_cases hcd : c = d
    · simp [readDone, Server.onClient, hcd] at hr
    · simpa [readDone, Server.onClient, hcd] using hr
  have hout : ∀ d o, ((n.setOutgoing d o).clients c).reading = true → (n.clients c).reading = true := by
    intro d o hr
    by_cases hcd : c = d <;> simpa [setOutgoing, Server.onClient, hcd] using hr
  cases hs with
  | accept error =>
    unfold onAccept
    split
    · split
      · exact ⟨le_refl _, .inl⟩
      · refine ⟨Nat.le_succ _, fun hr => ?_⟩
        by_cases hc : c = n.accepted
        · exact .inr (le_of_eq hc.symm)
        · left
          simpa [start, doRead, record, Server.onClient, hc] using hr
    · exact ⟨le_refl _, .inl⟩
  | complete d completion hd hq ho =>
    refine ⟨le_refl _, fun hr => .inl ?_⟩
    by_cases hcd : c = d <;> simpa [queueCompletion, Server.onClient, hcd] using hr
  | shutdown d throws =>
    refine ⟨le_refl _, fun hr => .inl ?_⟩
    by_cases hcd : c = d <;> simpa [setShutdown, Server.onClient, hcd] using hr
  | read _ d messages ending hd hq hn =>
    obtain ⟨n₁, ok, hr, hn⟩ := onRead_cases hn
    obtain ⟨asked, hh⟩ := handled_of_reading h hd hr
    have h₁ := hkeeps (u := n.readDone d) rfl (hdone d) hh.keeps
    rcases hn with ⟨rfl, rfl⟩ | ⟨rfl, rfl | rfl⟩
    · exact h₁
    · have hstop := keeps_stop n₁ d
      exact ⟨hstop.accepted ▸ h₁.1, fun hr => h₁.2 (by rwa [hstop.reading c] at hr)⟩
    · refine ⟨h₁.1, fun hr => ?_⟩
      by_cases hcd : c = d
      · subst hcd
        exact .inl hd
      · exact h₁.2 (by simpa [doRead, Server.onClient, hcd] using hr)
  | readError d aborted hd hq =>
    unfold onReadError
    cases aborted with
    | true => exact ⟨le_refl _, fun hr => .inl (hdone d hr)⟩
    | false => exact hkeeps (u := n.readDone d) rfl (hdone d) (keeps_stop _ d)
  | transfer d o ho => exact ⟨le_refl _, fun hr => .inl (hout d o hr)⟩
  | writeError d o aborted hd ho =>
    cases aborted with
    | true => exact ⟨le_refl _, fun hr => .inl (hout d o hr)⟩
    | false => exact hkeeps (u := n.setOutgoing d o) rfl (hout d o) (keeps_stop _ d)
  | act i events app ha => exact hkeeps rfl id (keeps_notify h.mailed events app)
  | close => exact hkeeps rfl id (keeps_close n)

/-- The queued messages are passed on; all of them, or up to one that throws.  Only a small incomplete message is waited
for. -/
theorem passed_of_read {n n' : Server σ α} {messages passed : List α} {ending : Ending} (h : Sound A n)
    (hc : (n.clients c).reading = true) (hp : asks c n.log ++ messages = passed)
    (hn : onRead A c messages ending n = some n') :
    asks c n'.log = passed ∧ ¬ Hanging c n'.log ∧
        ((n'.clients c).reading = true → ∃ size, ending = .incomplete size ∧ size ≤ controlMsgMaxBytes) ∨
      asks c n'.log <+: passed ∧ Hanging c n'.log ∧ handleMessages A c messages (n.readDone c) = some (n', false) := by
  have hsound := h.read hc hn
  unfold onRead at hn
  cases hr : handleMessages A c messages (n.readDone c) with
  | none => simp [hr] at hn
  | some r =>
    obtain ⟨n₁, ok⟩ := r
    obtain ⟨asked, hh⟩ := handled_of_reading h hc hr
    obtain ⟨hall, hthrown⟩ := passed_of_handled h hc hr
    have hidle : (n₁.clients c).reading = false := by
      rw [hh.keeps.reading]
      simp [readDone, Server.onClient]
    subst hp
    cases ok with
    | false =>
      obtain ⟨hasks, hhang⟩ := hthrown rfl
      obtain rfl : n₁ = n' := by simpa [hr] using hn
      exact .inr ⟨hasks, hhang, rfl⟩
    | true =>
      obtain ⟨hasks, hcurrent⟩ := hall rfl
      have hstop : asks c (n₁.stop c).log = asks c n.log ++ messages ∧ ¬ Hanging c (n₁.stop c).log ∧
          ((n₁.stop c).clients c).reading = false := by
        have hk := keeps_stop n₁ c
        have hleave : dialogue c ([.leave c] : List (Act Nat α Buffer)) = [] := rfl
        refine ⟨?_, ?_, (hk.reading c).trans hidle⟩
        · rw [hk.log, asks_append, asks_of_dialogue hleave, List.append_nil, hasks]
        · unfold Hanging
          rw [hk.log, dialogue_append, hleave, List.append_nil]
          exact hcurrent
      cases ending with
      | unpackError =>
        obtain rfl : n₁.stop c = n' := by simpa [hr] using hn
        exact .inl ⟨hstop.1, hstop.2.1, fun hread => by simp [hstop.2.2] at hread⟩
      | incomplete size =>
        by_cases hsize : size > controlMsgMaxBytes
        · obtain rfl : n₁.stop c = n' := by simpa [hr, hsize] using hn
          exact .inl ⟨hstop.1, hstop.2.1, fun hread => by simp [hstop.2.2] at hread⟩
        · obtain rfl : n₁.doRead c = n' := by simpa [hr, hsize] using hn
          exact .inl ⟨hasks, hcurrent, fun _ => ⟨size, rfl, Nat.le_of_not_lt hsize⟩⟩

/-! ## In every run -/

/-- What has been taken are the messages `read` and the beginning `q` of another. -/
structure Intake.Taken (WellFormed : α → Buffer → Prop) (Holds : β → Buffer → Prop) (c : Nat) (s : Intake σ α β)
    (read : List (α × Buffer)) (q : Buffer) : Prop where
  parsed : Parsed WellFormed s.taken.flatten read q
  passed : asks c s.server.log ++ queued s.server c = read.map Prod.fst ∧ ¬ Hanging c s.server.log ∨
    asks c s.server.log <+: read.map Prod.fst ∧ Hanging c s.server.log
  ending : ∀ messages n, (s.server.clients c).completion = some (.data messages (.incomplete n)) →
    n = q.length ∧ Holds s.unpacker q
  waits : (s.server.clients c).reading = true →
    (∀ messages ending, (s.server.clients c).completion ≠ some (.data messages ending)) →
    Holds s.unpacker q ∧ q.length ≤ controlMsgMaxBytes
  fresh : s.server.accepted ≤ c → Holds s.unpacker q ∧ q = []

theorem Intake.Taken.asked {s : Intake σ α β} {read : List (α × Buffer)} {q : Buffer} (h : s.Taken WellFormed Holds c read q) :
    asks c s.server.log <+: read.map Prod.fst := by
  rcases h.passed with ⟨hpassed, -⟩ | ⟨hpassed, -⟩
  · exact hpassed ▸ List.prefix_append _ _
  · exact hpassed

theorem queued_eq_nil {n : Server σ α}
    (h : ∀ messages ending, (n.clients c).completion ≠ some (.data messages ending)) : queued n c = [] := by
  unfold queued
  split
  · rename_i hd
    exact absurd hd (h _ _)
  · rfl

theorem Intake.Step.server {s s' : Intake σ α β} (hs : Intake.Step U A c s s') : Server.Step A s.server s'.server := by
  cases hs with
  | deliver d ds messages ending u' hds hc hq ho hd => exact .complete _ c _ hc hq (.inl ho)
  | other n' hs hdata => exact hs

/-- What the next read adds. -/
theorem Intake.Taken.deliver (hU : U.Parses WellFormed Holds) {s : Intake σ α β} {read : List (α × Buffer)} {q d : Buffer}
    (h : s.Taken WellFormed Holds c read q) (hsound : Sound A s.server) (hc : (s.server.clients c).reading = true)
    (hq : (s.server.clients c).completion = none) {messages : List α} {ending : Ending} {u' : β}
    (hd : U.Drains (U.bufferConsumed s.unpacker d) messages ending u') (ds : List Buffer) :
    ∃ more q', Parsed WellFormed (q ++ d) more q' ∧ messages = more.map Prod.fst ∧
      (∀ n, ending = .incomplete n → n = q'.length) ∧
      (⟨s.server.queueCompletion c (.data messages ending), u', s.taken ++ [d], ds⟩ : Intake σ α β).Taken WellFormed Holds c
        (read ++ more) q' := by
  have hnone : ∀ messages ending, (s.server.clients c).completion ≠ some (.data messages ending) := by simp [hq]
  obtain ⟨more, q', hmore, rfl, hending⟩ := hd.parsed hU (hU.receives d (h.waits hc hnone).1)
  have hcurrent : asks c s.server.log = read.map Prod.fst ∧ ¬ Hanging c s.server.log := by
    rcases h.passed with hpassed | ⟨-, hhang⟩
    · rwa [queued_eq_nil hnone, List.append_nil] at hpassed
    · simp [hsound.waiting c hhang] at hc
  refine ⟨more, q', hmore, rfl, fun n hn => (hending n hn).1, ?_, .inl ⟨?_, hcurrent.2⟩, fun messages n hdata => ?_,
    fun _ hno => ?_, fun hacc => ?_⟩
  · have := h.parsed.more hmore
    simpa using this
  · have hlog : asks c (s.server.queueCompletion c (.data (more.map Prod.fst) ending)).log = read.map Prod.fst := hcurrent.1
    rw [hlog, List.map_append]
    simp [queued, queueCompletion, Server.onClient]
  · simp only [queueCompletion, Server.onClient, Function.update_self, Option.some.injEq, Completion.data.injEq] at hdata
    exact hending n hdata.2
  · refine absurd ?_ (hno (more.map Prod.fst) ending)
    simp [queueCompletion, Server.onClient]
  · exact absurd (hsound.beforeRead hc).2.2 (Nat.not_lt.2 hacc)

theorem Intake.Taken.other {s : Intake σ α β} {read : List (α × Buffer)} {q : Buffer} (h : s.Taken WellFormed Holds c read q)
    (hsound : Sound A s.server) {n' : Server σ α} (hs : Server.Step A s.server n')
    (hdata : ∀ messages ending, (n'.clients c).completion = some (.data messages ending) →
      (s.server.clients c).completion = some (.data messages ending)) :
    ({ s with server := n' } : Intake σ α β).Taken WellFormed Holds c read q := by
  obtain ⟨hacc, hreading⟩ := hs.reading_accepted hsound c
  have hfresh : n'.accepted ≤ c → Holds s.unpacker q ∧ q = [] := fun hle => h.fresh (hacc.trans hle)
  rcases hs.reads_or_calm hsound c with ⟨messages, ending, hc, hq, hn⟩ | hcalm
  · -- the queued messages are handled
    have hnone := onRead_completion hsound hc hn
    have hpassed : asks c s.server.log ++ messages = read.map Prod.fst := by
      rcases h.passed with ⟨hpassed, -⟩ | ⟨-, hhang⟩
      · simpa [queued, hq] using hpassed
      · simp [hsound.waiting c hhang] at hc
    refine ⟨h.parsed, ?_, fun messages' n hd => absurd hd (hnone _ _), fun hr _ => ?_, hfresh⟩
    · dsimp only
      rcases passed_of_read hsound hc hpassed hn with ⟨hasks, hcurrent, -⟩ | hthrown
      · exact .inl ⟨by rw [queued_eq_nil hnone, List.append_nil, hasks], hcurrent⟩
      · exact .inr ⟨hthrown.1, hthrown.2.1⟩
    · rcases passed_of_read hsound hc hpassed hn with ⟨-, -, hsmall⟩ | ⟨-, hhang, -⟩
      · obtain ⟨size, rfl, hsize⟩ := hsmall hr
        obtain ⟨rfl, hu⟩ := h.ending messages size hq
        exact ⟨hu, hsize⟩
      · have hr : (n'.clients c).reading = true := hr
        simp [(hsound.read hc hn).waiting c hhang] at hr
  · refine ⟨h.parsed, ?_, fun messages n hd => h.ending messages n (hdata _ _ hd), fun hr hno => ?_, hfresh⟩
    · dsimp only
      rw [hcalm.asks, hcalm.queued hdata, hcalm.hanging]
      exact h.passed
    · rcases hreading hr with hr | hle
      · exact h.waits hr (fun messages ending hd => hno messages ending (hcalm.2 messages ending hd))
      · obtain ⟨hu, rfl⟩ := h.fresh hle
        exact ⟨hu, Nat.zero_le _⟩

/-- In every run the messages passed on are the first of those that have arrived. -/
theorem taken_of_run (hU : U.Parses WellFormed Holds) {app : σ} {u₀ : β} (hu₀ : Holds u₀ []) {reads : List Buffer}
    {s : Intake σ α β} (h : Relation.ReflTransGen (Intake.Step U A c) (.start app u₀ reads) s) :
    Sound A s.server ∧ s.taken ++ s.coming = reads ∧ ∃ read q, s.Taken WellFormed Holds c read q := by
  induction h with
  | refl =>
    refine ⟨sound_initial app, rfl, [], [], ⟨nofun, rfl, fun m enc hm hpre => ?_⟩, .inl ⟨rfl, ?_⟩, nofun, nofun,
      fun _ => ⟨hu₀, rfl⟩⟩
    · exact hU.nonempty hm (List.prefix_nil.1 hpre)
    · rintro ⟨a, ha⟩
      cases ha
  | tail hr hstep ih =>
    obtain ⟨hsound, hreads, read, q, htaken⟩ := ih
    refine ⟨hsound.step hstep.server, ?_, ?_⟩
    · cases hstep with
      | deliver d ds messages ending u' hds hc hq ho hd => rw [← hreads, hds, List.append_assoc, List.singleton_append]
      | other n' hs hdata => exact hreads
    · cases hstep with
      | deliver d ds messages ending u' hds hc hq ho hd =>
        obtain ⟨more, q', -, -, -, htaken'⟩ := htaken.deliver hU hsound hc hq hd ds
        exact ⟨_, _, htaken'⟩
      | other n' hs hdata => exact ⟨_, _, htaken.other hsound hs hdata⟩

/-! ## Interrupted streams -/

theorem first_failing {γ : Type} (P : γ → Prop) : ∀ l : List γ,
    (∀ x ∈ l, P x) ∨ ∃ before x after, l = before ++ x :: after ∧ (∀ y ∈ before, P y) ∧ ¬ P x
  | [] => .inl nofun
  | x :: l => by
    by_cases hx : P x
    · rcases first_failing P l with hl | ⟨before, y, after, rfl, hbefore, hy⟩
      · exact .inl (by simpa [hx] using hl)
      · exact .inr ⟨x :: before, y, after, rfl, by simpa [hx] using hbefore, hy⟩
    · exact .inr ⟨[], x, l, rfl, nofun, hx⟩

/-- **A read of an interrupted stream completes nothing that is too long**: the message would have been cut short within
what the read found or brought. -/
theorem small_of_interrupted {reads taken : List Buffer} {d q q' : Buffer} {read more : List (α × Buffer)}
    (h : Interrupted WellFormed reads) (htaken : taken ++ [d] <+: reads) (hread : Parsed WellFormed taken.flatten read q)
    (hsmall : ∀ x ∈ read, Small WellFormed x.1 x.2) (hq : q.length ≤ controlMsgMaxBytes)
    (hmore : Parsed WellFormed (q ++ d) more q') : ∀ x ∈ more, Small WellFormed x.1 x.2 := by
  rcases first_failing (fun x : α × Buffer => Small WellFormed x.1 x.2) more with hall | ⟨before, x, after, rfl, hbefore, hx⟩
  · exact hall
  · have hwell : WellFormed x.1 x.2 := hmore.wellFormed x (by simp)
    have hlong : controlMsgMaxBytes < x.2.length := by
      by_contra hle
      exact hx ⟨hwell, Nat.not_lt.1 hle⟩
    have hbytes : (taken ++ [d]).flatten = bytesOf read ++ (bytesOf before ++ (x.2 ++ (bytesOf after ++ q'))) := by
      have := hmore.bytes
      simp only [List.flatten_append, List.flatten_singleton, hread.bytes, List.append_assoc, this]
      simp [bytesOf]
    have harrives : bytesOf ((read ++ before) ++ [x]) <+: reads.flatten := by
      refine List.IsPrefix.trans ?_ htaken.flatten
      rw [hbytes]
      exact ⟨bytesOf after ++ q', by simp [bytesOf]⟩
    obtain ⟨first, p, hfirst, hp, hlarge, hshort⟩ := h (read ++ before) x
      ⟨fun y hy => (List.mem_append.1 hy).elim (hsmall y) (hbefore y), hwell, hlong, harrives⟩
    have hplen := congrArg List.length hp
    have htlen := congrArg List.length hbytes
    have hrlen := congrArg List.length hread.bytes
    simp only [List.length_append, bytesOf_append] at hplen htlen hrlen
    rcases List.prefix_or_prefix_of_prefix hfirst htaken with hle | hle
    · rcases List.prefix_concat_iff.1 hle with heq | hle
      · rw [heq] at hplen
        omega
      · have := hle.flatten.length_le
        omega
    · have := hle.flatten.length_le
      omega

theorem taken_of_interrupted (hU : U.Parses WellFormed Holds) {app : σ} {u₀ : β} (hu₀ : Holds u₀ []) {reads : List Buffer}
    (hreads : Interrupted WellFormed reads) {s : Intake σ α β}
    (h : Relation.ReflTransGen (Intake.Step U A c) (.start app u₀ reads) s) :
    ∃ read q, s.Taken WellFormed Holds c read q ∧ ∀ x ∈ read, Small WellFormed x.1 x.2 := by
  induction h with
  | refl =>
    obtain ⟨-, -, read, q, htaken⟩ := taken_of_run hU hu₀
      (Relation.ReflTransGen.refl (r := Intake.Step U A c) (a := .start app u₀ reads))
    refine ⟨read, q, htaken, fun x hx => ?_⟩
    have hnil : ([] : Buffer) = bytesOf read ++ q := htaken.parsed.bytes
    obtain ⟨before, after, rfl⟩ := List.append_of_mem hx
    have hx2 : x.2 = [] := by simp_all [bytesOf]
    exact absurd hx2 (hU.nonempty (htaken.parsed.wellFormed x hx))
  | tail hr hstep ih =>
    obtain ⟨hsound, hsplit, -⟩ := taken_of_run hU hu₀ hr
    obtain ⟨read, q, htaken, hsmall⟩ := ih
    cases hstep with
    | deliver d ds messages ending u' hds hc hq ho hd =>
      obtain ⟨more, q', hmore, -, -, htaken'⟩ := htaken.deliver hU hsound hc hq hd ds
      refine ⟨_, _, htaken', fun x hx => (List.mem_append.1 hx).elim (hsmall x) ?_⟩
      have hbrought := small_of_interrupted hreads (d := d) ⟨ds, ?_⟩ htaken.parsed hsmall
        (htaken.waits hc (by simp [hq])).2 hmore
      · exact hbrought x
      · rw [← hsplit, hds, List.append_assoc, List.singleton_append]
    | other n' hs hdata => exact ⟨_, _, htaken.other hsound hs hdata, hsmall⟩

theorem Intake.Taken.withinLimit {s : Intake σ α β} {read : List (α × Buffer)} {q : Buffer}
    (h : s.Taken WellFormed Holds c read q) (hsound : Sound A s.server) (hsmall : ∀ x ∈ read, Small WellFormed x.1 x.2) :
    s.WithinLimit WellFormed c := by
  obtain ⟨rest, hrest⟩ := h.asked
  obtain ⟨handled, waiting, rfl, hhandled, hwaiting⟩ := List.map_eq_append_iff.1 hrest.symm
  refine ⟨handled, fun x hx => hsmall x (List.mem_append_left _ hx), hhandled.symm, ?_, fun hr hnone => ?_⟩
  · rw [h.parsed.bytes, bytesOf_append, List.append_assoc]
    exact List.prefix_append _ _
  · have hqueued : ∀ messages ending, (s.server.clients c).completion ≠ some (.data messages ending) := by simp [hnone]
    -- a connection that reads has passed on all messages
    have hall : rest = [] := by
      rcases h.passed with ⟨hpassed, -⟩ | ⟨-, hhang⟩
      · rw [queued_eq_nil hqueued, List.append_nil, ← hrest] at hpassed
        simpa using hpassed
      · simp [hsound.waiting c hhang] at hr
    obtain rfl : waiting = [] := List.map_eq_nil_iff.1 (hwaiting.trans hall)
    refine ⟨q, ?_, (h.waits hr hqueued).2⟩
    rw [h.parsed.bytes, List.append_nil]

/-! ## Streams that are not interrupted -/

/-- Of two runs of messages that both begin the stream, one goes on with the other. -/
theorem messages_comparable (hU : U.Parses WellFormed Holds) : ∀ {l l' : List (α × Buffer)} {w : Buffer},
    (∀ x ∈ l, WellFormed x.1 x.2) → (∀ x ∈ l', WellFormed x.1 x.2) → bytesOf l <+: w → bytesOf l' <+: w →
    l <+: l' ∨ l' <+: l
  | [], l', _, _, _, _, _ => .inl List.nil_prefix
  | x :: l, [], _, _, _, _, _ => .inr List.nil_prefix
  | x :: l, y :: l', w, hl, hl', h, h' => by
    rw [bytesOf_cons] at h h'
    have hx := hl x List.mem_cons_self
    have hy := hl' y List.mem_cons_self
    have hxy : x = y := by
      rcases List.prefix_or_prefix_of_prefix ((List.prefix_append _ _).trans h) ((List.prefix_append _ _).trans h') with hp | hp
      · exact Prod.ext (hU.delimited hx hy hp).1 (hU.delimited hx hy hp).2
      · exact Prod.ext (hU.delimited hy hx hp).1.symm (hU.delimited hy hx hp).2.symm
    subst hxy
    obtain ⟨w', rfl⟩ := (List.prefix_append _ _).trans h
    rw [List.prefix_append_right_inj] at h h'
    rcases messages_comparable hU (fun z hz => hl z (List.mem_cons_of_mem _ hz)) (fun z hz => hl' z (List.mem_cons_of_mem _ hz))
      h h' with hp | hp
    · exact .inl ((List.prefix_cons_inj x).2 hp)
    · exact .inr ((List.prefix_cons_inj x).2 hp)

/-- Messages that have arrived are among those that were read. -/
theorem complete_of_arrived (hU : U.Parses WellFormed Holds) {w q : Buffer} {read l : List (α × Buffer)}
    (h : Parsed WellFormed w read q) (hl : ∀ x ∈ l, WellFormed x.1 x.2) (hw : bytesOf l <+: w) : l <+: read := by
  have hread : bytesOf read <+: w := ⟨q, h.bytes.symm⟩
  rcases messages_comparable hU hl h.wellFormed hw hread with hp | ⟨rest, rfl⟩
  · exact hp
  · cases rest with
    | nil => rw [List.append_nil]
    | cons y rest =>
      rw [h.bytes, bytesOf_append, List.prefix_append_right_inj, bytesOf_cons] at hw
      exact absurd ((List.prefix_append _ _).trans hw) (h.ends y.1 y.2 (hl y (by simp)))

theorem FirstOversize.wellFormed_all {stream : Buffer} {before : List (α × Buffer)} {x : α × Buffer}
    (h : FirstOversize WellFormed stream before x) : ∀ y ∈ before ++ [x], WellFormed y.1 y.2 := by
  intro y hy
  rcases List.mem_append.1 hy with hy | hy
  · exact (h.small y hy).1
  · cases List.mem_singleton.1 hy
    exact h.wellFormed

/-- There is one first message that is too long. -/
theorem FirstOversize.unique (hU : U.Parses WellFormed Holds) {stream : Buffer} {before before' : List (α × Buffer)}
    {x x' : α × Buffer} (h : FirstOversize WellFormed stream before x) (h' : FirstOversize WellFormed stream before' x') :
    before = before' ∧ x = x' := by
  -- one that came later would be among the small ones
  have hlater : ∀ {before before' : List (α × Buffer)} {x x' : α × Buffer}, FirstOversize WellFormed stream before x →
      FirstOversize WellFormed stream before' x' → before ++ [x] <+: before' ++ [x'] → before = before' ∧ x = x' := by
    intro before before' x x' h h' hp
    rcases List.prefix_concat_iff.1 hp with heq | hp
    · obtain ⟨rfl, hx⟩ := List.append_inj' heq rfl
      exact ⟨rfl, by simpa using hx⟩
    · exact absurd (h'.small x (hp.subset (by simp))).2 (Nat.not_le.2 h.oversize)
  rcases messages_comparable hU h.wellFormed_all h'.wellFormed_all h.arrives h'.arrives with hp | hp
  · exact hlater h h' hp
  · obtain ⟨rfl, rfl⟩ := hlater h' h hp
    exact ⟨rfl, rfl⟩

/-- From such states of the application every well-formed request is answered. -/
def Answers (A : Application σ α ι) (WellFormed : α → Buffer → Prop) (I : σ → Prop) : Prop :=
  ∀ m b app, WellFormed m b → I app → ∃ events reply app', A.handleRequest m app = some (events, some reply, app') ∧ I app'

theorem handleMessages_answers {I : σ → Prop} (hA : Answers A WellFormed I) : ∀ (messages : List (α × Buffer)) {n : Server σ α},
    (∀ x ∈ messages, WellFormed x.1 x.2) → I n.app →
    ∃ n', handleMessages A c (messages.map Prod.fst) n = some (n', true) ∧ I n'.app
  | [], n, _, hn => ⟨n, rfl, hn⟩
  | x :: messages, n, hm, hn => by
    obtain ⟨events, reply, app', hrun, hI⟩ := hA x.1 x.2 n.app (hm x List.mem_cons_self) hn
    rw [List.map_cons, handleMessages, hrun]
    exact handleMessages_answers hA messages (fun y hy => hm y (List.mem_cons_of_mem _ hy)) hI

/-- The connection waits for the next read. -/
structure Intake.Waiting (I : σ → Prop) (c : Nat) (s : Intake σ α β) : Prop where
  reading : (s.server.clients c).reading = true
  completion : (s.server.clients c).completion = none
  isOpen : (s.server.clients c).isOpen = true
  app : I s.server.app

/-- The connection is accepted after the ones before it. -/
theorem reaches_waiting {I : σ → Prop} {app : σ} (happ : I app) (u₀ : β) (reads : List Buffer) :
    ∃ s, Relation.ReflTransGen (Intake.Step U A c) (.start app u₀ reads) s ∧ s.coming = reads ∧ s.taken = [] ∧
      s.Waiting I c := by
  have haccepts : ∀ k, ∃ n : Server σ α, Relation.ReflTransGen (Intake.Step U A c) (.start app u₀ reads) ⟨n, u₀, [], reads⟩ ∧
      n.accepted = k ∧ n.isListening = true ∧ n.app = app ∧
      ∀ d, (n.clients d).completion = none ∧ (n.clients d).isOpen = true ∧ (d < k → (n.clients d).reading = true) := by
    intro k
    induction k with
    | zero => exact ⟨initial app, .refl, rfl, rfl, rfl, fun d => ⟨rfl, rfl, nofun⟩⟩
    | succ k ih =>
      obtain ⟨n, hrun, rfl, hlisten, happ, hclients⟩ := ih
      have haccept : n.onAccept false = n.start := by simp [onAccept, hlisten]
      have hstart : ∀ d, n.start.clients d =
          if d = n.accepted then { n.clients n.accepted with reading := true } else n.clients d := by
        intro d
        by_cases hd : d = n.accepted
        · subst hd
          simp [start, doRead, record, Server.onClient]
        · simp [start, doRead, record, Server.onClient, hd]
      refine ⟨n.start, hrun.tail (.other _ _ (haccept ▸ .accept n false) (fun messages ending hdata => ?_)), rfl, hlisten, happ,
        fun d => ?_⟩
      · rw [hstart] at hdata
        split at hdata
        · simp [(hclients n.accepted).1] at hdata
        · simp [(hclients c).1] at hdata
      · rw [hstart]
        obtain ⟨hcompletion, hopen, hreading⟩ := hclients d
        split
        · exact ⟨(hclients n.accepted).1, (hclients n.accepted).2.1, fun _ => rfl⟩
        · refine ⟨hcompletion, hopen, fun hd => hreading ?_⟩
          have hd : d < n.accepted + 1 := hd
          omega
  obtain ⟨n, hrun, -, -, happ', hclients⟩ := haccepts (c + 1)
  obtain ⟨hcompletion, hopen, hreading⟩ := hclients c
  exact ⟨_, hrun, rfl, rfl, hreading (Nat.lt_succ_self c), hcompletion, hopen, happ' ▸ happ⟩

/-- **The next read is handled**: all messages it completes are passed on, and the connection waits for more unless too much
is held of the next one. -/
theorem Intake.Waiting.handled (hU : U.Parses WellFormed Holds) {I : σ → Prop} (hA : Answers A WellFormed I) {app : σ} {u₀ : β}
    (hu₀ : Holds u₀ []) {reads : List Buffer} {s : Intake σ α β}
    (hrun : Relation.ReflTransGen (Intake.Step U A c) (.start app u₀ reads) s) (hs : s.Waiting I c) {d : Buffer}
    {ds : List Buffer} (hds : s.coming = d :: ds) {messages : List α} {ending : Ending} {u' : β}
    (hd : U.Drains (U.bufferConsumed s.unpacker d) messages ending u') :
    ∃ s' read q, Relation.ReflTransGen (Intake.Step U A c) (.start app u₀ reads) s' ∧ s'.coming = ds ∧
      s'.taken = s.taken ++ [d] ∧ Parsed WellFormed s'.taken.flatten read q ∧ asks c s'.server.log = read.map Prod.fst ∧
      (∀ n, ending = .incomplete n → n ≤ controlMsgMaxBytes → s'.Waiting I c) := by
  obtain ⟨hsound, -, read, q, htaken⟩ := taken_of_run hU hu₀ hrun
  obtain ⟨more, q', hmore, rfl, hending, htaken'⟩ := htaken.deliver hU hsound hs.reading hs.completion hd ds
  let n := s.server.queueCompletion c (.data (more.map Prod.fst) ending)
  have hdeliver := hrun.tail (.deliver s d ds _ ending u' hds hs.reading hs.completion hs.isOpen hd)
  have hn : Sound A n := hsound.step (.complete _ c _ hs.reading hs.completion (.inl hs.isOpen))
  have hc : (n.clients c).reading = true := by simpa [n, queueCompletion, Server.onClient] using hs.reading
  have hq : (n.clients c).completion = some (.data (more.map Prod.fst) ending) := by
    simp [n, queueCompletion, Server.onClient]
  obtain ⟨n₁, hr, hI⟩ := handleMessages_answers (c := c) hA more (n := n.readDone c) hmore.wellFormed hs.app
  obtain ⟨n', hn', hsmall⟩ : ∃ n', onRead A c (more.map Prod.fst) ending n = some n' ∧
      ∀ k, ending = .incomplete k → k ≤ controlMsgMaxBytes → n' = n₁.doRead c := by
    unfold onRead
    rw [hr]
    cases ending with
    | unpackError => exact ⟨_, rfl, fun k hk => by cases hk⟩
    | incomplete size =>
      refine ⟨_, rfl, fun k hk hle => ?_⟩
      cases hk
      simp [Nat.not_lt.2 hle]
  have hpassed : asks c n.log ++ more.map Prod.fst = (read ++ more).map Prod.fst := by
    rcases htaken'.passed with ⟨hpassed, -⟩ | ⟨-, hhang⟩
    · simpa [queued, hq, n] using hpassed
    · simp [hn.waiting c hhang] at hc
  refine ⟨⟨n', u', s.taken ++ [d], ds⟩, read ++ more, q', hdeliver.tail (.other _ n' (.read _ n' c _ _ hc hq hn') ?_), rfl, rfl,
    htaken'.parsed, ?_, fun k hk hle => ?_⟩
  · exact fun messages ending hdata => absurd hdata (onRead_completion hn hc hn' _ _)
  · rcases passed_of_read hn hc hpassed hn' with ⟨hasks, -⟩ | ⟨-, -, hthrown⟩
    · exact hasks
    · rw [hr] at hthrown
      cases hthrown
  · obtain rfl := hsmall k hk hle
    obtain ⟨asked, hh⟩ := handled_of_reading hn hc hr
    obtain ⟨-, hcompletion, hopen⟩ := hh.client
    refine ⟨by simp [doRead, Server.onClient], by simp [doRead, Server.onClient, hcompletion], ?_, hI⟩
    have hkept : (n.clients c).isOpen = (s.server.clients c).isOpen := by simp [n, queueCompletion, Server.onClient]
    simp [doRead, Server.onClient, hopen, hkept, hs.isOpen]

/-- What a read leaves of the stream up to a message that is not cut short is within the limit. -/
theorem small_rest (hU : U.Parses WellFormed Holds) {reads taken : List Buffer} (htaken : taken <+: reads)
    {before read rest : List (α × Buffer)} {x : α × Buffer} {u : β} {q : Buffer}
    (hx : FirstOversize WellFormed reads.flatten before x) (hcut : ¬ CutShort reads before x) (hsplit : before ++ [x] = read ++ rest)
    (hrest : rest ≠ []) (hbytes : taken.flatten = bytesOf read ++ q) (hq : Incomplete WellFormed q) (hu : Holds u q)
    (hpre : q <+: bytesOf rest) : q.length ≤ controlMsgMaxBytes := by
  obtain ⟨y, last, rfl⟩ := List.exists_cons_of_ne_nil hrest
  have hy : WellFormed y.1 y.2 := hx.wellFormed_all y (by simp [hsplit])
  rw [bytesOf_cons] at hpre
  have hlt : q.length < y.2.length := by
    rcases List.prefix_or_prefix_of_prefix hpre (List.prefix_append y.2 _) with hp | ⟨q', rfl⟩
    · refine lt_of_le_of_ne hp.length_le (fun heq => ?_)
      -- the message has not been yielded
      obtain ⟨u₁, hwaits, -⟩ := hU.waits hq hu
      have hnil : Holds u (y.2 ++ []) := by
        rw [List.append_nil, ← hp.eq_of_length heq]
        exact hu
      obtain ⟨u₂, hyields, -⟩ := hU.yields hy hnil
      rw [hwaits] at hyields
      cases hyields
    · obtain ⟨u₁, hwaits, -⟩ := hU.waits hq hu
      obtain ⟨u₂, hyields, -⟩ := hU.yields hy hu
      rw [hwaits] at hyields
      cases hyields
  cases last with
  | nil =>
    obtain ⟨rfl, hxy⟩ := List.append_inj' hsplit rfl
    cases hxy
    by_contra hlong
    exact hcut ⟨taken, q, htaken, hbytes, Nat.not_le.1 hlong, hlt⟩
  | cons z last =>
    have hmem : y ∈ before := by
      have : before ++ [x] = (read ++ y :: (z :: last).dropLast) ++ [(z :: last).getLast (by simp)] := by
        rw [hsplit, List.append_assoc, List.cons_append, List.dropLast_append_getLast]
      rw [(List.append_inj' this rfl).1]
      simp
    exact (Nat.le_of_lt hlt).trans (hx.small y hmem).2

/-- **A first message that is too long and not cut short is passed on.** -/
theorem reaches_oversize (hU : U.Parses WellFormed Holds) {I : σ → Prop} (hA : Answers A WellFormed I) {app : σ} {u₀ : β}
    (hu₀ : Holds u₀ []) {reads : List Buffer} {before : List (α × Buffer)} {x : α × Buffer}
    (hx : FirstOversize WellFormed reads.flatten before x) (hcut : ¬ CutShort reads before x) :
    ∀ (ds : List Buffer) {s : Intake σ α β}, s.coming = ds →
      Relation.ReflTransGen (Intake.Step U A c) (.start app u₀ reads) s → s.Waiting I c →
      ¬ bytesOf (before ++ [x]) <+: s.taken.flatten →
      ∃ s', Relation.ReflTransGen (Intake.Step U A c) (.start app u₀ reads) s' ∧ ¬ s'.WithinLimit WellFormed c := by
  have hwell := hx.wellFormed_all
  intro ds
  induction ds with
  | nil =>
    intro s hds hrun _ hnot
    obtain ⟨-, hsplit, -⟩ := taken_of_run hU hu₀ hrun
    rw [hds, List.append_nil] at hsplit
    exact absurd (hsplit ▸ hx.arrives) hnot
  | cons d ds ih =>
    intro s hds hrun hs hnot
    obtain ⟨-, hreads, read, q, htaken⟩ := taken_of_run hU hu₀ hrun
    obtain ⟨hu, -⟩ := htaken.waits hs.reading (by simp [hs.completion])
    have htaken' : s.taken ++ [d] <+: reads := ⟨ds, by rw [← hreads, hds, List.append_assoc, List.singleton_append]⟩
    have hflatten : (s.taken ++ [d]).flatten = s.taken.flatten ++ d := by simp
    by_cases hcomplete : bytesOf (before ++ [x]) <+: (s.taken ++ [d]).flatten
    · obtain ⟨messages, ending, u', hd⟩ := drains_ends hU _ (hU.receives d hu) (le_refl _)
      obtain ⟨s', read', q', hrun', hcoming, htaken'', hparsed, hasks, -⟩ := hs.handled hU hA hu₀ hrun hds hd
      refine ⟨s', hrun', ?_⟩
      rintro ⟨handled, hsmall, hasks', hbytes, -⟩
      have hamong := complete_of_arrived hU hparsed hwell (by rw [htaken'']; exact hcomplete)
      have hsame : handled = read' := by
        refine (complete_of_arrived hU hparsed (fun y hy => (hsmall y hy).1) hbytes).eq_of_length ?_
        simpa using congrArg List.length (hasks'.symm.trans hasks)
      have hmem : x ∈ handled := hsame ▸ hamong.subset (by simp)
      exact absurd (hsmall x hmem).2 (Nat.not_le.2 hx.oversize)
    · obtain ⟨rest, hrest⟩ : read <+: before ++ [x] := by
        have hread : bytesOf read <+: reads.flatten :=
          List.IsPrefix.trans ⟨q, htaken.parsed.bytes.symm⟩ (List.IsPrefix.flatten ⟨s.coming, hreads⟩)
        rcases messages_comparable hU htaken.parsed.wellFormed hwell hread hx.arrives with hp | ⟨more, hmore⟩
        · exact hp
        · refine absurd ?_ hnot
          rw [htaken.parsed.bytes, ← hmore, bytesOf_append (before ++ [x]), List.append_assoc]
          exact List.prefix_append _ _
      have hpre : q ++ d <+: bytesOf rest ++ [] := by
        have hle : (s.taken ++ [d]).flatten <+: bytesOf (before ++ [x]) :=
          (List.prefix_or_prefix_of_prefix htaken'.flatten hx.arrives).resolve_right hcomplete
        rw [hflatten, htaken.parsed.bytes, List.append_assoc, ← hrest, bytesOf_append, List.prefix_append_right_inj] at hle
        rwa [List.append_nil]
      have hwellRest : ∀ y ∈ rest, WellFormed y.1 y.2 := fun y hy => hwell y (by rw [← hrest]; exact List.mem_append_right _ hy)
      obtain ⟨more, last, q', rfl, hqd, hq', hpre'⟩ := prefix_stream rest hwellRest (.inl rfl) hpre
      rw [List.append_nil] at hpre'
      obtain ⟨u', hd, hu'⟩ := drains_stream hU.toUnpacks more (fun y hy => hwellRest y (List.mem_append_left _ hy)) hq'
        (hqd ▸ hU.receives d hu)
      have hbytes : (s.taken ++ [d]).flatten = bytesOf (read ++ more) ++ q' := by
        rw [hflatten, htaken.parsed.bytes, List.append_assoc, hqd, bytesOf_append, List.append_assoc]
      have hlast : last ≠ [] := by
        rintro rfl
        refine hcomplete ?_
        rw [hbytes, ← hrest, List.append_nil]
        exact List.prefix_append _ _
      have hsmall := small_rest hU htaken' hx hcut (by rw [← hrest, List.append_assoc]) hlast hbytes hq' hu' hpre'
      obtain ⟨s', -, -, hrun', hcoming, htaken'', -, -, hwaiting⟩ := hs.handled hU hA hu₀ hrun hds hd
      exact ih hcoming hrun' (hwaiting _ rfl hsmall) (by rw [htaken'']; exact hcomplete)

/-- **A stream that is interrupted is not passed on beyond the limit.** -/
theorem within_of_interrupted (hU : U.Parses WellFormed Holds) {app : σ} {u₀ : β} (hu₀ : Holds u₀ []) {reads : List Buffer}
    (hreads : Interrupted WellFormed reads) {s : Intake σ α β}
    (hrun : Relation.ReflTransGen (Intake.Step U A c) (.start app u₀ reads) s) : s.WithinLimit WellFormed c := by
  obtain ⟨read, q, htaken, hsmall⟩ := taken_of_interrupted hU hu₀ hreads hrun
  exact htaken.withinLimit (taken_of_run hU hu₀ hrun).1 hsmall

theorem bytesOf_ne_nil (hU : U.Parses WellFormed Holds) {before : List (α × Buffer)} {x : α × Buffer} (hx : WellFormed x.1 x.2) :
    bytesOf (before ++ [x]) ≠ [] := by
  rw [bytesOf_append, bytesOf_cons]
  intro hnil
  exact hU.nonempty hx (List.append_eq_nil_iff.1 (List.append_eq_nil_iff.1 hnil).2).1

/-- **Where the first message that is too long is not cut short, some run passes it on.** -/
theorem not_within_of_uncut (hU : U.Parses WellFormed Holds) {I : σ → Prop} (hA : Answers A WellFormed I) {app : σ} (happ : I app)
    {u₀ : β} (hu₀ : Holds u₀ []) {reads : List Buffer} {before : List (α × Buffer)} {x : α × Buffer}
    (hx : FirstOversize WellFormed reads.flatten before x) (hcut : ¬ CutShort reads before x) :
    ∃ s, Relation.ReflTransGen (Intake.Step U A c) (.start app u₀ reads) s ∧ ¬ s.WithinLimit WellFormed c := by
  obtain ⟨s, hrun, hcoming, htaken, hwaiting⟩ := reaches_waiting (U := U) (A := A) (c := c) happ u₀ reads
  refine reaches_oversize hU hA hu₀ hx hcut reads hcoming hrun hwaiting (fun hall => ?_)
  rw [htaken] at hall
  exact bytesOf_ne_nil hU hx.wellFormed (List.prefix_nil.1 hall)

/-- **Nothing longer than the limit is passed on if and only if the first message that is too long is cut short by the end
of a read**, in every run of the server, for an application that answers. -/
theorem limit_enforced (hU : U.Parses WellFormed Holds) (A : Application σ α ι) (app : σ) (c : Nat) {u₀ : β} (hu₀ : Holds u₀ [])
    (reads : List Buffer) :
    (Interrupted WellFormed reads → ∀ s, Relation.ReflTransGen (Intake.Step U A c) (.start app u₀ reads) s →
      s.WithinLimit WellFormed c) ∧
    ∀ I, Answers A WellFormed I → I app →
      (∀ s, Relation.ReflTransGen (Intake.Step U A c) (.start app u₀ reads) s → s.WithinLimit WellFormed c) →
      Interrupted WellFormed reads := by
  refine ⟨fun hreads s hrun => within_of_interrupted hU hu₀ hreads hrun, fun I hA happ hall before x hx => ?_⟩
  by_contra hcut
  obtain ⟨s, hrun, hnot⟩ := not_within_of_uncut (c := c) hU hA happ hu₀ hx hcut
  exact hnot (hall s hrun)

/-! ## A binary object that is too long -/

/-- The four bytes of a length. -/
def binLength (w x y z : UInt8) : Nat := ((w.toNat * 256 + x.toNat) * 256 + y.toNat) * 256 + z.toNat

/-- A binary object with a length of four bytes, if it is complete. -/
def nextBinary : Buffer → Option (Option Obj × Buffer)
  | [] => some (none, [])
  | v :: u =>
    if v ≠ 198 then none
    else
      match u with
      | w :: x :: y :: z :: rest =>
        if binLength w x y z ≤ rest.length then
          some (some (.bin (rest.take (binLength w x y z))), rest.drop (binLength w x y z))
        else some (none, v :: u)
      | _ => some (none, v :: u)

/-- The unpacker on binary objects. -/
def binaries : Unpacker Buffer Obj where
  bufferConsumed u d := u ++ d
  next := nextBinary
  messageSize := List.length

def Binary (m : Obj) (b : Buffer) : Prop :=
  ∃ w x y z data, m = .bin data ∧ b = 198 :: w :: x :: y :: z :: data ∧ binLength w x y z = data.length

theorem nextBinary_full {w x y z : UInt8} {data rest : Buffer} (h : binLength w x y z = data.length) :
    nextBinary (198 :: w :: x :: y :: z :: (data ++ rest)) = some (some (.bin data), rest) := by
  simp [nextBinary, h]

/-- A message in full, or no message. -/
theorem nextBinary_cases (u : Buffer) :
    (∃ m enc rest, u = enc ++ rest ∧ Binary m enc ∧ nextBinary u = some (some m, rest)) ∨
    nextBinary u = some (none, u) ∨ nextBinary u = none := by
  fun_cases nextBinary u with
  | case1 => exact .inr (.inl rfl)
  | case2 v u hv => exact .inr (.inr rfl)
  | case3 v hv w x y z rest hlen =>
    obtain rfl : v = 198 := by simpa using hv
    refine .inl ⟨_, 198 :: w :: x :: y :: z :: rest.take (binLength w x y z), _, ?_, ⟨w, x, y, z, _, rfl, rfl, ?_⟩, rfl⟩
    · simp
    · simp [hlen]
  | case4 v hv w x y z rest hlen => exact .inr (.inl rfl)
  | case5 v u hv hshort => exact .inr (.inl rfl)

theorem nextBinary_short {m : Obj} {b p : Buffer} (hb : Binary m b) (hp : p <+: b) (hne : p ≠ b) :
    nextBinary p = some (none, p) := by
  obtain ⟨w, x, y, z, data, rfl, rfl, hlen⟩ := hb
  match p with
  | [] => rfl
  | [_] | [_, _] | [_, _, _] | [_, _, _, _] =>
    obtain rfl := (List.cons_prefix_cons.1 hp).1
    rfl
  | v :: w' :: x' :: y' :: z' :: part =>
    obtain ⟨rfl, rfl, rfl, rfl, rfl, hpart⟩ : v = 198 ∧ w' = w ∧ x' = x ∧ y' = y ∧ z' = z ∧ part <+: data := by
      simpa only [List.cons_prefix_cons] using hp
    have hlt : part.length < binLength w' x' y' z' := by
      rw [hlen]
      refine lt_of_le_of_ne hpart.length_le (fun heq => hne ?_)
      rw [hpart.eq_of_length heq]
    simp [nextBinary, Nat.not_le.2 hlt]

theorem parses_binaries : binaries.Parses Binary (fun u b => u = b) where
  receives := by
    rintro u b d rfl
    rfl
  yields := by
    rintro u m b rest ⟨w, x, y, z, data, rfl, rfl, hlen⟩ rfl
    exact ⟨rest, nextBinary_full hlen, rfl⟩
  waits := by
    rintro u p hp rfl
    refine ⟨u, ?_, rfl, rfl⟩
    rcases hp with rfl | ⟨m, b, hb, hpre, hne⟩
    · rfl
    · exact nextBinary_short hb hpre hne
  delimited := by
    rintro m b m' b' ⟨w, x, y, z, data, rfl, rfl, hlen⟩ ⟨w', x', y', z', data', rfl, rfl, hlen'⟩ h
    simp only [List.cons_prefix_cons] at h
    obtain ⟨-, rfl, rfl, rfl, rfl, h⟩ := h
    obtain rfl := h.eq_of_length (hlen.symm.trans hlen')
    exact ⟨rfl, rfl⟩
  nonempty := by
    rintro m b ⟨w, x, y, z, data, -, rfl, -⟩
    nofun
  sound := by
    rintro u u' b m rfl h
    rcases nextBinary_cases u with ⟨m', enc, rest, hu, hm, h'⟩ | h' | h'
    · obtain ⟨rfl, rfl⟩ : m' = m ∧ rest = u' := by simpa using h'.symm.trans h
      exact ⟨enc, rest, hu, hm⟩
    · simpa using h'.symm.trans h
    · simpa using h'.symm.trans h
  counts := by
    rintro u u' b rfl h
    rcases nextBinary_cases u with ⟨m, enc, rest, -, -, h'⟩ | h' | h'
    · simpa using h'.symm.trans h
    · obtain rfl : u = u' := by simpa using h'.symm.trans h
      exact ⟨rfl, rfl⟩
    · simpa using h'.symm.trans h

open RequestHandler (Wearing byType)

def idleManager : DeviceManager Wearing × List Bool := (DeviceManager.initial [] DeviceManager.setNotifier, [])

/-- A binary object is no valid request, and is answered as such. -/
theorem answers_binaries : Answers idleServer Binary (fun app => app.2 = []) := by
  rintro m b ⟨manager, memory⟩ ⟨w, x, y, z, data, rfl, -, -⟩ rfl
  obtain ⟨reply, hrun⟩ : ∃ reply, (RequestHandler.handleRequest byType (.bin data)).run ⟨manager, [], []⟩ =
      .ok () ⟨manager, reply, []⟩ := ⟨_, RequestHandler.run_replyError "Invalid message" _⟩
  refine ⟨announced (fun _ => []) manager manager, [], (manager, []), ?_, rfl⟩
  simp only [idleServer, deviceServer, hrun]

/-- A header for `10 * 1024 * 1024` bytes. -/
def header : Buffer := [198, 0, 160, 0, 0]

def zeros (n : Nat) : Buffer := List.replicate n 0

theorem zeros_append (m n : Nat) : zeros m ++ zeros n = zeros (m + n) := List.replicate_append_replicate

theorem length_zeros (n : Nat) : (zeros n).length = n := List.length_replicate

theorem limit_eq : controlMsgMaxBytes = 10485760 := rfl

/-- The header, and so many zeros. -/
def oversized : Obj × Buffer := (.bin (zeros 10485760), header ++ zeros 10485760)

/-- All but the last five bytes of it, in reads of `1024` bytes. -/
def firstReads : List Buffer := (header ++ zeros 1019) :: List.replicate 10239 (zeros 1024)

theorem firstReads_flatten : firstReads.flatten = header ++ zeros 10485755 := by
  have hrest : (List.replicate 10239 (zeros 1024)).flatten = zeros (10239 * 1024) := List.flatten_replicate_replicate
  rw [firstReads, List.flatten_cons, hrest, List.append_assoc, zeros_append]

theorem length_firstReads : firstReads.flatten.length = 10485760 := by
  rw [firstReads_flatten, List.length_append, length_zeros, header]
  simp

theorem length_oversized : oversized.2.length = 10485765 := by
  rw [oversized, List.length_append, length_zeros, header]
  simp

theorem binary_oversized : Binary oversized.1 oversized.2 := by
  refine ⟨0, 160, 0, 0, zeros 10485760, rfl, ?_, ?_⟩
  · rw [oversized, header]
    simp
  · rw [length_zeros]
    decide

/-- The message is the first of a stream that is too long. -/
theorem firstOversize_of_flatten {last : List Buffer} (h : last.flatten = zeros 5) :
    FirstOversize Binary (firstReads ++ last).flatten [] oversized where
  small := nofun
  wellFormed := binary_oversized
  oversize := by
    rw [length_oversized, limit_eq]
    decide
  arrives := by
    rw [List.flatten_append, firstReads_flatten, h, List.append_assoc, zeros_append]
    simp [oversized, bytesOf]

/-- **The last five bytes arrive in one read**: the message is passed on. -/
theorem oversized_handled :
    ¬ ∀ s, Relation.ReflTransGen (Intake.Step binaries idleServer 0) (.start idleManager [] (firstReads ++ [zeros 5])) s →
      s.WithinLimit Binary 0 := by
  have hx : FirstOversize Binary (firstReads ++ [zeros 5]).flatten [] oversized :=
    firstOversize_of_flatten (by rw [List.flatten_singleton])
  have hcut : ¬ CutShort (firstReads ++ [zeros 5]) [] oversized := by
    rintro ⟨first, p, hfirst, hp, hlarge, hshort⟩
    obtain rfl : first.flatten = p := hp
    rw [limit_eq] at hlarge
    rw [length_oversized] at hshort
    rcases List.prefix_concat_iff.1 hfirst with rfl | hfirst
    · rw [List.flatten_append, List.length_append, length_firstReads, List.flatten_singleton, length_zeros] at hshort
      omega
    · have hle := hfirst.flatten.length_le
      rw [length_firstReads] at hle
      omega
  obtain ⟨s, hrun, hnot⟩ :=
    not_within_of_uncut (c := 0) parses_binaries answers_binaries (rfl : idleManager.2 = []) (rfl : ([] : Buffer) = []) hx hcut
  exact fun hall => hnot (hall s hrun)

/-- A read ends three bytes before the end of the message: the connection is dropped. -/
theorem limit_enforced_cut : Interrupted Binary (firstReads ++ [zeros 2, zeros 3]) ∧
    ∀ s, Relation.ReflTransGen (Intake.Step binaries idleServer 0) (.start idleManager [] (firstReads ++ [zeros 2, zeros 3])) s →
      s.WithinLimit Binary 0 := by
  have hlast : [zeros 2, zeros 3].flatten = zeros 5 := rfl
  have hcut : Interrupted Binary (firstReads ++ [zeros 2, zeros 3]) := by
    intro before x hx
    obtain ⟨rfl, rfl⟩ := hx.unique parses_binaries (firstOversize_of_flatten hlast)
    have hlength : (firstReads ++ [zeros 2]).flatten.length = 10485762 := by
      rw [List.flatten_append, List.length_append, length_firstReads, List.flatten_singleton, length_zeros]
    refine ⟨firstReads ++ [zeros 2], (firstReads ++ [zeros 2]).flatten, ⟨[zeros 3], by simp⟩, (List.nil_append _).symm, ?_, ?_⟩
    · rw [hlength, limit_eq]
      decide
    · rw [hlength, length_oversized]
      decide
  exact ⟨hcut, (limit_enforced parses_binaries idleServer idleManager 0 (rfl : ([] : Buffer) = []) _).1 hcut⟩

end Server
end Fpga
