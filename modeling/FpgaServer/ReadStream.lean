import FpgaServer.ConnectionStop
/-!
# ReadStream — the bytes a connection receives

What the unpacker of msgpack does is assumed: from a stream of well-formed messages it yields each as soon as it is
complete, and in between it counts the bytes of the incomplete one.  A completed read passes on what its bytes complete, so
the messages of a stream are handled once each and in order, whatever the reads it arrives in; reads that follow each other
leave the server as one read of the whole stream would.
-/
namespace Fpga

open Base (Act)
open Base.Act

/-- What `ClientConnection` uses of `msgpack::unpacker`; `next` is `none` where it throws an `unpack_error`. -/
structure Unpacker (β α : Type) where
  bufferConsumed : β → Buffer → β
  next : β → Option (Option α × β)
  messageSize : β → Nat

namespace Unpacker

variable {β α : Type} {U : Unpacker β α}

/-- The loop over `next`: the messages it yields, how it ends, and the unpacker after it. -/
inductive Drains (U : Unpacker β α) : β → List α → Ending → β → Prop where
  | waits {u u' : β} (h : U.next u = some (none, u')) : Drains U u [] (.incomplete (U.messageSize u')) u'
  | error {u : β} (h : U.next u = none) : Drains U u [] .unpackError u
  | message {u u' u'' : β} {m : α} {messages : List α} {ending : Ending} (h : U.next u = some (some m, u'))
    (hd : Drains U u' messages ending u'') : Drains U u (m :: messages) ending u''

theorem Drains.unique {u v w : β} {messages messages' : List α} {ending ending' : Ending} (h : Drains U u messages ending v)
    (h' : Drains U u messages' ending' w) : messages = messages' ∧ ending = ending' ∧ v = w := by
  induction h generalizing messages' ending' w with
  | waits h =>
    cases h' with
    | waits h' => simp_all
    | error h' => simp_all
    | message h' => simp_all
  | error h =>
    cases h' with
    | waits h' => simp_all
    | error h' => simp_all
    | message h' => simp_all
  | message h hd ih =>
    cases h' with
    | waits h' => simp_all
    | error h' => simp_all
    | message h' hd' =>
      rw [h] at h'
      obtain ⟨rfl, rfl⟩ : _ = _ ∧ _ = _ := by simpa using h'
      obtain ⟨rfl, rfl, rfl⟩ := ih hd'
      exact ⟨rfl, rfl, rfl⟩

/-- The first bytes of a message, not all of them; or none. -/
def Incomplete (WellFormed : α → Buffer → Prop) (p : Buffer) : Prop :=
  p = [] ∨ ∃ m b, WellFormed m b ∧ p <+: b ∧ p ≠ b

/-- The documented behaviour of the unpacker; `Holds u b` says that `b` has been received and not yielded. -/
structure Unpacks (U : Unpacker β α) (WellFormed : α → Buffer → Prop) (Holds : β → Buffer → Prop) : Prop where
  receives : ∀ {u b} d, Holds u b → Holds (U.bufferConsumed u d) (b ++ d)
  yields : ∀ {u m b rest}, WellFormed m b → Holds u (b ++ rest) → ∃ u', U.next u = some (some m, u') ∧ Holds u' rest
  waits : ∀ {u p}, Incomplete WellFormed p → Holds u p →
    ∃ u', U.next u = some (none, u') ∧ Holds u' p ∧ U.messageSize u' = p.length

theorem Incomplete.shorter {WellFormed : α → Buffer → Prop} {p q : Buffer} (hq : Incomplete WellFormed q) (h : p <+: q) :
    Incomplete WellFormed p := by
  rcases hq with rfl | ⟨m, b, hb, hpre, hne⟩
  · exact .inl (List.prefix_nil.1 h)
  · refine .inr ⟨m, b, hb, h.trans hpre, ?_⟩
    rintro rfl
    exact hne (hpre.eq_of_length_le h.length_le)

end Unpacker

/-- The bytes of encoded messages. -/
def bytesOf {α : Type} (messages : List (α × Buffer)) : Buffer := (messages.map Prod.snd).flatten

section Stream

variable {β α : Type} {U : Unpacker β α} {WellFormed : α → Buffer → Prop} {Holds : β → Buffer → Prop}

open Unpacker

theorem bytesOf_cons (x : α × Buffer) (messages : List (α × Buffer)) : bytesOf (x :: messages) = x.2 ++ bytesOf messages := rfl

/-- What the unpacker makes of complete messages and the beginning of another. -/
theorem drains_stream (hU : U.Unpacks WellFormed Holds) : ∀ (messages : List (α × Buffer)) {u : β} {p : Buffer},
    (∀ x ∈ messages, WellFormed x.1 x.2) → Incomplete WellFormed p → Holds u (bytesOf messages ++ p) →
    ∃ u', U.Drains u (messages.map Prod.fst) (.incomplete p.length) u' ∧ Holds u' p
  | [], u, p, _, hp, hu => by
    obtain ⟨u', hnext, hu', hsize⟩ := hU.waits hp hu
    exact ⟨u', hsize ▸ .waits hnext, hu'⟩
  | x :: messages, u, p, hm, hp, hu => by
    rw [bytesOf_cons, List.append_assoc] at hu
    obtain ⟨u₁, hnext, hu₁⟩ := hU.yields (hm x List.mem_cons_self) hu
    obtain ⟨u', hd, hu'⟩ := drains_stream hU messages (fun y hy => hm y (List.mem_cons_of_mem _ hy)) hp hu₁
    exact ⟨u', .message hnext hd, hu'⟩

/-- What has arrived of a stream are its first messages and the beginning of the next one. -/
theorem prefix_stream : ∀ (messages : List (α × Buffer)) {d p : Buffer}, (∀ x ∈ messages, WellFormed x.1 x.2) →
    Incomplete WellFormed p → d <+: bytesOf messages ++ p →
    ∃ first rest q, messages = first ++ rest ∧ d = bytesOf first ++ q ∧ Incomplete WellFormed q ∧ q <+: bytesOf rest ++ p
  | [], d, p, _, hp, hd => ⟨[], [], d, rfl, rfl, hp.shorter hd, hd⟩
  | x :: messages, d, p, hm, hp, hd => by
    rw [bytesOf_cons, List.append_assoc] at hd
    rcases List.prefix_or_prefix_of_prefix hd (List.prefix_append x.2 _) with hdx | ⟨d', rfl⟩
    · by_cases he : d = x.2
      · subst he
        refine ⟨[x], messages, [], rfl, by simp [bytesOf], .inl rfl, List.nil_prefix⟩
      · refine ⟨[], x :: messages, d, rfl, rfl, .inr ⟨x.1, x.2, hm x List.mem_cons_self, hdx, he⟩, ?_⟩
        rw [bytesOf_cons, List.append_assoc]
        exact hd
    · obtain ⟨first, rest, q, rfl, rfl, hq, hpre⟩ := prefix_stream messages (fun y hy => hm y (List.mem_cons_of_mem _ hy)) hp
        ((List.prefix_append_right_inj x.2).1 hd)
      exact ⟨x :: first, rest, q, rfl, by rw [bytesOf_cons, List.append_assoc], hq, hpre⟩

end Stream

namespace Server

variable {σ α β ι : Type} {A : Application σ α ι} {U : Unpacker β α} {c : Nat}

open Unpacker

/-! ## One read -/

/-- A read that ends within a message that is not too long. -/
theorem onRead_small (messages : List α) {messageSize : Nat} (h : messageSize ≤ controlMsgMaxBytes) (n : Server σ α) :
    onRead A c messages (.incomplete messageSize) n =
      (handleMessages A c messages (n.readDone c)).map (fun r => if r.2 then r.1.doRead c else r.1) := by
  unfold onRead
  cases handleMessages A c messages (n.readDone c) with
  | none => rfl
  | some r =>
    obtain ⟨n₁, ok⟩ := r
    cases ok with
    | false => rfl
    | true => simp [Nat.not_lt.2 h]

theorem handleMessages_append (messages' : List α) : ∀ (messages : List α) (n : Server σ α),
    handleMessages A c (messages ++ messages') n =
      (handleMessages A c messages n).bind (fun r => if r.2 then handleMessages A c messages' r.1 else some r)
  | [], n => by simp [handleMessages]
  | request :: messages, n => by
    rw [List.cons_append, handleMessages, handleMessages]
    cases A.handleRequest request n.app with
    | none => rfl
    | some r =>
      obtain ⟨events, reply, app⟩ := r
      cases reply with
      | none => rfl
      | some buffer => exact handleMessages_append messages' messages _

theorem readDone_queueCompletion (n : Server σ α) (completion : Completion α) :
    (n.queueCompletion c completion).readDone c = n.readDone c := by
  simp [readDone, queueCompletion, Server.onClient]

theorem readDone_doRead {n : Server σ α} (hr : (n.clients c).reading = false) (hq : (n.clients c).completion = none) :
    (n.doRead c).readDone c = n := by
  have hc : { n.clients c with reading := false, completion := none } = n.clients c := by
    rw [← hr, ← hq]
  simp [readDone, doRead, Server.onClient, hc]

theorem doRead_readDone {n : Server σ α} (hr : (n.clients c).reading = true) (hq : (n.clients c).completion = none) :
    (n.readDone c).doRead c = n := by
  have hc : { n.clients c with reading := true, completion := none } = n.clients c := by
    rw [← hr, ← hq]
  simp [readDone, doRead, Server.onClient, hc]

/-- The messages of a read, from a state between handlers. -/
theorem handled_of_reading {n n₁ : Server σ α} (h : Sound A n) (hc : (n.clients c).reading = true) {messages : List α}
    {ok : Bool} (hr : handleMessages A c messages (n.readDone c) = some (n₁, ok)) :
    ∃ asked, Handled A c messages (n.readDone c) n₁ ok asked := by
  obtain ⟨hdone, hcurrent, -⟩ := h.beforeRead hc
  exact handleMessages_spec c messages hr hdone.mailed hdone.served hcurrent

/-- Without a throw the connection is as before the read, but for its queue. -/
theorem Handled.client {n n₁ : Server σ α} {messages : List α} {asked : List (Act Nat α Buffer)}
    (h : Handled A c messages (n.readDone c) n₁ true asked) :
    (n₁.clients c).reading = false ∧ (n₁.clients c).completion = none ∧ (n₁.clients c).isOpen = (n.clients c).isOpen := by
  have hk := h.keeps
  rw [if_pos rfl, List.append_nil] at hk
  rcases hk.clients c with ⟨-, o, ho⟩ | ⟨hleave, -⟩
  · simp [ho, readDone, Server.onClient]
  · exact absurd hleave (h.stays c)

/-! ## Reads that follow each other -/

/-- The reads of the connection complete with these bytes, one after the other, and nothing happens in between. -/
inductive Delivers (U : Unpacker β α) (A : Application σ α ι) (c : Nat) :
    β → Server σ α → List Buffer → β → Server σ α → Prop where
  | nil (u : β) (n : Server σ α) : Delivers U A c u n [] u n
  | cons {u u₁ u' : β} {n n₁ n' : Server σ α} {d : Buffer} {ds : List Buffer} {messages : List α} {ending : Ending}
    (hc : (n.clients c).reading = true) (hq : (n.clients c).completion = none) (ho : (n.clients c).isOpen = true)
    (hd : U.Drains (U.bufferConsumed u d) messages ending u₁)
    (hn : onRead A c messages ending (n.queueCompletion c (.data messages ending)) = some n₁)
    (h : Delivers U A c u₁ n₁ ds u' n') : Delivers U A c u n (d :: ds) u' n'

/-- A message that is no longer than the limit. -/
def Small (WellFormed : α → Buffer → Prop) (m : α) (b : Buffer) : Prop := WellFormed m b ∧ b.length ≤ controlMsgMaxBytes

variable {WellFormed : α → Buffer → Prop} {Holds : β → Buffer → Prop}

theorem incomplete_of_small {p : Buffer} (h : Incomplete (Small WellFormed) p) : Incomplete WellFormed p := by
  rcases h with rfl | ⟨m, b, hb, hpre, hne⟩
  · exact .inl rfl
  · exact .inr ⟨m, b, hb.1, hpre, hne⟩

theorem length_le_of_small {p : Buffer} (h : Incomplete (Small WellFormed) p) : p.length ≤ controlMsgMaxBytes := by
  rcases h with rfl | ⟨m, b, hb, hpre, -⟩
  · exact Nat.zero_le _
  · exact hpre.length_le.trans hb.2

/-- What a read completes of the stream, and what the unpacker makes of it. -/
theorem drains_read (hU : U.Unpacks WellFormed Holds) {u : β} {q d p : Buffer} {rest : List (α × Buffer)}
    (hu : Holds u q) (hrest : ∀ x ∈ rest, Small WellFormed x.1 x.2)
    (hp : Incomplete (Small WellFormed) p) (hs : q ++ d <+: bytesOf rest ++ p) :
    ∃ first last q', rest = first ++ last ∧ q ++ d = bytesOf first ++ q' ∧ Incomplete (Small WellFormed) q' ∧
      (∃ u₁, U.Drains (U.bufferConsumed u d) (first.map Prod.fst) (.incomplete q'.length) u₁ ∧ Holds u₁ q') ∧
      (∀ {messages ending u₁}, U.Drains (U.bufferConsumed u d) messages ending u₁ →
        messages = first.map Prod.fst ∧ ending = .incomplete q'.length ∧ Holds u₁ q') := by
  obtain ⟨first, last, q', rfl, hqd, hq', -⟩ := prefix_stream rest hrest hp hs
  have hfirst : ∀ x ∈ first, WellFormed x.1 x.2 := fun x hx => (hrest x (List.mem_append_left _ hx)).1
  obtain ⟨u₂, hd, hu₂⟩ := drains_stream hU first hfirst (incomplete_of_small hq') (hqd ▸ hU.receives d hu)
  refine ⟨first, last, q', rfl, hqd, hq', ⟨u₂, hd, hu₂⟩, fun {_ _ _} h => ?_⟩
  obtain ⟨rfl, rfl, rfl⟩ := h.unique hd
  exact ⟨rfl, rfl, hu₂⟩

/-- The rest of a stream, after what has been taken off its front. -/
theorem stream_after {first last : List (α × Buffer)} {q q' d more p : Buffer} (hqd : q ++ d = bytesOf first ++ q')
    (h : q ++ (d ++ more) <+: bytesOf (first ++ last) ++ p) : q' ++ more <+: bytesOf last ++ p := by
  rw [← List.append_assoc, hqd, List.append_assoc] at h
  simp only [bytesOf, List.map_append, List.flatten_append, List.append_assoc] at h ⊢
  exact (List.prefix_append_right_inj _).1 h

/-- **Reads that follow each other do what one read of all their bytes would.** -/
theorem Delivers.as_one (hU : U.Unpacks WellFormed Holds) {u u' : β} {n n' : Server σ α} {ds : List Buffer}
    (hd : Delivers U A c u n ds u' n') : ∀ {q p : Buffer} {rest : List (α × Buffer)}, Sound A n →
    (n.clients c).reading = true → (n.clients c).completion = none → Holds u q → Incomplete (Small WellFormed) q →
    (∀ x ∈ rest, Small WellFormed x.1 x.2) → Incomplete (Small WellFormed) p → q ++ ds.flatten <+: bytesOf rest ++ p →
    ∃ first last q' n₁ ok, rest = first ++ last ∧ q ++ ds.flatten = bytesOf first ++ q' ∧ Holds u' q' ∧
      Incomplete (Small WellFormed) q' ∧ handleMessages A c (first.map Prod.fst) (n.readDone c) = some (n₁, ok) ∧
      n' = if ok then n₁.doRead c else n₁ := by
  induction hd with
  | nil u n =>
    intro q p rest _ hc hq hu hq' hrest hp hs
    exact ⟨[], rest, q, n.readDone c, true, rfl, by simp [bytesOf], hu, hq', rfl, (doRead_readDone hc hq).symm⟩
  | @cons u u₁ u' n n₁ n' d ds messages ending _ _ _ hd hn h ih =>
    intro q p rest hsound hc hq hu hq' hrest hp hs
    have hsd : q ++ d <+: bytesOf rest ++ p := by
      refine List.IsPrefix.trans ?_ hs
      rw [List.flatten_cons, ← List.append_assoc]
      exact List.prefix_append _ _
    obtain ⟨first, last, q₁, rfl, hqd, hq₁, -, hdrains⟩ := drains_read hU hu hrest hp hsd
    obtain ⟨rfl, rfl, hu₁⟩ := hdrains hd
    rw [onRead_small _ (length_le_of_small hq₁), readDone_queueCompletion, Option.map_eq_some_iff] at hn
    obtain ⟨⟨n₂, ok⟩, hr, rfl⟩ := hn
    obtain ⟨asked, hh⟩ := handled_of_reading hsound hc hr
    cases ok with
    | false =>
      -- the connection has been stopped, so this was the last read
      cases h with
      | nil => exact ⟨first, last, q₁, n₂, false, rfl, by simpa using hqd, hu₁, hq₁, hr, rfl⟩
      | cons hc' =>
        have hidle : (n₂.clients c).reading = false := by
          rw [hh.keeps.reading]
          simp [readDone, Server.onClient]
        rw [if_neg (by simp), hidle] at hc'
        cases hc'
    | true =>
      obtain ⟨hread, hcompletion, -⟩ := hh.client
      have hsound₁ : Sound A (n₂.doRead c) :=
        hsound.read hc (by rw [onRead_small _ (length_le_of_small hq₁), hr]; rfl)
      rw [if_pos rfl] at ih
      obtain ⟨first', last', q', n₃, ok, rfl, hq'', hu', hincomplete, hr', rfl⟩ := @ih q₁ p last
        hsound₁ (by simp [doRead, Server.onClient]) (by simp [doRead, Server.onClient, hcompletion]) hu₁ hq₁
        (fun x hx => hrest x (List.mem_append_right _ hx)) hp (stream_after hqd hs)
      refine ⟨first ++ first', last', q', n₃, ok, (List.append_assoc ..).symm, ?_, hu', hincomplete, ?_, rfl⟩
      · rw [List.flatten_cons, ← List.append_assoc, hqd, List.append_assoc, hq'']
        simp [bytesOf]
      · rw [readDone_doRead hread hcompletion] at hr'
        rw [List.map_append, handleMessages_append, hr]
        exact hr'

/-- The incomplete message has no complete one in it: the unpacker would have yielded it. -/
theorem no_message_held (hU : U.Unpacks WellFormed Holds) {u : β} {q p : Buffer} {rest : List (α × Buffer)} (hu : Holds u q)
    (hq : Incomplete (Small WellFormed) q) (hrest : ∀ x ∈ rest, Small WellFormed x.1 x.2) (h : q = bytesOf rest ++ p) :
    rest = [] := by
  cases rest with
  | nil => rfl
  | cons x rest =>
    obtain ⟨u₁, hwaits, -⟩ := hU.waits (incomplete_of_small hq) hu
    rw [h, bytesOf_cons, List.append_assoc] at hu
    obtain ⟨u₂, hyields, -⟩ := hU.yields (hrest x List.mem_cons_self).1 hu
    rw [hwaits] at hyields
    cases hyields

theorem delivers_whole (hU : U.Unpacks WellFormed Holds) : ∀ (ds : List Buffer) {u : β} {n n₁ : Server σ α} {q p : Buffer}
    {rest : List (α × Buffer)}, Sound A n → (n.clients c).reading = true → (n.clients c).completion = none →
    (n.clients c).isOpen = true → Holds u q → Incomplete (Small WellFormed) q → (∀ x ∈ rest, Small WellFormed x.1 x.2) →
    Incomplete (Small WellFormed) p → q ++ ds.flatten = bytesOf rest ++ p →
    handleMessages A c (rest.map Prod.fst) (n.readDone c) = some (n₁, true) →
    ∃ u', Holds u' p ∧ Delivers U A c u n ds u' (n₁.doRead c)
  | [], u, n, n₁, q, p, rest, _, hc, hcompletion, _, hu, hq, hrest, _, hs, hr => by
    rw [List.flatten_nil, List.append_nil] at hs
    obtain rfl := no_message_held hU hu hq hrest hs
    obtain rfl : n.readDone c = n₁ := by simpa [handleMessages] using hr
    rw [doRead_readDone hc hcompletion]
    exact ⟨u, by simpa [hs, bytesOf] using hu, .nil u n⟩
  | d :: ds, u, n, n₁, q, p, rest, h, hc, hcompletion, ho, hu, hq, hrest, hp, hs, hr => by
    rw [List.flatten_cons] at hs
    have hsd : q ++ d <+: bytesOf rest ++ p := hs ▸ List.append_assoc q d _ ▸ List.prefix_append _ _
    obtain ⟨first, last, q₁, rfl, hqd, hq₁, ⟨u₁, hdrains, hu₁⟩, -⟩ := drains_read hU hu hrest hp hsd
    rw [List.map_append, handleMessages_append, Option.bind_eq_some_iff] at hr
    obtain ⟨⟨n₂, ok⟩, hr, hr'⟩ := hr
    obtain ⟨asked, hh⟩ := handled_of_reading h hc hr
    cases ok with
    | false => cases hr'
    | true =>
      obtain ⟨hread, hcompletion', hopen⟩ := hh.client
      have hn : onRead A c (first.map Prod.fst) (.incomplete q₁.length) n = some (n₂.doRead c) := by
        rw [onRead_small _ (length_le_of_small hq₁), hr]
        rfl
      have hs' : q₁ ++ ds.flatten = bytesOf last ++ p := by
        rw [← List.append_assoc, hqd] at hs
        simpa [bytesOf] using hs
      obtain ⟨u', hu', hd'⟩ := delivers_whole hU ds (h.read hc hn) (by simp [doRead, Server.onClient])
        (by simp [doRead, Server.onClient, hcompletion']) (by simp [doRead, Server.onClient, hopen, ho]) hu₁ hq₁
        (fun x hx => hrest x (List.mem_append_right _ hx)) hp hs'
        (by rw [readDone_doRead hread hcompletion']; exact hr')
      refine ⟨u', hu', .cons hc hcompletion ho hdrains ?_ hd'⟩
      unfold onRead at hn ⊢
      rwa [readDone_queueCompletion]

/-! ## In every run -/

/-- The server, and the unpacker of one connection with the bytes it has received. -/
structure Feed (σ α β : Type) where
  server : Server σ α
  unpacker : β
  received : Buffer := []

/-- A read of the connection completes with more bytes, or anything else happens. -/
inductive Feed.Step (U : Unpacker β α) (A : Application σ α ι) (c : Nat) : Feed σ α β → Feed σ α β → Prop where
  | deliver (s : Feed σ α β) (d : Buffer) (messages : List α) (ending : Ending) (u' : β)
    (hc : (s.server.clients c).reading = true) (hq : (s.server.clients c).completion = none)
    (ho : (s.server.clients c).isOpen = true) (hd : U.Drains (U.bufferConsumed s.unpacker d) messages ending u') :
    Step U A c s ⟨s.server.queueCompletion c (.data messages ending), u', s.received ++ d⟩
  | other (s : Feed σ α β) (n' : Server σ α) (hs : Server.Step A s.server n')
    (hdata : ∀ messages ending, (n'.clients c).completion = some (.data messages ending) →
      (s.server.clients c).completion = some (.data messages ending)) : Step U A c s { s with server := n' }

/-- The messages of the read that is queued. -/
def queued (n : Server σ α) (c : Nat) : List α :=
  match (n.clients c).completion with
  | some (.data messages _) => messages
  | _ => []

/-- The connection is asked nothing, and its data stay queued. -/
def Calm (c : Nat) (n n' : Server σ α) : Prop := dialogue c n'.log = dialogue c n.log ∧
  ∀ messages ending, (n.clients c).completion = some (.data messages ending) →
    (n'.clients c).completion = some (.data messages ending)

theorem Calm.keeps {n n₁ n' : Server σ α} {more : List (Act Nat α Buffer)} (h : Calm c n n₁) (hk : Keeps n₁ n' more)
    (hd : dialogue c more = []) : Calm c n n' := by
  refine ⟨?_, fun messages ending hdata => hk.data.2 (h.2 messages ending hdata)⟩
  rw [hk.log, dialogue_append, hd, List.append_nil]
  exact h.1

theorem Calm.onClient {n n₁ : Server σ α} (h : Calm c n n₁) (d : Nat) (f : Client α → Client α)
    (hf : ∀ messages ending, (n.clients c).completion = some (.data messages ending) → c = d →
      (f (n₁.clients c)).completion = (n₁.clients c).completion) : Calm c n (n₁.onClient d f) := by
  refine ⟨h.1, fun messages ending hdata => ?_⟩
  have hkept := h.2 messages ending hdata
  unfold Server.onClient
  by_cases hcd : c = d
  · subst hcd
    simp [hf messages ending hdata rfl, hkept]
  · simpa [hcd] using hkept

theorem calm_refl (n : Server σ α) : Calm c n n := ⟨rfl, fun _ _ h => h⟩

/-- A step handles data of the connection or leaves it calm. -/
theorem Step.reads_or_calm {n n' : Server σ α} (h : Sound A n) (hs : Step A n n') (c : Nat) :
    (∃ messages ending, (n.clients c).reading = true ∧ (n.clients c).completion = some (.data messages ending) ∧
      onRead A c messages ending n = some n') ∨ Calm c n n' := by
  cases hs with
  | accept error =>
    refine .inr ?_
    unfold onAccept
    split
    · split
      · exact calm_refl n
      · have hjoined : Calm c n { n.record (.join n.accepted) with
            connections := n.connections ++ [n.accepted], accepted := n.accepted + 1 } := by
          refine ⟨?_, fun _ _ hdata => hdata⟩
          rw [record, dialogue_append]
          exact List.append_nil _
        exact hjoined.onClient n.accepted _ (fun _ _ _ _ => rfl)
    · exact calm_refl n
  | complete d completion hd hq ho =>
    refine .inr ((calm_refl n).onClient d _ ?_)
    rintro messages ending hdata rfl
    rw [hq] at hdata
    cases hdata
  | shutdown d throws => exact .inr ((calm_refl n).onClient d _ (fun _ _ _ _ => rfl))
  | read _ d messages ending hd hq hn =>
    by_cases hcd : c = d
    · subst hcd
      exact .inl ⟨messages, ending, hd, hq, hn⟩
    · have hdone : Calm c n (n.readDone d) := (calm_refl n).onClient d _ (fun _ _ _ he => absurd he hcd)
      obtain ⟨n₁, ok, hr, hn⟩ := onRead_cases hn
      obtain ⟨asked, hh⟩ := handled_of_reading h hd hr
      have h₁ : Calm c n n₁ := hdone.keeps hh.keeps (hh.others c hcd)
      rcases hn with ⟨rfl, rfl⟩ | ⟨rfl, rfl | rfl⟩
      · exact .inr h₁
      · exact .inr (h₁.keeps (keeps_stop n₁ d) rfl)
      · exact .inr (h₁.onClient d _ (fun _ _ _ _ => rfl))
  | readError d aborted hd hq =>
    have hdone : Calm c n (n.readDone d) := by
      refine (calm_refl n).onClient d _ ?_
      rintro messages ending hdata rfl
      rw [hq] at hdata
      cases hdata
    unfold onReadError
    cases aborted with
    | true => exact .inr hdone
    | false => exact .inr (hdone.keeps (keeps_stop _ d) rfl)
  | transfer d o ho => exact .inr ((calm_refl n).onClient d _ (fun _ _ _ _ => rfl))
  | writeError d o aborted hd ho =>
    have hout : Calm c n (n.setOutgoing d o) := (calm_refl n).onClient d _ (fun _ _ _ _ => rfl)
    cases aborted with
    | true => exact .inr hout
    | false => exact .inr (hout.keeps (keeps_stop _ d) rfl)
  | act i events app ha =>
    exact .inr ((calm_refl n).keeps (keeps_notify h.mailed events app) (dialogue_broadcasts c events))
  | close =>
    refine .inr ((calm_refl n).keeps (keeps_close n) ?_)
    unfold dialogue
    rw [List.filterMap_map]
    exact List.filterMap_eq_nil_iff.2 (fun _ _ => rfl)

/-- Of a stream, the messages `first` have arrived and the beginning `q` of the next. -/
structure Feed.Arrived (WellFormed : α → Buffer → Prop) (Holds : β → Buffer → Prop) (c : Nat) (s : Feed σ α β)
    (first : List (α × Buffer)) (q : Buffer) : Prop where
  received : s.received = bytesOf first ++ q
  incomplete : Incomplete (Small WellFormed) q
  holds : Holds s.unpacker q
  ending : ∀ messages ending, (s.server.clients c).completion = some (.data messages ending) → ending = .incomplete q.length
  passed : asks c s.server.log ++ queued s.server c = first.map Prod.fst ∧ ¬ Hanging c s.server.log ∨
    asks c s.server.log <+: first.map Prod.fst ∧ Hanging c s.server.log

theorem Calm.asks {n n' : Server σ α} (h : Calm c n n') : Base.Act.asks c n'.log = Base.Act.asks c n.log := by
  unfold Base.Act.asks
  rw [h.1]

theorem Calm.hanging {n n' : Server σ α} (h : Calm c n n') : Hanging c n'.log ↔ Hanging c n.log := by
  unfold Hanging
  rw [h.1]

theorem Calm.queued {n n' : Server σ α} (h : Calm c n n')
    (hdata : ∀ messages ending, (n'.clients c).completion = some (.data messages ending) →
      (n.clients c).completion = some (.data messages ending)) : Server.queued n' c = Server.queued n c := by
  unfold Server.queued
  cases hq : (n.clients c).completion with
  | none =>
    cases hq' : (n'.clients c).completion with
    | none => rfl
    | some completion' =>
      cases completion' with
      | data messages ending => simp [hdata messages ending hq'] at hq
      | error aborted => rfl
  | some completion =>
    cases completion with
    | data messages ending => rw [h.2 messages ending hq]
    | error aborted =>
      cases hq' : (n'.clients c).completion with
      | none => rfl
      | some completion' =>
        cases completion' with
        | data messages ending => simp [hdata messages ending hq'] at hq
        | error aborted => rfl

theorem Feed.Step.server {s s' : Feed σ α β} (hs : Feed.Step U A c s s') : Server.Step A s.server s'.server := by
  cases hs with
  | deliver d messages ending u' hc hq ho hd => exact .complete _ c _ hc hq (.inl ho)
  | other n' hs hdata => exact hs

theorem Feed.Step.received {s s' : Feed σ α β} (hs : Feed.Step U A c s s') : s.received <+: s'.received := by
  cases hs with
  | deliver d messages ending u' hc hq ho hd => exact List.prefix_append _ _
  | other n' hs hdata => exact List.prefix_rfl

/-- The messages of a read are passed on; all of them, or up to one that throws. -/
theorem passed_of_handled {n n' : Server σ α} {messages : List α} {ok : Bool} (h : Sound A n)
    (hc : (n.clients c).reading = true) (hr : handleMessages A c messages (n.readDone c) = some (n', ok)) :
    (ok = true → asks c n'.log = asks c n.log ++ messages ∧ ¬ Hanging c n'.log) ∧
      (ok = false → asks c n'.log <+: asks c n.log ++ messages ∧ Hanging c n'.log) := by
  obtain ⟨asked, hh⟩ := handled_of_reading h hc hr
  have hlog := hh.keeps.log
  constructor
  · rintro rfl
    obtain ⟨hcurrent, hasked⟩ := hh.answered rfl
    rw [if_pos rfl, List.append_nil] at hlog
    refine ⟨(congrArg (asks c) hlog).trans ?_, hcurrent⟩
    rw [asks_append, hasked]
    rfl
  · rintro rfl
    obtain ⟨hhang, hasked⟩ := hh.thrown rfl
    have hleave : dialogue c ([.leave c] : List (Act Nat α Buffer)) = [] := rfl
    refine ⟨(congrArg (asks c) hlog) ▸ ?_, hhang⟩
    rw [if_neg (by simp), asks_append, asks_append, asks_of_dialogue hleave, List.append_nil]
    exact (List.prefix_append_right_inj (asks c n.log)).2 hasked

theorem passed_of_onRead {n n' : Server σ α} {messages passed : List α} {size : Nat} (h : Sound A n)
    (hc : (n.clients c).reading = true) (hsize : size ≤ controlMsgMaxBytes) (hp : asks c n.log ++ messages = passed)
    (hn : onRead A c messages (.incomplete size) n = some n') :
    asks c n'.log = passed ∧ ¬ Hanging c n'.log ∧ (n'.clients c).reading = true ∧
      (∃ more, n'.log = n.log ++ more ∧ .leave c ∉ more) ∨
    asks c n'.log <+: passed ∧ Hanging c n'.log := by
  rw [onRead_small _ hsize, Option.map_eq_some_iff] at hn
  obtain ⟨⟨n₁, ok⟩, hr, rfl⟩ := hn
  obtain ⟨hall, hthrown⟩ := passed_of_handled h hc hr
  subst hp
  cases ok with
  | true =>
    obtain ⟨hasks, hcurrent⟩ := hall rfl
    obtain ⟨asked, hh⟩ := handled_of_reading h hc hr
    have hlog := hh.keeps.log
    rw [if_pos rfl, List.append_nil] at hlog
    exact .inl ⟨hasks, hcurrent, by simp [doRead, Server.onClient], asked, hlog, hh.stays c⟩
  | false => exact .inr (hthrown rfl)

theorem Feed.Step.arrived (hU : U.Unpacks WellFormed Holds) {s s' : Feed σ α β} {first rest : List (α × Buffer)} {q p : Buffer}
    (hsound : Sound A s.server) (hs : Feed.Step U A c s s') (h : s.Arrived WellFormed Holds c first q)
    (hm : ∀ x ∈ first ++ rest, Small WellFormed x.1 x.2) (hp : Incomplete (Small WellFormed) p)
    (hstream : s'.received <+: bytesOf (first ++ rest) ++ p) :
    ∃ first' rest' q', first ++ rest = first' ++ rest' ∧ s'.Arrived WellFormed Holds c first' q' := by
  cases hs with
  | deliver d messages ending u' hc hq ho hd =>
    have hcurrent : asks c s.server.log = first.map Prod.fst ∧ ¬ Hanging c s.server.log := by
      rcases h.passed with hpassed | ⟨-, hhang⟩
      · simpa [queued, hq] using hpassed
      · simp [hsound.waiting c hhang] at hc
    have hrest : q ++ d <+: bytesOf rest ++ p := by
      have hstream : [] ++ (s.received ++ d) <+: bytesOf (first ++ rest) ++ p := hstream
      have hreceived : ([] : Buffer) ++ s.received = bytesOf first ++ q := h.received
      exact stream_after hreceived hstream
    obtain ⟨next, last, q', rfl, hqd, hq', -, hdrains⟩ := drains_read hU h.holds
      (fun x hx => hm x (List.mem_append_right _ hx)) hp hrest
    obtain ⟨rfl, rfl, hu'⟩ := hdrains hd
    refine ⟨first ++ next, last, q', (List.append_assoc ..).symm, ?_, hq', hu', ?_, ?_⟩
    · dsimp only
      rw [h.received, List.append_assoc, hqd]
      simp [bytesOf]
    · intro messages ending hdata
      simp only [queueCompletion, Server.onClient, Function.update_self, Option.some.injEq, Completion.data.injEq] at hdata
      exact hdata.2.symm
    · refine .inl ⟨?_, hcurrent.2⟩
      rw [List.map_append, ← hcurrent.1]
      simp [queued, queueCompletion, Server.onClient]
  | other n' hs hdata =>
    refine ⟨first, rest, q, rfl, h.received, h.incomplete, h.holds, fun messages ending hd => ?_, ?_⟩
    · exact h.ending messages ending (hdata messages ending hd)
    · rcases hs.reads_or_calm hsound c with ⟨messages, ending, hc, hq, hn⟩ | hcalm
      · obtain rfl := h.ending messages ending hq
        have hnone : queued n' c = [] := by
          unfold queued
          split
          · rename_i hd
            exact absurd hd (onRead_completion hsound hc hn _ _)
          · rfl
        rcases h.passed with ⟨hpassed, -⟩ | ⟨-, hhang⟩
        · have hq' : queued s.server c = messages := by
            unfold queued
            rw [hq]
          rw [hq'] at hpassed
          rcases passed_of_onRead hsound hc (length_le_of_small h.incomplete) hpassed hn with ⟨hasks, hcurrent, -⟩ | hthrown
          · exact .inl ⟨by rw [hnone, List.append_nil, hasks], hcurrent⟩
          · exact .inr hthrown
        · simp [hsound.waiting c hhang] at hc
      · rw [hcalm.asks, hcalm.queued hdata, hcalm.hanging]
        exact h.passed

/-- What a stream of messages comes to. -/
structure Feed.Served (U : Unpacker β α) (A : Application σ α ι) (c : Nat) (s : Feed σ α β) (first rest : List (α × Buffer))
    (stream : Buffer) : Prop where
  /-- The messages that have arrived are passed on once each and in order, or wait in the read that is queued; if one of
  them throws, no message after it is passed on. -/
  calls : asks c s.server.log ++ queued s.server c = first.map Prod.fst ∧ ¬ Hanging c s.server.log ∨
    asks c s.server.log <+: first.map Prod.fst ∧ Hanging c s.server.log
  /-- A read goes on to the next one; only a request that throws stops the connection. -/
  kept : ∀ messages ending n', (s.server.clients c).reading = true →
    (s.server.clients c).completion = some (.data messages ending) → onRead A c messages ending s.server = some n' →
    (n'.clients c).reading = true ∧ (∃ more, n'.log = s.server.log ++ more ∧ .leave c ∉ more) ∨ Hanging c n'.log
  /-- However the rest of the stream is split, reading it comes to one pass over its messages. -/
  whole : (s.server.clients c).reading = true → (s.server.clients c).completion = none →
    (s.server.clients c).isOpen = true → ∀ n₁, handleMessages A c (rest.map Prod.fst) (s.server.readDone c) = some (n₁, true) →
    ∀ ds, s.received ++ ds.flatten = stream → (∃ u', Delivers U A c s.unpacker s.server ds u' (n₁.doRead c)) ∧
      ∀ u' n', Delivers U A c s.unpacker s.server ds u' n' → n' = n₁.doRead c
  /-- So it does where a message throws: the reading stops there. -/
  cut : (s.server.clients c).reading = true → (s.server.clients c).completion = none →
    ∀ n₁, handleMessages A c (rest.map Prod.fst) (s.server.readDone c) = some (n₁, false) →
    ∀ ds u' n', s.received ++ ds.flatten <+: stream → Delivers U A c s.unpacker s.server ds u' n' →
      (n'.clients c).reading = false → n' = n₁

theorem Feed.Arrived.served (hU : U.Unpacks WellFormed Holds) {s : Feed σ α β} {first rest : List (α × Buffer)} {q p : Buffer}
    (hsound : Sound A s.server) (h : s.Arrived WellFormed Holds c first q)
    (hm : ∀ x ∈ first ++ rest, Small WellFormed x.1 x.2) (hp : Incomplete (Small WellFormed) p) :
    s.Served U A c first rest (bytesOf (first ++ rest) ++ p) := by
  have hrest : ∀ x ∈ rest, Small WellFormed x.1 x.2 := fun x hx => hm x (List.mem_append_right _ hx)
  have hahead : ∀ {ds : List Buffer}, s.received ++ ds.flatten <+: bytesOf (first ++ rest) ++ p →
      q ++ ds.flatten <+: bytesOf rest ++ p := fun hs => stream_after (q := []) h.received hs
  constructor
  · exact h.passed
  · intro messages ending n' hc hq hn
    obtain rfl := h.ending messages ending hq
    rcases h.passed with ⟨hpassed, -⟩ | ⟨-, hhang⟩
    · have hq' : queued s.server c = messages := by
        unfold queued
        rw [hq]
      rw [hq'] at hpassed
      rcases passed_of_onRead hsound hc (length_le_of_small h.incomplete) hpassed hn with ⟨-, -, hkept⟩ | ⟨-, hthrown⟩
      · exact .inl hkept
      · exact .inr hthrown
    · simp [hsound.waiting c hhang] at hc
  · intro hc hq ho n₁ hr ds hs
    have hall : q ++ ds.flatten = bytesOf rest ++ p := by
      rw [h.received] at hs
      simpa [bytesOf] using hs
    constructor
    · obtain ⟨u', -, hd⟩ := delivers_whole hU ds hsound hc hq ho h.holds h.incomplete hrest hp hall hr
      exact ⟨u', hd⟩
    · intro u' n' hd
      obtain ⟨next, last, q', n₂, ok, rfl, hnext, hu', hq', hr', rfl⟩ :=
        hd.as_one hU hsound hc hq h.holds h.incomplete hrest hp (hall ▸ List.prefix_rfl)
      have hlast : q' = bytesOf last ++ p := by
        rw [hnext] at hall
        simpa [bytesOf] using hall
      obtain rfl := no_message_held hU hu' hq' (fun x hx => hrest x (List.mem_append_right _ hx)) hlast
      rw [List.append_nil, hr'] at hr
      cases hr
      rfl
  · intro hc hq n₁ hr ds u' n' hs hd hstopped
    obtain ⟨next, last, q', n₂, ok, rfl, -, -, -, hr', rfl⟩ :=
      hd.as_one hU hsound hc hq h.holds h.incomplete hrest hp (hahead hs)
    cases ok with
    | true => simp [doRead, Server.onClient] at hstopped
    | false =>
      rw [List.map_append, handleMessages_append, hr'] at hr
      cases hr
      rfl

theorem Feed.sound {app : σ} {u₀ : β} {s : Feed σ α β}
    (h : Relation.ReflTransGen (Feed.Step U A c) { server := initial app, unpacker := u₀ } s) : Sound A s.server := by
  induction h with
  | refl => exact sound_initial app
  | tail _ hstep ih => exact ih.step hstep.server

/-- **The messages of a stream are handled once each and in order, and the reads never drop the connection themselves,
however the stream is split**; only a request that throws ends the reading, and all splits end it there. -/
theorem stream_served (hU : U.Unpacks WellFormed Holds) {app : σ} {u₀ : β}
    (hu₀ : Holds u₀ []) {messages : List (α × Buffer)} (hm : ∀ x ∈ messages, Small WellFormed x.1 x.2) {p : Buffer}
    (hp : Incomplete (Small WellFormed) p) {s : Feed σ α β}
    (h : Relation.ReflTransGen (Feed.Step U A c) { server := initial app, unpacker := u₀ } s)
    (hs : s.received <+: bytesOf messages ++ p) :
    ∃ first rest q, messages = first ++ rest ∧ s.received = bytesOf first ++ q ∧ Incomplete (Small WellFormed) q ∧
      s.Served U A c first rest (bytesOf messages ++ p) := by
  have hrun : ∃ first rest q, messages = first ++ rest ∧ s.Arrived WellFormed Holds c first q := by
    induction h with
    | refl =>
      refine ⟨[], messages, [], rfl, rfl, .inl rfl, hu₀, nofun, .inl ⟨rfl, ?_⟩⟩
      rintro ⟨a, ha⟩
      cases ha
    | tail hr hstep ih =>
      obtain ⟨first, rest, q, rfl, harrived⟩ := ih (hstep.received.trans hs)
      exact hstep.arrived hU (Feed.sound hr) harrived hm hp hs
  obtain ⟨first, rest, q, rfl, harrived⟩ := hrun
  exact ⟨first, rest, q, rfl, harrived.received, harrived.incomplete, harrived.served hU (Feed.sound h) hm hp⟩

/-! ## Requests that are all replied to -/

/-- What a stream of messages comes to where no request throws. -/
structure Feed.Undropped (U : Unpacker β α) (A : Application σ α ι) (c : Nat) (s : Feed σ α β)
    (first rest : List (α × Buffer)) (stream : Buffer) : Prop where
  /-- The messages that have arrived are handled once each and in order, or wait in the read that is queued. -/
  calls : asks c s.server.log ++ queued s.server c = first.map Prod.fst
  /-- A read goes on to the next one, and does not stop the connection. -/
  kept : ∀ messages ending n', (s.server.clients c).reading = true →
    (s.server.clients c).completion = some (.data messages ending) → onRead A c messages ending s.server = some n' →
    (n'.clients c).reading = true ∧ ∃ more, n'.log = s.server.log ++ more ∧ .leave c ∉ more
  /-- However the rest of the stream is split, reading it comes to one pass over its messages. -/
  whole : (s.server.clients c).reading = true → (s.server.clients c).completion = none →
    (s.server.clients c).isOpen = true →
    ∀ n₁ ok, handleMessages A c (rest.map Prod.fst) (s.server.readDone c) = some (n₁, ok) →
      ok = true ∧ ∀ ds, s.received ++ ds.flatten = stream → (∃ u', Delivers U A c s.unpacker s.server ds u' (n₁.doRead c)) ∧
        ∀ u' n', Delivers U A c s.unpacker s.server ds u' n' → n' = n₁.doRead c

theorem handleMessages_true (hA : ∀ request app events app', A.handleRequest request app ≠ some (events, none, app')) :
    ∀ {messages : List α} {n n₁ : Server σ α} {ok : Bool}, handleMessages A c messages n = some (n₁, ok) → ok = true
  | [], n, n₁, ok, h => by
    cases h
    rfl
  | request :: messages, n, n₁, ok, h => by
    rw [handleMessages] at h
    cases hr : A.handleRequest request n.app with
    | none =>
      rw [hr] at h
      cases h
    | some r =>
      obtain ⟨events, reply, app⟩ := r
      cases reply with
      | none => exact absurd hr (hA request n.app events app)
      | some buffer =>
        rw [hr] at h
        exact handleMessages_true hA h

theorem Sound.not_hanging (hA : ∀ request app events app', A.handleRequest request app ≠ some (events, none, app'))
    {n : Server σ α} (h : Sound A n) (c : Nat) : ¬ Hanging c n.log := by
  have hanswered : ∀ a bs, ¬ A.Handles a bs none := by
    rintro a bs ⟨app, app', hr⟩
    exact hA a app bs app' hr
  exact h.served.not_hanging hanswered c

theorem Feed.Served.undropped (hA : ∀ request app events app', A.handleRequest request app ≠ some (events, none, app'))
    {s : Feed σ α β} {first rest : List (α × Buffer)} {stream : Buffer} (hsound : Sound A s.server)
    (h : s.Served U A c first rest stream) : s.Undropped U A c first rest stream where
  calls := by
    rcases h.calls with ⟨hcalls, -⟩ | ⟨-, hhang⟩
    · exact hcalls
    · exact absurd hhang (hsound.not_hanging hA c)
  kept messages ending n' hc hq hn := by
    rcases h.kept messages ending n' hc hq hn with hkept | hhang
    · exact hkept
    · exact absurd hhang ((hsound.read hc hn).not_hanging hA c)
  whole hc hq ho n₁ ok hr := by
    obtain rfl := handleMessages_true hA hr
    exact ⟨rfl, h.whole hc hq ho n₁ hr⟩

/-- An unpacker of small integers: a byte below 128 is one, and any byte after the byte 204. -/
def smallInts (f : UInt8 → α) : Unpacker Buffer α where
  bufferConsumed u d := u ++ d
  next
    | [] => some (none, [])
    | [204] => some (none, [204])
    | 204 :: x :: rest => some (some (f x), rest)
    | x :: rest => if x < 128 then some (some (f x), rest) else none
  messageSize := List.length

def SmallInt (f : UInt8 → α) (m : α) (b : Buffer) : Prop := ∃ x, m = f x ∧ (x < 128 ∧ b = [x] ∨ b = [204, x])

theorem incomplete_smallInt {f : UInt8 → α} {p : Buffer} (h : Incomplete (SmallInt f) p) : p = [] ∨ p = [204] := by
  rcases h with rfl | ⟨m, b, ⟨x, -, ⟨-, rfl⟩ | rfl⟩, hpre, hne⟩
  · exact .inl rfl
  · match p, hpre, hne with
    | [], _, _ => exact .inl rfl
    | [y], hpre, hne => exact absurd (hpre.eq_of_length rfl) hne
    | _ :: _ :: _, hpre, _ => simpa using hpre.length_le
  · match p, hpre, hne with
    | [], _, _ => exact .inl rfl
    | [y], hpre, _ => exact .inr (by simpa using hpre)
    | [y, z], hpre, hne => exact absurd (hpre.eq_of_length rfl) hne
    | _ :: _ :: _ :: _, hpre, _ => simpa using hpre.length_le

theorem unpacks_smallInts (f : UInt8 → α) : (smallInts f).Unpacks (SmallInt f) (fun u b => u = b) where
  receives := by
    rintro u b d rfl
    rfl
  yields := by
    rintro u m b rest ⟨x, rfl, ⟨hx, rfl⟩ | rfl⟩ rfl
    · have hne : x ≠ 204 := by
        rintro rfl
        exact absurd hx (by decide)
      refine ⟨rest, ?_, rfl⟩
      unfold smallInts
      simp [hne, hx]
    · exact ⟨rest, rfl, rfl⟩
  waits := by
    rintro u p hp rfl
    rcases incomplete_smallInt hp with rfl | rfl
    · exact ⟨[], rfl, rfl, rfl⟩
    · exact ⟨[204], rfl, rfl, rfl⟩

theorem smallInts_waits (f : UInt8 → α) (p : Buffer) (h : (smallInts f).next p = some (none, p)) :
    (smallInts f).Drains p [] (.incomplete p.length) p := .waits h

end Server
end Fpga
