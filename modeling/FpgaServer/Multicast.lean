import Mathlib.Data.List.Basic
import Mathlib.Data.Sum.Basic
import FpgaServer.Chunks
import FpgaServer.Transducer
/-!
# Multicast — the log of a server that answers its clients and tells all of them

Clients join and leave; one that asks is answered; a broadcast goes to those that have joined and not left.  What a client
receives (`mail`) is an interleaving of its answers and of the broadcasts while it was in (`interleave_mail`), and clients
that are in throughout a stretch of the log receive the same broadcasts in it (`mail_of_member`).  In a log that deals with
one request at a time (`Served`), every answer follows its question with only broadcasts between them, and each client's
questions are answered one by one.
-/
namespace Base

/-- `l` consists of `xs` and `ys`, each in its order. -/
inductive Interleave {α : Type} : List α → List α → List α → Prop where
  | nil : Interleave [] [] []
  | left {xs ys l : List α} (x : α) (h : Interleave xs ys l) : Interleave (x :: xs) ys (x :: l)
  | right {xs ys l : List α} (y : α) (h : Interleave xs ys l) : Interleave xs (y :: ys) (y :: l)

theorem interleave_sum {α : Type} : ∀ l : List (α ⊕ α),
    Interleave (l.filterMap Sum.getLeft?) (l.filterMap Sum.getRight?) (l.map (Sum.elim id id))
  | [] => .nil
  | .inl x :: l => .left x (interleave_sum l)
  | .inr y :: l => .right y (interleave_sum l)

/-- What happens at a server with clients `κ`, questions `α` and messages `β`. -/
inductive Act (κ α β : Type) where
  | join (k : κ)
  | leave (k : κ)
  | ask (k : κ) (a : α)
  | answer (k : κ) (b : β)
  | broadcast (b : β)
  deriving DecidableEq, Repr

namespace Act

variable {κ α β : Type} [DecidableEq κ]

/-- Whether `k` is in, after the act. -/
def joins (k : κ) (j : Bool) : Act κ α β → Bool
  | .join i => j || decide (i = k)
  | .leave i => j && decide (i ≠ k)
  | _ => j

/-- What `k` receives: answers on the left, broadcasts on the right. -/
def inbox (k : κ) : Transducer (Act κ α β) Bool (β ⊕ β) where
  step j a := (joins k j a, match a with
    | .answer i b => if i = k then [.inl b] else []
    | .broadcast b => if j then [.inr b] else []
    | _ => [])

def joined (k : κ) (log : List (Act κ α β)) : Bool := ((inbox k).run false log).1

def mail (k : κ) (log : List (Act κ α β)) : List (β ⊕ β) := ((inbox k).run false log).2

def answer? (k : κ) : Act κ α β → Option β
  | .answer i b => if i = k then some b else none
  | _ => none

def broadcast? : Act κ α β → Option β
  | .broadcast b => some b
  | _ => none

/-- The broadcasts while `k` is in. -/
def heard (k : κ) : Bool → List (Act κ α β) → List β
  | _, [] => []
  | j, a :: log => (if j then a.broadcast?.toList else []) ++ heard k (joins k j a) log

/-- The questions and the answers of `k`, in order. -/
def exchange? (k : κ) : Act κ α β → Option (α ⊕ β)
  | .ask i a => if i = k then some (.inl a) else none
  | .answer i b => if i = k then some (.inr b) else none
  | _ => none

def dialogue (k : κ) (log : List (Act κ α β)) : List (α ⊕ β) := log.filterMap (exchange? k)

theorem joined_append (k : κ) (log more : List (Act κ α β)) :
    joined k (log ++ more) = ((inbox k).run (joined k log) more).1 := by
  unfold joined
  rw [Transducer.run_append]

theorem mail_append (k : κ) (log more : List (Act κ α β)) :
    mail k (log ++ more) = mail k log ++ ((inbox k).run (joined k log) more).2 := by
  unfold mail joined
  rw [Transducer.run_append]

theorem joined_snoc (k : κ) (log : List (Act κ α β)) (a : Act κ α β) : joined k (log ++ [a]) = joins k (joined k log) a :=
  joined_append k log [a]

theorem mail_snoc (k : κ) (log : List (Act κ α β)) (a : Act κ α β) :
    mail k (log ++ [a]) = mail k log ++ ((inbox k).step (joined k log) a).2 := by
  rw [mail_append, Transducer.run_cons, Transducer.run_nil, List.append_nil]

theorem lefts_run (k : κ) : ∀ (j : Bool) (log : List (Act κ α β)),
    ((inbox k).run j log).2.filterMap Sum.getLeft? = log.filterMap (answer? k)
  | _, [] => rfl
  | j, a :: log => by
    rw [Transducer.run_cons, List.filterMap_append, lefts_run k _ log, List.filterMap_cons]
    cases a with
    | answer i b => by_cases h : i = k <;> simp [inbox, answer?, h]
    | broadcast b => cases j <;> simp [inbox, answer?]
    | _ => simp [inbox, answer?]

theorem rights_run (k : κ) : ∀ (j : Bool) (log : List (Act κ α β)),
    ((inbox k).run j log).2.filterMap Sum.getRight? = heard k j log
  | _, [] => rfl
  | j, a :: log => by
    rw [Transducer.run_cons, List.filterMap_append, rights_run k _ log, heard]
    cases a with
    | answer i b => by_cases h : i = k <;> simp [inbox, broadcast?, h]
    | broadcast b => cases j <;> simp [inbox, broadcast?]
    | _ => simp [inbox, broadcast?]

/-- **A client receives its answers and the broadcasts while it is in**, each in order. -/
theorem interleave_mail (k : κ) (log : List (Act κ α β)) :
    Interleave (log.filterMap (answer? k)) (heard k false log) ((mail k log).map (Sum.elim id id)) := by
  rw [← lefts_run k false, ← rights_run k false]
  exact interleave_sum _

theorem joined_of_no_leave {k : κ} : ∀ {j : Bool} {log : List (Act κ α β)}, j = true → .leave k ∉ log →
    heard k j log = log.filterMap broadcast? ∧ ((inbox k).run j log).1 = true
  | _, [], rfl, _ => ⟨rfl, rfl⟩
  | _, a :: log, rfl, h => by
    have hj : joins k true a = true := by
      cases a with
      | leave i => simpa [joins] using fun hi : i = k => h (hi ▸ List.mem_cons_self)
      | _ => simp [joins]
    obtain ⟨hh, hr⟩ := joined_of_no_leave hj (fun hm => h (List.mem_cons_of_mem _ hm))
    constructor
    · rw [heard, hh, List.filterMap_cons]
      cases a <;> simp [broadcast?]
    · exact hr

/-- Joining is the only way in. -/
theorem mem_join_of_run {k : κ} : ∀ {log : List (Act κ α β)} {j : Bool}, ((inbox k).run j log).1 = true →
    j = true ∨ .join k ∈ log
  | [], j, h => .inl h
  | a :: log, j, h => by
    have htail : ((inbox k).run (joins k j a) log).1 = true := h
    rcases mem_join_of_run htail with hj | hm
    · cases a with
      | join i =>
        by_cases hi : i = k
        · exact .inr (hi ▸ List.mem_cons_self)
        · exact .inl (by simpa [joins, hi] using hj)
      | leave i => exact .inl (Bool.and_eq_true_iff.1 hj).1
      | _ => exact .inl hj
    · exact .inr (List.mem_cons_of_mem _ hm)

/-- A client that has joined at most once, and is in before and after a stretch, hears all of its broadcasts. -/
theorem mail_of_member {k : κ} {log more : List (Act κ α β)} (hin : joined k log = true)
    (hout : joined k (log ++ more) = true) (honce : .join k ∈ log → .join k ∉ more) :
    Interleave (more.filterMap (answer? k)) (more.filterMap broadcast?)
      (((inbox k).run (joined k log) more).2.map (Sum.elim id id)) := by
  have hstay : .leave k ∉ more := by
    intro hl
    obtain ⟨more₁, more₂, rfl⟩ := List.append_of_mem hl
    rw [joined_append, hin, Transducer.run_append, Transducer.run_cons] at hout
    have hback := (mem_join_of_run hout).resolve_left (by simp [inbox, joins])
    exact honce ((mem_join_of_run hin).resolve_left (by simp)) (by simp [hback])
  rw [hin, ← lefts_run k true, ← (joined_of_no_leave rfl hstay).1, ← rights_run k true]
  exact interleave_sum _

theorem run_broadcasts (k : κ) (j : Bool) : ∀ bs : List β,
    (inbox k : Transducer (Act κ α β) Bool (β ⊕ β)).run j (bs.map .broadcast) = (j, if j then bs.map .inr else [])
  | [] => by simp
  | b :: bs => by
    have hstep : (inbox k : Transducer (Act κ α β) Bool (β ⊕ β)).step j (.broadcast b) = (j, if j then [.inr b] else []) :=
      rfl
    rw [List.map_cons, Transducer.run_cons, hstep, run_broadcasts k j bs]
    cases j <;> simp

theorem run_leaves (k : κ) : ∀ (j : Bool) (ks : List κ),
    (inbox k : Transducer (Act κ α β) Bool (β ⊕ β)).run j (ks.map .leave) = (j && decide (k ∉ ks), [])
  | j, [] => by simp
  | j, i :: ks => by
    have hstep : (inbox k : Transducer (Act κ α β) Bool (β ⊕ β)).step j (.leave i) = (j && decide (i ≠ k), []) := rfl
    rw [List.map_cons, Transducer.run_cons, hstep, run_leaves k _ ks]
    by_cases hi : i = k
    · simp [hi]
    · simp [hi, Ne.symm hi]

/-- **What is broadcast between a question and its answer is received before the answer.** -/
theorem mail_exchange (k : κ) (log more : List (Act κ α β)) (a : α) (bs : List β) (b : β) :
    mail k (log ++ .ask k a :: (bs.map .broadcast ++ .answer k b :: more)) =
      mail k log ++ ((if joined k log then bs.map .inr else []) ++ .inl b :: ((inbox k).run (joined k log) more).2) := by
  have hask : (inbox k).step (joined k log) (.ask k a : Act κ α β) = (joined k log, []) := rfl
  have hanswer : (inbox k).step (joined k log) (.answer k b : Act κ α β) = (joined k log, [.inl b]) := by
    simp [inbox, joins]
  rw [mail_append, Transducer.run_cons, hask, Transducer.run_append, run_broadcasts, Transducer.run_cons, hanswer]
  rfl

/-! ## One request at a time -/

/-- The last question of `k` has no answer. -/
def Hanging (k : κ) (log : List (Act κ α β)) : Prop := ∃ a, (dialogue k log).getLast? = some (.inl a)

/-- Logs of a server that deals with one request at a time: `R a bs r` says that the question `a` leads to the broadcasts
`bs` and then to the answer `r`, or to none; a client left without an answer has to leave. -/
inductive Served (R : α → List β → Option β → Prop) : List (Act κ α β) → Prop where
  | nil : Served R []
  | join {log : List (Act κ α β)} (k : κ) (h : Served R log) (hk : .join k ∉ log) : Served R (log ++ [.join k])
  | leave {log : List (Act κ α β)} (k : κ) (h : Served R log) : Served R (log ++ [.leave k])
  | broadcast {log : List (Act κ α β)} (b : β) (h : Served R log) : Served R (log ++ [.broadcast b])
  | exchange {log : List (Act κ α β)} (k : κ) (a : α) (bs : List β) (b : β) (h : Served R log) (hk : ¬ Hanging k log)
    (hr : R a bs (some b)) : Served R (log ++ (.ask k a :: (bs.map .broadcast ++ [.answer k b])))
  | dropped {log : List (Act κ α β)} (k : κ) (a : α) (bs : List β) (h : Served R log) (hk : ¬ Hanging k log)
    (hr : R a bs none) : Served R (log ++ (.ask k a :: (bs.map .broadcast ++ [.leave k])))

variable {R : α → List β → Option β → Prop} {log : List (Act κ α β)}

/-- Every answer follows its question, with only the broadcasts of that question between them. -/
theorem Served.answered (h : Served R log) : ∀ {k : κ} {b : β} {pre post : List (Act κ α β)},
    log = pre ++ .answer k b :: post →
    ∃ before a bs, pre = before ++ .ask k a :: bs.map .broadcast ∧ R a bs (some b) := by
  -- a stretch without an answer adds nothing to show
  have quiet : ∀ {l seg pre post : List (Act κ α β)} {k : κ} {b : β},
      (∀ {pre post : List (Act κ α β)}, l = pre ++ .answer k b :: post →
        ∃ before a bs, pre = before ++ .ask k a :: bs.map .broadcast ∧ R a bs (some b)) →
      .answer k b ∉ seg → l ++ seg = pre ++ .answer k b :: post →
      ∃ before a bs, pre = before ++ .ask k a :: bs.map .broadcast ∧ R a bs (some b) := by
    intro l seg pre post k b ih hseg heq
    rcases split_append heq with ⟨mid, hl, -⟩ | ⟨mid, -, hmid⟩
    · exact ih hl
    · exact absurd (hmid ▸ by simp) hseg
  induction h with
  | nil => intro k b pre post heq; simp at heq
  | join i _ _ ih => exact quiet ih (by simp)
  | leave i _ ih => exact quiet ih (by simp)
  | broadcast c _ ih => exact quiet ih (by simp)
  | dropped i a bs _ _ _ ih => exact quiet ih (by simp)
  | @exchange l i a bs c _ _ hr ih =>
    intro k b pre post heq
    rcases split_append heq with ⟨mid, hl, -⟩ | ⟨mid, hpre, hmid⟩
    · exact ih hl
    · rw [← List.cons_append] at hmid
      rcases split_append hmid with ⟨mid', hl, -⟩ | ⟨mid', hpre', hlast⟩
      · have : Act.answer k b ∈ (.ask i a :: bs.map .broadcast : List (Act κ α β)) := hl ▸ by simp
        simp at this
      · obtain ⟨rfl, hik⟩ : mid' = [] ∧ Act.answer i c = Act.answer k b := by
          cases mid' with
          | nil => exact ⟨rfl, (List.cons.inj hlast).1⟩
          | cons x mid' => simp at hlast
        cases hik
        exact ⟨l, a, bs, by rw [hpre, hpre', List.append_nil], hr⟩

def join? : Act κ α β → Option κ
  | .join k => some k
  | _ => none

omit [DecidableEq κ] in
theorem joins_broadcasts (bs : List β) : (bs.map .broadcast : List (Act κ α β)).filterMap join? = [] := by
  rw [List.filterMap_map]
  exact List.filterMap_eq_nil_iff.2 (fun b _ => rfl)

theorem Served.nodup_joins (h : Served R log) : (log.filterMap join?).Nodup := by
  induction h with
  | nil => exact List.nodup_nil
  | @join l k _ hk ih =>
    have hnew : k ∉ l.filterMap join? := by
      intro hm
      obtain ⟨a, ha, hak⟩ := List.mem_filterMap.1 hm
      cases a with
      | join i =>
        cases hak
        exact hk ha
      | _ => cases hak
    rw [List.filterMap_append, List.nodup_append]
    refine ⟨ih, List.pairwise_singleton _ _, fun i hi j hj => ?_⟩
    rintro rfl
    cases List.mem_singleton.1 hj
    exact hnew hi
  | leave k _ ih => simpa [List.filterMap_cons, join?] using ih
  | broadcast b _ ih => simpa [List.filterMap_cons, join?] using ih
  | exchange k a bs b _ _ _ ih =>
    rw [List.filterMap_append, List.filterMap_cons, List.filterMap_append, joins_broadcasts]
    simpa [List.filterMap_cons, join?] using ih
  | dropped k a bs _ _ _ ih =>
    rw [List.filterMap_append, List.filterMap_cons, List.filterMap_append, joins_broadcasts]
    simpa [List.filterMap_cons, join?] using ih

theorem Served.joins_once {more : List (Act κ α β)} (h : Served R (log ++ more)) {k : κ} (hk : .join k ∈ log) :
    .join k ∉ more := by
  intro hm
  have hn := h.nodup_joins
  rw [List.filterMap_append, List.nodup_append] at hn
  exact hn.2.2 k (List.mem_filterMap.2 ⟨_, hk, rfl⟩) k (List.mem_filterMap.2 ⟨_, hm, rfl⟩) rfl

theorem dialogue_append (k : κ) (log more : List (Act κ α β)) : dialogue k (log ++ more) = dialogue k log ++ dialogue k more := by
  unfold dialogue
  rw [List.filterMap_append]

theorem answers_dialogue (k : κ) (log : List (Act κ α β)) :
    (dialogue k log).filterMap Sum.getRight? = log.filterMap (answer? k) := by
  unfold dialogue
  rw [List.filterMap_filterMap]
  congr 1
  funext a
  cases a with
  | ask i a => by_cases h : i = k <;> simp [exchange?, answer?, h]
  | answer i b => by_cases h : i = k <;> simp [exchange?, answer?, h]
  | _ => rfl

theorem ask_mem_dialogue {k : κ} {a : α} {log : List (Act κ α β)} (h : .ask k a ∈ log) : .inl a ∈ dialogue k log :=
  List.mem_filterMap.2 ⟨_, h, if_pos rfl⟩

theorem dialogue_broadcasts (k : κ) (bs : List β) : dialogue k (bs.map .broadcast : List (Act κ α β)) = [] := by
  unfold dialogue
  rw [List.filterMap_map]
  exact List.filterMap_eq_nil_iff.2 (fun b _ => rfl)

theorem dialogue_exchange (k i : κ) (a : α) (bs : List β) (b : β) :
    dialogue k (.ask i a :: (bs.map .broadcast ++ [.answer i b])) = if i = k then [.inl a, .inr b] else [] := by
  rw [← List.singleton_append, dialogue_append, dialogue_append, dialogue_broadcasts]
  by_cases h : i = k <;> simp [dialogue, exchange?, h]

theorem dialogue_dropped (k i : κ) (a : α) (bs : List β) :
    dialogue k (.ask i a :: (bs.map .broadcast ++ [.leave i])) = if i = k then [.inl a] else [] := by
  rw [← List.singleton_append, dialogue_append, dialogue_append, dialogue_broadcasts]
  by_cases h : i = k <;> simp [dialogue, exchange?, h]

/-- An act outside the dialogue of a client leaves its last question as it is. -/
theorem hanging_append {k : κ} {more : List (Act κ α β)} (h : dialogue k more = []) :
    Hanging k (log ++ more) ↔ Hanging k log := by
  unfold Hanging
  rw [dialogue_append, h, List.append_nil]

theorem not_hanging_exchange (k : κ) (a : α) (bs : List β) (b : β) :
    ¬ Hanging k (log ++ .ask k a :: (bs.map .broadcast ++ [.answer k b])) := by
  rintro ⟨a', ha⟩
  rw [dialogue_append, dialogue_exchange] at ha
  simp at ha

/-- Where every question leads to an answer, no client is left without one. -/
theorem Served.not_hanging (hR : ∀ a bs, ¬ R a bs none) (h : Served R log) (k : κ) : ¬ Hanging k log := by
  induction h with
  | nil =>
    rintro ⟨a, ha⟩
    cases ha
  | join i _ _ ih => rwa [hanging_append (show Act.dialogue k [.join i] = [] from rfl)]
  | leave i _ ih => rwa [hanging_append (show Act.dialogue k [.leave i] = [] from rfl)]
  | broadcast c _ ih => rwa [hanging_append (show Act.dialogue k [.broadcast c] = [] from rfl)]
  | exchange i a bs b _ _ _ ih =>
    by_cases hi : i = k
    · subst hi
      exact not_hanging_exchange i a bs b
    · rwa [hanging_append (by rw [dialogue_exchange, if_neg hi])]
  | dropped i a bs _ _ hr => exact absurd hr (hR a bs)

/-- The questions with their answers, and the last question where it has none. -/
def paired (es : List (α × List β × β)) (last : Option α) : List (α ⊕ β) :=
  es.flatMap (fun e => [.inl e.1, .inr e.2.2]) ++ last.toList.map .inl

theorem paired_snoc (es : List (α × List β × β)) (a : α) (bs : List β) (b : β) :
    paired (es ++ [(a, bs, b)]) none = paired es none ++ [.inl a, .inr b] := by simp [paired]

theorem getLast?_paired (es : List (α × List β × β)) (a : α) : (paired es (some a)).getLast? = some (.inl a) := by
  simp [paired]

theorem answers_paired (es : List (α × List β × β)) (last : Option α) :
    (paired es last).filterMap Sum.getRight? = es.map (fun e => e.2.2) := by
  cases last <;> simp [paired, List.filterMap_flatMap, List.filterMap_cons, List.map_eq_flatMap]

/-- **Every question of a client is answered before its next one.** -/
theorem Served.dialogue (h : Served R log) (k : κ) : ∃ es last, dialogue k log = paired es last ∧
    (∀ e ∈ es, R e.1 e.2.1 (some e.2.2)) ∧ ∀ a, last = some a → ∃ bs, R a bs none := by
  induction h with
  | nil => exact ⟨[], none, rfl, by simp, by simp⟩
  | join i _ _ ih => rwa [dialogue_append, show Act.dialogue k [.join i] = [] from rfl, List.append_nil]
  | leave i _ ih => rwa [dialogue_append, show Act.dialogue k [.leave i] = [] from rfl, List.append_nil]
  | broadcast c _ ih => rwa [dialogue_append, show Act.dialogue k [.broadcast c] = [] from rfl, List.append_nil]
  | exchange i a bs b _ hk hr ih =>
    obtain ⟨es, last, hd, hes, hlast⟩ := ih
    rw [dialogue_append, dialogue_exchange]
    split
    · rename_i hik
      subst hik
      obtain rfl : last = none := by
        cases last with
        | none => rfl
        | some a => exact absurd ⟨a, hd ▸ getLast?_paired es a⟩ hk
      refine ⟨es ++ [(a, bs, b)], none, by rw [hd, paired_snoc], fun e he => ?_, hlast⟩
      rcases List.mem_append.1 he with he | he
      · exact hes e he
      · cases List.mem_singleton.1 he
        exact hr
    · exact ⟨es, last, by rw [hd, List.append_nil], hes, hlast⟩
  | dropped i a bs _ hk hr ih =>
    obtain ⟨es, last, hd, hes, hlast⟩ := ih
    rw [dialogue_append, dialogue_dropped]
    split
    · rename_i hik
      subst hik
      obtain rfl : last = none := by
        cases last with
        | none => rfl
        | some a => exact absurd ⟨a, hd ▸ getLast?_paired es a⟩ hk
      exact ⟨es, some a, by rw [hd]; simp [paired], hes, fun c hc => ⟨bs, Option.some.inj hc ▸ hr⟩⟩
    · exact ⟨es, last, by rw [hd, List.append_nil], hes, hlast⟩

/-! ## The questions -/

/-- What `k` has asked. -/
def asks (k : κ) (log : List (Act κ α β)) : List α := (dialogue k log).filterMap Sum.getLeft?

theorem asks_append (k : κ) (log more : List (Act κ α β)) : asks k (log ++ more) = asks k log ++ asks k more := by
  unfold asks
  rw [dialogue_append, List.filterMap_append]

theorem asks_of_dialogue {k : κ} {more : List (Act κ α β)} (h : dialogue k more = []) : asks k more = [] := by
  unfold asks
  rw [h]
  rfl

theorem asks_exchange (k : κ) (a : α) (bs : List β) (b : β) :
    asks k (.ask k a :: (bs.map .broadcast ++ [.answer k b])) = [a] := by
  unfold asks
  rw [dialogue_exchange, if_pos rfl]
  rfl

theorem asks_ask (k : κ) (a : α) (bs : List β) : asks k (.ask k a :: bs.map .broadcast) = [a] := by
  unfold asks
  rw [← List.singleton_append, dialogue_append, dialogue_broadcasts]
  simp [dialogue, exchange?]

theorem hanging_dropped (k : κ) (log : List (Act κ α β)) (a : α) (bs : List β) :
    Hanging k (log ++ .ask k a :: (bs.map .broadcast ++ [.leave k])) := by
  refine ⟨a, ?_⟩
  rw [dialogue_append, dialogue_dropped, if_pos rfl, List.getLast?_append]
  rfl

/-! ## After leaving -/

/-- `k` asks nothing once it has left. -/
def DoneAsking (k : κ) (log : List (Act κ α β)) : Prop := ∀ pre post, log = pre ++ .leave k :: post → ∀ a, .ask k a ∉ post

omit [DecidableEq κ] in
theorem doneAsking_of_not_mem {k : κ} (h : .leave k ∉ log) : DoneAsking k log := by
  rintro pre post rfl
  exact absurd (List.mem_append_right pre List.mem_cons_self) h

omit [DecidableEq κ] in
/-- Leaving again changes nothing. -/
theorem DoneAsking.append {k : κ} {more : List (Act κ α β)} (h : DoneAsking k log) (hm : ∀ a, .ask k a ∉ more) :
    DoneAsking k (log ++ more) := by
  intro pre post hlog a ha
  rcases List.append_eq_append_iff.1 hlog with ⟨l, rfl, rfl⟩ | ⟨l, rfl, hl⟩
  · exact hm a (by simp [ha])
  · cases l with
    | nil => exact hm a (by simp [← show _ = more from hl, ha])
    | cons x l =>
      obtain ⟨rfl, rfl⟩ := List.cons.inj hl
      exact (List.mem_append.1 ha).elim (h pre l rfl a) (hm a)

end Act
end Base
