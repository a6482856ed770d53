import MostroApp.Lib.Interleaving
import Mathlib.Algebra.Group.Int.Defs
import Mathlib.Algebra.Group.Nat.Defs
import Mathlib.Data.Finset.Insert
import Mathlib.Data.List.Nodup

set_option autoImplicit false

/-! # The outbox (`queue/outbox.rs`)

The in-memory queue of events to publish, under any number of `enqueue` and `flush` calls. A flush
marks the messages that are due under the lock, publishes them outside it one by one, writes each
outcome back and prunes at the end; clocks and outcomes are arbitrary.

What carries the proof is who owns a message: one that is `InFlight` is held by exactly one flush,
and it stays as that flush marked it until it is settled (`OutboxInv`).
-/

namespace MostroApp.Outbox

open Interleaving Transition

/-! ## Messages -/

inductive QueuedMessageStatus where
  | pending
  | inFlight
  | sent
  | failed
  deriving DecidableEq, Repr

structure QueuedMessage where
  id : String
  eventJson : String
  status : QueuedMessageStatus
  createdAt : Int
  retryCount : Nat
  nextRetryAt : Option Int
  deriving DecidableEq, Repr

def MAX_RETRIES : Nat := 10

/-- How long a failed message is kept. -/
def FAILED_RETENTION_SECS : Int := 86400

namespace QueuedMessage

def new (id eventJson : String) (now : Int) : QueuedMessage where
  id := id
  eventJson := eventJson
  status := .pending
  createdAt := now
  retryCount := 0
  nextRetryAt := none

/-- 30 s doubled with every retry, at most an hour. -/
def nextRetryDelaySecs (m : QueuedMessage) : Int := min (30 * 2 ^ min m.retryCount 7) 3600

def Due (now : Int) (m : QueuedMessage) : Prop :=
  m.status = .pending ∧ ∀ t ∈ m.nextRetryAt, t ≤ now

instance (now : Int) (m : QueuedMessage) : Decidable (m.Due now) :=
  inferInstanceAs (Decidable (_ ∧ _))

def marked (m : QueuedMessage) : QueuedMessage := { m with status := .inFlight }

/-- The message after a publish that failed. -/
def retried (now : Int) (m : QueuedMessage) : QueuedMessage :=
  let m := { m with retryCount := m.retryCount + 1 }
  if MAX_RETRIES ≤ m.retryCount then { m with status := .failed }
  else { m with status := .pending, nextRetryAt := some (now + m.nextRetryDelaySecs) }

/-- The message after a publish. -/
def settled (now : Int) (published : Bool) (m : QueuedMessage) : QueuedMessage :=
  if published = true then { m with status := .sent } else m.retried now

/-- A failed message that is past the retention period. -/
def Expired (now : Int) (m : QueuedMessage) : Prop :=
  m.status = .failed ∧ m.createdAt ≤ now - FAILED_RETENTION_SECS

/-- What a prune keeps. -/
def Kept (now : Int) (m : QueuedMessage) : Prop :=
  m.status = .pending ∨ m.status = .inFlight ∨
    m.status = .failed ∧ now - FAILED_RETENTION_SECS < m.createdAt

instance (now : Int) (m : QueuedMessage) : Decidable (m.Kept now) :=
  inferInstanceAs (Decidable (_ ∨ _ ∨ _ ∧ _))

/-- The second message is not retried before the first may be. -/
def NotBefore (m m' : QueuedMessage) : Prop := ∀ t ∈ m.nextRetryAt, ∃ t' ∈ m'.nextRetryAt, t ≤ t'

end QueuedMessage

/-! ## The outbox -/

/-- The queue. Beside it, for the statements: the ids ever drawn, and those of the messages whose
publish succeeded. -/
structure MessageOutbox where
  queue : List QueuedMessage := []
  issued : Finset String := ∅
  delivered : Finset String := ∅

namespace MessageOutbox

def ids (s : MessageOutbox) : List String := s.queue.map (·.id)

/-- A message is queued under a UUID that was not drawn before. -/
def enqueue (id eventJson : String) (now : Int) (s : MessageOutbox) : Option MessageOutbox :=
  if id ∈ s.issued then none
  else
    some { s with
      queue := s.queue ++ [.new id eventJson now]
      issued := insert id s.issued }

/-- Every message that is due is marked. -/
def mark (now : Int) (s : MessageOutbox) : MessageOutbox :=
  { s with queue := s.queue.map fun m => if m.Due now then m.marked else m }

/-- The copies a flush takes of the messages it marks. -/
def snapshot (now : Int) (s : MessageOutbox) : List QueuedMessage :=
  (s.queue.filter fun m => m.Due now).map QueuedMessage.marked

/-- The first entry with the message's id is overwritten. -/
def replaceFirst (msg : QueuedMessage) : List QueuedMessage → List QueuedMessage
  | [] => []
  | m :: q => if m.id = msg.id then msg :: q else m :: replaceFirst msg q

def writeBack (msg : QueuedMessage) (s : MessageOutbox) : MessageOutbox :=
  { s with queue := replaceFirst msg s.queue }

def prune (now : Int) (s : MessageOutbox) : MessageOutbox :=
  { s with queue := s.queue.filter fun m => m.Kept now }

def deliver (published : Bool) (id : String) (s : MessageOutbox) : MessageOutbox :=
  if published = true then { s with delivered := insert id s.delivered } else s

end MessageOutbox

/-! ## Flushes -/

/-- What a flush does next, with its clock reading, the messages it has still to settle and the
number it sent. It `publishes` before the publish call and `awaits` while the call is out. -/
inductive Flush where
  | selects
  | publishes (now : Int) (msg : QueuedMessage) (rest : List QueuedMessage) (sent : Nat)
  | awaits (now : Int) (msg : QueuedMessage) (rest : List QueuedMessage) (sent : Nat)
  | settles (now : Int) (msg : QueuedMessage) (published : Bool) (rest : List QueuedMessage)
      (sent : Nat)
  | prunes (now : Int) (sent : Nat)
  | returns (sent : Nat)
  deriving DecidableEq, Repr

/-- The next message of a flush, or its end. -/
def Flush.proceed (now : Int) (sent : Nat) : List QueuedMessage → Flush
  | [] => .prunes now sent
  | msg :: rest => .publishes now msg rest sent

/-- What a step learns from outside: the clock, and what comes of a publish. -/
structure FlushOracle where
  now : Int
  published : Bool

def Flush.step (w : FlushOracle) : Flush → MessageOutbox → MessageOutbox × Option Flush
  | .selects, s => (s.mark w.now, some (.proceed w.now 0 (s.snapshot w.now)))
  | .publishes now msg rest sent, s => (s, some (.awaits now msg rest sent))
  | .awaits now msg rest sent, s =>
      (s.deliver w.published msg.id, some (.settles now msg w.published rest sent))
  | .settles now msg published rest sent, s =>
      (s.writeBack (msg.settled now published),
        some (.proceed now (sent + published.toNat) rest))
  | .prunes now sent, s => (s.prune now, some (.returns sent))
  | .returns _, s => (s, none)

/-- A message to queue, with its UUID and the clock. -/
structure Enqueue where
  id : String
  eventJson : String
  now : Int

/-- Any number of flushes, and of calls that queue a message. -/
def outboxProg : Prog MessageOutbox Flush FlushOracle Enqueue where
  enter p := p = .selects
  tstep w p s := some (p.step w s)
  act a s := s.enqueue a.id a.eventJson a.now

/-! ## The queue -/

variable {s : MessageOutbox} {m msg : QueuedMessage} {q : List QueuedMessage} {now : Int}

/-- Entries of a queue with one id are one entry. -/
theorem eq_of_id (hs : s.ids.Nodup) {m' : QueuedMessage} (hm : m ∈ s.queue) (hm' : m' ∈ s.queue)
    (h : m.id = m'.id) : m = m' := List.inj_on_of_nodup_map hs hm hm' h

theorem MessageOutbox.ids_mark (now : Int) (s : MessageOutbox) : (s.mark now).ids = s.ids := by
  unfold MessageOutbox.ids MessageOutbox.mark
  rw [List.map_map]
  refine List.map_congr_left fun m _ => ?_
  show (if m.Due now then m.marked else m).id = m.id
  split <;> rfl

theorem MessageOutbox.enqueue_eq_some {id eventJson : String} {t : MessageOutbox} :
    s.enqueue id eventJson now = some t ↔ id ∉ s.issued ∧
      t = { s with
        queue := s.queue ++ [.new id eventJson now]
        issued := insert id s.issued } := by
  unfold MessageOutbox.enqueue
  by_cases h : id ∈ s.issued
  · rw [if_pos h]
    exact ⟨(fun e => nomatch e), fun e => absurd h e.1⟩
  · rw [if_neg h, Option.some.injEq]
    exact ⟨fun e => ⟨h, e.symm⟩, fun e => e.2.symm⟩

/-- A marked queue holds the snapshot and what was not due. -/
theorem MessageOutbox.mem_mark :
    m ∈ (s.mark now).queue ↔ m ∈ s.snapshot now ∨ m ∈ s.queue ∧ ¬ m.Due now := by
  simp only [MessageOutbox.mark, MessageOutbox.snapshot, List.mem_map, List.mem_filter,
    decide_eq_true_eq]
  constructor
  · rintro ⟨m₀, hm₀, rfl⟩
    by_cases hdue : m₀.Due now
    · rw [if_pos hdue]
      exact Or.inl ⟨m₀, ⟨hm₀, hdue⟩, rfl⟩
    · rw [if_neg hdue]
      exact Or.inr ⟨hm₀, hdue⟩
  · rintro (⟨m₀, ⟨hm₀, hdue⟩, rfl⟩ | ⟨hm, hdue⟩)
    · exact ⟨m₀, hm₀, if_pos hdue⟩
    · exact ⟨m, hm, if_neg hdue⟩

theorem MessageOutbox.mem_snapshot :
    m ∈ s.snapshot now ↔ ∃ m₀ ∈ s.queue, m₀.Due now ∧ m = m₀.marked := by
  simp only [MessageOutbox.snapshot, List.mem_map, List.mem_filter, decide_eq_true_eq, and_assoc]
  exact exists_congr fun m₀ => and_congr_right fun _ => and_congr_right fun _ => eq_comm

theorem MessageOutbox.snapshot_nodup (hs : s.ids.Nodup) : (s.snapshot now).Nodup := by
  have hids : ((s.snapshot now).map (·.id)).Sublist s.ids := by
    show (List.map _ (List.map _ _)).Sublist _
    rw [List.map_map]
    exact List.filter_sublist.map _
  exact (hs.sublist hids).of_map _

theorem ids_replaceFirst (msg : QueuedMessage) (q : List QueuedMessage) :
    (MessageOutbox.replaceFirst msg q).map (·.id) = q.map (·.id) := by
  induction q with
  | nil => rfl
  | cons m q ih =>
      unfold MessageOutbox.replaceFirst
      split
      · next h => rw [List.map_cons, List.map_cons, h]
      · rw [List.map_cons, List.map_cons, ih]

theorem mem_of_mem_replaceFirst (h : m ∈ MessageOutbox.replaceFirst msg q) : m = msg ∨ m ∈ q := by
  induction q with
  | nil => cases h
  | cons a q ih =>
      unfold MessageOutbox.replaceFirst at h
      split at h
      · exact (List.mem_cons.mp h).imp_right (List.mem_cons_of_mem a)
      · rcases List.mem_cons.mp h with rfl | h
        · exact Or.inr List.mem_cons_self
        · exact (ih h).imp_right (List.mem_cons_of_mem a)

/-- Where ids are distinct, the entry of the message's id is the one overwritten. -/
theorem mem_replaceFirst (hq : (q.map (·.id)).Nodup) {old : QueuedMessage} (hold : old ∈ q)
    (hid : old.id = msg.id) :
    m ∈ MessageOutbox.replaceFirst msg q ↔ m = msg ∨ m ∈ q ∧ m ≠ old := by
  induction q with
  | nil => cases hold
  | cons a q ih =>
      obtain ⟨ha, hq⟩ := List.nodup_cons.mp hq
      unfold MessageOutbox.replaceFirst
      split
      · next h =>
        have hhead : old = a := by
          rcases List.mem_cons.mp hold with heq | htail
          · exact heq
          · exact absurd (List.mem_map.mpr ⟨old, htail, hid.trans h.symm⟩) ha
        subst hhead
        have hrest : ∀ m' ∈ q, m' ≠ old := by
          rintro m' hm' rfl
          exact ha (List.mem_map.mpr ⟨m', hm', rfl⟩)
        rw [List.mem_cons, List.mem_cons]
        constructor
        · exact Or.imp_right fun hm => ⟨Or.inr hm, hrest m hm⟩
        · rintro (hm | ⟨hm | hm, hne⟩)
          · exact Or.inl hm
          · exact absurd hm hne
          · exact Or.inr hm
      · next h =>
        have htail : old ∈ q := by
          rcases List.mem_cons.mp hold with rfl | htail
          · exact absurd hid h
          · exact htail
        have hne : a ≠ old := by
          rintro rfl
          exact h hid
        rw [List.mem_cons, List.mem_cons, ih hq htail]
        constructor
        · rintro (rfl | hm | ⟨hm, hold⟩)
          · exact Or.inr ⟨Or.inl rfl, hne⟩
          · exact Or.inl hm
          · exact Or.inr ⟨Or.inr hm, hold⟩
        · rintro (hm | ⟨hm | hm, hold⟩)
          · exact Or.inr (Or.inl hm)
          · exact Or.inl hm
          · exact Or.inr (Or.inr ⟨hm, hold⟩)

theorem MessageOutbox.mem_prune : m ∈ (s.prune now).queue ↔ m ∈ s.queue ∧ m.Kept now := by
  simp [MessageOutbox.prune]

/-! ## Settled messages -/

namespace QueuedMessage

theorem nextRetryDelaySecs_pos (m : QueuedMessage) : 0 < m.nextRetryDelaySecs := by
  have hpow : (0 : Int) < 2 ^ min m.retryCount 7 := Int.pow_pos (by decide)
  unfold nextRetryDelaySecs
  omega

theorem retried_eq (now : Int) (m : QueuedMessage) :
    m.retryCount + 1 < MAX_RETRIES ∧
        (∃ delay > 0, m.retried now = { m with
          retryCount := m.retryCount + 1
          status := .pending
          nextRetryAt := some (now + delay) }) ∨
      MAX_RETRIES ≤ m.retryCount + 1 ∧
        m.retried now = { m with retryCount := m.retryCount + 1, status := .failed } := by
  unfold retried
  by_cases h : MAX_RETRIES ≤ m.retryCount + 1
  · exact Or.inr ⟨h, if_pos h⟩
  · exact Or.inl ⟨Nat.lt_of_not_le h, _, nextRetryDelaySecs_pos _, if_neg h⟩

@[simp] theorem settled_id (m : QueuedMessage) (now : Int) (published : Bool) :
    (m.settled now published).id = m.id := by
  cases published with
  | true => rfl
  | false =>
      show (m.retried now).id = m.id
      rcases m.retried_eq now with ⟨-, delay, -, h⟩ | ⟨-, h⟩ <;> rw [h]

theorem settled_status {published : Bool} : (m.settled now published).status ≠ .inFlight := by
  cases published with
  | true => exact fun h => nomatch h
  | false =>
      show (m.retried now).status ≠ _
      rcases m.retried_eq now with ⟨-, delay, -, h⟩ | ⟨-, h⟩ <;> rw [h]
      · exact fun h => nomatch h
      · exact fun h => nomatch h

theorem NotBefore.refl (m : QueuedMessage) : m.NotBefore m := fun t ht => ⟨t, ht, le_rfl⟩

theorem notBefore_settled {published : Bool} (hdue : ∀ t ∈ m.nextRetryAt, t ≤ now) :
    m.NotBefore (m.settled now published) := by
  cases published with
  | true => exact NotBefore.refl m
  | false =>
      show m.NotBefore (m.retried now)
      rcases m.retried_eq now with ⟨-, delay, hdelay, h⟩ | ⟨-, h⟩ <;> rw [h]
      · intro t ht
        have hle := hdue t ht
        exact ⟨now + delay, rfl, by omega⟩
      · exact NotBefore.refl m

end QueuedMessage

/-! ## The invariant -/

/-- The messages a flush has marked and not settled. -/
def Flush.held : Flush → List QueuedMessage
  | .publishes _ msg rest _ | .awaits _ msg rest _ | .settles _ msg _ rest _ => msg :: rest
  | .selects | .prunes .. | .returns _ => []

/-- The clock reading of a flush that holds messages. -/
def Flush.clock : Flush → Int
  | .publishes now .. | .awaits now .. | .settles now .. | .prunes now _ => now
  | .selects | .returns _ => 0

/-- The flush is about to write back that the message was sent. -/
def Flush.Delivers (m : QueuedMessage) : Flush → Prop
  | .settles _ msg published _ _ => msg = m ∧ published = true
  | _ => False

theorem Flush.Delivers.held {m : QueuedMessage} : ∀ {p : Flush}, p.Delivers m → m ∈ p.held
  | .settles .., h => h.1 ▸ List.mem_cons_self

@[simp] theorem Flush.held_proceed (now : Int) (sent : Nat) (l : List QueuedMessage) :
    (Flush.proceed now sent l).held = l := by cases l <;> rfl

@[simp] theorem Flush.clock_proceed (now : Int) (sent : Nat) (l : List QueuedMessage) :
    (Flush.proceed now sent l).clock = now := by cases l <;> rfl

/-- The retries of a message, which is given up at the maximum. -/
def QueuedMessage.Tried (m : QueuedMessage) : Prop :=
  m.retryCount ≤ MAX_RETRIES ∧
    (m.status = .pending ∨ m.status = .inFlight → m.retryCount < MAX_RETRIES)

theorem QueuedMessage.tried_settled {published : Bool} (h : m.retryCount < MAX_RETRIES) :
    (m.settled now published).Tried := by
  cases published with
  | true => exact ⟨Nat.le_of_lt h, fun hs => hs.elim (fun h => nomatch h) (fun h => nomatch h)⟩
  | false =>
      show (m.retried now).Tried
      rcases m.retried_eq now with ⟨hlt, delay, -, heq⟩ | ⟨-, heq⟩ <;> rw [heq]
      · exact ⟨Nat.le_of_lt hlt, fun _ => hlt⟩
      · exact ⟨h, fun hs => hs.elim (fun h => nomatch h) (fun h => nomatch h)⟩

/-- The copy a flush holds is the entry itself, in flight and due at the flush's reading. -/
structure Holds (s : MessageOutbox) (now : Int) (m : QueuedMessage) : Prop where
  mem : m ∈ s.queue
  inFlight : m.status = .inFlight
  due : ∀ t ∈ m.nextRetryAt, t ≤ now

structure OutboxInv (c : Pool MessageOutbox Flush) : Prop where
  distinct : c.shared.ids.Nodup
  issued : ∀ id ∈ c.shared.ids, id ∈ c.shared.issued
  deliveredIssued : ∀ id ∈ c.shared.delivered, id ∈ c.shared.issued
  tried : ∀ m ∈ c.shared.queue, m.Tried
  held : ∀ i p, c.threads i = some p → ∀ m ∈ p.held, Holds c.shared p.clock m
  once : ∀ i p, c.threads i = some p → p.held.Nodup
  /-- No two flushes hold one message. -/
  apart : ∀ i j p r m, c.threads i = some p → c.threads j = some r → m ∈ p.held → m ∈ r.held →
    i = j
  owned : ∀ m ∈ c.shared.queue, m.status = .inFlight → c.Any fun p => m ∈ p.held
  /-- A delivered message is sent, or about to be. -/
  delivered : ∀ m ∈ c.shared.queue, m.id ∈ c.shared.delivered →
    m.status = .sent ∨ c.Any (Flush.Delivers m)

section Steps

variable {c c' : Pool MessageOutbox Flush} {i : Nat} {p : Flush}

/-- A message no flush has published yet is not delivered. -/
theorem OutboxInv.not_delivered (hc : OutboxInv c) (hp : c.threads i = some p) (hm : m ∈ p.held)
    (hnot : ¬ p.Delivers m) : m.id ∉ c.shared.delivered := by
  intro hdel
  have hholds := hc.held i p hp m hm
  rcases hc.delivered m hholds.mem hdel with hsent | ⟨j, r, hr, hdelivers⟩
  · exact nomatch hsent.symm.trans hholds.inFlight
  · have hij : i = j := hc.apart i j p r m hp hr hm hdelivers.held
    subst hij
    exact hnot (Option.some.inj (hp.symm.trans hr) ▸ hdelivers)

/-- Next to a flush that holds nothing, whoever holds a message stands where it stood. -/
theorem holder_of_idle (hidle : p.held = []) {j : Nat} {r : Flush} {m : QueuedMessage}
    (hr : Function.update c.threads i (some p) j = some r) (hm : m ∈ r.held) :
    c.threads j = some r := by
  rcases threads_update hr with ⟨-, hnew⟩ | ⟨-, hold⟩
  · rw [← Option.some.inj hnew, hidle] at hm
    cases hm
  · exact hold

theorem OutboxInv.spawn (hc : OutboxInv c) (hi : c.threads i = none) :
    OutboxInv { c with threads := Function.update c.threads i (some .selects) } := by
  have old : ∀ {j r m}, Function.update c.threads i (some .selects) j = some r → m ∈ r.held →
      c.threads j = some r := holder_of_idle rfl
  refine ⟨hc.distinct, hc.issued, hc.deliveredIssued, hc.tried,
    fun j r hr m hm => hc.held j r (old hr hm) m hm, fun j r hr => ?_,
    fun j k r r' m hr hr' hm hm' => hc.apart j k r r' m (old hr hm) (old hr' hm') hm hm',
    fun m hm hstatus => (hc.owned m hm hstatus).spawn hi,
    fun m hm hdel => (hc.delivered m hm hdel).imp_right fun h => h.spawn hi⟩
  rcases threads_update hr with ⟨-, hnew⟩ | ⟨-, hold⟩
  · exact Option.some.inj hnew ▸ List.nodup_nil
  · exact hc.once j r hold

theorem OutboxInv.enqueue (hc : OutboxInv c) {id eventJson : String} {t : MessageOutbox}
    (ht : c.shared.enqueue id eventJson now = some t) : OutboxInv { c with shared := t } := by
  obtain ⟨hfresh, rfl⟩ := MessageOutbox.enqueue_eq_some.mp ht
  have hids : ∀ (s : MessageOutbox) (l : Finset String), MessageOutbox.ids
      { s with queue := s.queue ++ [.new id eventJson now], issued := l } = s.ids ++ [id] :=
    fun _ _ => List.map_append
  have hnew : ∀ m ∈ c.shared.queue ++ [.new id eventJson now],
      m ∈ c.shared.queue ∨ m = .new id eventJson now :=
    fun m hm => (List.mem_append.mp hm).imp_right List.mem_singleton.mp
  constructor
  · show (MessageOutbox.ids _).Nodup
    rw [hids, List.nodup_append_comm, List.singleton_append, List.nodup_cons]
    exact ⟨fun h => hfresh (hc.issued id h), hc.distinct⟩
  · intro x hx
    rw [hids, List.mem_append, List.mem_singleton] at hx
    rcases hx with hx | rfl
    · exact Finset.mem_insert_of_mem (hc.issued x hx)
    · exact Finset.mem_insert_self x _
  · exact fun x hx => Finset.mem_insert_of_mem (hc.deliveredIssued x hx)
  · intro m hm
    rcases hnew m hm with hm | rfl
    · exact hc.tried m hm
    · have hfirst : 0 < MAX_RETRIES := by decide
      exact ⟨Nat.zero_le _, fun _ => hfirst⟩
  · intro j r hr m hm
    have h := hc.held j r hr m hm
    exact ⟨List.mem_append_left _ h.mem, h.inFlight, h.due⟩
  · exact hc.once
  · exact hc.apart
  · intro m hm hstatus
    rcases hnew m hm with hm | rfl
    · exact hc.owned m hm hstatus
    · cases hstatus
  · intro m hm hdel
    rcases hnew m hm with hm | rfl
    · exact hc.delivered m hm hdel
    · exact absurd (hc.deliveredIssued id hdel) hfresh

/-- A step of a flush that keeps what it holds, and leaves the queue. -/
theorem OutboxInv.holds (hc : OutboxInv c) (hp : c.threads i = some p) {t : MessageOutbox}
    {q : Option Flush} (hqueue : t.queue = c.shared.queue) (hissued : t.issued = c.shared.issued)
    (hheld : ∀ r, q = some r → r.held = p.held ∧ r.clock = p.clock)
    (hend : q = none → p.held = []) (hdelivered : ∀ id ∈ t.delivered, id ∈ c.shared.issued)
    (hsent : ∀ m ∈ c.shared.queue, m.id ∈ t.delivered →
      m.status = .sent ∨ Pool.Any ⟨t, Function.update c.threads i q⟩ (Flush.Delivers m)) :
    OutboxInv ⟨t, Function.update c.threads i q⟩ := by
  -- Each flush holds what the one at its place held.
  have old : ∀ {j r}, Function.update c.threads i q j = some r →
      ∃ r₀, c.threads j = some r₀ ∧ r.held = r₀.held ∧ r.clock = r₀.clock := by
    intro j r hr
    rcases threads_update hr with ⟨rfl, hnew⟩ | ⟨-, hold⟩
    · exact ⟨p, hp, hheld r hnew⟩
    · exact ⟨r, hold, rfl, rfl⟩
  have hids : t.ids = c.shared.ids := congrArg (List.map QueuedMessage.id) hqueue
  constructor
  · exact hids.symm ▸ hc.distinct
  · intro id hid
    exact hissued ▸ hc.issued id (hids ▸ hid)
  · exact fun id hid => hissued ▸ hdelivered id hid
  · exact fun m hm => hc.tried m (hqueue ▸ hm)
  · intro j r hr m hm
    obtain ⟨r₀, hr₀, hh, hcl⟩ := old hr
    have h := hc.held j r₀ hr₀ m (hh ▸ hm)
    exact ⟨hqueue.symm ▸ h.mem, h.inFlight, hcl.symm ▸ h.due⟩
  · intro j r hr
    obtain ⟨r₀, hr₀, hh, -⟩ := old hr
    exact hh.symm ▸ hc.once j r₀ hr₀
  · intro j k r r' m hr hr' hm hm'
    obtain ⟨r₀, hr₀, hh, -⟩ := old hr
    obtain ⟨r₁, hr₁, hh', -⟩ := old hr'
    exact hc.apart j k r₀ r₁ m hr₀ hr₁ (hh ▸ hm) (hh' ▸ hm')
  · intro m hm hstatus
    rcases (hc.owned m (hqueue ▸ hm) hstatus).split hp with hself | hother
    · cases q with
      | none => exact absurd (hend rfl ▸ hself) List.not_mem_nil
      | some r => exact Pool.any_self i t ((hheld r rfl).1.symm ▸ hself)
    · exact hother.any t _
  · exact fun m hm hdel => hsent m (hqueue ▸ hm) hdel

/-- What a flush that does not deliver leaves to the others. -/
theorem OutboxInv.delivered_other (hc : OutboxInv c) (hp : c.threads i = some p)
    (hnot : ¬ p.Delivers m) (hm : m ∈ c.shared.queue) (hdel : m.id ∈ c.shared.delivered) :
    m.status = .sent ∨ c.AnyBut i (Flush.Delivers m) :=
  (hc.delivered m hm hdel).imp_right fun h => (h.split hp).resolve_left hnot

theorem OutboxInv.awaits (hc : OutboxInv c) {rest : List QueuedMessage} {sent : Nat}
    (hp : c.threads i = some (.awaits now msg rest sent)) (published : Bool) :
    OutboxInv ⟨c.shared.deliver published msg.id,
      Function.update c.threads i (some (.settles now msg published rest sent))⟩ := by
  have hnot : ∀ m, ¬ (Flush.awaits now msg rest sent).Delivers m := fun _ h => h
  have hmem : msg ∈ c.shared.queue := (hc.held i _ hp msg List.mem_cons_self).mem
  cases published with
  | false =>
      refine hc.holds hp rfl rfl ?_ (fun h => nomatch h) hc.deliveredIssued ?_
      · rintro r ⟨⟩
        exact ⟨rfl, rfl⟩
      · exact fun m hm hdel => (hc.delivered_other hp (hnot m) hm hdel).imp_right (·.any _ _)
  | true =>
      refine hc.holds hp rfl rfl ?_ (fun h => nomatch h) (fun id hid => ?_) fun m hm hdel => ?_
      · rintro r ⟨⟩
        exact ⟨rfl, rfl⟩
      · rcases Finset.mem_insert.mp hid with rfl | hid
        · exact hc.issued _ (List.mem_map.mpr ⟨msg, hmem, rfl⟩)
        · exact hc.deliveredIssued id hid
      · rcases Finset.mem_insert.mp hdel with hid | hdel
        · obtain rfl := eq_of_id hc.distinct hm hmem hid
          exact Or.inr (Pool.any_self i _ ⟨rfl, rfl⟩)
        · exact (hc.delivered_other hp (hnot m) hm hdel).imp_right (·.any _ _)

theorem OutboxInv.selects (hc : OutboxInv c) (hp : c.threads i = some .selects) (now : Int) :
    OutboxInv ⟨c.shared.mark now, Function.update c.threads i
      (some (.proceed now 0 (c.shared.snapshot now)))⟩ := by
  -- A message some flush holds is not due, so it is not in the snapshot.
  have busy : ∀ {j r m}, c.threads j = some r → m ∈ r.held →
      m ∈ (c.shared.mark now).queue ∧ m ∉ c.shared.snapshot now := by
    intro j r m hr hm
    have h := hc.held j r hr m hm
    have hdue : ¬ m.Due now := fun hdue => nomatch hdue.1.symm.trans h.inFlight
    refine ⟨MessageOutbox.mem_mark.mpr (Or.inr ⟨h.mem, hdue⟩), fun hsnap => ?_⟩
    obtain ⟨m₀, hm₀, hdue₀, rfl⟩ := MessageOutbox.mem_snapshot.mp hsnap
    obtain heq : m₀.marked = m₀ := eq_of_id hc.distinct h.mem hm₀ rfl
    exact hdue (heq.symm ▸ hdue₀)
  constructor
  · exact (MessageOutbox.ids_mark now c.shared).symm ▸ hc.distinct
  · intro id hid
    exact hc.issued id (MessageOutbox.ids_mark now c.shared ▸ hid)
  · exact hc.deliveredIssued
  · intro m hm
    rcases MessageOutbox.mem_mark.mp hm with hm | ⟨hm, -⟩
    · obtain ⟨m₀, hm₀, hdue, rfl⟩ := MessageOutbox.mem_snapshot.mp hm
      have h := hc.tried m₀ hm₀
      exact ⟨h.1, fun _ => h.2 (Or.inl hdue.1)⟩
    · exact hc.tried m hm
  · intro j r hr m hm
    rcases threads_update hr with ⟨-, hnew⟩ | ⟨-, hold⟩
    · obtain rfl := Option.some.inj hnew
      rw [Flush.held_proceed] at hm
      obtain ⟨m₀, hm₀, hdue, rfl⟩ := MessageOutbox.mem_snapshot.mp hm
      refine ⟨MessageOutbox.mem_mark.mpr (Or.inl hm), rfl, ?_⟩
      rw [Flush.clock_proceed]
      exact hdue.2
    · have h := hc.held j r hold m hm
      exact ⟨(busy hold hm).1, h.inFlight, h.due⟩
  · intro j r hr
    rcases threads_update hr with ⟨-, hnew⟩ | ⟨-, hold⟩
    · obtain rfl := Option.some.inj hnew
      rw [Flush.held_proceed]
      exact MessageOutbox.snapshot_nodup hc.distinct
    · exact hc.once j r hold
  · -- two holders: the flush that selected holds what was due, any other what was not
    intro j k r r' m hr hr' hm hm'
    rcases threads_update hr with ⟨rfl, hnew⟩ | ⟨-, hold⟩ <;>
      rcases threads_update hr' with ⟨rfl, hnew'⟩ | ⟨-, hold'⟩
    · rfl
    · obtain rfl := Option.some.inj hnew
      rw [Flush.held_proceed] at hm
      exact absurd hm (busy hold' hm').2
    · obtain rfl := Option.some.inj hnew'
      rw [Flush.held_proceed] at hm'
      exact absurd hm' (busy hold hm).2
    · exact hc.apart j k r r' m hold hold' hm hm'
  · intro m hm hstatus
    rcases MessageOutbox.mem_mark.mp hm with hm | ⟨hm, -⟩
    · exact Pool.any_self i _ ((Flush.held_proceed now 0 _).symm ▸ hm)
    · have hother := ((hc.owned m hm hstatus).split hp).resolve_left List.not_mem_nil
      exact hother.any _ _
  · intro m hm hdel
    rcases MessageOutbox.mem_mark.mp hm with hm | ⟨hm, -⟩
    · -- A due message is pending, so no flush has delivered it.
      obtain ⟨m₀, hm₀, hdue, rfl⟩ := MessageOutbox.mem_snapshot.mp hm
      rcases hc.delivered m₀ hm₀ hdel with hsent | ⟨j, r, hr, hdelivers⟩
      · exact nomatch hdue.1.symm.trans hsent
      · exact nomatch hdue.1.symm.trans (hc.held j r hr m₀ hdelivers.held).inFlight
    · exact (hc.delivered_other hp (fun h => h) hm hdel).imp_right (·.any _ _)

theorem OutboxInv.settles (hc : OutboxInv c) {published : Bool} {rest : List QueuedMessage}
    {sent : Nat} (hp : c.threads i = some (.settles now msg published rest sent)) (sent' : Nat) :
    OutboxInv ⟨c.shared.writeBack (msg.settled now published),
      Function.update c.threads i (some (.proceed now sent' rest))⟩ := by
  have hholds := hc.held i _ hp msg List.mem_cons_self
  have hnodup := List.nodup_cons.mp (hc.once i _ hp)
  have hids : (c.shared.writeBack (msg.settled now published)).ids = c.shared.ids :=
    ids_replaceFirst _ _
  have hmem : ∀ m, m ∈ (c.shared.writeBack (msg.settled now published)).queue ↔
      m = msg.settled now published ∨ m ∈ c.shared.queue ∧ m ≠ msg := fun m =>
    mem_replaceFirst hc.distinct hholds.mem (msg.settled_id now published).symm
  -- Nothing else the flushes hold is overwritten.
  have stays : ∀ {j r m}, c.threads j = some r → m ∈ r.held → m ≠ msg →
      Holds (c.shared.writeBack (msg.settled now published)) r.clock m := by
    intro j r m hr hm hne
    have h := hc.held j r hr m hm
    exact ⟨(hmem m).mpr (Or.inr ⟨h.mem, hne⟩), h.inFlight, h.due⟩
  have old : ∀ {j r m}, Function.update c.threads i (some (.proceed now sent' rest)) j = some r →
      m ∈ r.held → ∃ r₀, c.threads j = some r₀ ∧ m ∈ r₀.held ∧ r.clock = r₀.clock ∧ m ≠ msg := by
    intro j r m hr hm
    rcases threads_update hr with ⟨rfl, hnew⟩ | ⟨hne, hold⟩
    · obtain rfl := Option.some.inj hnew
      rw [Flush.held_proceed] at hm
      refine ⟨_, hp, List.mem_cons_of_mem _ hm, Flush.clock_proceed _ _ _, ?_⟩
      rintro rfl
      exact hnodup.1 hm
    · refine ⟨r, hold, hm, rfl, ?_⟩
      rintro rfl
      exact hne (hc.apart j i r _ m hold hp hm List.mem_cons_self)
  constructor
  · exact hids.symm ▸ hc.distinct
  · exact fun id hid => hc.issued id (hids ▸ hid)
  · exact hc.deliveredIssued
  · intro m hm
    rcases (hmem m).mp hm with rfl | ⟨hm, -⟩
    · exact QueuedMessage.tried_settled ((hc.tried msg hholds.mem).2 (Or.inr hholds.inFlight))
    · exact hc.tried m hm
  · intro j r hr m hm
    obtain ⟨r₀, hr₀, hm₀, hcl, hne⟩ := old hr hm
    exact hcl.symm ▸ stays hr₀ hm₀ hne
  · intro j r hr
    rcases threads_update hr with ⟨-, hnew⟩ | ⟨-, hold⟩
    · obtain rfl := Option.some.inj hnew
      rw [Flush.held_proceed]
      exact hnodup.2
    · exact hc.once j r hold
  · intro j k r r' m hr hr' hm hm'
    obtain ⟨r₀, hr₀, hm₀, -⟩ := old hr hm
    obtain ⟨r₁, hr₁, hm₁, -⟩ := old hr' hm'
    exact hc.apart j k r₀ r₁ m hr₀ hr₁ hm₀ hm₁
  · intro m hm hstatus
    rcases (hmem m).mp hm with rfl | ⟨hm, hne⟩
    · exact absurd hstatus QueuedMessage.settled_status
    · rcases (hc.owned m hm hstatus).split hp with hself | hother
      · have hrest : m ∈ rest := (List.mem_cons.mp hself).resolve_left hne
        exact Pool.any_self i _ ((Flush.held_proceed now sent' rest).symm ▸ hrest)
      · exact hother.any _ _
  · intro m hm hdel
    rcases (hmem m).mp hm with rfl | ⟨hm, hne⟩
    · -- the message itself: sent now, or not delivered by this flush nor by any other
      cases published with
      | true => exact Or.inl rfl
      | false =>
          rw [msg.settled_id] at hdel
          have hnot : ¬ (Flush.settles now msg false rest sent).Delivers msg :=
            fun h => nomatch h.2
          exact absurd hdel (hc.not_delivered hp List.mem_cons_self hnot)
    · exact (hc.delivered_other hp (fun h => hne h.1.symm) hm hdel).imp_right (·.any _ _)

theorem OutboxInv.prunes (hc : OutboxInv c) {sent : Nat}
    (hp : c.threads i = some (.prunes now sent)) (sent' : Nat) :
    OutboxInv ⟨c.shared.prune now, Function.update c.threads i (some (.returns sent'))⟩ := by
  have hsub : ∀ m ∈ (c.shared.prune now).queue, m ∈ c.shared.queue :=
    fun m hm => (MessageOutbox.mem_prune.mp hm).1
  have hids : (c.shared.prune now).ids.Sublist c.shared.ids := List.filter_sublist.map _
  have old : ∀ {j r m}, Function.update c.threads i (some (.returns sent')) j = some r →
      m ∈ r.held → c.threads j = some r := holder_of_idle rfl
  constructor
  · exact hc.distinct.sublist hids
  · exact fun id hid => hc.issued id (hids.subset hid)
  · exact hc.deliveredIssued
  · exact fun m hm => hc.tried m (hsub m hm)
  · intro j r hr m hm
    have h := hc.held j r (old hr hm) m hm
    exact ⟨MessageOutbox.mem_prune.mpr ⟨h.mem, Or.inr (Or.inl h.inFlight)⟩, h.inFlight, h.due⟩
  · intro j r hr
    rcases threads_update hr with ⟨-, hnew⟩ | ⟨-, hold⟩
    · exact Option.some.inj hnew ▸ List.nodup_nil
    · exact hc.once j r hold
  · exact fun j k r r' m hr hr' hm hm' => hc.apart j k r r' m (old hr hm) (old hr' hm') hm hm'
  · intro m hm hstatus
    have hother := ((hc.owned m (hsub m hm) hstatus).split hp).resolve_left List.not_mem_nil
    exact hother.any _ _
  · exact fun m hm hdel =>
      (hc.delivered_other hp (fun h => h) (hsub m hm) hdel).imp_right (·.any _ _)

/-- Every label keeps the invariant. -/
theorem OutboxInv.next {l : Label Flush FlushOracle Enqueue} (hc : OutboxInv c)
    (hn : outboxProg.next c l = some c') : OutboxInv c' := by
  cases l with
  | spawn i p =>
      obtain ⟨hstart, hi, rfl⟩ := Prog.next_spawn.mp hn
      obtain rfl : p = .selects := of_decide_eq_true hstart
      exact hc.spawn hi
  | step i w =>
      obtain ⟨p, t, q, hp, hs, rfl⟩ := Prog.next_step.mp hn
      obtain ⟨rfl, rfl⟩ := Prod.mk.inj (Option.some.inj hs)
      cases p with
      | selects => exact hc.selects hp w.now
      | publishes now msg rest sent =>
          refine hc.holds hp rfl rfl ?_ (fun h => nomatch h) hc.deliveredIssued fun m hm hdel => ?_
          · rintro r ⟨⟩
            exact ⟨rfl, rfl⟩
          · exact (hc.delivered_other hp (fun h => h) hm hdel).imp_right (·.any _ _)
      | awaits now msg rest sent => exact hc.awaits hp w.published
      | settles now msg published rest sent => exact hc.settles hp _
      | prunes now sent => exact hc.prunes hp sent
      | returns sent =>
          refine hc.holds hp rfl rfl (fun _ h => nomatch h) (fun _ => rfl) hc.deliveredIssued
            fun m hm hdel => ?_
          exact (hc.delivered_other hp (fun h => h) hm hdel).imp_right (·.any _ _)
  | env a =>
      obtain ⟨t, ht, rfl⟩ := Prog.next_env.mp hn
      exact hc.enqueue ht

/-! ## What is sent was delivered -/

/-- A message is marked as sent only after its publish succeeded. -/
structure SentInv (c : Pool MessageOutbox Flush) : Prop where
  sent : ∀ m ∈ c.shared.queue, m.status = .sent → m.id ∈ c.shared.delivered
  settling : ∀ i p m, c.threads i = some p → p.Delivers m → m.id ∈ c.shared.delivered

/-- A step after which a flush delivers what it did before, and the queue holds nothing new that
is sent. -/
theorem SentInv.quiet (hc : SentInv c) {t : MessageOutbox} {q : Option Flush}
    (hdelivered : t.delivered = c.shared.delivered)
    (hqueue : ∀ m ∈ t.queue, m.status = .sent → m ∈ c.shared.queue)
    (hq : ∀ r m, q = some r → ¬ r.Delivers m) :
    SentInv ⟨t, Function.update c.threads i q⟩ where
  sent m hm hs := hdelivered.symm ▸ hc.sent m (hqueue m hm hs) hs
  settling j r m hr hdel := by
    rcases threads_update hr with ⟨-, hnew⟩ | ⟨-, hold⟩
    · exact absurd hdel (hq r m hnew)
    · exact hdelivered.symm ▸ hc.settling j r m hold hdel

theorem Flush.not_delivers_proceed (now : Int) (sent : Nat) (l : List QueuedMessage)
    (m : QueuedMessage) : ¬ (Flush.proceed now sent l).Delivers m := by
  cases l <;> exact fun h => h

theorem SentInv.awaits (hc : SentInv c) (published : Bool) (rest : List QueuedMessage)
    (sent : Nat) : SentInv ⟨c.shared.deliver published msg.id,
      Function.update c.threads i (some (.settles now msg published rest sent))⟩ := by
  have grows : ∀ id ∈ c.shared.delivered, id ∈ (c.shared.deliver published msg.id).delivered := by
    intro id hid
    unfold MessageOutbox.deliver
    split
    · exact Finset.mem_insert_of_mem hid
    · exact hid
  have hqueue : (c.shared.deliver published msg.id).queue = c.shared.queue := by
    unfold MessageOutbox.deliver
    split <;> rfl
  refine ⟨fun m hm hs => grows _ (hc.sent m (hqueue ▸ hm) hs), fun j r m hr hdel => ?_⟩
  rcases threads_update hr with ⟨-, hnew⟩ | ⟨-, hold⟩
  · obtain rfl := Option.some.inj hnew
    obtain ⟨rfl, rfl⟩ := hdel
    exact Finset.mem_insert_self _ _
  · exact grows _ (hc.settling j r m hold hdel)

theorem SentInv.settles (hc : SentInv c) {published : Bool} {rest : List QueuedMessage}
    {sent : Nat} (hp : c.threads i = some (.settles now msg published rest sent)) (sent' : Nat) :
    SentInv ⟨c.shared.writeBack (msg.settled now published),
      Function.update c.threads i (some (.proceed now sent' rest))⟩ := by
  constructor
  · intro m hm hs
    rcases mem_of_mem_replaceFirst hm with rfl | hm
    · cases published with
      | true => exact hc.settling i _ msg hp ⟨rfl, rfl⟩
      | false =>
          change (msg.retried now).status = .sent at hs
          rcases msg.retried_eq now with ⟨-, delay, -, heq⟩ | ⟨-, heq⟩
          all_goals rw [heq] at hs; cases hs
    · exact hc.sent m hm hs
  · intro j r m hr hdel
    rcases threads_update hr with ⟨-, hnew⟩ | ⟨-, hold⟩
    · obtain rfl := Option.some.inj hnew
      exact absurd hdel (Flush.not_delivers_proceed _ _ _ m)
    · exact hc.settling j r m hold hdel

theorem SentInv.next {l : Label Flush FlushOracle Enqueue} (hc : SentInv c)
    (hn : outboxProg.next c l = some c') : SentInv c' := by
  cases l with
  | spawn i p =>
      obtain ⟨hstart, -, rfl⟩ := Prog.next_spawn.mp hn
      obtain rfl : p = .selects := of_decide_eq_true hstart
      refine hc.quiet rfl (fun m hm _ => hm) ?_
      rintro r m ⟨⟩ h
      exact h
  | step i w =>
      obtain ⟨p, t, q, hp, hs, rfl⟩ := Prog.next_step.mp hn
      obtain ⟨rfl, rfl⟩ := Prod.mk.inj (Option.some.inj hs)
      cases p with
      | selects =>
          refine hc.quiet rfl (fun m hm hs => ?_) ?_
          · rcases MessageOutbox.mem_mark.mp hm with hm | ⟨hm, -⟩
            · obtain ⟨m₀, -, -, rfl⟩ := MessageOutbox.mem_snapshot.mp hm
              cases hs
            · exact hm
          · rintro r m ⟨⟩
            exact Flush.not_delivers_proceed _ _ _ m
      | publishes now msg rest sent =>
          refine hc.quiet rfl (fun m hm _ => hm) ?_
          rintro r m ⟨⟩ h
          exact h
      | awaits now msg rest sent => exact hc.awaits w.published rest sent
      | settles now msg published rest sent => exact hc.settles hp _
      | prunes now sent =>
          refine hc.quiet rfl (fun m hm _ => (MessageOutbox.mem_prune.mp hm).1) ?_
          rintro r m ⟨⟩ h
          exact h
      | returns sent => exact hc.quiet rfl (fun m hm _ => hm) fun _ _ h => nomatch h
  | env a =>
      obtain ⟨t, ht, rfl⟩ := Prog.next_env.mp hn
      obtain ⟨-, rfl⟩ := MessageOutbox.enqueue_eq_some.mp ht
      refine ⟨fun m hm hs => ?_, hc.settling⟩
      rcases List.mem_append.mp hm with hm | hm
      · exact hc.sent m hm hs
      · obtain rfl := List.mem_singleton.mp hm
        cases hs

/-! ## Every interleaving -/

/-- What a step does to the outbox. -/
structure StepRight (c : Pool MessageOutbox Flush) (l : Label Flush FlushOracle Enqueue)
    (c' : Pool MessageOutbox Flush) : Prop where
  /-- No message is published whose publish succeeded. -/
  once : ∀ i w now msg rest sent, l = .step i w →
    c.threads i = some (.publishes now msg rest sent) → msg.id ∉ c.shared.delivered
  /-- Only a delivered message leaves the queue, or one that expired by a flush's reading. -/
  leaves : ∀ m ∈ c.shared.queue, m.id ∉ c'.shared.ids → m.id ∈ c.shared.delivered ∨
    ∃ i w now sent, l = .step i w ∧ c.threads i = some (.prunes now sent) ∧ m.Expired now
  retries : ∀ m ∈ c'.shared.queue, m.retryCount ≤ MAX_RETRIES
  /-- What is left of a message is not retried before it was to be. -/
  later : ∀ m ∈ c.shared.queue, ∀ m' ∈ c'.shared.queue, m'.id = m.id → m.NotBefore m'
  settled : (∀ i, c'.threads i = none) → ∀ m ∈ c'.shared.queue, m.status ≠ .inFlight

/-- What is in the queue under the id of an earlier entry is that entry, marked or settled. -/
theorem OutboxInv.later {l : Label Flush FlushOracle Enqueue} (hc : OutboxInv c)
    (hn : outboxProg.next c l = some c') {m' : QueuedMessage} (hm : m ∈ c.shared.queue)
    (hm' : m' ∈ c'.shared.queue) (hid : m'.id = m.id) : m.NotBefore m' := by
  have same : m' ∈ c.shared.queue → m.NotBefore m' := by
    intro h
    obtain rfl := eq_of_id hc.distinct h hm hid
    exact .refl m'
  cases l with
  | spawn i p =>
      obtain ⟨-, -, rfl⟩ := Prog.next_spawn.mp hn
      exact same hm'
  | step i w =>
      obtain ⟨p, t, q, hp, hs, rfl⟩ := Prog.next_step.mp hn
      obtain ⟨rfl, rfl⟩ := Prod.mk.inj (Option.some.inj hs)
      cases p with
      | selects =>
          rcases MessageOutbox.mem_mark.mp hm' with hsnap | ⟨hold, -⟩
          · obtain ⟨m₀, hm₀, -, rfl⟩ := MessageOutbox.mem_snapshot.mp hsnap
            obtain rfl : m₀ = m := eq_of_id hc.distinct hm₀ hm hid
            exact .refl m₀
          · exact same hold
      | publishes now msg rest sent => exact same hm'
      | awaits now msg rest sent =>
          have hqueue : (c.shared.deliver w.published msg.id).queue = c.shared.queue := by
            unfold MessageOutbox.deliver
            split <;> rfl
          exact same (hqueue ▸ hm')
      | settles now msg published rest sent =>
          rcases mem_of_mem_replaceFirst hm' with rfl | hold
          · have h := hc.held i _ hp msg List.mem_cons_self
            rw [QueuedMessage.settled_id] at hid
            obtain rfl := eq_of_id hc.distinct h.mem hm hid
            exact QueuedMessage.notBefore_settled h.due
          · exact same hold
      | prunes now sent => exact same (MessageOutbox.mem_prune.mp hm').1
      | returns sent => exact same hm'
  | env a =>
      obtain ⟨t, ht, rfl⟩ := Prog.next_env.mp hn
      obtain ⟨hfresh, rfl⟩ := MessageOutbox.enqueue_eq_some.mp ht
      rcases List.mem_append.mp hm' with hold | hnew
      · exact same hold
      · obtain rfl := List.mem_singleton.mp hnew
        have hid : a.id = m.id := hid
        have hdrawn := hc.issued m.id (List.mem_map.mpr ⟨m, hm, rfl⟩)
        exact absurd (hid ▸ hdrawn) hfresh

/-- Only a prune takes messages away. -/
theorem ids_next {l : Label Flush FlushOracle Enqueue} (hn : outboxProg.next c l = some c')
    (hl : ∀ i w now sent, l = .step i w → c.threads i ≠ some (.prunes now sent)) :
    ∀ m ∈ c.shared.queue, m.id ∈ c'.shared.ids := by
  intro m hm
  have hid : m.id ∈ c.shared.ids := List.mem_map.mpr ⟨m, hm, rfl⟩
  cases l with
  | spawn i p =>
      obtain ⟨-, -, rfl⟩ := Prog.next_spawn.mp hn
      exact hid
  | step i w =>
      obtain ⟨p, t, q, hp, hs, rfl⟩ := Prog.next_step.mp hn
      obtain ⟨rfl, rfl⟩ := Prod.mk.inj (Option.some.inj hs)
      cases p with
      | selects => exact (MessageOutbox.ids_mark w.now c.shared).symm ▸ hid
      | publishes | returns => exact hid
      | awaits now msg rest sent =>
          show m.id ∈ (c.shared.deliver w.published msg.id).ids
          unfold MessageOutbox.deliver
          split <;> exact hid
      | settles now msg published rest sent =>
          have hids : (c.shared.writeBack (msg.settled now published)).ids = c.shared.ids :=
            ids_replaceFirst _ _
          exact hids.symm ▸ hid
      | prunes now sent => exact absurd hp (hl i w now sent rfl)
  | env a =>
      obtain ⟨t, ht, rfl⟩ := Prog.next_env.mp hn
      obtain ⟨-, rfl⟩ := MessageOutbox.enqueue_eq_some.mp ht
      exact List.mem_map.mpr ⟨m, List.mem_append_left _ hm, rfl⟩

theorem SentInv.leaves {l : Label Flush FlushOracle Enqueue} (hc : SentInv c)
    (hn : outboxProg.next c l = some c') (hm : m ∈ c.shared.queue)
    (hgone : m.id ∉ c'.shared.ids) : m.id ∈ c.shared.delivered ∨
      ∃ i w now sent, l = .step i w ∧ c.threads i = some (.prunes now sent) ∧ m.Expired now := by
  by_cases hl : ∀ i w now sent, l = .step i w → c.threads i ≠ some (.prunes now sent)
  · exact absurd (ids_next hn hl m hm) hgone
  push Not at hl
  obtain ⟨i, w, now, sent, rfl, hp⟩ := hl
  obtain ⟨p, t, q, hp', hs, rfl⟩ := Prog.next_step.mp hn
  obtain rfl := Option.some.inj (hp.symm.trans hp')
  obtain ⟨rfl, rfl⟩ := Prod.mk.inj (Option.some.inj hs)
  have hkept : ¬ m.Kept now := fun hkept =>
    hgone (List.mem_map.mpr ⟨m, MessageOutbox.mem_prune.mpr ⟨hm, hkept⟩, rfl⟩)
  unfold QueuedMessage.Kept at hkept
  push Not at hkept
  cases hstatus : m.status with
  | pending => exact absurd hstatus hkept.1
  | inFlight => exact absurd hstatus hkept.2.1
  | sent => exact Or.inl (hc.sent m hm hstatus)
  | failed => exact Or.inr ⟨i, w, now, sent, rfl, hp, hstatus, hkept.2.2 hstatus⟩

theorem OutboxInv.stepRight {l : Label Flush FlushOracle Enqueue} (hc : OutboxInv c)
    (hs : SentInv c) (hn : outboxProg.next c l = some c') : StepRight c l c' where
  once i w now msg rest sent _ hp := hc.not_delivered hp List.mem_cons_self fun h => h
  leaves m hm hgone := hs.leaves hn hm hgone
  retries m hm := ((hc.next hn).tried m hm).1
  later m hm m' hm' hid := hc.later hn hm hm' hid
  settled hidle m hm hstatus := by
    obtain ⟨i, p, hp, -⟩ := (hc.next hn).owned m hm hstatus
    exact nomatch (hidle i).symm.trans hp

end Steps

/-- **The outbox delivers at most once and drops nothing early**, in every interleaving of calls
that queue messages with flushes. -/
theorem outbox_right (ls : List (Label Flush FlushOracle Enqueue)) :
    Along outboxProg.next (fun c l => ∀ c', outboxProg.next c l = some c' → StepRight c l c')
      (Pool.idle {}) ls := by
  have hinv : OutboxInv (Pool.idle {}) :=
    ⟨List.nodup_nil, (fun _ h => nomatch h), fun _ h => absurd h (Finset.notMem_empty _),
      (fun _ h => nomatch h), (fun _ _ h => nomatch h), (fun _ _ h => nomatch h),
      (fun _ _ _ _ _ h => nomatch h), (fun _ h => nomatch h), fun _ h => nomatch h⟩
  have hsent : SentInv (Pool.idle {}) := ⟨(fun _ h => nomatch h), fun _ _ _ h => nomatch h⟩
  have keep : ∀ c l c', OutboxInv c ∧ SentInv c → True → outboxProg.next c l = some c' →
      OutboxInv c' ∧ SentInv c' := fun c l c' h _ hn => ⟨h.1.next hn, h.2.next hn⟩
  exact along_of_inv keep (fun c l h _ c' hn => h.1.stepRight h.2 hn) ⟨hinv, hsent⟩
    (along_true _ ls)

end MostroApp.Outbox
