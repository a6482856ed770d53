import MostroApp.Api.ChatCursor
import MostroApp.Lib.Interleaving
import Mathlib.Data.List.Nodup

set_option autoImplicit false

/-! # Sends and deliveries on one trade's message list (`api/messages.rs`)

`Api/Messages.lean` has the store of a trade's messages and a delivery in one piece. Here each
call is a task that stops at every await: a send that has published its event and adds its
message, the handler of one event of one listener, a read of the history. They share the list, the
`messages` table and the stream of new messages.
-/

namespace MostroApp.Chat

open Interleaving Dedup

/-! ## State and tasks -/

def maxStoredMessagesPerTrade : Nat := 1000

def maxStoredBytesPerTrade : Nat := 5 * 1024 * 1024

/-- One more incoming message of `incomingBytes` would exceed the retention caps. -/
def MessageStore.quotaExceeded (incomingBytes : Nat) (s : MessageStore) : Bool :=
  s.messages.length ≥ maxStoredMessagesPerTrade ||
    (s.messages.map (·.content.utf8ByteSize)).sum + incomingBytes > maxStoredBytesPerTrade

/-- What all tasks of one trade share. -/
structure ChatState where
  store : MessageStore
  hasDb : Bool := true
  orderId : String := ""
  myTradePubkey : String := ""
  /-- The outer ids each listener has seen. -/
  outerSeen : Nat → BoundedIdSet := fun _ => .new outerLruCap
  /-- The ids sent on the new-message stream, the last one first. -/
  emitted : List String := []
  /-- The inner ids that exist: drawn by a send, carried by an event, or stored. -/
  ids : List String := []

/-- What a step cannot know from the state: the id a send comes to have, whether its payload is
refused, whether the storage obeys, and whether an event passes the budget and the crypto
checks. -/
structure ChatOracle where
  drawn : String := ""
  refused : Bool := false
  ok : Bool := true
  admitted : Bool := true

/-- What a task that loads the history goes on with. -/
inductive Hydrated where
  | checksQuota (e : ChatEvent)
  | pushes (m : ChatMessage)
  | reads
  | marksRead
  deriving DecidableEq, Repr

/-- Where a task stands. -/
inductive ChatTask where
  /-- `send_message`, `send_file`, `store_outgoing_admin_message`, up to the publish. -/
  | publishes (m : ChatMessage)
  /-- `handle_chat_event`. -/
  | receives (listener : Nat) (e : ChatEvent)
  /-- `is_known`. -/
  | looksInMemory (e : ChatEvent)
  | looksUpDb (e : ChatEvent)
  /-- `ensure_durable`. -/
  | checksDurable (id : String)
  | copies (id : String)
  | savesAgain (m : ChatMessage)
  | marksDurable (id : String)
  /-- `ensure_hydrated`. -/
  | checksHydrated (k : Hydrated)
  | lists (k : Hydrated)
  | merges (persisted : List ChatMessage) (k : Hydrated)
  | marksHydrated (k : Hydrated)
  | checksQuota (e : ChatEvent)
  /-- `add_message`. -/
  | pushes (m : ChatMessage)
  | saves (m : ChatMessage)
  | marks (m : ChatMessage) (stored : Bool)
  | emits (m : ChatMessage)
  /-- `get_messages` and `mark_as_read`. -/
  | reads
  | marksRead
  | marksReadDb
  deriving DecidableEq, Repr

def Hydrated.next : Hydrated → ChatTask
  | .checksQuota e => .checksQuota e
  | .pushes m => .pushes m
  | .reads => .reads
  | .marksRead => .marksRead

/-! ## Steps -/

def ChatState.withMessages (messages : List ChatMessage) (s : ChatState) : ChatState :=
  { s with store := { s.store with messages := messages } }

def ChatState.withDb (db : List ChatMessage) (s : ChatState) : ChatState :=
  { s with store := { s.store with db := db } }

/-- `message_exists`: `none` when the lookup fails, and never found without a database. -/
def ChatState.messageExists (ok : Bool) (id : String) (s : ChatState) : Option Bool :=
  if s.hasDb then (if ok then some (s.store.db.any (·.id = id)) else none) else some false

/-- The message once the user has seen it. -/
def ChatMessage.read (m : ChatMessage) : ChatMessage := { m with isRead := true }

/-- The ids known to be in memory only, after a write of `id`. -/
def ChatState.marked (id : String) (stored : Bool) (s : ChatState) : ChatState :=
  let rest := s.store.nonDurable.filter (· ≠ id)
  { s with store := { s.store with nonDurable := if stored then rest else id :: rest } }

/-- A task's next step. A send draws an id that exists nowhere yet: the inner event carries a
signed nonce. -/
def ChatTask.step (w : ChatOracle) : ChatTask → ChatState → Option (ChatState × Option ChatTask)
  | .publishes m, s =>
      -- a send that is refused adds nothing
      if w.refused then some (s, none)
      else if w.drawn ∈ s.ids then none
      else some ({ s with ids := w.drawn :: s.ids },
        some (.checksHydrated (.pushes { m with id := w.drawn })))
  | .receives listener e, s =>
      -- the outer id is spent even where a later check drops the event
      let seen := (s.outerSeen listener).insert e.id
      some ({ s with
          outerSeen := Function.update s.outerSeen listener seen.1
          ids := e.inner.id :: s.ids },
        if seen.2 && w.admitted then some (.looksInMemory e) else none)
  | .looksInMemory e, s =>
      some (s, some (if s.store.messages.any (·.id = e.inner.id) then .checksDurable e.inner.id
        else .looksUpDb e))
  | .looksUpDb e, s =>
      -- a look-up that fails drops the event
      some (s, match s.messageExists w.ok e.inner.id with
        | none => none
        | some true => some (.checksDurable e.inner.id)
        | some false => some (.checksHydrated (.checksQuota e)))
  | .checksDurable id, s =>
      some (s, if id ∈ s.store.nonDurable then some (.copies id) else none)
  | .copies id, s =>
      some (s, if s.hasDb then (s.store.messages.find? (·.id = id)).map .savesAgain else none)
  | .savesAgain m, s =>
      if w.ok then some (s.withDb (saveMessage m s.store.db), some (.marksDurable m.id))
      else some (s, none)
  | .marksDurable id, s => some (s.marked id true, none)
  | .checksHydrated k, s => some (s, some (if s.store.hydrated then k.next else .lists k))
  -- a history that cannot be listed is empty, and the trade counts as loaded all the same
  | .lists k, s => some (s, some (.merges (if s.hasDb && w.ok then s.store.db else []) k))
  | .merges persisted k, s =>
      some (s.withMessages (mergeHistory s.store.messages persisted), some (.marksHydrated k))
  | .marksHydrated k, s =>
      some ({ s with store := { s.store with hydrated := true } }, some k.next)
  | .checksQuota e, s =>
      some (s, if s.store.quotaExceeded e.inner.content.utf8ByteSize then none
        else some (.checksHydrated (.pushes (e.inner.message s.orderId s.myTradePubkey))))
  | .pushes m, s => some (s.withMessages (s.store.messages ++ [m]), some (.saves m))
  -- without a database, memory is all there is to store to
  | .saves m, s =>
      if s.hasDb then
        if w.ok then some (s.withDb (saveMessage m s.store.db), some (.marks m true))
        else some (s, some (.marks m false))
      else some (s, some (.marks m true))
  | .marks m stored, s => some (s.marked m.id stored, some (.emits m))
  | .emits m, s => some ({ s with emitted := m.id :: s.emitted }, none)
  | .reads, s => some (s, none)
  | .marksRead, s =>
      some (s.withMessages (s.store.messages.map ChatMessage.read), some .marksReadDb)
  | .marksReadDb, s =>
      some (if s.hasDb && w.ok then s.withDb (s.store.db.map ChatMessage.read) else s, none)

/-- The tasks of one trade: sends, events and reads start at any time. -/
def chatProg : Prog ChatState ChatTask ChatOracle Empty where
  enter := fun
    | .publishes _ | .receives .. | .checksHydrated .reads | .checksHydrated .marksRead => true
    | _ => false
  tstep := ChatTask.step
  act := fun a _ => nomatch a

/-! ## What a task has in hand -/

def Hydrated.pending : Hydrated → Option String
  | .checksQuota e => some e.inner.id
  | .pushes m => some m.id
  | _ => none

/-- The id of a message the task is about to push: published, or looked up and not found. -/
def ChatTask.pending : ChatTask → Option String
  | .checksHydrated k | .lists k | .merges _ k | .marksHydrated k => k.pending
  | .checksQuota e => some e.inner.id
  | .pushes m => some m.id
  | _ => none

/-- The id of a message the task has pushed and not yet emitted. -/
def ChatTask.pushed : ChatTask → Option String
  | .saves m | .marks m _ | .emits m => some m.id
  | _ => none

def ChatTask.holds (p : ChatTask) : Option String := p.pending.or p.pushed

/-- The id of the event the task still looks up. -/
def ChatTask.looksFor : ChatTask → Option String
  | .looksInMemory e | .looksUpDb e => some e.inner.id
  | _ => none

/-- The history the task has read and not yet merged. -/
def ChatTask.history : ChatTask → List ChatMessage
  | .merges persisted _ => persisted
  | _ => []

/-- The id the task's step may put into the table. -/
def ChatTask.writes : ChatTask → Option String
  | .saves m | .savesAgain m => some m.id
  | _ => none

@[simp] theorem Hydrated.next_pending (k : Hydrated) : k.next.pending = k.pending := by
  cases k <;> rfl

@[simp] theorem Hydrated.next_pushed (k : Hydrated) : k.next.pushed = none := by
  cases k <;> rfl

@[simp] theorem Hydrated.next_looksFor (k : Hydrated) : k.next.looksFor = none := by
  cases k <;> rfl

@[simp] theorem Hydrated.next_history (k : Hydrated) : k.next.history = [] := by
  cases k <;> rfl

@[simp] theorem Hydrated.next_writes (k : Hydrated) : k.next.writes = none := by
  cases k <;> rfl

/-! ## What one step changes -/

instance (s : MessageStore) (id : String) : Decidable (s.InMemory id) :=
  inferInstanceAs (Decidable (∃ m ∈ s.messages, m.id = id))

/-- The change a task's step may make to what all share. -/
structure StepEffect (p : ChatTask) (s s' : ChatState) : Prop where
  ids : ∀ id ∈ s.ids, id ∈ s'.ids
  hasDb : s'.hasDb = s.hasDb
  memory : ∀ id, s.store.InMemory id → s'.store.InMemory id
  memory_from : ∀ id, s'.store.InMemory id → s.store.InMemory id ∨
    (∃ m ∈ p.history, m.id = id) ∨ ∃ m, p = .pushes m ∧ m.id = id
  pushes : ∀ m, p = .pushes m → s'.store.InMemory m.id
  nodup : (s.store.messages.map (·.id)).Nodup → (∀ m, p = .pushes m → ¬ s.store.InMemory m.id) →
    (s'.store.messages.map (·.id)).Nodup
  table : ∀ id, s.store.Stored id → s'.store.Stored id
  table_from : ∀ id, s'.store.Stored id → s.store.Stored id ∨ p.writes = some id
  no_db : s.hasDb = true ∨ s'.store.db = s.store.db ∨ ∃ m, p = .savesAgain m
  emitted : s'.emitted = s.emitted ∨ ∃ m, p = .emits m ∧ s'.emitted = m.id :: s.emitted

/-- A step that leaves the messages and the table. -/
theorem StepEffect.frame {p : ChatTask} {s s' : ChatState} (hp : ∀ m, p ≠ .pushes m)
    (hids : ∀ id ∈ s.ids, id ∈ s'.ids) (hb : s'.hasDb = s.hasDb)
    (hm : s'.store.messages = s.store.messages) (hd : s'.store.db = s.store.db)
    (he : s'.emitted = s.emitted ∨ ∃ m, p = .emits m ∧ s'.emitted = m.id :: s.emitted) :
    StepEffect p s s' := by
  refine ⟨hids, hb, ?_, ?_, fun m h => absurd h (hp m), ?_, ?_, ?_, Or.inr (Or.inl hd), he⟩
  · unfold MessageStore.InMemory
    rw [hm]
    exact fun _ => id
  · unfold MessageStore.InMemory
    rw [hm]
    exact fun _ => Or.inl
  · rw [hm]
    exact fun h _ => h
  · unfold MessageStore.Stored
    rw [hd]
    exact fun _ => id
  · unfold MessageStore.Stored
    rw [hd]
    exact fun _ => Or.inl

/-- A step that leaves everything. -/
theorem StepEffect.same {p : ChatTask} (s : ChatState) (hp : ∀ m, p ≠ .pushes m) :
    StepEffect p s s :=
  .frame hp (fun _ => id) rfl rfl rfl (Or.inl rfl)

/-- A step that replaces the table. -/
theorem StepEffect.db {p : ChatTask} {s : ChatState} {db : List ChatMessage}
    (hp : ∀ m, p ≠ .pushes m)
    (hto : ∀ id, s.store.Stored id → (s.withDb db).store.Stored id)
    (hfrom : ∀ id, (s.withDb db).store.Stored id → s.store.Stored id ∨ p.writes = some id)
    (hb : s.hasDb = true ∨ ∃ m, p = .savesAgain m) : StepEffect p s (s.withDb db) := by
  refine ⟨fun _ => id, rfl, fun _ => id, fun _ => Or.inl, fun m h => absurd h (hp m),
    fun h _ => h, hto, hfrom, ?_, Or.inl rfl⟩
  exact hb.imp id Or.inr

/-- A step that replaces the messages, and pushes none of its own. -/
theorem StepEffect.messages {p : ChatTask} {s : ChatState} {messages : List ChatMessage}
    (hp : ∀ m, p ≠ .pushes m)
    (hto : ∀ id, s.store.InMemory id → (s.withMessages messages).store.InMemory id)
    (hfrom : ∀ id, (s.withMessages messages).store.InMemory id → s.store.InMemory id ∨
      ∃ m ∈ p.history, m.id = id)
    (hnodup : (s.store.messages.map (·.id)).Nodup → (messages.map (·.id)).Nodup) :
    StepEffect p s (s.withMessages messages) :=
  ⟨fun _ => id, rfl, hto, fun i h => (hfrom i h).imp id Or.inl, fun m h => absurd h (hp m),
    fun h _ => hnodup h, fun _ => id, fun _ => Or.inl, Or.inr (Or.inl rfl), Or.inl rfl⟩

/-! ## The operations on lists -/

theorem nodup_ids_append {messages : List ChatMessage} {m : ChatMessage}
    (h : (messages.map (·.id)).Nodup) (hm : ∀ x ∈ messages, x.id ≠ m.id) :
    ((messages ++ [m]).map (·.id)).Nodup := by
  rw [List.map_append, List.nodup_append]
  refine ⟨h, List.nodup_singleton _, fun a ha b hb => ?_⟩
  obtain ⟨x, hx, rfl⟩ := List.mem_map.mp ha
  have hb : b = m.id := by simpa using hb
  rw [hb]
  exact hm x hx

theorem mergeHistory_nodup {messages : List ChatMessage} (persisted : List ChatMessage)
    (h : (messages.map (·.id)).Nodup) : ((mergeHistory messages persisted).map (·.id)).Nodup := by
  induction persisted generalizing messages with
  | nil => exact h
  | cons m ms ih =>
      rw [mergeHistory_cons]
      split
      · exact ih h
      · next hnew =>
        refine ih (nodup_ids_append h fun x hx hid => hnew ?_)
        exact List.any_eq_true.mpr ⟨x, hx, by simpa using hid⟩

theorem exists_id_read (messages : List ChatMessage) (id : String) :
    (∃ m ∈ messages.map ChatMessage.read, m.id = id) ↔ ∃ m ∈ messages, m.id = id := by
  constructor
  · rintro ⟨x, hx, rfl⟩
    obtain ⟨m, hm, rfl⟩ := List.mem_map.mp hx
    exact ⟨m, hm, rfl⟩
  · rintro ⟨m, hm, rfl⟩
    exact ⟨m.read, List.mem_map_of_mem hm, rfl⟩

theorem stored_withDb_save (s : ChatState) (m : ChatMessage) (id : String) :
    (s.withDb (saveMessage m s.store.db)).store.Stored id ↔ s.store.Stored id ∨ id = m.id :=
  stored_saveMessage s.store m s.store.nonDurable id

/-- **One step's change.** -/
theorem ChatTask.step_effect {w : ChatOracle} {p : ChatTask} {s s' : ChatState}
    {q : Option ChatTask} (h : p.step w s = some (s', q)) : StepEffect p s s' := by
  cases p with
  | publishes m =>
      simp only [ChatTask.step] at h
      split at h
      · obtain ⟨rfl, -⟩ := Prod.mk.inj (Option.some.inj h)
        exact .same s nofun
      · split at h
        · cases h
        · obtain ⟨rfl, -⟩ := Prod.mk.inj (Option.some.inj h)
          exact .frame nofun (fun _ => List.mem_cons_of_mem _) rfl rfl rfl (Or.inl rfl)
  | receives listener e =>
      obtain ⟨rfl, -⟩ := Prod.mk.inj (Option.some.inj h)
      exact .frame nofun (fun _ => List.mem_cons_of_mem _) rfl rfl rfl (Or.inl rfl)
  | savesAgain m =>
      simp only [ChatTask.step] at h
      split at h
      · obtain ⟨rfl, -⟩ := Prod.mk.inj (Option.some.inj h)
        refine .db nofun (fun id hid => (stored_withDb_save s m id).mpr (Or.inl hid))
          (fun id hid => ?_) (Or.inr ⟨m, rfl⟩)
        rcases (stored_withDb_save s m id).mp hid with hid | rfl
        · exact Or.inl hid
        · exact Or.inr rfl
      · obtain ⟨rfl, -⟩ := Prod.mk.inj (Option.some.inj h)
        exact .same s nofun
  | saves m =>
      simp only [ChatTask.step] at h
      split at h
      · next hdb =>
        split at h
        · obtain ⟨rfl, -⟩ := Prod.mk.inj (Option.some.inj h)
          refine .db nofun (fun id hid => (stored_withDb_save s m id).mpr (Or.inl hid))
            (fun id hid => ?_) (Or.inl hdb)
          rcases (stored_withDb_save s m id).mp hid with hid | rfl
          · exact Or.inl hid
          · exact Or.inr rfl
        · obtain ⟨rfl, -⟩ := Prod.mk.inj (Option.some.inj h)
          exact .same s nofun
      · obtain ⟨rfl, -⟩ := Prod.mk.inj (Option.some.inj h)
        exact .same s nofun
  | merges persisted k =>
      obtain ⟨rfl, -⟩ := Prod.mk.inj (Option.some.inj h)
      refine .messages nofun ?_ ?_ (mergeHistory_nodup persisted)
      · rintro id ⟨x, hx, rfl⟩
        exact ⟨x, subset_mergeHistory _ _ hx, rfl⟩
      · rintro id ⟨x, hx, rfl⟩
        exact (mem_mergeHistory hx).imp (fun hx => ⟨x, hx, rfl⟩) fun hx => ⟨x, hx, rfl⟩
  -- the one step that adds a message of its own: it is new where the task's id was nowhere
  | pushes m =>
      obtain ⟨rfl, -⟩ := Prod.mk.inj (Option.some.inj h)
      refine ⟨fun _ => id, rfl, ?_, ?_, ?_, ?_, fun _ => id, fun _ => Or.inl,
        Or.inr (Or.inl rfl), Or.inl rfl⟩
      · rintro id ⟨x, hx, rfl⟩
        exact ⟨x, List.mem_append_left _ hx, rfl⟩
      · rintro id ⟨x, hx, rfl⟩
        rcases List.mem_append.mp hx with hx | hx
        · exact Or.inl ⟨x, hx, rfl⟩
        · exact Or.inr (Or.inr ⟨m, rfl, by rw [List.mem_singleton.mp hx]⟩)
      · intro m' hm'
        obtain rfl := ChatTask.pushes.inj hm'
        exact ⟨m, List.mem_append_right _ (List.mem_singleton_self m), rfl⟩
      · intro hnodup hnew
        exact nodup_ids_append hnodup fun x hx hid => hnew m rfl ⟨x, hx, hid⟩
  | marksRead =>
      obtain ⟨rfl, -⟩ := Prod.mk.inj (Option.some.inj h)
      refine .messages nofun (fun id hid => (exists_id_read _ id).mpr hid)
        (fun id hid => Or.inl ((exists_id_read _ id).mp hid)) fun hnodup => ?_
      rw [List.map_map]
      exact hnodup
  | marksReadDb =>
      obtain ⟨rfl, -⟩ := Prod.mk.inj (Option.some.inj h)
      split
      · next hok =>
        exact .db nofun (fun id hid => (exists_id_read _ id).mpr hid)
          (fun id hid => Or.inl ((exists_id_read _ id).mp hid))
          (Or.inl (Bool.and_eq_true_iff.mp hok).1)
      · exact .same s nofun
  | emits m =>
      obtain ⟨rfl, -⟩ := Prod.mk.inj (Option.some.inj h)
      exact .frame nofun (fun _ => id) rfl rfl rfl (Or.inr ⟨m, rfl, rfl⟩)
  | marksDurable | marks | marksHydrated =>
      obtain ⟨rfl, -⟩ := Prod.mk.inj (Option.some.inj h)
      exact .frame nofun (fun _ => id) rfl rfl rfl (Or.inl rfl)
  | looksInMemory | looksUpDb | checksDurable | copies | checksHydrated | lists | checksQuota
  | reads =>
      obtain ⟨rfl, -⟩ := Prod.mk.inj (Option.some.inj h)
      exact .same _ nofun

/-! ## What a step goes on with -/

/-- Where a task's next message comes from. -/
structure NextFrom (w : ChatOracle) (p : ChatTask) (s s' : ChatState) (q : ChatTask) : Prop where
  looksFor : ∀ id, q.looksFor = some id → p.looksFor = some id ∨ id ∈ s'.ids
  pending : ∀ id, q.pending = some id →
    p.pending = some id ∧ (∀ m, p ≠ .pushes m) ∨
    (∃ e, p = .looksUpDb e ∧ e.inner.id = id ∧ s.messageExists w.ok id = some false) ∨
    (∃ m, p = .publishes m) ∧ id ∉ s.ids ∧ id ∈ s'.ids
  pushed : ∀ id, q.pushed = some id →
    p.pushed = some id ∧ (∀ m, p ≠ .emits m) ∨ ∃ m, p = .pushes m ∧ m.id = id
  history : ∀ m ∈ q.history, m ∈ s.store.db
  again : ∀ m, q = .savesAgain m → m ∈ s.store.messages ∧ s.hasDb = true

/-- A task that goes on with nothing in hand. -/
theorem NextFrom.free {w : ChatOracle} {p q : ChatTask} {s s' : ChatState}
    (hlooks : ∀ id, q.looksFor = some id → p.looksFor = some id ∨ id ∈ s'.ids)
    (hholds : q.holds = none) (hhistory : q.history = []) (hq : ∀ m, q ≠ .savesAgain m) :
    NextFrom w p s s' q := by
  have hnone : q.pending = none ∧ q.pushed = none := by
    unfold ChatTask.holds at hholds
    cases hp : q.pending <;> rw [hp] at hholds
    · exact ⟨rfl, hholds⟩
    · cases hholds
  refine ⟨hlooks, fun id h => ?_, fun id h => ?_, fun m hm => ?_, fun m h => absurd h (hq m)⟩
  · rw [hnone.1] at h
    cases h
  · rw [hnone.2] at h
    cases h
  · rw [hhistory] at hm
    cases hm

/-- A task that goes on with the message it has, towards its push. -/
theorem NextFrom.carry {w : ChatOracle} {p q : ChatTask} {s s' : ChatState}
    (hpending : q.pending = p.pending) (hp : ∀ m, p ≠ .pushes m) (hlooks : q.looksFor = none)
    (hpushed : q.pushed = none) (hhistory : ∀ m ∈ q.history, m ∈ s.store.db)
    (hq : ∀ m, q ≠ .savesAgain m) : NextFrom w p s s' q := by
  refine ⟨fun id h => ?_, fun id h => Or.inl ⟨hpending.symm.trans h, hp⟩, fun id h => ?_,
    hhistory, fun m h => absurd h (hq m)⟩
  · rw [hlooks] at h
    cases h
  · rw [hpushed] at h
    cases h

/-- A task that goes on with the message it has pushed, towards its emission. -/
theorem NextFrom.carryPushed {w : ChatOracle} {p q : ChatTask} {s s' : ChatState}
    (hpushed : ∀ id, q.pushed = some id →
      p.pushed = some id ∧ (∀ m, p ≠ .emits m) ∨ ∃ m, p = .pushes m ∧ m.id = id)
    (hpending : q.pending = none) (hlooks : q.looksFor = none) (hhistory : q.history = [])
    (hq : ∀ m, q ≠ .savesAgain m) : NextFrom w p s s' q := by
  refine ⟨fun id h => ?_, fun id h => ?_, hpushed, fun m hm => ?_, fun m h => absurd h (hq m)⟩
  · rw [hlooks] at h
    cases h
  · rw [hpending] at h
    cases h
  · rw [hhistory] at hm
    cases hm

theorem Hydrated.next_ne (k : Hydrated) (m : ChatMessage) : k.next ≠ .savesAgain m := by
  cases k <;> nofun

section Next

variable {w : ChatOracle} {q : ChatTask} {s s' : ChatState}

/-- A send goes on with an id that existed nowhere. -/
theorem ChatTask.next_publishes {m : ChatMessage}
    (h : step w (.publishes m) s = some (s', some q)) : NextFrom w (.publishes m) s s' q := by
  simp only [ChatTask.step] at h
  split at h
  · cases h
  · split at h
    · cases h
    · next hnew =>
      obtain ⟨rfl, hq⟩ := Prod.mk.inj (Option.some.inj h)
      obtain rfl := Option.some.inj hq
      refine ⟨nofun, fun id hid => Or.inr (Or.inr ?_), nofun, nofun, nofun⟩
      obtain rfl := Option.some.inj hid
      exact ⟨⟨m, rfl⟩, hnew, List.mem_cons_self ..⟩

/-- An event's id exists from its arrival on. -/
theorem ChatTask.next_receives {listener : Nat} {e : ChatEvent}
    (h : step w (.receives listener e) s = some (s', some q)) :
    NextFrom w (.receives listener e) s s' q := by
  simp only [ChatTask.step] at h
  obtain ⟨rfl, hq⟩ := Prod.mk.inj (Option.some.inj h)
  split at hq
  · obtain rfl := Option.some.inj hq
    refine .free (fun id hid => Or.inr ?_) rfl rfl nofun
    obtain rfl := Option.some.inj hid
    exact List.mem_cons_self ..
  · cases hq

/-- A look-up that misses is what lets an event's message be pushed. -/
theorem ChatTask.next_looksUpDb {e : ChatEvent}
    (h : step w (.looksUpDb e) s = some (s', some q)) : NextFrom w (.looksUpDb e) s s' q := by
  simp only [ChatTask.step] at h
  obtain ⟨rfl, hq⟩ := Prod.mk.inj (Option.some.inj h)
  split at hq
  · cases hq
  · obtain rfl := Option.some.inj hq
    exact .free nofun rfl rfl nofun
  · next hmiss =>
    obtain rfl := Option.some.inj hq
    refine ⟨nofun, fun id hid => Or.inr (Or.inl ?_), nofun, nofun, nofun⟩
    obtain rfl := Option.some.inj hid
    exact ⟨e, rfl, rfl, hmiss⟩

/-- What `ensure_durable` saves again is a message of memory. -/
theorem ChatTask.next_copies {id : String}
    (h : step w (.copies id) s = some (s', some q)) : NextFrom w (.copies id) s s' q := by
  simp only [ChatTask.step] at h
  obtain ⟨rfl, hq⟩ := Prod.mk.inj (Option.some.inj h)
  split at hq
  · next hdb =>
    obtain ⟨m, hm, rfl⟩ := Option.map_eq_some_iff.mp hq
    refine ⟨nofun, nofun, nofun, nofun, fun m' hm' => ?_⟩
    obtain rfl := ChatTask.savesAgain.inj hm'
    exact ⟨List.mem_of_find?_eq_some hm, hdb⟩
  · cases hq

/-- What `ensure_hydrated` lists is in the table. -/
theorem ChatTask.next_lists {k : Hydrated}
    (h : step w (.lists k) s = some (s', some q)) : NextFrom w (.lists k) s s' q := by
  simp only [ChatTask.step] at h
  obtain ⟨rfl, hq⟩ := Prod.mk.inj (Option.some.inj h)
  obtain rfl := Option.some.inj hq
  refine .carry rfl nofun rfl rfl (fun m hm => ?_) nofun
  have hm : m ∈ if s.hasDb && w.ok then s.store.db else [] := hm
  split at hm
  · exact hm
  · cases hm

/-- The quota keeps the event's id for its message, whatever the payload holds. -/
theorem ChatTask.next_checksQuota {e : ChatEvent}
    (h : step w (.checksQuota e) s = some (s', some q)) : NextFrom w (.checksQuota e) s s' q := by
  simp only [ChatTask.step] at h
  obtain ⟨-, hq⟩ := Prod.mk.inj (Option.some.inj h)
  split at hq
  · cases hq
  · obtain rfl := Option.some.inj hq
    exact .carry rfl nofun rfl rfl nofun nofun

/-- A save keeps the message, written or not, for its emission. -/
theorem ChatTask.next_saves {m : ChatMessage}
    (h : step w (.saves m) s = some (s', some q)) : NextFrom w (.saves m) s s' q := by
  simp only [ChatTask.step] at h
  repeat' split at h
  all_goals
    obtain ⟨-, hq⟩ := Prod.mk.inj (Option.some.inj h)
    obtain rfl := Option.some.inj hq
    exact .carryPushed (fun id hid => Or.inl ⟨hid, nofun⟩) rfl rfl rfl nofun

end Next

/-- **What one step goes on with.** -/
theorem ChatTask.step_next {w : ChatOracle} {p q : ChatTask} {s s' : ChatState}
    (h : p.step w s = some (s', some q)) : NextFrom w p s s' q := by
  cases p with
  | publishes m => exact next_publishes h
  | receives listener e => exact next_receives h
  | looksUpDb e => exact next_looksUpDb h
  | copies id => exact next_copies h
  | lists k => exact next_lists h
  | checksQuota e => exact next_checksQuota h
  | saves m => exact next_saves h
  | looksInMemory e =>
      obtain ⟨rfl, hq⟩ := Prod.mk.inj (Option.some.inj h)
      obtain rfl := Option.some.inj hq
      split
      · exact .free nofun rfl rfl nofun
      · exact .free (fun id hid => Or.inl hid) rfl rfl nofun
  | checksDurable id =>
      obtain ⟨rfl, hq⟩ := Prod.mk.inj (Option.some.inj h)
      split at hq
      · obtain rfl := Option.some.inj hq
        exact .free nofun rfl rfl nofun
      · cases hq
  | savesAgain m =>
      simp only [ChatTask.step] at h
      split at h
      · obtain ⟨-, hq⟩ := Prod.mk.inj (Option.some.inj h)
        obtain rfl := Option.some.inj hq
        exact .free nofun rfl rfl nofun
      · cases h
  | checksHydrated k =>
      obtain ⟨rfl, hq⟩ := Prod.mk.inj (Option.some.inj h)
      obtain rfl := Option.some.inj hq
      split
      · exact .carry k.next_pending nofun k.next_looksFor k.next_pushed (by simp) k.next_ne
      · exact .carry rfl nofun rfl rfl nofun nofun
  | merges persisted k =>
      obtain ⟨-, hq⟩ := Prod.mk.inj (Option.some.inj h)
      obtain rfl := Option.some.inj hq
      exact .carry rfl nofun rfl rfl nofun nofun
  | marksHydrated k =>
      obtain ⟨-, hq⟩ := Prod.mk.inj (Option.some.inj h)
      obtain rfl := Option.some.inj hq
      exact .carry k.next_pending nofun k.next_looksFor k.next_pushed (by simp) k.next_ne
  | pushes m =>
      obtain ⟨-, hq⟩ := Prod.mk.inj (Option.some.inj h)
      obtain rfl := Option.some.inj hq
      exact .carryPushed (fun id hid => Or.inr ⟨m, rfl, Option.some.inj hid⟩) rfl rfl rfl nofun
  | marks m stored =>
      obtain ⟨-, hq⟩ := Prod.mk.inj (Option.some.inj h)
      obtain rfl := Option.some.inj hq
      exact .carryPushed (fun id hid => Or.inl ⟨hid, nofun⟩) rfl rfl rfl nofun
  | marksRead =>
      obtain ⟨-, hq⟩ := Prod.mk.inj (Option.some.inj h)
      obtain rfl := Option.some.inj hq
      exact .free nofun rfl rfl nofun
  | marksDurable | emits | reads | marksReadDb =>
      obtain ⟨-, hq⟩ := Prod.mk.inj (Option.some.inj h)
      cases hq

end MostroApp.Chat
