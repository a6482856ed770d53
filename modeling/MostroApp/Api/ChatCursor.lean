import MostroApp.Api.Messages

set_option autoImplicit false

/-! # The chat cursor over all sessions of a listener

The persisted cursor is the `since` of the next subscription, so an event below it whose
message is not in the store is never fetched again. The file follows one channel through any
sequence of subscriptions, restarts and deliveries, with any storage failures, and says
exactly when no due event is left behind (`nothing_skipped_iff`): an event is due from the
moment the relay holds it at an opening or it is delivered.
-/

namespace MostroApp.Chat

open Transition Dedup

/-! ## Small facts of the store -/

theorem mem_saveMessage {m x : ChatMessage} {db : List ChatMessage} :
    x ∈ saveMessage m db ↔ (x ∈ db ∧ x.id ≠ m.id) ∨ x = m := by
  simp [saveMessage]

/-- A save adds the message's id to the table and drops none. -/
theorem stored_saveMessage (s : MessageStore) (m : ChatMessage) (nd : List String) (id : String) :
    MessageStore.Stored { s with db := saveMessage m s.db, nonDurable := nd } id ↔
      s.Stored id ∨ id = m.id := by
  constructor
  · rintro ⟨x, hx, rfl⟩
    rcases mem_saveMessage.mp hx with ⟨hx, -⟩ | rfl
    · exact Or.inl ⟨x, hx, rfl⟩
    · exact Or.inr rfl
  · rintro (⟨x, hx, rfl⟩ | rfl)
    · by_cases h : x.id = m.id
      · exact ⟨m, mem_saveMessage.mpr (Or.inr rfl), h.symm⟩
      · exact ⟨x, mem_saveMessage.mpr (Or.inl ⟨hx, h⟩), rfl⟩
    · exact ⟨m, mem_saveMessage.mpr (Or.inr rfl), rfl⟩

theorem mergeHistory_cons (messages : List ChatMessage) (m : ChatMessage)
    (ms : List ChatMessage) :
    mergeHistory messages (m :: ms) =
      mergeHistory (if messages.any (·.id = m.id) then messages else messages ++ [m]) ms := rfl

theorem mem_mergeHistory {messages persisted : List ChatMessage} {x : ChatMessage}
    (h : x ∈ mergeHistory messages persisted) : x ∈ messages ∨ x ∈ persisted := by
  induction persisted generalizing messages with
  | nil => exact Or.inl h
  | cons m ms ih =>
      rw [mergeHistory_cons] at h
      rcases ih h with hx | hx
      · split at hx
        · exact Or.inl hx
        · rw [List.mem_append, List.mem_singleton] at hx
          exact hx.imp id fun e => by simp [e]
      · exact Or.inr (List.mem_cons_of_mem m hx)

theorem subset_mergeHistory (messages persisted : List ChatMessage) {x : ChatMessage}
    (h : x ∈ messages) : x ∈ mergeHistory messages persisted := by
  induction persisted generalizing messages with
  | nil => exact h
  | cons m ms ih =>
      rw [mergeHistory_cons]
      refine ih _ ?_
      split
      · exact h
      · exact List.mem_append_left _ h

/-- **The store's invariant.** A message in memory is durable unless its id is marked, and a
marked id is in memory and not in the table. -/
structure StoreInv (s : MessageStore) : Prop where
  durable : ∀ id, s.InMemory id → id ∉ s.nonDurable → s.Stored id
  in_memory : ∀ id ∈ s.nonDurable, s.InMemory id
  not_stored : ∀ id ∈ s.nonDurable, ¬ s.Stored id

theorem storeInv_of_memory_empty (db : List ChatMessage) : StoreInv ⟨[], [], false, db⟩ := by
  refine ⟨?_, fun id h => ?_, fun id h => ?_⟩
  · rintro id ⟨x, hx, -⟩
    cases hx
  · cases h
  · cases h

theorem ensureHydrated_db (f : Faults) (s : MessageStore) :
    (s.ensureHydrated f).db = s.db ∧ (s.ensureHydrated f).nonDurable = s.nonDurable := by
  unfold MessageStore.ensureHydrated
  split <;> exact ⟨rfl, rfl⟩

theorem ensureHydrated_messages (f : Faults) (s : MessageStore) {x : ChatMessage} :
    (x ∈ s.messages → x ∈ (s.ensureHydrated f).messages) ∧
      (x ∈ (s.ensureHydrated f).messages → x ∈ s.messages ∨ x ∈ s.db) := by
  unfold MessageStore.ensureHydrated
  split
  · exact ⟨id, Or.inl⟩
  · refine ⟨subset_mergeHistory _ _, fun h => (mem_mergeHistory h).imp id fun hx => ?_⟩
    split at hx
    · cases hx
    · exact hx

theorem storeInv_ensureHydrated (f : Faults) {s : MessageStore} (hs : StoreInv s) :
    StoreInv (s.ensureHydrated f) := by
  obtain ⟨hdb, hnd⟩ := ensureHydrated_db f s
  refine ⟨?_, ?_, ?_⟩
  · rintro id ⟨x, hx, rfl⟩ hid
    rw [hnd] at hid
    rw [MessageStore.Stored, hdb]
    rcases (ensureHydrated_messages f s).2 hx with hx | hx
    · exact hs.durable x.id ⟨x, hx, rfl⟩ hid
    · exact ⟨x, hx, rfl⟩
  · intro id hid
    obtain ⟨x, hx, hxid⟩ := hs.in_memory id (hnd ▸ hid)
    exact ⟨x, (ensureHydrated_messages f s).1 hx, hxid⟩
  · intro id hid
    rw [MessageStore.Stored, hdb]
    exact hs.not_stored id (hnd ▸ hid)

/-- A write that failed leaves the message in memory only, marked. -/
theorem storeInv_unsaved {s : MessageStore} (hs : StoreInv s) (m : ChatMessage)
    (hm : ¬ s.Stored m.id) :
    StoreInv { s with messages := s.messages ++ [m]
                      nonDurable := m.id :: s.nonDurable.filter (· ≠ m.id) } := by
  have marked : ∀ id, id ∈ m.id :: s.nonDurable.filter (· ≠ m.id) ↔
      id = m.id ∨ id ∈ s.nonDurable := by
    intro id
    by_cases h : id = m.id <;> simp [h]
  refine ⟨?_, ?_, ?_⟩
  · rintro id ⟨x, hx, rfl⟩ hid
    rw [marked, not_or] at hid
    rcases List.mem_append.mp hx with hx | hx
    · exact hs.durable x.id ⟨x, hx, rfl⟩ hid.2
    · exact absurd (by rw [List.mem_singleton.mp hx]) hid.1
  · intro id hid
    rcases (marked id).mp hid with rfl | hid
    · exact ⟨m, by simp, rfl⟩
    · obtain ⟨x, hx, hxid⟩ := hs.in_memory id hid
      exact ⟨x, List.mem_append_left _ hx, hxid⟩
  · intro id hid
    rcases (marked id).mp hid with rfl | hid
    · exact hm
    · exact hs.not_stored id hid

/-- A write that succeeded makes the message durable, whether or not it was in memory. -/
theorem storeInv_saved {s : MessageStore} (hs : StoreInv s) (m : ChatMessage)
    (messages : List ChatMessage) (hsub : ∀ x ∈ s.messages, x ∈ messages)
    (hsup : ∀ x ∈ messages, x ∈ s.messages ∨ x = m) :
    StoreInv { s with messages := messages, db := saveMessage m s.db
                      nonDurable := s.nonDurable.filter (· ≠ m.id) } := by
  have hst := stored_saveMessage { s with messages := messages } m
    (s.nonDurable.filter (· ≠ m.id))
  refine ⟨?_, ?_, ?_⟩
  · rintro id ⟨x, hx, rfl⟩ hid
    rw [hst]
    by_cases h : x.id = m.id
    · exact Or.inr h
    · rcases hsup x hx with hx | rfl
      · exact Or.inl (hs.durable x.id ⟨x, hx, rfl⟩ fun hnd => hid (by simp [hnd, h]))
      · exact absurd rfl h
  · intro id hid
    obtain ⟨x, hx, hxid⟩ := hs.in_memory id (List.mem_filter.mp hid).1
    exact ⟨x, hsub x hx, hxid⟩
  · intro id hid
    rw [List.mem_filter] at hid
    rw [hst, not_or]
    exact ⟨hs.not_stored id hid.1, by simpa using hid.2⟩

/-! ## One delivery -/

/-- The listener's invariant: the store's, and the cursor in memory is the persisted one. -/
structure ListenerInv (l : Listener) : Prop where
  store : StoreInv l.store
  cursor : l.persisted.getD 0 = l.rx.cursor

/-- The delivery ends with the event's message in the table: it is not a duplicate, its
lookup is answered, and the table holds the message already or its write succeeds. -/
def Stores (l : Listener) (e : ChatEvent) (f : Faults) : Prop :=
  e.id ∉ l.rx.outerSeen.set ∧ (f.existsFails = true → l.store.InMemory e.inner.id) ∧
    (f.saveFails = true → l.store.Stored e.inner.id)

/-- What a delivery leaves behind: the table with or without the message, and the cursor. -/
structure Delivered (l t : Listener) (e : ChatEvent) (stores : Prop) (cursor : Nat) : Prop where
  inv : ListenerInv t
  stored : ∀ id, t.store.Stored id ↔ l.store.Stored id ∨ (stores ∧ id = e.inner.id)
  cursor : t.rx.cursor = cursor

theorem isKnown_of_inMemory {f : Faults} {id : String} {s : MessageStore} (h : s.InMemory id) :
    s.isKnown f id = some true := by
  obtain ⟨x, hx, hxid⟩ := h
  rw [MessageStore.isKnown, if_pos]
  exact List.any_eq_true.mpr ⟨x, hx, by simpa using hxid⟩

theorem isKnown_of_not_inMemory {f : Faults} {id : String} {s : MessageStore}
    (h : ¬ s.InMemory id) :
    s.isKnown f id = if f.existsFails then none else some (s.db.any (·.id = id)) := by
  rw [MessageStore.isKnown, if_neg]
  intro hany
  obtain ⟨x, hx, hxid⟩ := List.any_eq_true.mp hany
  exact h ⟨x, hx, by simpa using hxid⟩

theorem db_any_iff (s : MessageStore) (id : String) :
    s.db.any (·.id = id) = true ↔ s.Stored id := by
  simp [MessageStore.Stored]

/-- Advancing the cursor touches nothing but the cursor, and keeps the persisted one equal. -/
theorem advanceCursor_spec (ts now : Nat) {l : Listener} (h : l.persisted.getD 0 = l.rx.cursor) :
    (l.advanceCursor ts now).store = l.store ∧
      (l.advanceCursor ts now).persisted.getD 0 = (l.advanceCursor ts now).rx.cursor ∧
      (l.advanceCursor ts now).rx.cursor = max l.rx.cursor (min ts now) := by
  by_cases hlt : min ts now > l.rx.cursor
  · simp only [Listener.advanceCursor, if_pos hlt]
    exact ⟨trivial, rfl, by omega⟩
  · simp only [Listener.advanceCursor, if_neg hlt]
    exact ⟨trivial, h, by omega⟩

/-- A delivery that ends durable, whatever it did to the store. -/
theorem delivered_durable {l : Listener} (hl : ListenerInv l) (e : ChatEvent) (now : Nat)
    (seen : BoundedIdSet) {s : MessageStore} (hs : StoreInv s)
    (hst : ∀ id, s.Stored id ↔ l.store.Stored id ∨ id = e.inner.id) :
    Delivered l (Listener.advanceCursor e.createdAt now
        ⟨s, ⟨seen, l.rx.cursor⟩, l.persisted⟩) e True
      (max l.rx.cursor (min e.createdAt now)) := by
  have h : Option.getD (Listener.persisted ⟨s, ⟨seen, l.rx.cursor⟩, l.persisted⟩) 0 =
      (Listener.rx ⟨s, ⟨seen, l.rx.cursor⟩, l.persisted⟩).cursor := hl.cursor
  obtain ⟨hstore, hper, hcur⟩ := advanceCursor_spec e.createdAt now h
  refine ⟨⟨hstore ▸ hs, hper⟩, fun id => ?_, hcur⟩
  rw [hstore, hst, true_and]

/-- A delivery that does not end durable leaves table and cursor. -/
theorem delivered_dropped {l : Listener} (hl : ListenerInv l) (e : ChatEvent)
    (seen : BoundedIdSet) {s : MessageStore} (hs : StoreInv s)
    (hst : ∀ id, s.Stored id ↔ l.store.Stored id) :
    Delivered l ⟨s, ⟨seen, l.rx.cursor⟩, l.persisted⟩ e False l.rx.cursor :=
  ⟨⟨hs, hl.cursor⟩, fun id => by simp [hst], rfl⟩

/-- A known message is durable after `ensureDurable` unless it is a marked copy whose retry
fails. -/
theorem ensureDurable_spec (f : Faults) {s : MessageStore} (hs : StoreInv s) {id : String}
    (hk : s.InMemory id ∨ s.Stored id) :
    StoreInv (s.ensureDurable f id).1 ∧
      ((f.saveFails = true → s.Stored id) → (s.ensureDurable f id).2 = true ∧
        ∀ x, (s.ensureDurable f id).1.Stored x ↔ s.Stored x ∨ x = id) ∧
      (¬ (f.saveFails = true → s.Stored id) → s.ensureDurable f id = (s, false)) := by
  by_cases hnd : id ∈ s.nonDurable
  · have hmem := hs.in_memory id hnd
    obtain ⟨m, hm⟩ : ∃ m, s.messages.find? (·.id = id) = some m := by
      obtain ⟨x, hx, hxid⟩ := hmem
      exact Option.isSome_iff_exists.mp (List.find?_isSome.mpr ⟨x, hx, by simpa using hxid⟩)
    have hmid : m.id = id := by simpa using List.find?_some hm
    have hmin : m ∈ s.messages := List.mem_of_find?_eq_some hm
    subst hmid
    cases hf : f.saveFails with
    | true =>
        have hfail : s.ensureDurable f m.id = (s, false) := by
          simp [MessageStore.ensureDurable, hnd, hm, hf]
        rw [hfail]
        exact ⟨hs, fun h => absurd (h rfl) (hs.not_stored m.id hnd), fun _ => rfl⟩
    | false =>
        have hsaved : s.ensureDurable f m.id =
            ({ s with db := saveMessage m s.db, nonDurable := s.nonDurable.filter (· ≠ m.id) },
              true) := by
          simp [MessageStore.ensureDurable, hnd, hm, hf]
        rw [hsaved]
        refine ⟨storeInv_saved hs m s.messages (fun _ h => h) fun _ h => Or.inl h,
          fun _ => ⟨rfl, fun x => stored_saveMessage s m _ x⟩, fun h => absurd ?_ h⟩
        intro h
        cases h
  · have hst : s.Stored id := hk.elim (fun h => hs.durable id h hnd) fun h => h
    have hsame : s.ensureDurable f id = (s, true) := by
      simp [MessageStore.ensureDurable, hnd]
    rw [hsame]
    refine ⟨hs, fun _ => ⟨rfl, fun x => ⟨Or.inl, ?_⟩⟩, fun h => absurd (fun _ => hst) h⟩
    rintro (h | rfl)
    · exact h
    · exact hst

/-- An unknown message is durable after `addMessage` exactly when its write succeeds. -/
theorem addMessage_spec (f : Faults) {s : MessageStore} (hs : StoreInv s) (m : ChatMessage)
    (hm : ¬ s.Stored m.id) :
    StoreInv (s.addMessage f m).1 ∧
      (s.addMessage f m).2 = !f.saveFails ∧
      ∀ x, (s.addMessage f m).1.Stored x ↔ s.Stored x ∨ (f.saveFails = false ∧ x = m.id) := by
  have hh := storeInv_ensureHydrated f hs
  obtain ⟨hdb, hnd⟩ := ensureHydrated_db f s
  have hstored : ∀ x, (s.ensureHydrated f).Stored x ↔ s.Stored x := fun x => by
    rw [MessageStore.Stored, hdb, MessageStore.Stored]
  cases hf : f.saveFails with
  | true =>
      simp only [MessageStore.addMessage, hf]
      refine ⟨storeInv_unsaved hh m fun h => hm ((hstored _).mp h), rfl, fun x => ?_⟩
      exact (hstored x).trans (by simp)
  | false =>
      simp only [MessageStore.addMessage, hf]
      refine ⟨storeInv_saved hh m _ (fun x h => List.mem_append_left _ h) fun x h => ?_, rfl,
        fun x => ?_⟩
      · simpa using h
      · refine (stored_saveMessage { s.ensureHydrated f with
          messages := (s.ensureHydrated f).messages ++ [m] } m _ x).trans ?_
        rw [← hstored x, true_and]
        exact Iff.rfl

/-- **What one delivery does.** It ends with the message in the table and the cursor at the
event's clamped time, or with both unmoved, as `Stores` says. -/
theorem handleChatEvent_spec (orderId myTradePubkey : String) {l : Listener}
    (hl : ListenerInv l) (e : ChatEvent) (now : Nat) (f : Faults) :
    (Stores l e f ∧ Delivered l (handleChatEvent orderId myTradePubkey e now f l) e True
      (max l.rx.cursor (min e.createdAt now))) ∨
    (¬ Stores l e f ∧
      Delivered l (handleChatEvent orderId myTradePubkey e now f l) e False l.rx.cursor) := by
  by_cases hseen : e.id ∈ l.rx.outerSeen.set
  · refine Or.inr ⟨fun h => h.1 hseen, ?_⟩
    simp only [handleChatEvent, BoundedIdSet.insert, if_pos hseen]
    exact delivered_dropped hl e _ hl.store fun _ => Iff.rfl
  -- The store's own paths: known in memory or in the table, unanswered, or new.
  simp only [handleChatEvent, BoundedIdSet.insert, if_neg hseen]
  by_cases hmem : l.store.InMemory e.inner.id
  · rw [isKnown_of_inMemory hmem]
    obtain ⟨hinv, hok, hfail⟩ := ensureDurable_spec f hl.store (Or.inl hmem)
    by_cases hsave : f.saveFails = true → l.store.Stored e.inner.id
    · obtain ⟨hd, hst⟩ := hok hsave
      refine Or.inl ⟨⟨hseen, fun _ => hmem, hsave⟩, ?_⟩
      simp only [hd, if_true]
      exact delivered_durable hl e now _ hinv hst
    · refine Or.inr ⟨fun h => hsave h.2.2, ?_⟩
      simp only [hfail hsave]
      exact delivered_dropped hl e _ hl.store fun _ => Iff.rfl
  · rw [isKnown_of_not_inMemory hmem]
    cases hex : f.existsFails with
    | true =>
        refine Or.inr ⟨fun h => hmem (h.2.1 hex), ?_⟩
        exact delivered_dropped hl e _ hl.store fun _ => Iff.rfl
    | false =>
        by_cases hst : l.store.Stored e.inner.id
        · obtain ⟨hinv, hok, -⟩ := ensureDurable_spec f hl.store (Or.inr hst)
          obtain ⟨hd, hst'⟩ := hok fun _ => hst
          refine Or.inl ⟨⟨hseen, fun h => absurd h (by simp [hex]), fun _ => hst⟩, ?_⟩
          simp only [(db_any_iff _ _).mpr hst, hd, if_true]
          exact delivered_durable hl e now _ hinv hst'
        · have hany : l.store.db.any (·.id = e.inner.id) = false := by
            rw [← Bool.not_eq_true, db_any_iff]
            exact hst
          have hh := storeInv_ensureHydrated f hl.store
          have hsame : ∀ x, (l.store.ensureHydrated f).Stored x ↔ l.store.Stored x := fun x => by
            rw [MessageStore.Stored, (ensureHydrated_db f l.store).1, MessageStore.Stored]
          obtain ⟨hinv, hd, hst'⟩ := addMessage_spec f hh (e.inner.message orderId myTradePubkey)
            fun h => hst ((hsame _).mp h)
          simp only [hany]
          cases hf : f.saveFails with
          | true =>
              refine Or.inr ⟨fun h => hst (h.2.2 hf), ?_⟩
              simp only [hd, hf]
              exact delivered_dropped hl e _ hinv fun x => by simp [hst', hf, hsame]
          | false =>
              refine Or.inl ⟨⟨hseen, fun h => absurd h (by simp [hex]),
                fun h => absurd h (by simp [hf])⟩, ?_⟩
              simp only [hd, hf]
              exact delivered_durable hl e now _ hinv fun x => by
                simp [hst', hf, hsame]

/-! ## Sessions -/

/-- A channel over its life: the listener, and the events due to it. -/
structure Channel where
  listener : Listener
  due : List ChatEvent

/-- A fresh install: no message, no cursor. -/
def Channel.fresh : Channel := ⟨⟨⟨[], [], false, []⟩, .new 0, none⟩, []⟩

/-- What happens to a channel: a subscription opens while the relay holds `held`, after a
restart of the process or within it, or one event is delivered. -/
inductive ChannelEvent where
  | opened (restart : Bool) (held : List ChatEvent)
  | delivered (e : ChatEvent) (now : Nat) (f : Faults)

section Sessions

variable (orderId myTradePubkey : String)

/-- One event of a channel; it is always possible. -/
def channelStep (c : Channel) : ChannelEvent → Option Channel
  | .opened restart held => some ⟨c.listener.open restart, held ++ c.due⟩
  | .delivered e now f =>
      some ⟨handleChatEvent orderId myTradePubkey e now f c.listener, e :: c.due⟩

/-- Every due event whose message is not in the store is returned by the next subscription. -/
def NothingSkipped (c : Channel) : Prop :=
  ∀ d ∈ c.due, ¬ c.listener.store.Stored d.inner.id → c.listener.persisted.getD 0 ≤ d.createdAt

/-- **Delivered in order.** At an opening the relay holds no unstored event older than the
cursor. A delivery that ends with its message in the table finds the message of every older
due event there; one that does not was in the table already or is not older than the cursor. -/
def InOrder (c : Channel) : ChannelEvent → Prop
  | .opened _ held =>
      ∀ d ∈ held, c.listener.store.Stored d.inner.id ∨ c.listener.persisted.getD 0 ≤ d.createdAt
  | .delivered e now f =>
      (Stores c.listener e f → ∀ d ∈ c.due, d.createdAt < min e.createdAt now →
        c.listener.store.Stored d.inner.id ∨ d.inner.id = e.inner.id) ∧
      (¬ Stores c.listener e f →
        c.listener.store.Stored e.inner.id ∨ c.listener.persisted.getD 0 ≤ e.createdAt)

theorem listenerInv_open (restart : Bool) {l : Listener} (hl : ListenerInv l) :
    ListenerInv (l.open restart) := by
  refine ⟨?_, rfl⟩
  cases restart with
  | false => exact hl.store
  | true =>
      exact storeInv_of_memory_empty l.store.db

theorem stored_open (restart : Bool) (l : Listener) (id : String) :
    (l.open restart).store.Stored id ↔ l.store.Stored id := by
  cases restart <;> exact Iff.rfl

theorem listenerInv_step {c d : Channel} {ev : ChannelEvent} (hc : ListenerInv c.listener)
    (h : channelStep orderId myTradePubkey c ev = some d) : ListenerInv d.listener := by
  cases ev with
  | opened restart held =>
      cases h
      exact listenerInv_open restart hc
  | delivered e now f =>
      cases h
      rcases handleChatEvent_spec orderId myTradePubkey hc e now f with ⟨-, h⟩ | ⟨-, h⟩
      · exact h.inv
      · exact h.inv

/-- Under the invariant, one event leaves nothing skipped exactly when it comes in order. -/
theorem nothingSkipped_step_iff {c : Channel} (hc : ListenerInv c.listener)
    (hn : NothingSkipped c) (ev : ChannelEvent) :
    (∀ d, channelStep orderId myTradePubkey c ev = some d → NothingSkipped d) ↔ InOrder c ev := by
  have hn' : ∀ d ∈ c.due, c.listener.store.Stored d.inner.id ∨ c.listener.rx.cursor ≤ d.createdAt :=
    fun d hd => or_iff_not_imp_left.mpr fun h => hc.cursor ▸ hn d hd h
  cases ev with
  | opened restart held =>
      simp only [channelStep, Option.some.injEq, forall_eq', NothingSkipped, InOrder,
        List.mem_append, stored_open]
      constructor
      · exact fun h d hd => or_iff_not_imp_left.mpr fun hs => h d (Or.inl hd) hs
      · rintro h d (hd | hd) hs
        · exact (h d hd).resolve_left hs
        · exact hn d hd hs
  | delivered e now f =>
      simp only [channelStep, Option.some.injEq, forall_eq', NothingSkipped, InOrder,
        List.mem_cons, forall_eq_or_imp]
      rcases handleChatEvent_spec orderId myTradePubkey hc e now f with ⟨hs, ht⟩ | ⟨hs, ht⟩
      · rw [ht.inv.cursor, ht.cursor]
        simp only [ht.stored, hs, not_true_eq_false, true_and, false_implies, and_true,
          true_implies, or_true, not_or, true_and]
        constructor
        · intro h d hd hlt
          by_contra hcon
          rw [not_or] at hcon
          have := h d hd hcon
          omega
        · intro h d hd hns
          have h1 := (hn' d hd).resolve_left hns.1
          have h2 : ¬ d.createdAt < min e.createdAt now := fun hlt =>
            (h d hd hlt).elim hns.1 hns.2
          omega
      · rw [ht.inv.cursor, ht.cursor, hc.cursor]
        simp only [ht.stored, hs, false_and, or_false, false_implies, true_and, not_false_eq_true,
          true_implies]
        constructor
        · exact fun h => or_iff_not_imp_left.mpr h.1
        · exact fun h => ⟨fun hs => h.resolve_left hs, fun d hd hs => (hn' d hd).resolve_left hs⟩

/-- **When the chat cursor skips nothing.** Over every sequence of openings, restarts and
deliveries from a fresh install, with every pattern of storage failures, each state would get
every due unstored event from its next subscription if and only if every event came in order. -/
theorem nothing_skipped_iff (evs : List ChannelEvent) :
    Along (channelStep orderId myTradePubkey)
        (fun c ev => ∀ d, channelStep orderId myTradePubkey c ev = some d → NothingSkipped d)
        Channel.fresh evs ↔
      Along (channelStep orderId myTradePubkey) InOrder Channel.fresh evs := by
  have keep : ∀ c ev d, (ListenerInv c.listener ∧ NothingSkipped c) →
      (∀ d, channelStep orderId myTradePubkey c ev = some d → NothingSkipped d) →
      channelStep orderId myTradePubkey c ev = some d → ListenerInv d.listener ∧ NothingSkipped d :=
    fun c ev d hc hafter hd =>
      ⟨listenerInv_step orderId myTradePubkey hc.1 hd, hafter d hd⟩
  refine along_iff keep (fun c ev hc => nothingSkipped_step_iff orderId myTradePubkey hc.1 hc.2 ev)
    ⟨⟨storeInv_of_memory_empty [], rfl⟩, fun d hd => by cases hd⟩

end Sessions

/-- A relay that replays its backlog newest-first: the newer message is stored, the cursor
moves to it, and the older one, still due, is below the next subscription's `since`. -/
theorem newest_first_skips :
    let older : ChatEvent := ⟨"outer-1", 10, ⟨"inner-1", "peer", "a", ("a", none), 10⟩⟩
    let newer : ChatEvent := ⟨"outer-2", 20, ⟨"inner-2", "peer", "b", ("b", none), 20⟩⟩
    ∃ c, run (channelStep "order" "me") Channel.fresh
        [.opened true [older, newer], .delivered newer 100 {}] = some c ∧
      older ∈ c.due ∧ ¬ c.listener.store.Stored older.inner.id ∧
      older.createdAt < c.listener.persisted.getD 0 := by
  refine ⟨_, rfl, ?_, ?_, ?_⟩ <;> decide

end MostroApp.Chat
