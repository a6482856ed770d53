import MostroApp.Api.ChatBudget
import MostroApp.Api.MessageTasks
import MostroApp.Nostr.Envelope

set_option autoImplicit false

/-! # Who wrote what a chat shows (`handle_chat_event`)

Relays hand a listener any event under its subscription, both parties can sign the outer event, and
old events come back as often as anyone likes. What is kept has passed `mostro_unwrap`, and its
inner id is not known yet; of a file note, its URL is kept and the file beside it. A signature that
verifies under a key whose owner keeps it was made by that owner (`Unforged`): that is what the file
assumes of the cryptography.
-/

namespace MostroApp.ChatAuthors

open Transition Chat Envelope Dedup Db

/-! ## One event of the subscription -/

/-- A conversation as its listener knows it: the order, the two trade keys, `K_conv` and the public
`K_sign`. -/
structure Conversation where
  orderId : String
  myTradePubkey : String
  peerPubkey : String
  conv : String
  signPubkey : String

def Conversation.allowedSigners (v : Conversation) : List String := [v.myTradePubkey, v.peerPubkey]

/-- What the event meets besides: the rate budget, the retention quota and the storage. -/
structure Intake where
  budgetOk : Bool := true
  quotaExceeded : Bool := false
  faults : Faults := {}
  deriving DecidableEq, Repr

/-- What the store keeps of an inner event; `fromJson` reads a text as a JSON value. -/
def heard (fromJson : String → Option Value) (inner : Event) : InnerEvent :=
  ⟨inner.id, inner.pubkey, inner.content, parseChatPayload fromJson inner.content, inner.createdAt⟩

/-- `handle_chat_event`: the checks of the outer event, the seen ids, the budget, the envelope, the
known ids, the quota, and the store. -/
def Conversation.handle (C : Crypto) (fromJson : String → Option Value) (v : Conversation)
    (event : Event) (now : Nat) (w : Intake) (l : Listener) : Listener :=
  if event.kind ≠ privateDirectMessage then l
  else if event.pubkey ≠ v.signPubkey then l
  else
    let seen := l.rx.outerSeen.insert event.id
    let marked := { l with rx := { l.rx with outerSeen := seen.1 } }
    if seen.2 = false ∨ w.budgetOk = false then marked
    else match mostroUnwrap C v.conv v.signPubkey v.allowedSigners event now with
      | .error _ => marked
      | .ok inner =>
          if w.quotaExceeded = true ∧ l.store.isKnown w.faults inner.id = some false then
            -- the quota check has read the history
            { marked with store := l.store.ensureHydrated w.faults }
          else
            handleChatEvent v.orderId v.myTradePubkey
              ⟨event.id, event.createdAt, heard fromJson inner⟩ now w.faults l

/-! ## The same event under the rate budget

`Api/ChatBudget.lean` follows what the budget keeps of an event, this file what the store keeps.
-/

theorem advanceCursor_outerSeen (ts now : Nat) (l : Listener) :
    (l.advanceCursor ts now).rx.outerSeen = l.rx.outerSeen := by
  unfold Listener.advanceCursor
  dsimp only
  split
  · rfl
  · rfl

theorem handleChatEvent_outerSeen (orderId me : String) (e : ChatEvent) (now : Nat) (f : Faults)
    (l : Listener) : (handleChatEvent orderId me e now f l).rx.outerSeen =
      (l.rx.outerSeen.insert e.id).1 := by
  unfold handleChatEvent
  dsimp only
  split
  · rfl
  split
  · rfl
  · split
    · exact advanceCursor_outerSeen e.createdAt now _
    · rfl
  · split
    · exact advanceCursor_outerSeen e.createdAt now _
    · rfl

theorem reject_outerSeen (s : ChatBudget.ChatRxState) : s.reject.outerSeen = s.outerSeen := by
  rw [ChatBudget.reject_eq]

theorem budgetOk_outerSeen (clock : ℚ) (s : ChatBudget.ChatRxState) :
    (s.budgetOk clock).1.outerSeen = s.outerSeen := by
  rcases ChatBudget.budgetOk_cases clock s with ⟨-, h⟩ | ⟨-, b, -, h⟩ | ⟨-, b, -, h⟩
  · rw [h]
  · rw [h]
  · rw [h]
    exact reject_outerSeen _

section Budget

variable {C : Crypto} {fromJson : String → Option Value} {v : Conversation} {event : Event}
  {now : Nat} {w : Intake} {l : Listener} {b : ChatBudget.ChatRxState} {clock : ℚ}

/-- **One event, both accounts of it.** Where they have seen the same outer ids, and the budget
state says whether there is room, they still have after the event; an event that the budget's
account does not count as valid leaves the store and the cursor, and a valid one is handled by the
store's account alone. -/
theorem handle_agrees (hseen : b.outerSeen = l.rx.outerSeen)
    (hbudget : w.budgetOk = (ChatBudget.ChatRxState.budgetOk clock
      { b with outerSeen := (b.outerSeen.insert event.id).1 }).2) :
    let unwraps := (mostroUnwrap C v.conv v.signPubkey v.allowedSigners event now).isOk
    let r := ChatBudget.handleChatEvent v.signPubkey ⟨event.id, event.kind, event.pubkey⟩ clock
      unwraps b
    let l' := v.handle C fromJson event now w l
    r.1.outerSeen = l'.rx.outerSeen ∧
      (r.2 ≠ .valid → l'.store = l.store ∧ l'.rx.cursor = l.rx.cursor ∧
        l'.persisted = l.persisted) ∧
      (r.2 = .valid → ∃ inner,
        mostroUnwrap C v.conv v.signPubkey v.allowedSigners event now = .ok inner ∧
        (w.quotaExceeded = false → l' = handleChatEvent v.orderId v.myTradePubkey
          ⟨event.id, event.createdAt, heard fromJson inner⟩ now w.faults l)) := by
  unfold ChatBudget.handleChatEvent Conversation.handle
  dsimp only
  by_cases hkind : event.kind ≠ privateDirectMessage
  · rw [if_pos hkind, if_pos hkind]
    exact ⟨hseen, fun _ => ⟨rfl, rfl, rfl⟩, nofun⟩
  rw [if_neg hkind, if_neg hkind]
  by_cases hauthor : event.pubkey ≠ v.signPubkey
  · rw [if_pos hauthor, if_pos hauthor]
    exact ⟨hseen, fun _ => ⟨rfl, rfl, rfl⟩, nofun⟩
  rw [if_neg hauthor, if_neg hauthor, hbudget, ← hseen]
  by_cases hknown : (b.outerSeen.insert event.id).2 = false
  · rw [if_pos hknown, if_pos (Or.inl hknown)]
    exact ⟨rfl, fun _ => ⟨rfl, rfl, rfl⟩, nofun⟩
  rw [if_neg hknown]
  by_cases hroom : (ChatBudget.ChatRxState.budgetOk clock
      { b with outerSeen := (b.outerSeen.insert event.id).1 }).2 = false
  · rw [if_pos hroom, if_pos (Or.inr hroom)]
    exact ⟨budgetOk_outerSeen clock _, fun _ => ⟨rfl, rfl, rfl⟩, nofun⟩
  rw [if_neg hroom, if_neg (not_or.mpr ⟨hknown, hroom⟩)]
  cases hunwrap : mostroUnwrap C v.conv v.signPubkey v.allowedSigners event now with
  | error e =>
      refine ⟨?_, fun _ => ⟨rfl, rfl, rfl⟩, nofun⟩
      exact (reject_outerSeen _).trans (budgetOk_outerSeen clock _)
  | ok inner =>
      refine ⟨?_, fun h => absurd rfl h, fun _ => ⟨inner, rfl, fun hquota => ?_⟩⟩
      · refine (budgetOk_outerSeen clock _).trans ?_
        dsimp only
        split
        · rfl
        · rw [handleChatEvent_outerSeen, hseen]
      · rw [hquota]
        exact if_neg fun h => Bool.false_ne_true h.1

end Budget

/-! ## What one event can add -/

/-- From one store to the next nothing is added but `new`, and no id comes twice. -/
structure Adds (s t : MessageStore) (new : List ChatMessage) : Prop where
  messages : ∀ x ∈ t.messages, x ∈ s.messages ∨ x ∈ s.db ∨ x ∈ new
  db : ∀ x ∈ t.db, x ∈ s.messages ∨ x ∈ s.db ∨ x ∈ new
  ids : (s.messages.map (·.id)).Nodup → (t.messages.map (·.id)).Nodup
  dbIds : (s.db.map (·.id)).Nodup → (t.db.map (·.id)).Nodup

variable {s t : MessageStore} {m : ChatMessage} {new : List ChatMessage} {l : Listener}

theorem adds_refl (s : MessageStore) : Adds s s [] where
  messages _ hx := Or.inl hx
  db _ hx := Or.inr (Or.inl hx)
  ids h := h
  dbIds h := h

theorem saveMessage_ids {db : List ChatMessage} (m : ChatMessage)
    (h : (db.map (·.id)).Nodup) : ((saveMessage m db).map (·.id)).Nodup := by
  refine nodup_ids_append ?_ fun x hx => ?_
  · exact h.sublist (List.Sublist.map _ List.filter_sublist)
  · simpa using (List.mem_filter.mp hx).2

theorem adds_ensureHydrated (f : Faults) (s : MessageStore) : Adds s (s.ensureHydrated f) [] where
  messages x hx := ((ensureHydrated_messages f s).2 hx).imp_right Or.inl
  db x hx := Or.inr (Or.inl ((ensureHydrated_db f s).1 ▸ hx))
  ids h := by
    unfold MessageStore.ensureHydrated
    split
    · exact h
    · exact mergeHistory_nodup _ h
  dbIds h := (ensureHydrated_db f s).1 ▸ h

/-- The quota check's reading of the history changes nothing for the write. -/
theorem addMessage_ensureHydrated (f : Faults) (s : MessageStore) (m : ChatMessage) :
    (s.ensureHydrated f).addMessage f m = s.addMessage f m := by
  have htwice : (s.ensureHydrated f).ensureHydrated f = s.ensureHydrated f := by
    unfold MessageStore.ensureHydrated
    by_cases h : s.hydrated = true <;> simp [h]
  unfold MessageStore.addMessage
  rw [htwice]

/-- A message that is not known is added once. -/
theorem adds_addMessage {f : Faults} (hnew : s.isKnown f m.id = some false) :
    Adds s (s.addMessage f m).1 [m] := by
  have hmemory : ∀ x ∈ s.messages, x.id ≠ m.id := by
    intro x hx hid
    rw [isKnown_of_inMemory ⟨x, hx, hid⟩] at hnew
    cases hnew
  have hstored : ∀ x ∈ s.db, x.id ≠ m.id := by
    intro x hx hid
    have hnot : ¬ s.InMemory m.id := fun ⟨y, hy, hyid⟩ => hmemory y hy hyid
    rw [isKnown_of_not_inMemory hnot] at hnew
    split at hnew
    · cases hnew
    · have hany := (db_any_iff s m.id).mpr ⟨x, hx, hid⟩
      rw [hany] at hnew
      cases hnew
  have hydrated := adds_ensureHydrated f s
  have hmessages : ∀ x ∈ (s.ensureHydrated f).messages ++ [m],
      x ∈ s.messages ∨ x ∈ s.db ∨ x ∈ [m] := by
    intro x hx
    rcases List.mem_append.mp hx with hx | hx
    · exact (ensureHydrated_messages f s).2 hx |>.imp_right Or.inl
    · exact Or.inr (Or.inr hx)
  have hdb : ∀ x ∈ (s.ensureHydrated f).db, x ∈ s.messages ∨ x ∈ s.db ∨ x ∈ [m] :=
    fun x hx => Or.inr (Or.inl ((ensureHydrated_db f s).1 ▸ hx))
  have hids : (s.messages.map (·.id)).Nodup →
      (((s.ensureHydrated f).messages ++ [m]).map (·.id)).Nodup := by
    intro h
    refine nodup_ids_append (hydrated.ids h) fun x hx => ?_
    rcases (ensureHydrated_messages f s).2 hx with hx | hx
    · exact hmemory x hx
    · exact hstored x hx
  unfold MessageStore.addMessage
  split
  · exact ⟨hmessages, hdb, hids, hydrated.dbIds⟩
  · refine ⟨hmessages, fun x hx => ?_, hids, fun h => saveMessage_ids m (hydrated.dbIds h)⟩
    rcases mem_saveMessage.mp hx with ⟨hx, -⟩ | hx
    · exact hdb x hx
    · exact Or.inr (Or.inr (List.mem_singleton.mpr hx))

/-- A retried write stores a message of memory. -/
theorem adds_ensureDurable (f : Faults) (id : String) (s : MessageStore) :
    Adds s (s.ensureDurable f id).1 [] := by
  unfold MessageStore.ensureDurable
  split
  · exact adds_refl s
  split
  · exact adds_refl s
  · next y hy =>
      split
      · exact adds_refl s
      · refine ⟨fun _ hx => Or.inl hx, fun x hx => ?_, fun h => h, saveMessage_ids y⟩
        rcases mem_saveMessage.mp hx with ⟨hx, -⟩ | rfl
        · exact Or.inr (Or.inl hx)
        · exact Or.inl (List.mem_of_find?_eq_some hy)

/-- What one event leaves: a store with `new` more at most, and a cursor that `now` bounds. -/
structure Takes (l r : Listener) (new : List ChatMessage) (now : Nat) : Prop where
  store : Adds l.store r.store new
  cursor : r.rx.cursor ≤ max l.rx.cursor now
  persisted : r.persisted.getD 0 ≤ max (l.persisted.getD 0) now

/-- The seen ids are no matter of the cursor. -/
theorem takes_mark {t : MessageStore} (h : Adds l.store t new) (seen : BoundedIdSet) (now : Nat) :
    Takes l ⟨t, ⟨seen, l.rx.cursor⟩, l.persisted⟩ new now where
  store := h
  cursor := Nat.le_max_left _ _
  persisted := Nat.le_max_left _ _

/-- Advancing the cursor leaves the store, and never passes the clock. -/
theorem Takes.advance {r : Listener} {now : Nat} (h : Takes l r new now) (ts : Nat) :
    Takes l (r.advanceCursor ts now) new now := by
  unfold Listener.advanceCursor
  dsimp only
  split
  · refine ⟨h.store, ?_, ?_⟩
    · show min ts now ≤ max l.rx.cursor now
      omega
    · show min ts now ≤ max (l.persisted.getD 0) now
      omega
  · exact h

/-- The store's handler adds the event's message or nothing. -/
theorem takes_handleChatEvent (orderId me : String) (e : ChatEvent) (now : Nat) (f : Faults)
    (l : Listener) : ∃ new, (∀ m ∈ new, m = e.inner.message orderId me) ∧
      Takes l (handleChatEvent orderId me e now f l) new now := by
  have none_new : ∀ r, Takes l r [] now →
      ∃ new, (∀ m ∈ new, m = e.inner.message orderId me) ∧ Takes l r new now :=
    fun r hr => ⟨[], fun m hm => (by cases hm), hr⟩
  unfold handleChatEvent
  dsimp only
  split
  · exact none_new _ (takes_mark (adds_refl l.store) _ now)
  split
  · exact none_new _ (takes_mark (adds_refl l.store) _ now)
  · have hdurable := takes_mark (adds_ensureDurable f e.inner.id l.store)
      (l.rx.outerSeen.insert e.id).1 now
    split
    · exact none_new _ (hdurable.advance e.createdAt)
    · exact none_new _ hdurable
  · next hnew =>
      have hnew : l.store.isKnown f (e.inner.message orderId me).id = some false := hnew
      have hadded := takes_mark (adds_addMessage hnew) (l.rx.outerSeen.insert e.id).1 now
      refine ⟨[e.inner.message orderId me], fun m hm => List.mem_singleton.mp hm, ?_⟩
      rw [addMessage_ensureHydrated]
      split
      · exact hadded.advance e.createdAt
      · exact hadded

/-- An event adds the message of an inner event that its envelope opens to, or nothing. -/
theorem takes_handle (C : Crypto) (fromJson : String → Option Value) (v : Conversation)
    (event : Event) (now : Nat) (w : Intake) (l : Listener) :
    ∃ new, (∀ m ∈ new, ∃ inner,
        Opens C v.conv v.signPubkey v.allowedSigners event now inner ∧
          m = (heard fromJson inner).message v.orderId v.myTradePubkey) ∧
      Takes l (v.handle C fromJson event now w l) new now := by
  have none_new : ∀ r, Takes l r [] now → ∃ new, (∀ m ∈ new, ∃ inner,
      Opens C v.conv v.signPubkey v.allowedSigners event now inner ∧
        m = (heard fromJson inner).message v.orderId v.myTradePubkey) ∧ Takes l r new now :=
    fun r hr => ⟨[], fun m hm => (by cases hm), hr⟩
  unfold Conversation.handle
  split
  · exact none_new _ (takes_mark (adds_refl l.store) _ now)
  split
  · exact none_new _ (takes_mark (adds_refl l.store) _ now)
  dsimp only
  split
  · exact none_new _ (takes_mark (adds_refl l.store) _ now)
  split
  · exact none_new _ (takes_mark (adds_refl l.store) _ now)
  · next inner hinner =>
      split
      · exact none_new _ (takes_mark (adds_ensureHydrated w.faults l.store) _ now)
      · obtain ⟨new, hnew, htakes⟩ := takes_handleChatEvent v.orderId v.myTradePubkey
          ⟨event.id, event.createdAt, heard fromJson inner⟩ now w.faults l
        exact ⟨new, fun m hm => ⟨inner, mostroUnwrap_eq_ok.mp hinner, hnew m hm⟩, htakes⟩

/-! ## Every run of a listener -/

/-- The listener, and the notes that the owner of one trade key has signed for the conversation,
the latest first. -/
structure Talk where
  listener : Listener
  written : List Event

/-- The owner signs a note, a subscription opens, within the process or after a restart, or an
event arrives under it. -/
inductive TalkEvent where
  | writes (note : Event)
  | opens (restart : Bool)
  | arrives (event : Event) (now : Nat) (w : Intake)

section Runs

variable (C : Crypto) (fromJson : String → Option Value) (v : Conversation) (owner : String)
  (latest : Nat)

/-- Whatever comes, comes at any time. -/
def talkStep (t : Talk) : TalkEvent → Option Talk
  | .writes note => some { t with written := note :: t.written }
  | .opens restart => some { t with listener := t.listener.open restart }
  | .arrives event now w => some { t with listener := v.handle C fromJson event now w t.listener }

/-- No one but the owner makes signatures that verify under the owner's key, and no clock reads
later than `latest`. -/
def Unforged (t : Talk) : TalkEvent → Prop
  | .arrives event now _ => now ≤ latest ∧ ∀ text inner, C.decrypt v.conv event.content = .ok text →
      C.fromJson text = .ok inner → C.verify inner = .ok () → inner.pubkey = owner →
        ∃ note ∈ t.written, note.id = inner.id ∧ note.toUnsigned = inner.toUnsigned
  | _ => True

/-- A party's message, of the owner's own making where it bears the owner's name, shown as the
payload of its note reads, and dated two minutes ahead at most. -/
structure Genuine (written : List Event) (m : ChatMessage) : Prop where
  party : m.senderPubkey ∈ v.allowedSigners
  mine : m.isMine = true ↔ m.senderPubkey = v.myTradePubkey
  written : m.senderPubkey = owner → ∃ note ∈ written, note.id = m.id ∧
    note.pubkey = owner ∧ note.kind = textNote ∧
      parseChatPayload fromJson note.content = (m.content, m.attachment) ∧
      note.createdAt = m.createdAt
  dated : m.createdAt ≤ latest + 120

/-- What holds of a listener at all times. -/
structure Faithful (t : Talk) : Prop where
  messages : ∀ m ∈ t.listener.store.messages, Genuine fromJson v owner latest t.written m
  db : ∀ m ∈ t.listener.store.db, Genuine fromJson v owner latest t.written m
  ids : (t.listener.store.messages.map (·.id)).Nodup
  dbIds : (t.listener.store.db.map (·.id)).Nodup
  cursor : t.listener.rx.cursor ≤ latest
  persisted : t.listener.persisted.getD 0 ≤ latest

end Runs

variable {C : Crypto} {fromJson : String → Option Value} {v : Conversation} {owner : String}
  {latest : Nat}

theorem Genuine.mono {written : List Event} (h : Genuine fromJson v owner latest written m)
    (note : Event) :
    Genuine fromJson v owner latest (note :: written) m where
  party := h.party
  mine := h.mine
  written hm := by
    obtain ⟨n, hn, hrest⟩ := h.written hm
    exact ⟨n, List.mem_cons_of_mem note hn, hrest⟩
  dated := h.dated

/-- What an envelope has shown makes its message genuine. -/
theorem genuine_opens {t : Talk} {event inner : Event} {now : Nat} {w : Intake}
    (h : Opens C v.conv v.signPubkey v.allowedSigners event now inner)
    (hforge : Unforged C v owner latest t (.arrives event now w)) :
    Genuine fromJson v owner latest t.written
      ((heard fromJson inner).message v.orderId v.myTradePubkey) where
  party := h.party
  mine := by
    show decide (inner.pubkey = v.myTradePubkey) = true ↔ _
    rw [decide_eq_true_eq]
    exact Iff.rfl
  written hm := by
    obtain ⟨text, hdecrypt, hjson⟩ := h.decrypted
    obtain ⟨note, hnote, hid, hbody⟩ := hforge.2 text inner hdecrypt hjson h.written hm
    refine ⟨note, hnote, hid, ?_, ?_, ?_, ?_⟩
    · rw [hbody]
      exact hm
    · rw [hbody]
      exact h.note
    · rw [hbody]
      rfl
    · rw [hbody]
      rfl
  dated := by
    show inner.createdAt ≤ latest + 120
    have hnear : inner.createdAt ≤ event.createdAt + 60 := h.near.1
    have hlater : event.createdAt ≤ saturatingAdd now 60 := h.notLater
    have hclock := hforge.1
    unfold saturatingAdd at hlater
    omega

theorem Faithful.step {t t' : Talk} {e : TalkEvent} (h : Faithful fromJson v owner latest t)
    (hforge : Unforged C v owner latest t e) (hs : talkStep C fromJson v t e = some t') :
    Faithful fromJson v owner latest t' := by
  cases e with
  | writes note =>
      obtain rfl := Option.some.inj hs
      exact ⟨fun m hm => (h.messages m hm).mono note, fun m hm => (h.db m hm).mono note, h.ids,
        h.dbIds, h.cursor, h.persisted⟩
  | opens restart =>
      obtain rfl := Option.some.inj hs
      cases restart with
      | false => exact ⟨h.messages, h.db, h.ids, h.dbIds, h.persisted, h.persisted⟩
      | true =>
          refine ⟨fun m hm => ?_, h.db, List.nodup_nil, h.dbIds, h.persisted, h.persisted⟩
          cases hm
  | arrives event now w =>
      obtain rfl := Option.some.inj hs
      have hclock : now ≤ latest := hforge.1
      obtain ⟨new, hnew, htakes⟩ := takes_handle C fromJson v event now w t.listener
      have hgenuine : ∀ m ∈ new, Genuine fromJson v owner latest t.written m := by
        intro m hm
        obtain ⟨inner, hopens, rfl⟩ := hnew m hm
        exact genuine_opens hopens hforge
      constructor
      · intro m hm
        rcases htakes.store.messages m hm with hm | hm | hm
        · exact h.messages m hm
        · exact h.db m hm
        · exact hgenuine m hm
      · intro m hm
        rcases htakes.store.db m hm with hm | hm | hm
        · exact h.messages m hm
        · exact h.db m hm
        · exact hgenuine m hm
      · exact htakes.store.ids h.ids
      · exact htakes.store.dbIds h.dbIds
      · exact Nat.le_trans htakes.cursor (Nat.max_le.mpr ⟨h.cursor, hclock⟩)
      · exact Nat.le_trans htakes.persisted (Nat.max_le.mpr ⟨h.persisted, hclock⟩)

/-- A fresh install, and nothing written. -/
def Talk.fresh : Talk := ⟨Channel.fresh.listener, []⟩

theorem faithful_fresh : Faithful fromJson v owner latest Talk.fresh where
  messages m hm := by cases hm
  db m hm := by cases hm
  ids := List.nodup_nil
  dbIds := List.nodup_nil
  cursor := Nat.zero_le _
  persisted := Nat.zero_le _

/-- Messages of different ids under the owner's name are no more than the notes written. -/
theorem length_le_written {shown : List ChatMessage} {written : List Event}
    (hids : (shown.map (·.id)).Nodup)
    (h : ∀ m ∈ shown, Genuine fromJson v owner latest written m) :
    (shown.filter (·.senderPubkey = owner)).length ≤ written.length := by
  have hnodup : ((shown.filter (·.senderPubkey = owner)).map (·.id)).Nodup :=
    hids.sublist (List.filter_sublist.map _)
  have hsub : (shown.filter (·.senderPubkey = owner)).map (·.id) ⊆ written.map (·.id) := by
    intro id hid
    obtain ⟨m, hm, rfl⟩ := List.mem_map.mp hid
    obtain ⟨hshown, howner⟩ := List.mem_filter.mp hm
    obtain ⟨note, hnote, hnoteId, -⟩ := (h m hshown).written (by simpa using howner)
    exact List.mem_map.mpr ⟨note, hnote, hnoteId⟩
  have hle := List.Nodup.length_le_of_subset hnodup hsub
  simpa using hle

/-- **A chat shows what its parties have written, once.** Whatever the relays, third parties and the
other party send, re-send and re-wrap, in any order, across restarts and storage failures: every
message is of one of the two parties; one under a key whose owner keeps it is a note that the owner
has signed, its text or its file as `parse_chat_payload` reads them; there are no more of them than
notes; and neither a message nor the cursor is dated beyond the clock by more than two minutes. -/
theorem chat_shows_what_was_written {evs : List TalkEvent} {t : Talk}
    (hforge : Along (talkStep C fromJson v) (Unforged C v owner latest) Talk.fresh evs)
    (hr : run (talkStep C fromJson v) Talk.fresh evs = some t) :
    Faithful fromJson v owner latest t ∧
      (t.listener.store.messages.filter (·.senderPubkey = owner)).length ≤ t.written.length ∧
      (t.listener.store.db.filter (·.senderPubkey = owner)).length ≤ t.written.length := by
  have hfresh : Faithful fromJson v owner latest Talk.fresh := faithful_fresh
  have h := run_inv (fun _ _ _ h hforge hs => Faithful.step h hforge hs) hfresh hforge hr
  exact ⟨h, length_le_written h.ids h.messages, length_le_written h.dbIds h.db⟩

/-- Bob's side of a conversation with Alice. -/
def bobsChat : Conversation := ⟨"o", "bob", "alice", "conv", "sign"⟩

/-- A file note, and the value it is read as. -/
def receiptPayload : String :=
  "\x7b\"type\":\"file\",\"url\":\"blossom/r\",\"name\":\"r.png\",\"mime_type\":\"image/png\"\x7d"

def receiptValue : Value :=
  .obj [("type", .str "file"), ("url", .str "blossom/r"), ("name", .str "r.png"),
    ("mime_type", .str "image/png")]

/-- Of the texts in play, the file note alone is JSON. -/
def receiptJson (text : String) : Option Value :=
  if text = receiptPayload then some receiptValue else none

/-- Alice's note with a content, and its envelope. -/
def aliceNote (content : String) : Event :=
  ⟨⟨"alice", 100, 1, [["u", "00"]], content⟩, "id of " ++ content, "alice"⟩

def aliceEvent (id content : String) : Event :=
  ⟨⟨"sign", 100, 14, [["p", "conv"]], "conv" ++ content⟩, id, "sign"⟩

/-- A note arrives, comes back after a restart, and comes once more in another envelope; then the
file note does. -/
def paidThrice : List TalkEvent :=
  [.writes (aliceNote "paid"), .writes (aliceNote receiptPayload), .opens false,
    .arrives (aliceEvent "e1" "paid") 110 {}, .opens true, .arrives (aliceEvent "e1" "paid") 120 {},
    .arrives { aliceEvent "e2" "paid" with createdAt := 130 } 125 {},
    .arrives (aliceEvent "e3" receiptPayload) 126 {}]

theorem chat_shows_what_was_written_thrice :
    ∃ t, run (talkStep namedKeys receiptJson bobsChat) Talk.fresh paidThrice = some t ∧
      t.listener.store.db.map (·.content) = ["paid", "blossom/r"] ∧
      Faithful receiptJson bobsChat "alice" 200 t := by
  have hr : run (talkStep namedKeys receiptJson bobsChat) Talk.fresh paidThrice = some _ := rfl
  have hwritten : ∀ (t : Talk) (event : Event) now w content, now ≤ 200 →
      event.content = "conv" ++ content → aliceNote content ∈ t.written →
      Unforged namedKeys bobsChat "alice" 200 t (.arrives event now w) := by
    intro t event now w content hnow hcontent hnote
    refine ⟨hnow, fun text inner hdecrypt hjson _ _ => ⟨aliceNote content, hnote, ?_⟩⟩
    have hplain : namedKeys.decrypt "conv" ("conv" ++ content) = .ok content :=
      namedKeys_documented.decrypts "conv" "" content _ (by simp [namedKeys])
    have hdecrypt : namedKeys.decrypt "conv" ("conv" ++ content) = .ok text := hcontent ▸ hdecrypt
    obtain rfl := Except.ok.inj (hplain.symm.trans hdecrypt)
    obtain rfl := Except.ok.inj hjson
    exact ⟨rfl, rfl⟩
  have hpaid : aliceNote "paid" ∈ [aliceNote receiptPayload, aliceNote "paid"] := by decide
  have hreceipt : aliceNote receiptPayload ∈ [aliceNote receiptPayload, aliceNote "paid"] := by
    decide
  have hforge : Along (talkStep namedKeys receiptJson bobsChat)
      (Unforged namedKeys bobsChat "alice" 200) Talk.fresh paidThrice := by
    refine ⟨trivial, fun t₁ h₁ => ⟨trivial, fun t₂ h₂ => ⟨trivial, fun t₃ h₃ => ?_⟩⟩⟩
    obtain rfl := Option.some.inj h₁
    obtain rfl := Option.some.inj h₂
    obtain rfl := Option.some.inj h₃
    refine ⟨hwritten _ _ _ _ "paid" (by decide) rfl hpaid, fun t₄ h₄ => ?_⟩
    obtain rfl := Option.some.inj h₄
    refine ⟨trivial, fun t₅ h₅ => ?_⟩
    obtain rfl := Option.some.inj h₅
    refine ⟨hwritten _ _ _ _ "paid" (by decide) rfl hpaid, fun t₆ h₆ => ?_⟩
    obtain rfl := Option.some.inj h₆
    refine ⟨hwritten _ _ _ _ "paid" (by decide) rfl hpaid, fun t₇ h₇ => ?_⟩
    obtain rfl := Option.some.inj h₇
    exact ⟨hwritten _ _ _ _ receiptPayload (by decide) rfl hreceipt, fun _ _ => trivial⟩
  exact ⟨_, hr, by decide, (chat_shows_what_was_written hforge hr).1⟩

end MostroApp.ChatAuthors
