import MostroApp.Api.DedupWindows
import MostroApp.Db.Value
import MostroApp.Lib.Transition
import Mathlib.Algebra.GroupWithZero.Nat

set_option autoImplicit false

/-! # The chat listener of one trade (`api/messages.rs`)

The store of a trade's messages (a write-through cache over the `messages` table), the
receive state of its subscription and the handler of one envelope event, with the storage
failures of a delivery as an input (`Faults`). An event here is one that passed the crypto
checks, the rate budget and the quota.
-/

namespace MostroApp.Chat

open Db Dedup

/-! ## Messages -/

inductive FileType where
  | image
  | video
  | document
  deriving DecidableEq, Repr

inductive DownloadStatus where
  | pending
  | downloading
  | downloaded
  | failed
  deriving DecidableEq, Repr

structure AttachmentInfo where
  fileName : String
  mimeType : String
  fileSize : Nat
  fileType : FileType
  downloadStatus : DownloadStatus
  localPath : Option String
  deriving DecidableEq, Repr

structure ChatMessage where
  id : String
  tradeId : String
  senderPubkey : String
  content : String
  isMine : Bool
  isRead : Bool
  attachment : Option AttachmentInfo := none
  createdAt : Nat
  deriving DecidableEq, Repr

def mimeToFileType (mime : String) : FileType :=
  if mime.startsWith "image/" then .image
  else if mime.startsWith "video/" then .video
  else .document

/-- `parse_chat_payload`: what is shown of a payload, its text or the URL of a file, and the file;
`fromJson` is `serde_json::from_str`. -/
def parseChatPayload (fromJson : String → Option Value) (payload : String) :
    String × Option AttachmentInfo :=
  match fromJson payload with
  | none => (payload, none)
  | some v =>
      if (v.get "type").bind Value.asStr = some "file" then
        match (v.get "url").bind Value.asStr, (v.get "name").bind Value.asStr,
          (v.get "mime_type").bind Value.asStr with
        | some url, some name, some mime =>
            (url, some
              { fileName := name, mimeType := mime
                fileSize := ((v.get "size").bind Value.asU64).getD 0
                fileType := mimeToFileType mime, downloadStatus := .pending, localPath := none })
        | _, _, _ => (payload, none)
      else (payload, none)

/-! ## The message store -/

/-- Which storage calls fail during one delivery: the history load, the `message_exists`
lookup, the `save_message` write. -/
structure Faults where
  listFails : Bool := false
  existsFails : Bool := false
  saveFails : Bool := false
  deriving DecidableEq, Repr

/-- The messages of one trade in memory, the ids whose write failed, and the durable table. -/
structure MessageStore where
  messages : List ChatMessage
  nonDurable : List String
  hydrated : Bool
  db : List ChatMessage
  deriving DecidableEq, Repr

/-- `INSERT OR REPLACE`. -/
def saveMessage (m : ChatMessage) (db : List ChatMessage) : List ChatMessage :=
  db.filter (·.id ≠ m.id) ++ [m]

/-- Append the persisted messages memory does not know; memory wins on a collision. -/
def mergeHistory (messages persisted : List ChatMessage) : List ChatMessage :=
  persisted.foldl (fun entry m => if entry.any (·.id = m.id) then entry else entry ++ [m]) messages

/-- Load the persisted history into memory, once. -/
def MessageStore.ensureHydrated (f : Faults) (s : MessageStore) : MessageStore :=
  if s.hydrated then s
  else { s with messages := mergeHistory s.messages (if f.listFails then [] else s.db)
                hydrated := true }

/-- Store a message; whether it is durably stored. -/
def MessageStore.addMessage (f : Faults) (m : ChatMessage) (s : MessageStore) :
    MessageStore × Bool :=
  let s := s.ensureHydrated f
  let s := { s with messages := s.messages ++ [m] }
  if f.saveFails then
    ({ s with nonDurable := m.id :: s.nonDurable.filter (· ≠ m.id) }, false)
  else
    ({ s with db := saveMessage m s.db, nonDurable := s.nonDurable.filter (· ≠ m.id) }, true)

/-- Whether the id was already accepted, in memory or on disk; `none` when the lookup fails. -/
def MessageStore.isKnown (f : Faults) (id : String) (s : MessageStore) : Option Bool :=
  if s.messages.any (·.id = id) then some true
  else if f.existsFails then none
  else some (s.db.any (·.id = id))

/-- Whether the known id is durably stored, retrying the write of a memory-only copy. -/
def MessageStore.ensureDurable (f : Faults) (id : String) (s : MessageStore) :
    MessageStore × Bool :=
  if id ∉ s.nonDurable then (s, true)
  else match s.messages.find? (·.id = id) with
    | none => (s, false)
    | some m =>
        if f.saveFails then (s, false)
        else ({ s with db := saveMessage m s.db, nonDurable := s.nonDurable.filter (· ≠ id) },
          true)

/-! ## The subscription -/

/-- The part of `ChatRxState` the cursor depends on. -/
structure ChatRxState where
  outerSeen : BoundedIdSet
  cursor : Nat
  deriving DecidableEq

def ChatRxState.new (cursor : Nat) : ChatRxState := ⟨.new outerLruCap, cursor⟩

/-- The decrypted inner event, and what `parse_chat_payload` reads in its content. -/
structure InnerEvent where
  id : String
  pubkey : String
  content : String
  payload : String × Option AttachmentInfo := (content, none)
  createdAt : Nat
  deriving DecidableEq, Repr

/-- A valid envelope event of the conversation. -/
structure ChatEvent where
  id : String
  createdAt : Nat
  inner : InnerEvent
  deriving DecidableEq, Repr

/-- A channel's listener: the store, the receive state and the persisted `since` cursor. -/
structure Listener where
  store : MessageStore
  rx : ChatRxState
  persisted : Option Nat
  deriving DecidableEq

/-- Advance the cursor to the event's timestamp clamped to our own clock. -/
def Listener.advanceCursor (eventTs now : Nat) (l : Listener) : Listener :=
  let accepted := min eventTs now
  if accepted > l.rx.cursor then
    { l with rx := { l.rx with cursor := accepted }, persisted := some accepted }
  else l

/-- The message an inner event is stored as. -/
def InnerEvent.message (orderId myTradePubkey : String) (e : InnerEvent) : ChatMessage :=
  let isEcho : Bool := e.pubkey = myTradePubkey
  { id := e.id, tradeId := orderId, senderPubkey := e.pubkey, content := e.payload.1
    isMine := isEcho, isRead := isEcho, attachment := e.payload.2, createdAt := e.createdAt }

@[simp] theorem message_id (orderId myTradePubkey : String) (e : InnerEvent) :
    (e.message orderId myTradePubkey).id = e.id := rfl

/-- Store one incoming envelope event. A failed lookup drops it; the cursor only moves once
its message is durably stored. -/
def handleChatEvent (orderId myTradePubkey : String) (e : ChatEvent) (now : Nat) (f : Faults)
    (l : Listener) : Listener :=
  let seen := l.rx.outerSeen.insert e.id
  let l := { l with rx := { l.rx with outerSeen := seen.1 } }
  if seen.2 = false then l
  else match l.store.isKnown f e.inner.id with
    | none => l
    | some true =>
        let d := l.store.ensureDurable f e.inner.id
        let l := { l with store := d.1 }
        if d.2 then l.advanceCursor e.createdAt now else l
    | some false =>
        -- The quota check reads the store, and hydrates it.
        let l := { l with store := l.store.ensureHydrated f }
        let d := l.store.addMessage f (e.inner.message orderId myTradePubkey)
        let l := { l with store := d.1 }
        if d.2 then l.advanceCursor e.createdAt now else l

/-- Open the subscription from the persisted cursor. A restart of the process also empties
the in-memory store. -/
def Listener.open (restart : Bool) (l : Listener) : Listener :=
  { l with
    store := if restart then ⟨[], [], false, l.store.db⟩ else l.store
    rx := .new (l.persisted.getD 0) }

/-- The store's table holds the message `id`. -/
def MessageStore.Stored (s : MessageStore) (id : String) : Prop := ∃ m ∈ s.db, m.id = id

instance (s : MessageStore) (id : String) : Decidable (s.Stored id) :=
  inferInstanceAs (Decidable (∃ m ∈ s.db, m.id = id))

/-- In memory, whatever its durability. -/
def MessageStore.InMemory (s : MessageStore) (id : String) : Prop := ∃ m ∈ s.messages, m.id = id

end MostroApp.Chat
