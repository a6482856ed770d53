import Mathlib.Data.Finset.Basic
import Mathlib.Data.Finset.Filter
import Mathlib.Data.Finset.Lattice.Basic
import Mathlib.Data.List.ReduceOption
import Mathlib.Data.List.Sort
import MostroApp.Lib.Mirror
import MostroApp.Lib.Records
import MostroApp.Lib.Transition

set_option autoImplicit false

/-! # The notification list (`features/notifications/providers/notifications_provider.dart`)

The notifier shows the notifications of a store. Its mutations take turns, and each changes the list
and the store in separate steps; loads do not, and merge a snapshot of the store into the list at
some later time. What the user deletes while a load is in flight is noted, so that the load does not
bring it back; nothing is noted while none is in flight. The file has the notifier, the store and
the events of a run, and shows that for each notification an orderly event is a step of a record
shown from a store (`entry_step`). What follows for the list is in `NotificationList.lean`.
-/

namespace MostroApp.Notifications

open Transition
open Mirror (Stage Entry Step)

/-! ## Notifications and their store -/

structure NotificationModel where
  id : String
  title : String := ""
  message : String := ""
  timestamp : Int
  isRead : Bool := false
deriving DecidableEq, Repr

/-- What a chat message makes of the card of its trade. -/
abbrev Fold := Option NotificationModel → Option NotificationModel

/-- `SembastNotificationsStore`: the records, and the ledger of processed events. -/
structure SembastNotificationsStore where
  records : List NotificationModel
  processed : Finset String := ∅
deriving DecidableEq

/-- The notification of an id. -/
abbrev card (id : String) (l : List NotificationModel) : Option NotificationModel :=
  Records.get NotificationModel.id id l

def ids (l : List NotificationModel) : List String := l.map (·.id)

namespace SembastNotificationsStore

def loadAll (store : SembastNotificationsStore) : List NotificationModel := store.records

def save (store : SembastNotificationsStore) (notification : NotificationModel) :
    SembastNotificationsStore :=
  { store with records := Records.upsert (·.id) notification store.records }

/-- Writes the record and its mark in the ledger, and tells whether it did. -/
def saveIfUnprocessed (store : SembastNotificationsStore) (notification : NotificationModel) :
    Bool × SembastNotificationsStore :=
  if notification.id ∈ store.processed then (false, store)
  else
    let marked := { store with processed := insert notification.id store.processed }
    (true, marked.save notification)

def saveChatMessage (store : SembastNotificationsStore) (messageId cardId : String)
    (fold : Fold) : Option NotificationModel × SembastNotificationsStore :=
  let ledgerKey := "msg:" ++ messageId
  if ledgerKey ∈ store.processed then (none, store)
  else
    let marked := { store with processed := insert ledgerKey store.processed }
    match fold (card cardId store.records) with
    | none => (none, marked)
    | some card => (some card, marked.save card)

/-- Marks the record of `id` read, or every one, and returns them as they are then. -/
def markRead (store : SembastNotificationsStore) (id : Option String) :
    List NotificationModel × SembastNotificationsStore :=
  let records := store.records.filter fun n => id.all (n.id = ·)
  let updated := records.map fun n => { n with isRead := true }
  (updated, { store with records := Records.merge (·.id) store.records updated })

def deleteRecord (store : SembastNotificationsStore) (id : String) : SembastNotificationsStore :=
  { store with records := store.records.filter (·.id ≠ id) }

/-- The ledger stays. -/
def deleteAll (store : SembastNotificationsStore) : SembastNotificationsStore :=
  { store with records := [] }

end SembastNotificationsStore

/-! ## The notifier -/

inductive Mutation where
  | add (notification : NotificationModel)
  | addIfNew (notification : NotificationModel)
  | addChatMessage (messageId cardId : String) (fold : Fold)
  /-- `markAsRead`, and `markAllAsRead` without an id. -/
  | markRead (id : Option String)
  | delete (id : String)
  | deleteAll

/-- What the mutation at work goes on with, after an await. -/
inductive Running where
  | saves (notification : NotificationModel)
  | records (notification : NotificationModel)
  | inserts (notification : NotificationModel)
  | counts (messageId cardId : String) (fold : Fold)
  | puts (messageId : String) (card : Option NotificationModel)
  | marks (id : Option String)
  | shows (updated : List NotificationModel)
  | deletes (id : String)
  | deletesAll

/-- The notifier, its store, and what the loads in flight have read. -/
structure NotificationsNotifier where
  state : List NotificationModel := []
  store : SembastNotificationsStore
  mounted : Bool := true
  processedMessages : Finset String := ∅
  deletedDuringLoad : Finset String := ∅
  wipedDuringLoad : Bool := false
  queue : List Mutation := []
  running : Option Running := none
  loads : List (Option (List NotificationModel)) := []
  /-- For bookkeeping, here and below: deleted, and not added since. -/
  gone : Finset String := ∅
  /-- The events that `addIfNew` stored. -/
  recorded : List String := []
  /-- The events that `addIfNew` put on the list. -/
  inserted : List String := []
  /-- A load has merged into the list. -/
  hydrated : Bool := false

/-- `byId.values` of the notifications of `above` laid over those of `below`. -/
def byId (below above : List NotificationModel) : List NotificationModel :=
  Records.merge (·.id) (Records.merge (·.id) [] below) above

/-- The newest first. -/
def sorted (l : List NotificationModel) : List NotificationModel :=
  l.insertionSort fun a b => b.timestamp ≤ a.timestamp

namespace NotificationsNotifier

/-! ## Mutations up to their await -/

/-- The ids on the list or in the store. -/
def known (s : NotificationsNotifier) : Finset String :=
  (ids s.state ++ ids s.store.records).toFinset

def add (s : NotificationsNotifier) (notification : NotificationModel) : NotificationsNotifier :=
  if notification.id ∈ ids s.state then s
  else
    -- The list changes before the await, the store after it.
    { s with
      state := notification :: s.state
      gone := s.gone.erase notification.id
      running := some (.saves notification) }

def addIfNew (s : NotificationsNotifier) (notification : NotificationModel) :
    NotificationsNotifier :=
  if notification.id ∈ ids s.state then s
  else { s with running := some (.records notification) }

def addChatMessage (s : NotificationsNotifier) (messageId cardId : String) (fold : Fold) :
    NotificationsNotifier :=
  if messageId ∈ s.processedMessages then s
  else { s with running := some (.counts messageId cardId fold) }

def markRead (s : NotificationsNotifier) (id : Option String) : NotificationsNotifier :=
  { s with running := some (.marks id) }

def delete (s : NotificationsNotifier) (id : String) : NotificationsNotifier :=
  -- A load that starts before the commit finds nothing noted.
  { s with
    deletedDuringLoad :=
      if 0 < s.loads.length then insert id s.deletedDuringLoad else s.deletedDuringLoad
    state := s.state.filter (·.id ≠ id)
    gone := s.gone ∪ s.known.filter (· = id)
    running := some (.deletes id) }

def deleteAll (s : NotificationsNotifier) : NotificationsNotifier :=
  { s with
    wipedDuringLoad := s.wipedDuringLoad || 0 < s.loads.length
    state := []
    gone := s.gone ∪ s.known
    running := some .deletesAll }

def mutate (s : NotificationsNotifier) : Mutation → NotificationsNotifier
  | .add notification => s.add notification
  | .addIfNew notification => s.addIfNew notification
  | .addChatMessage messageId cardId fold => s.addChatMessage messageId cardId fold
  | .markRead id => s.markRead id
  | .delete id => s.delete id
  | .deleteAll => s.deleteAll

/-! ## Mutations after their await -/

/-- `_putOnTop`. -/
def putOnTop (s : NotificationsNotifier) (card : NotificationModel) : NotificationsNotifier :=
  if s.mounted then
    { s with
      deletedDuringLoad := s.deletedDuringLoad.erase card.id
      state := card :: s.state.filter (·.id ≠ card.id) }
  else s

/-- The event is stored, if it was not processed. -/
def recordEvent (s : NotificationsNotifier) (notification : NotificationModel) :
    NotificationsNotifier :=
  let (recorded, store) := s.store.saveIfUnprocessed notification
  if recorded then
    { s with
      store := store
      recorded := s.recorded ++ [notification.id]
      running := some (.inserts notification) }
  else { s with store := store, running := none }

/-- The stored event is put on the list. -/
def insertEvent (s : NotificationsNotifier) (notification : NotificationModel) :
    NotificationsNotifier :=
  -- The list is not searched again: what a load put there since the first look stays beside it.
  if s.mounted then
    { s with
      state := notification :: s.state
      inserted := s.inserted ++ [notification.id]
      running := none }
  else { s with running := none }

/-- The message is folded into the stored card. -/
def countMessage (s : NotificationsNotifier) (messageId cardId : String) (fold : Fold) :
    NotificationsNotifier :=
  let (card, store) := s.store.saveChatMessage messageId cardId fold
  { s with
    store := store
    gone := s.gone.filter fun id => id ∉ card.map (·.id)
    running := some (.puts messageId card) }

def putCard (s : NotificationsNotifier) (messageId : String) (card : Option NotificationModel) :
    NotificationsNotifier :=
  let s := { s with
    processedMessages := insert messageId s.processedMessages
    running := none }
  match card with
  | none => s
  | some card => s.putOnTop card

def markCards (s : NotificationsNotifier) (id : Option String) : NotificationsNotifier :=
  let (updated, store) := s.store.markRead id
  { s with store := store, running := some (.shows updated) }

def showCards (s : NotificationsNotifier) (updated : List NotificationModel) :
    NotificationsNotifier :=
  if s.mounted then { s with state := sorted (byId s.state updated), running := none }
  else { s with running := none }

/-- The next step of the mutation at work. -/
def goOn (s : NotificationsNotifier) : Running → NotificationsNotifier
  | .saves notification => { s with store := s.store.save notification, running := none }
  | .records notification => s.recordEvent notification
  | .inserts notification => s.insertEvent notification
  | .counts messageId cardId fold => s.countMessage messageId cardId fold
  | .puts messageId card => s.putCard messageId card
  | .marks id => s.markCards id
  | .shows updated => s.showCards updated
  | .deletes id => { s with store := s.store.deleteRecord id, running := none }
  | .deletesAll => { s with store := s.store.deleteAll, running := none }

/-! ## Loads -/

/-- The load `i` is done. -/
def unload (s : NotificationsNotifier) (i : Nat) : NotificationsNotifier :=
  let s := { s with loads := s.loads.eraseIdx i }
  if s.loads.length = 0 then { s with deletedDuringLoad := ∅, wipedDuringLoad := false } else s

/-- `loadInitialData` of the load `i`, which has read `loaded`. -/
def merge (s : NotificationsNotifier) (i : Nat) (loaded : List NotificationModel) :
    NotificationsNotifier :=
  let s' :=
    if !s.mounted || s.wipedDuringLoad then s
    else
      -- What is on the list wins over what was read.
      let kept := loaded.filter (·.id ∉ s.deletedDuringLoad)
      { s with state := sorted (byId kept s.state) }
  unload { s' with hydrated := s.hydrated || s.mounted } i

/-- What the load `i` has read. -/
def snapshot (s : NotificationsNotifier) (i : Nat) : Option (List NotificationModel) :=
  (s.loads[i]?).join

/-- The app starts again, with nothing but the store. -/
def restart (s : NotificationsNotifier) : NotificationsNotifier :=
  { store := s.store
    gone := s.gone.filter (· ∉ ids s.store.records)
    recorded := s.recorded
    inserted := s.inserted }

end NotificationsNotifier

/-! ## Runs -/

inductive Event where
  /-- A mutation is called, and queued. -/
  | call (m : Mutation)
  | begins
  | goesOn
  | load
  | reads (i : Nat)
  | merges (i : Nat)
  | disposes
  | restarts

def step (s : NotificationsNotifier) : Event → Option NotificationsNotifier
  | .call m => some { s with queue := s.queue ++ [m] }
  | .begins => match s.running, s.queue with
      | none, m :: queue =>
          let s := { s with queue := queue }
          some (if s.mounted then s.mutate m else s)
      | _, _ => none
  | .goesOn => s.running.map s.goOn
  | .load => some { s with loads := s.loads ++ [none] }
  | .reads i =>
      if s.loads[i]? = some none then
        some { s with loads := s.loads.set i (some s.store.loadAll) }
      else none
  | .merges i => (s.snapshot i).map (s.merge i)
  | .disposes => some { s with mounted := false }
  | .restarts => some s.restart

/-- The notifier of an app that starts. -/
def start (store : SembastNotificationsStore) : NotificationsNotifier := { store := store }

namespace NotificationsNotifier

/-! ## Orderly runs -/

/-- The loads in flight are not to bring the notification back. -/
def hidden (s : NotificationsNotifier) (id : String) : Bool :=
  s.wipedDuringLoad || id ∈ s.deletedDuringLoad

/-- The deletion of the notification is yet to be committed. -/
def deleting (s : NotificationsNotifier) (id : String) : Bool :=
  match s.running with
  | some (.deletes deleted) => deleted = id
  | some .deletesAll => true
  | _ => false

/-- The new event that is about to be stored. -/
def recording (s : NotificationsNotifier) : Option String :=
  match s.running with
  | some (.records notification) =>
      if notification.id ∈ s.store.processed then none else some notification.id
  | _ => none

/-- The new event that is on its way to the list. -/
def arriving (s : NotificationsNotifier) : Option String :=
  match s.running with
  | some (.inserts notification) => some notification.id
  | _ => s.recording

/-- No load of a live notifier reads a notification whose deletion is yet to be committed and was
not noted for it, nor merges one that is on its way to the list; and no deleted notification comes
again as a new event. -/
def Orderly (s : NotificationsNotifier) : Event → Prop
  | .reads _ => s.mounted = true → ∀ n ∈ s.store.records, s.deleting n.id → s.hidden n.id
  | .merges i => s.mounted = true →
      ∀ n ∈ (s.snapshot i).getD [], s.arriving = some n.id → s.hidden n.id
  | .goesOn => ∀ id ∈ s.recording, id ∉ s.gone
  | _ => True

instance (s : NotificationsNotifier) : ∀ e, Decidable (s.Orderly e)
  | .reads _ => inferInstanceAs (Decidable (_ → _))
  | .merges _ => inferInstanceAs (Decidable (_ → _))
  | .goesOn => inferInstanceAs (Decidable (∀ id ∈ s.recording, id ∉ s.gone))
  | .call _ | .begins | .load | .disposes | .restarts => instDecidableTrue

/-! ## One notification -/

/-- Where the mutation at work stands with the notification `id`. -/
def stage (s : NotificationsNotifier) (id : String) : Stage NotificationModel :=
  match s.running with
  | some (.saves n) => if n.id = id then .saving n else .idle
  | some (.inserts n) => if n.id = id then .inserting n else .idle
  | some (.puts _ (some n)) => if n.id = id then .showing n else .idle
  | some (.shows updated) => match card id updated with
      | some n => .showing n
      | none => .idle
  | some (.deletes deleted) => if deleted = id then .removing else .idle
  | some .deletesAll => .removing
  | _ => if s.recording = some id then .recording else .idle

def entry (s : NotificationsNotifier) (id : String) : Entry NotificationModel where
  shown := card id s.state
  stored := card id s.store.records
  found := s.loads.reduceOption.map (card id)
  hidden := s.hidden id
  gone := decide (id ∈ s.gone)
  stage := s.stage id
  live := s.mounted
  hydrated := s.hydrated

/-- Every list has its ids once. -/
structure Keys (s : NotificationsNotifier) : Prop where
  state : (ids s.state).Nodup
  store : (ids s.store.records).Nodup
  loads : ∀ loaded ∈ s.loads.reduceOption, (ids loaded).Nodup
  updated : ∀ updated, s.running = some (.shows updated) → (ids updated).Nodup

end NotificationsNotifier

/-! ### The notification in a list -/

variable {id deleted : String} {n : NotificationModel} {l below above : List NotificationModel}

theorem card_eq_none : card id l = none ↔ id ∉ ids l := Records.get_eq_none

theorem card_cons : card id (n :: l) = if n.id = id then some n else card id l := Records.get_cons

theorem card_without : card id (l.filter (·.id ≠ deleted)) =
    if id = deleted then none else card id l := by
  have h : card id (l.filter (·.id ≠ deleted)) =
      if decide (id ≠ deleted) then card id l else none :=
    Records.get_filter fun id => decide (id ≠ deleted)
  rw [h]
  by_cases hid : id = deleted <;> simp [hid]

theorem card_save (store : SembastNotificationsStore) :
    card id (store.save n).records = if n.id = id then some n else card id store.records :=
  Records.get_upsert n store.records

theorem nodup_markRead {store : SembastNotificationsStore} (h : (ids store.records).Nodup)
    (only : Option String) : (ids (store.markRead only).1).Nodup := by
  have hkey : ∀ n : NotificationModel, ({ n with isRead := true } : NotificationModel).id = n.id :=
    fun _ => rfl
  show (List.map _ (List.map _ _)).Nodup
  rw [Records.map_key hkey]
  exact Records.nodup_filter _ h

theorem card_markRead (store : SembastNotificationsStore) (only : Option String) :
    card id (store.markRead only).1 =
      (if only.all (id = ·) then card id store.records else none).map
        fun n => { n with isRead := true } := by
  have hkey : ∀ n : NotificationModel, ({ n with isRead := true } : NotificationModel).id = n.id :=
    fun _ => rfl
  have hfilter : card id (store.records.filter fun n => only.all (n.id = ·)) =
      if only.all (id = ·) then card id store.records else none :=
    Records.get_filter fun id => only.all (id = ·)
  rw [← hfilter]
  exact Records.get_map hkey

/-- What is not among the records that are read now stays as it was. -/
theorem card_markRead_store {store : SembastNotificationsStore} (h : (ids store.records).Nodup)
    (only : Option String) : card id (store.markRead only).2.records =
      (card id (store.markRead only).1).or (card id store.records) :=
  Records.get_merge (nodup_markRead h only)

/-- The message was counted or makes no card, or its card is written. -/
theorem saveChatMessage_cases (store : SembastNotificationsStore) (messageId cardId : String)
    (fold : Fold) :
    (∃ store', store.saveChatMessage messageId cardId fold = (none, store') ∧
      store'.records = store.records) ∨
    ∃ c store', store.saveChatMessage messageId cardId fold = (some c, store') ∧
      store'.records = (store.save c).records := by
  unfold SembastNotificationsStore.saveChatMessage
  by_cases hp : "msg:" ++ messageId ∈ store.processed
  · exact .inl ⟨store, if_pos hp, rfl⟩
  · cases hf : fold (card cardId store.records) with
    | none => exact .inl ⟨_, if_neg hp, rfl⟩
    | some c => exact .inr ⟨c, _, if_neg hp, rfl⟩

theorem nodup_byId (below above : List NotificationModel) : (ids (byId below above)).Nodup := by
  have hnil : (ids []).Nodup := List.nodup_nil
  exact Records.nodup_merge (Records.nodup_merge hnil below) above

theorem card_byId (hu : (ids below).Nodup) (ho : (ids above).Nodup) :
    card id (byId below above) = (card id above).or (card id below) := by
  unfold byId
  rw [card, Records.get_merge ho, Records.get_merge hu, Records.get_nil, Option.or_none]

theorem sorted_perm (l : List NotificationModel) : (sorted l).Perm l := List.perm_insertionSort _ l

theorem nodup_sorted (h : (ids l).Nodup) : (ids (sorted l)).Nodup :=
  ((sorted_perm l).map _).nodup_iff.mpr h

theorem card_sorted (h : (ids l).Nodup) : card id (sorted l) = card id l :=
  Records.get_perm (nodup_sorted h) (sorted_perm l)

namespace NotificationsNotifier

variable {s s' : NotificationsNotifier}

/-! ### What a step does to one notification -/

theorem stage_of_none (hr : s.running = none) : s.stage id = .idle := by
  simp [stage, recording, hr]

/-- Where only the mutation at work moved, and not with this notification, nothing changed. -/
theorem step_running {running : Option Running}
    (hs : NotificationsNotifier.stage { s with running := running } id = s.stage id) :
    Step (s.entry id) (entry { s with running := running } id) :=
  (Step.stay (s.entry id)).of_eq (Entry.ext rfl rfl rfl rfl rfl hs rfl rfl)

theorem step_add (hr : s.running = none) (n : NotificationModel) :
    Step (s.entry id) ((s.add n).entry id) := by
  unfold add
  split
  · exact .stay _
  · by_cases hid : n.id = id
    · subst hid
      refine (Step.add (s.entry n.id) n (stage_of_none hr)).of_eq ?_
      refine Entry.ext ?_ rfl rfl rfl ?_ ?_ rfl rfl
      · exact card_cons.trans (if_pos rfl)
      · simp [entry]
      · simp [entry, stage]
    · refine (Step.stay (s.entry id)).of_eq ?_
      refine Entry.ext ?_ rfl rfl rfl ?_ ?_ rfl rfl
      · exact card_cons.trans (if_neg hid)
      · simp [entry, Ne.symm hid]
      · refine Eq.trans ?_ (stage_of_none hr).symm
        simp [entry, stage, hid]

theorem step_addIfNew (hr : s.running = none) (n : NotificationModel) :
    Step (s.entry id) ((s.addIfNew n).entry id) := by
  have hidle : s.stage id = .idle := stage_of_none hr
  unfold addIfNew
  split
  case isTrue => exact .stay _
  case isFalse hmem =>
    by_cases hnew : n.id = id ∧ n.id ∉ s.store.processed
    · obtain ⟨rfl, hnew⟩ := hnew
      refine (Step.record (s.entry n.id) hidle (card_eq_none.mpr hmem)).of_eq ?_
      refine Entry.ext rfl rfl rfl rfl rfl ?_ rfl rfl
      simp [entry, stage, recording, hnew]
    · refine step_running ?_
      rw [hidle]
      simp only [stage, recording]
      by_cases hp : n.id ∈ s.store.processed
      · simp [hp]
      · have hid : n.id ≠ id := fun hid => hnew ⟨hid, hp⟩
        simp [hp, hid]

theorem step_addChatMessage (hr : s.running = none) (messageId cardId : String)
    (fold : Fold) : Step (s.entry id) ((s.addChatMessage messageId cardId fold).entry id) := by
  unfold addChatMessage
  split
  · exact .stay _
  · refine step_running ?_
    rw [stage_of_none hr]
    rfl

theorem step_markRead (hr : s.running = none) (only : Option String) :
    Step (s.entry id) ((s.markRead only).entry id) := by
  refine step_running ?_
  rw [stage_of_none hr]
  rfl

/-- Without a load in flight nothing was read. -/
theorem found_of_idle (h : decide (0 < s.loads.length) = false) : (s.entry id).found = [] := by
  have hnil : s.loads = [] := by simpa using h
  simp [entry, hnil]

theorem decide_gone {known : Finset String} (h : id ∈ known ↔ id ∈ s.known) :
    decide (id ∈ s.gone ∪ known) =
      (decide (id ∈ s.gone) ||
        ((card id s.state).isSome || (card id s.store.records).isSome)) := by
  rw [Bool.eq_iff_iff]
  simp only [decide_eq_true_eq, Finset.mem_union, Bool.or_eq_true, Option.isSome_iff_ne_none, Ne,
    card_eq_none, not_not, h]
  simp [NotificationsNotifier.known]

theorem step_delete (hr : s.running = none) (deleted : String) :
    Step (s.entry id) ((s.delete deleted).entry id) := by
  by_cases hid : id = deleted
  · subst hid
    refine (Step.remove (s.entry id) _ (stage_of_none hr) found_of_idle).of_eq ?_
    refine Entry.ext ?_ rfl rfl ?_ ?_ ?_ rfl rfl
    · exact card_without.trans (if_pos rfl)
    · by_cases hl : 0 < s.loads.length <;> simp [entry, delete, hidden, hl]
    · refine decide_gone ?_
      simp
    · simp [entry, delete, stage]
  · refine (Step.stay (s.entry id)).of_eq ?_
    refine Entry.ext ?_ rfl rfl ?_ ?_ ?_ rfl rfl
    · exact card_without.trans (if_neg hid)
    · by_cases hl : 0 < s.loads.length <;> simp [entry, delete, hidden, hl, hid]
    · simp [entry, delete, hid]
    · refine Eq.trans ?_ (stage_of_none hr).symm
      simp [entry, delete, stage, Ne.symm hid]

theorem step_deleteAll (hr : s.running = none) : Step (s.entry id) (s.deleteAll.entry id) := by
  refine (Step.remove (s.entry id) _ (stage_of_none hr) found_of_idle).of_eq ?_
  refine Entry.ext rfl rfl rfl ?_ (decide_gone Iff.rfl) rfl rfl rfl
  exact Bool.or_right_comm _ _ _

/-- **A mutation that begins takes each notification a step.** -/
theorem step_mutate (hr : s.running = none) (m : Mutation) :
    Step (s.entry id) ((s.mutate m).entry id) := by
  cases m with
  | add n => exact step_add hr n
  | addIfNew n => exact step_addIfNew hr n
  | addChatMessage messageId cardId fold => exact step_addChatMessage hr messageId cardId fold
  | markRead only => exact step_markRead hr only
  | delete deleted => exact step_delete hr deleted
  | deleteAll => exact step_deleteAll hr

/-- Once the notifier is disposed, what is on its way to the list does not get there. -/
theorem step_leave (hm : s.mounted = false) (hs : s.stage id ≠ .removing) :
    Step (s.entry id) (entry { s with running := none } id) :=
  (Step.leave (s.entry id) hm hs).of_eq (Entry.ext rfl rfl rfl rfl rfl rfl rfl rfl)

theorem step_saves (hr : s.running = some (.saves n)) :
    Step (s.entry id) (entry { s with store := s.store.save n, running := none } id) := by
  by_cases hid : n.id = id
  · have hstage : s.stage id = .saving n := by simp [stage, hr, hid]
    refine (Step.save (s.entry id) n hstage).of_eq ?_
    exact Entry.ext rfl ((card_save s.store).trans (if_pos hid)) rfl rfl rfl rfl rfl rfl
  · have hstage : s.stage id = .idle := by simp [stage, hr, hid]
    refine (Step.stay (s.entry id)).of_eq ?_
    exact Entry.ext rfl ((card_save s.store).trans (if_neg hid)) rfl rfl rfl hstage.symm rfl rfl

theorem step_records (hr : s.running = some (.records n)) (hO : ∀ id ∈ s.recording, id ∉ s.gone) :
    Step (s.entry id) ((s.recordEvent n).entry id) := by
  unfold recordEvent SembastNotificationsStore.saveIfUnprocessed
  by_cases hp : n.id ∈ s.store.processed
  · have hstage : s.stage id = .idle := by simp [stage, recording, hr, hp]
    rw [if_pos hp]
    exact step_running hstage.symm
  · have hrec : s.recording = some n.id := by simp [recording, hr, hp]
    rw [if_neg hp]
    by_cases hid : n.id = id
    · have hstage : s.stage id = .recording := by simp [stage, hr, hrec, hid]
      have hgone : (s.entry id).gone = false := decide_eq_false (hid ▸ hO n.id hrec)
      refine (Step.recorded (s.entry id) n hstage hgone).of_eq ?_
      refine Entry.ext rfl ((card_save _).trans (if_pos hid)) rfl rfl rfl ?_ rfl rfl
      simp [entry, stage, hid]
    · have hstage : s.stage id = .idle := by simp [stage, hr, hrec, hid]
      refine (Step.stay (s.entry id)).of_eq ?_
      refine Entry.ext rfl ((card_save _).trans (if_neg hid)) rfl rfl rfl ?_ rfl rfl
      refine Eq.trans ?_ hstage.symm
      simp [entry, stage, hid]

theorem step_inserts (hr : s.running = some (.inserts n)) :
    Step (s.entry id) ((s.insertEvent n).entry id) := by
  have hstage : s.stage id = if n.id = id then .inserting n else .idle := by simp [stage, hr]
  unfold insertEvent
  by_cases hm : s.mounted = true
  · rw [if_pos hm]
    by_cases hid : n.id = id
    · rw [if_pos hid] at hstage
      refine (Step.put (s.entry id) n (s.hidden id) (.inl hstage) fun h => h).of_eq ?_
      exact Entry.ext (card_cons.trans (if_pos hid)) rfl rfl rfl rfl rfl rfl rfl
    · rw [if_neg hid] at hstage
      refine (Step.stay (s.entry id)).of_eq ?_
      exact Entry.ext (card_cons.trans (if_neg hid)) rfl rfl rfl rfl hstage.symm rfl rfl
  · rw [if_neg hm]
    refine step_leave (Bool.not_eq_true _ ▸ hm) ?_
    rw [hstage]
    split <;> simp

theorem step_counts {messageId cardId : String} {fold : Fold}
    (hr : s.running = some (.counts messageId cardId fold)) :
    Step (s.entry id) ((s.countMessage messageId cardId fold).entry id) := by
  have hstage : s.stage id = .idle := by simp [stage, recording, hr]
  unfold countMessage
  rcases saveChatMessage_cases s.store messageId cardId fold with
    ⟨store, heq, hrecords⟩ | ⟨c, store, heq, hrecords⟩
  · rw [heq]
    refine (Step.stay (s.entry id)).of_eq ?_
    refine Entry.ext rfl (congrArg (card id) hrecords) rfl rfl ?_ hstage.symm rfl rfl
    simp [entry]
  · rw [heq]
    have hstored : card id store.records = if c.id = id then some c else card id s.store.records :=
      (congrArg (card id) hrecords).trans (card_save s.store)
    by_cases hid : c.id = id
    · refine (Step.count (s.entry id) c hstage).of_eq ?_
      refine Entry.ext rfl (hstored.trans (if_pos hid)) rfl rfl ?_ ?_ rfl rfl
      · simp [entry, hid]
      · simp [entry, stage, hid]
    · refine (Step.stay (s.entry id)).of_eq ?_
      refine Entry.ext rfl (hstored.trans (if_neg hid)) rfl rfl ?_ ?_ rfl rfl
      · simp [entry, hid]
      · refine Eq.trans ?_ hstage.symm
        simp [entry, stage, hid]

theorem step_puts {messageId : String} {c : Option NotificationModel}
    (hr : s.running = some (.puts messageId c)) :
    Step (s.entry id) ((s.putCard messageId c).entry id) := by
  unfold putCard
  cases c with
  | none =>
      have hstage : s.stage id = .idle := by simp [stage, recording, hr]
      refine (Step.stay (s.entry id)).of_eq ?_
      exact Entry.ext rfl rfl rfl rfl rfl hstage.symm rfl rfl
  | some c =>
      have hstage : s.stage id = if c.id = id then .showing c else .idle := by simp [stage, hr]
      show Step _ (entry (putOnTop _ c) id)
      unfold putOnTop
      by_cases hm : s.mounted = true
      · rw [if_pos hm]
        by_cases hid : c.id = id
        · rw [if_pos hid] at hstage
          refine (Step.put (s.entry id) c s.wipedDuringLoad (.inr hstage) ?_).of_eq ?_
          · exact fun hw => by simp [entry, hidden, hw]
          · refine Entry.ext (card_cons.trans (if_pos hid)) rfl rfl ?_ rfl rfl rfl rfl
            simp [entry, hidden, hid]
        · rw [if_neg hid] at hstage
          refine (Step.stay (s.entry id)).of_eq ?_
          refine Entry.ext ?_ rfl rfl ?_ rfl hstage.symm rfl rfl
          · refine (card_cons.trans (if_neg hid)).trans ?_
            exact card_without.trans (if_neg (Ne.symm hid))
          · simp [entry, hidden, Ne.symm hid]
      · rw [if_neg hm]
        refine Step.of_eq (step_leave (Bool.not_eq_true _ ▸ hm) ?_) rfl
        rw [hstage]
        split <;> simp

theorem step_marks {only : Option String} (hs : s.Keys) (hr : s.running = some (.marks only)) :
    Step (s.entry id) ((s.markCards only).entry id) := by
  have hstage : s.stage id = .idle := by simp [stage, recording, hr]
  have hstored : card id (s.store.markRead only).2.records =
      (card id (s.store.markRead only).1).or (card id s.store.records) :=
    card_markRead_store hs.store only
  have hupdated : card id (s.store.markRead only).1 =
      (if only.all (id = ·) then card id s.store.records else none).map
        fun n => { n with isRead := true } := card_markRead s.store only
  unfold markCards
  cases hc : card id (s.store.markRead only).1 with
  | none =>
      rw [hc] at hstored
      refine (Step.stay (s.entry id)).of_eq ?_
      refine Entry.ext rfl hstored rfl rfl rfl ?_ rfl rfl
      refine Eq.trans ?_ hstage.symm
      simp [entry, stage, hc]
  | some c =>
      rw [hc] at hstored hupdated
      have hne : (s.entry id).stored ≠ none := by
        intro hn
        have hn' : card id s.store.records = none := hn
        rw [hn', ite_self] at hupdated
        cases hupdated
      refine (Step.mark (s.entry id) c hstage hne).of_eq ?_
      refine Entry.ext rfl hstored rfl rfl rfl ?_ rfl rfl
      simp [entry, stage, hc]

theorem step_shows {updated : List NotificationModel} (hs : s.Keys)
    (hr : s.running = some (.shows updated)) :
    Step (s.entry id) ((s.showCards updated).entry id) := by
  unfold showCards
  by_cases hm : s.mounted = true
  · rw [if_pos hm]
    have hshown : card id (sorted (byId s.state updated)) =
        (card id updated).or (card id s.state) :=
      (card_sorted (nodup_byId _ _)).trans (card_byId hs.state (hs.updated updated hr))
    cases hc : card id updated with
    | none =>
        have hstage : s.stage id = .idle := by simp [stage, hr, hc]
        rw [hc] at hshown
        refine (Step.stay (s.entry id)).of_eq ?_
        exact Entry.ext hshown rfl rfl rfl rfl hstage.symm rfl rfl
    | some c =>
        have hstage : s.stage id = .showing c := by simp [stage, hr, hc]
        rw [hc] at hshown
        refine (Step.put (s.entry id) c (s.hidden id) (.inr hstage) fun h => h).of_eq ?_
        exact Entry.ext hshown rfl rfl rfl rfl rfl rfl rfl
  · rw [if_neg hm]
    refine step_leave (Bool.not_eq_true _ ▸ hm) ?_
    cases hc : card id updated <;> simp [stage, hr, hc]

theorem step_deletes (hr : s.running = some (.deletes deleted)) :
    Step (s.entry id)
      (entry { s with store := s.store.deleteRecord deleted, running := none } id) := by
  by_cases hid : id = deleted
  · have hstage : s.stage id = .removing := by simp [stage, hr, hid]
    refine (Step.removed (s.entry id) hstage).of_eq ?_
    exact Entry.ext rfl (card_without.trans (if_pos hid)) rfl rfl rfl rfl rfl rfl
  · have hstage : s.stage id = .idle := by simp [stage, hr, Ne.symm hid]
    refine (Step.stay (s.entry id)).of_eq ?_
    exact Entry.ext rfl (card_without.trans (if_neg hid)) rfl rfl rfl hstage.symm rfl rfl

theorem step_deletesAll (hr : s.running = some .deletesAll) :
    Step (s.entry id) (entry { s with store := s.store.deleteAll, running := none } id) := by
  have hstage : s.stage id = .removing := by simp [stage, hr]
  exact (Step.removed (s.entry id) hstage).of_eq (Entry.ext rfl rfl rfl rfl rfl rfl rfl rfl)

/-- **A mutation that goes on takes each notification a step.** -/
theorem step_goOn {running : Running} (hs : s.Keys) (hr : s.running = some running)
    (hO : ∀ id ∈ s.recording, id ∉ s.gone) : Step (s.entry id) ((s.goOn running).entry id) := by
  cases running with
  | saves n => exact step_saves hr
  | records n => exact step_records hr hO
  | inserts n => exact step_inserts hr
  | counts messageId cardId fold => exact step_counts hr
  | puts messageId c => exact step_puts hr
  | marks only => exact step_marks hs hr
  | shows updated => exact step_shows hs hr
  | deletes deleted => exact step_deletes hr
  | deletesAll => exact step_deletesAll hr

theorem arriving_of_stage (h : s.stage id = .recording ∨ ∃ n, s.stage id = .inserting n) :
    s.arriving = some id := by
  unfold stage at h
  unfold arriving
  grind [recording]

theorem deleting_of_stage (h : s.stage id = .removing) : s.deleting id = true := by
  unfold stage at h
  unfold deleting
  grind

theorem step_load : Step (s.entry id) (entry { s with loads := s.loads ++ [none] } id) := by
  refine (Step.stay (s.entry id)).of_eq (Entry.ext rfl rfl ?_ rfl rfl rfl rfl rfl)
  simp [entry, List.reduceOption_append]

/-- A load reads what is stored, but for what is being deleted. -/
theorem step_reads {i : Nat}
    (hO : s.mounted = true → ∀ n ∈ s.store.records, s.deleting n.id → s.hidden n.id) :
    Step (s.entry id) (entry { s with loads := s.loads.set i (some s.store.loadAll) } id) := by
  have hfound : ∀ x ∈ (s.loads.set i (some s.store.loadAll)).reduceOption.map (card id),
      x ∈ (s.entry id).found ∨ x = (s.entry id).stored := by
    intro x hx
    obtain ⟨loaded, hloaded, rfl⟩ := List.mem_map.mp hx
    rcases List.mem_or_eq_of_mem_set (List.reduceOption_mem_iff.mp hloaded) with hmem | heq
    · exact .inl (List.mem_map_of_mem (List.reduceOption_mem_iff.mpr hmem))
    · obtain rfl : loaded = s.store.records := Option.some.inj heq
      exact .inr rfl
  refine (Step.read (s.entry id) _ hfound ?_).of_eq rfl
  intro hl hremoving
  cases hc : card id s.store.records with
  | none => exact .inr hc
  | some n =>
      have hid : n.id = id := Records.key_of_get hc
      have hdel : s.deleting n.id = true := hid ▸ deleting_of_stage hremoving
      exact .inl (hid ▸ hO hl n (Records.mem_of_get hc) hdel)

theorem snapshot_mem {i : Nat} (h : s.snapshot i = some l) : l ∈ s.loads.reduceOption := by
  have hget : s.loads[i]? = some (some l) := Option.join_eq_some_iff.mp h
  exact List.reduceOption_mem_iff.mpr (List.mem_of_getElem? hget)

/-- What is noted of the deletions stays while a load is in flight. -/
theorem entry_unload (s : NotificationsNotifier) (i : Nat) :
    (unload s i).entry id =
      { s.entry id with
        found := (s.loads.eraseIdx i).reduceOption.map (card id)
        hidden := if (s.loads.eraseIdx i).length = 0 then false else s.hidden id } := by
  unfold unload
  by_cases hlen : (s.loads.eraseIdx i).length = 0
  · rw [if_pos hlen, if_pos hlen]
    refine Entry.ext rfl rfl rfl ?_ rfl rfl rfl rfl
    simp [entry, hidden]
  · rw [if_neg hlen, if_neg hlen]
    rfl

theorem found_erase {i : Nat} {x : Option NotificationModel}
    (hx : x ∈ (s.loads.eraseIdx i).reduceOption.map (card id)) : x ∈ (s.entry id).found := by
  obtain ⟨loaded, hloaded, rfl⟩ := List.mem_map.mp hx
  have hmem := List.mem_of_mem_eraseIdx (List.reduceOption_mem_iff.mp hloaded)
  exact List.mem_map_of_mem (List.reduceOption_mem_iff.mpr hmem)

/-- What a merge keeps of a snapshot. -/
theorem card_kept (loaded : List NotificationModel) (hw : s.wipedDuringLoad = false) :
    card id (loaded.filter (·.id ∉ s.deletedDuringLoad)) =
      Mirror.under (s.entry id) (card id loaded) := by
  have h : card id (loaded.filter (·.id ∉ s.deletedDuringLoad)) =
      if decide (id ∉ s.deletedDuringLoad) then card id loaded else none :=
    Records.get_filter fun id => decide (id ∉ s.deletedDuringLoad)
  rw [h]
  by_cases hd : id ∈ s.deletedDuringLoad <;> simp [Mirror.under, entry, hidden, hw, hd]

/-- The list after the merge of a snapshot. -/
def mergedState (s : NotificationsNotifier) (loaded : List NotificationModel) :
    List NotificationModel :=
  if !s.mounted || s.wipedDuringLoad then s.state
  else sorted (byId (loaded.filter (·.id ∉ s.deletedDuringLoad)) s.state)

theorem merge_eq (s : NotificationsNotifier) (i : Nat) (loaded : List NotificationModel) :
    s.merge i loaded =
      unload { s with state := s.mergedState loaded, hydrated := s.hydrated || s.mounted } i := by
  unfold merge mergedState
  split <;> rfl

theorem card_mergedState (hs : s.Keys) (hm : s.mounted = true) {loaded : List NotificationModel}
    (hl : (ids loaded).Nodup) : card id (s.mergedState loaded) =
      (card id s.state).or (Mirror.under (s.entry id) (card id loaded)) := by
  unfold mergedState
  rw [hm]
  cases hw : s.wipedDuringLoad with
  | true =>
      have hunder : Mirror.under (s.entry id) (card id loaded) = none := by
        simp [Mirror.under, entry, hidden, hw]
      rw [hunder, Option.or_none]
      rfl
  | false =>
      rw [← card_kept loaded hw]
      show card id (sorted _) = _
      rw [card_sorted (nodup_byId _ _)]
      exact card_byId (Records.nodup_filter _ hl) hs.state

/-- **A merge lays what was read under the list.** -/
theorem step_merges (hs : s.Keys) {i : Nat} {loaded : List NotificationModel}
    (hl : s.snapshot i = some loaded)
    (hO : s.mounted = true → ∀ n ∈ loaded, s.arriving = some n.id → s.hidden n.id) :
    Step (s.entry id) ((s.merge i loaded).entry id) := by
  have hmem : loaded ∈ s.loads.reduceOption := snapshot_mem hl
  rw [merge_eq, entry_unload]
  by_cases hm : s.mounted = true
  · have hfound : card id loaded ∈ (s.entry id).found := List.mem_map_of_mem hmem
    refine (Step.merge (s.entry id) (card id loaded)
      ((s.loads.eraseIdx i).reduceOption.map (card id))
      (if (s.loads.eraseIdx i).length = 0 then false else s.hidden id) hm hfound
      (fun _ hx => found_erase hx) ?_ ?_).of_eq ?_
    · by_cases hlen : (s.loads.eraseIdx i).length = 0
      · refine .inr ⟨if_pos hlen, ?_⟩
        simp [List.length_eq_zero_iff.mp hlen]
      · exact .inl (if_neg hlen)
    · intro hstage
      cases hc : card id loaded with
      | none => exact .inr rfl
      | some n =>
          have hid : n.id = id := Records.key_of_get hc
          have harr : s.arriving = some n.id := hid ▸ arriving_of_stage hstage
          exact .inl (hid ▸ hO hm n (Records.mem_of_get hc) harr)
    · refine Entry.ext (card_mergedState hs hm (hs.loads loaded hmem)) rfl rfl rfl rfl rfl rfl ?_
      simp [entry, hm]
  · have hm' : s.mounted = false := Bool.not_eq_true _ ▸ hm
    have hstate : s.mergedState loaded = s.state := by simp [mergedState, hm']
    refine (Step.drop (s.entry id) ((s.loads.eraseIdx i).reduceOption.map (card id))
      (if (s.loads.eraseIdx i).length = 0 then false else s.hidden id) hm').of_eq ?_
    refine Entry.ext (congrArg (card id) hstate) rfl rfl rfl rfl rfl rfl ?_
    simp [entry, hm']

theorem step_restart : Step (s.entry id) (s.restart.entry id) := by
  refine (Step.restart (s.entry id)).of_eq (Entry.ext rfl rfl rfl ?_ ?_ rfl rfl rfl)
  · simp [entry, restart, hidden]
  · have hnone : decide (id ∉ ids s.store.records) = (card id s.store.records).isNone := by
      rw [Bool.eq_iff_iff, decide_eq_true_eq, Option.isNone_iff_eq_none, card_eq_none]
    show _ = (decide (id ∈ s.gone) && (card id s.store.records).isNone)
    rw [← hnone, ← Bool.decide_and]
    exact decide_eq_decide.mpr Finset.mem_filter

/-- A mutation begins when none is at work, and is passed over once the notifier is disposed. -/
theorem begins_cases (h : step s .begins = some s') :
    s.running = none ∧ ∃ m queue, s.queue = m :: queue ∧
      (s' = { s with queue := queue } ∨ s' = mutate { s with queue := queue } m) := by
  simp only [step] at h
  split at h
  case h_1 m queue hr hq =>
    obtain rfl := Option.some.inj h
    refine ⟨hr, m, queue, hq, ?_⟩
    split
    · exact .inr rfl
    · exact .inl rfl
  case h_2 => cases h

/-- **Each notification takes a step in every orderly step of the notifier.** -/
theorem entry_step {e : Event} (hs : s.Keys) (hO : s.Orderly e) (h : step s e = some s')
    (id : String) : Step (s.entry id) (s'.entry id) := by
  cases e with
  | call m =>
      obtain rfl := Option.some.inj h
      exact (Step.stay (s.entry id)).of_eq rfl
  | begins =>
      obtain ⟨hr, m, queue, -, rfl | rfl⟩ := begins_cases h
      · exact (Step.stay (s.entry id)).of_eq rfl
      · exact step_mutate (s := { s with queue := queue }) hr m
  | goesOn =>
      obtain ⟨running, hr, rfl⟩ := Option.map_eq_some_iff.mp h
      exact step_goOn hs hr hO
  | load =>
      obtain rfl := Option.some.inj h
      exact step_load
  | reads i =>
      obtain ⟨-, heq⟩ := Option.ite_none_right_eq_some.mp h
      obtain rfl := Option.some.inj heq
      exact step_reads hO
  | merges i =>
      obtain ⟨loaded, hl, rfl⟩ := Option.map_eq_some_iff.mp h
      refine step_merges hs hl fun hm n hn => hO hm n ?_
      rw [hl]
      exact hn
  | disposes =>
      obtain rfl := Option.some.inj h
      exact (Step.dispose (s.entry id)).of_eq rfl
  | restarts =>
      obtain rfl := Option.some.inj h
      exact step_restart

end NotificationsNotifier

end MostroApp.Notifications
