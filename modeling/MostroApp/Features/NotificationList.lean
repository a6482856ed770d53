import MostroApp.Features.Notifications

set_option autoImplicit false

/-! # The notification list mirrors its store

In an orderly run the notification list holds the notifications of the store, each once. Two runs
that are not orderly do not: a new event is put on the list without another look at it, so it is
there twice when a load has merged it since it was stored; and a load that starts after a deletion
and reads before its commit brings the notification back (`list_mirrors_store`,
`list_not_mirrors_store`).
-/

namespace MostroApp.Notifications

open Transition
open Mirror (Sound)

namespace NotificationsNotifier

variable {n : NotificationModel} {s s' : NotificationsNotifier}

/-! ## The ids of the lists -/

/-- Up to its await a mutation writes the list and nothing of the store, and is on its way to
neither. -/
structure Begun (s s' : NotificationsNotifier) : Prop where
  store : s'.store = s.store
  loads : s'.loads = s.loads
  recorded : s'.recorded = s.recorded
  inserted : s'.inserted = s.inserted
  inserts : ∀ n, s'.running = some (.inserts n) → s.running = some (.inserts n)
  shows : ∀ updated, s'.running = some (.shows updated) → s.running = some (.shows updated)

theorem Begun.refl (s : NotificationsNotifier) : Begun s s :=
  ⟨rfl, rfl, rfl, rfl, fun _ hn => hn, fun _ hu => hu⟩

theorem begun_mutate (s : NotificationsNotifier) (m : Mutation) : Begun s (s.mutate m) := by
  cases m with
  | add n =>
      show Begun s (s.add n)
      unfold add
      split
      · exact .refl s
      · exact ⟨rfl, rfl, rfl, rfl, nofun, nofun⟩
  | addIfNew n =>
      show Begun s (s.addIfNew n)
      unfold addIfNew
      split
      · exact .refl s
      · exact ⟨rfl, rfl, rfl, rfl, nofun, nofun⟩
  | addChatMessage messageId cardId fold =>
      show Begun s (s.addChatMessage messageId cardId fold)
      unfold addChatMessage
      split
      · exact .refl s
      · exact ⟨rfl, rfl, rfl, rfl, nofun, nofun⟩
  | markRead only => exact ⟨rfl, rfl, rfl, rfl, nofun, nofun⟩
  | delete deleted => exact ⟨rfl, rfl, rfl, rfl, nofun, nofun⟩
  | deleteAll => exact ⟨rfl, rfl, rfl, rfl, nofun, nofun⟩

theorem nodup_mutate (hs : s.Keys) (m : Mutation) : (ids (s.mutate m).state).Nodup := by
  cases m with
  | add n =>
      show (ids (s.add n).state).Nodup
      unfold add
      split
      case isTrue => exact hs.state
      case isFalse hmem => exact List.nodup_cons.mpr ⟨hmem, hs.state⟩
  | addIfNew n =>
      show (ids (s.addIfNew n).state).Nodup
      unfold addIfNew
      split <;> exact hs.state
  | addChatMessage messageId cardId fold =>
      show (ids (s.addChatMessage messageId cardId fold).state).Nodup
      unfold addChatMessage
      split <;> exact hs.state
  | markRead only => exact hs.state
  | delete deleted => exact Records.nodup_filter _ hs.state
  | deleteAll => exact List.nodup_nil

theorem keys_mutate (hs : s.Keys) (m : Mutation) : (s.mutate m).Keys := by
  have hb : Begun s (s.mutate m) := begun_mutate s m
  refine ⟨nodup_mutate hs m, ?_, ?_, fun updated hu => hs.updated updated (hb.shows updated hu)⟩
  · rw [hb.store]
    exact hs.store
  · rw [hb.loads]
    exact hs.loads

theorem nodup_save {store : SembastNotificationsStore} (h : (ids store.records).Nodup)
    (n : NotificationModel) : (ids (store.save n).records).Nodup :=
  Records.nodup_upsert n h

/-- What is put on the list is not on it. -/
theorem nodup_cons_without (hs : s.Keys) (c : NotificationModel) :
    (ids (c :: s.state.filter (·.id ≠ c.id))).Nodup := by
  refine List.nodup_cons.mpr ⟨?_, Records.nodup_filter _ hs.state⟩
  exact card_eq_none.mp (card_without.trans (if_pos rfl))

theorem keys_goOn {running : Running} (hs : s.Keys) (hr : s.running = some running)
    (hsound : ∀ id, Sound (s.entry id)) : (s.goOn running).Keys := by
  cases running with
  | saves n => exact ⟨hs.state, nodup_save hs.store n, hs.loads, by rintro _ ⟨⟩⟩
  | records n =>
      show (s.recordEvent n).Keys
      unfold recordEvent SembastNotificationsStore.saveIfUnprocessed
      by_cases hp : n.id ∈ s.store.processed
      · rw [if_pos hp]
        exact ⟨hs.state, hs.store, hs.loads, by rintro _ ⟨⟩⟩
      · rw [if_neg hp]
        exact ⟨hs.state, nodup_save hs.store n, hs.loads, by rintro _ ⟨⟩⟩
  | inserts n =>
      have hstage : s.stage n.id = .inserting n := by simp [stage, hr]
      have hmem : n.id ∉ ids s.state :=
        card_eq_none.mp ((hsound n.id).inserting n hstage).1
      show (s.insertEvent n).Keys
      unfold insertEvent
      split
      · exact ⟨List.nodup_cons.mpr ⟨hmem, hs.state⟩, hs.store, hs.loads, by rintro _ ⟨⟩⟩
      · exact ⟨hs.state, hs.store, hs.loads, by rintro _ ⟨⟩⟩
  | counts messageId cardId fold =>
      have hstore : (ids (s.store.saveChatMessage messageId cardId fold).2.records).Nodup := by
        rcases saveChatMessage_cases s.store messageId cardId fold with
          ⟨store, heq, hrecords⟩ | ⟨c, store, heq, hrecords⟩
        · rw [heq, hrecords]
          exact hs.store
        · rw [heq, hrecords]
          exact nodup_save hs.store c
      exact ⟨hs.state, hstore, hs.loads, by rintro _ ⟨⟩⟩
  | puts messageId c =>
      cases c with
      | none => exact ⟨hs.state, hs.store, hs.loads, by rintro _ ⟨⟩⟩
      | some c =>
          show (putOnTop _ c).Keys
          unfold putOnTop
          split
          · exact ⟨nodup_cons_without hs c, hs.store, hs.loads, by rintro _ ⟨⟩⟩
          · exact ⟨hs.state, hs.store, hs.loads, by rintro _ ⟨⟩⟩
  | marks only =>
      have hstore : (ids (s.store.markRead only).2.records).Nodup :=
        Records.nodup_merge hs.store _
      refine ⟨hs.state, hstore, hs.loads, ?_⟩
      rintro _ ⟨⟩
      exact nodup_markRead hs.store only
  | shows updated =>
      show (s.showCards updated).Keys
      unfold showCards
      split
      · exact ⟨nodup_sorted (nodup_byId _ _), hs.store, hs.loads, by rintro _ ⟨⟩⟩
      · exact ⟨hs.state, hs.store, hs.loads, by rintro _ ⟨⟩⟩
  | deletes deleted => exact ⟨hs.state, Records.nodup_filter _ hs.store, hs.loads, by rintro _ ⟨⟩⟩
  | deletesAll => exact ⟨hs.state, List.nodup_nil, hs.loads, by rintro _ ⟨⟩⟩

theorem nodup_mergedState (hs : s.Keys) (loaded : List NotificationModel) :
    (ids (s.mergedState loaded)).Nodup := by
  unfold mergedState
  split
  · exact hs.state
  · exact nodup_sorted (nodup_byId _ _)

theorem keys_unload (hs : s.Keys) (i : Nat) : (unload s i).Keys := by
  have hloads : ∀ loaded ∈ (s.loads.eraseIdx i).reduceOption, (ids loaded).Nodup := by
    intro loaded hmem
    have hmem' := List.mem_of_mem_eraseIdx (List.reduceOption_mem_iff.mp hmem)
    exact hs.loads loaded (List.reduceOption_mem_iff.mpr hmem')
  unfold unload
  by_cases hlen : (s.loads.eraseIdx i).length = 0
  · rw [if_pos hlen]
    exact ⟨hs.state, hs.store, hloads, hs.updated⟩
  · rw [if_neg hlen]
    exact ⟨hs.state, hs.store, hloads, hs.updated⟩

/-- **No list gets an id twice.** -/
theorem keys_step {e : Event} (hs : s.Keys) (hsound : ∀ id, Sound (s.entry id))
    (h : step s e = some s') : s'.Keys := by
  cases e with
  | call m =>
      obtain rfl := Option.some.inj h
      exact ⟨hs.state, hs.store, hs.loads, hs.updated⟩
  | begins =>
      obtain ⟨hr, m, queue, -, rfl | rfl⟩ := begins_cases h
      · exact ⟨hs.state, hs.store, hs.loads, hs.updated⟩
      · exact keys_mutate (s := { s with queue := queue })
          ⟨hs.state, hs.store, hs.loads, hs.updated⟩ m
  | goesOn =>
      obtain ⟨running, hr, rfl⟩ := Option.map_eq_some_iff.mp h
      exact keys_goOn hs hr hsound
  | load =>
      obtain rfl := Option.some.inj h
      refine ⟨hs.state, hs.store, ?_, hs.updated⟩
      simpa [List.reduceOption_append] using hs.loads
  | reads i =>
      obtain ⟨-, heq⟩ := Option.ite_none_right_eq_some.mp h
      obtain rfl := Option.some.inj heq
      refine ⟨hs.state, hs.store, ?_, hs.updated⟩
      intro loaded hmem
      rcases List.mem_or_eq_of_mem_set (List.reduceOption_mem_iff.mp hmem) with hmem | heq
      · exact hs.loads loaded (List.reduceOption_mem_iff.mpr hmem)
      · obtain rfl : loaded = s.store.records := Option.some.inj heq
        exact hs.store
  | merges i =>
      obtain ⟨loaded, hl, rfl⟩ := Option.map_eq_some_iff.mp h
      rw [merge_eq]
      have hmerged : Keys { s with
          state := s.mergedState loaded, hydrated := s.hydrated || s.mounted } :=
        ⟨nodup_mergedState hs loaded, hs.store, hs.loads, hs.updated⟩
      exact keys_unload hmerged i
  | disposes =>
      obtain rfl := Option.some.inj h
      exact ⟨hs.state, hs.store, hs.loads, hs.updated⟩
  | restarts =>
      obtain rfl := Option.some.inj h
      exact ⟨List.nodup_nil, hs.store, nofun, nofun⟩

/-! ## New events -/

/-- An event that `addIfNew` stored is in the ledger, and is put on the list once. -/
structure Ledger (s : NotificationsNotifier) : Prop where
  nodup_recorded : s.recorded.Nodup
  recorded_processed : ∀ id ∈ s.recorded, id ∈ s.store.processed
  nodup_inserted : s.inserted.Nodup
  inserted_recorded : ∀ id ∈ s.inserted, id ∈ s.recorded
  inserts : ∀ n, s.running = some (.inserts n) → n.id ∈ s.recorded ∧ n.id ∉ s.inserted

/-- The ledger only grows, so a step that stores no event keeps it. -/
theorem Ledger.frame (hs : s.Ledger) (hrecorded : s'.recorded = s.recorded)
    (hinserted : s'.inserted = s.inserted)
    (hprocessed : ∀ id ∈ s.store.processed, id ∈ s'.store.processed)
    (hrunning : ∀ n, s'.running = some (.inserts n) → s.running = some (.inserts n)) :
    s'.Ledger where
  nodup_recorded := hrecorded ▸ hs.nodup_recorded
  recorded_processed := fun id hid => hprocessed id (hs.recorded_processed id (hrecorded ▸ hid))
  nodup_inserted := hinserted ▸ hs.nodup_inserted
  inserted_recorded := fun id hid => hrecorded ▸ hs.inserted_recorded id (hinserted ▸ hid)
  inserts := fun n hn => by
    rw [hrecorded, hinserted]
    exact hs.inserts n (hrunning n hn)

theorem processed_saveChatMessage (store : SembastNotificationsStore) (messageId cardId : String)
    (fold : Fold) : ∀ id ∈ store.processed,
      id ∈ (store.saveChatMessage messageId cardId fold).2.processed := by
  intro id hid
  unfold SembastNotificationsStore.saveChatMessage
  by_cases hp : "msg:" ++ messageId ∈ store.processed
  · rw [if_pos hp]
    exact hid
  · rw [if_neg hp]
    cases fold (card cardId store.records) with
    | none => exact Finset.mem_insert_of_mem hid
    | some c => exact Finset.mem_insert_of_mem hid

theorem ledger_mutate (hs : s.Ledger) (m : Mutation) : (s.mutate m).Ledger := by
  have hb : Begun s (s.mutate m) := begun_mutate s m
  refine hs.frame hb.recorded hb.inserted (fun id hid => ?_) hb.inserts
  rw [hb.store]
  exact hid

theorem ledger_records (hs : s.Ledger) (n : NotificationModel) : (s.recordEvent n).Ledger := by
  unfold recordEvent SembastNotificationsStore.saveIfUnprocessed
  by_cases hp : n.id ∈ s.store.processed
  · rw [if_pos hp]
    exact hs.frame rfl rfl (fun _ hid => hid) nofun
  · rw [if_neg hp]
    have hnew : n.id ∉ s.recorded := fun hmem => hp (hs.recorded_processed n.id hmem)
    refine ⟨?_, ?_, hs.nodup_inserted, ?_, ?_⟩
    · exact hs.nodup_recorded.append (List.nodup_singleton n.id) (by simpa using hnew)
    · intro id hid
      rcases List.mem_append.mp hid with hid | hid
      · exact Finset.mem_insert_of_mem (hs.recorded_processed id hid)
      · rw [List.mem_singleton.mp hid]
        exact Finset.mem_insert_self _ _
    · exact fun id hid => List.mem_append_left _ (hs.inserted_recorded id hid)
    · rintro _ ⟨⟩
      refine ⟨List.mem_append_right _ (List.mem_singleton.mpr rfl), ?_⟩
      exact fun hmem => hnew (hs.inserted_recorded n.id hmem)

theorem ledger_inserts (hs : s.Ledger) (hr : s.running = some (.inserts n)) :
    (s.insertEvent n).Ledger := by
  obtain ⟨hrecorded, hnew⟩ := hs.inserts n hr
  unfold insertEvent
  split
  · refine ⟨hs.nodup_recorded, hs.recorded_processed, ?_, ?_, nofun⟩
    · exact hs.nodup_inserted.append (List.nodup_singleton n.id) (by simpa using hnew)
    · intro id hid
      rcases List.mem_append.mp hid with hid | hid
      · exact hs.inserted_recorded id hid
      · exact List.mem_singleton.mp hid ▸ hrecorded
  · exact hs.frame rfl rfl (fun _ hid => hid) nofun

theorem ledger_goOn {running : Running} (hs : s.Ledger) (hr : s.running = some running) :
    (s.goOn running).Ledger := by
  cases running with
  | saves n => exact hs.frame rfl rfl (fun _ hid => hid) nofun
  | records n => exact ledger_records hs n
  | inserts n => exact ledger_inserts hs hr
  | counts messageId cardId fold =>
      exact hs.frame rfl rfl (processed_saveChatMessage s.store messageId cardId fold) nofun
  | puts messageId c =>
      cases c with
      | none => exact hs.frame rfl rfl (fun _ hid => hid) nofun
      | some c =>
          show (putOnTop _ c).Ledger
          unfold putOnTop
          split
          · exact hs.frame rfl rfl (fun _ hid => hid) nofun
          · exact hs.frame rfl rfl (fun _ hid => hid) nofun
  | marks only => exact hs.frame rfl rfl (fun _ hid => hid) nofun
  | shows updated =>
      show (s.showCards updated).Ledger
      unfold showCards
      split
      · exact hs.frame rfl rfl (fun _ hid => hid) nofun
      · exact hs.frame rfl rfl (fun _ hid => hid) nofun
  | deletes deleted => exact hs.frame rfl rfl (fun _ hid => hid) nofun
  | deletesAll => exact hs.frame rfl rfl (fun _ hid => hid) nofun

theorem ledger_unload (hs : s.Ledger) (i : Nat) : (unload s i).Ledger := by
  unfold unload
  by_cases hlen : (s.loads.eraseIdx i).length = 0
  · rw [if_pos hlen]
    exact hs.frame rfl rfl (fun _ hid => hid) fun _ hn => hn
  · rw [if_neg hlen]
    exact hs.frame rfl rfl (fun _ hid => hid) fun _ hn => hn

/-- **An event is stored once, and put on the list once, whatever the order of the steps.** -/
theorem ledger_step {e : Event} (hs : s.Ledger) (h : step s e = some s') : s'.Ledger := by
  cases e with
  | call m =>
      obtain rfl := Option.some.inj h
      exact hs.frame rfl rfl (fun _ hid => hid) fun _ hn => hn
  | begins =>
      have hqueue : ∀ queue, Ledger { s with queue := queue } :=
        fun _ => hs.frame rfl rfl (fun _ hid => hid) fun _ hn => hn
      obtain ⟨-, m, queue, -, rfl | rfl⟩ := begins_cases h
      · exact hqueue queue
      · exact ledger_mutate (hqueue queue) m
  | goesOn =>
      obtain ⟨running, hr, rfl⟩ := Option.map_eq_some_iff.mp h
      exact ledger_goOn hs hr
  | load =>
      obtain rfl := Option.some.inj h
      exact hs.frame rfl rfl (fun _ hid => hid) fun _ hn => hn
  | reads i =>
      obtain ⟨-, heq⟩ := Option.ite_none_right_eq_some.mp h
      obtain rfl := Option.some.inj heq
      exact hs.frame rfl rfl (fun _ hid => hid) fun _ hn => hn
  | merges i =>
      obtain ⟨loaded, -, rfl⟩ := Option.map_eq_some_iff.mp h
      rw [merge_eq]
      have hmerged : Ledger { s with
          state := s.mergedState loaded, hydrated := s.hydrated || s.mounted } :=
        hs.frame rfl rfl (fun _ hid => hid) fun _ hn => hn
      exact ledger_unload hmerged i
  | disposes =>
      obtain rfl := Option.some.inj h
      exact hs.frame rfl rfl (fun _ hid => hid) fun _ hn => hn
  | restarts =>
      obtain rfl := Option.some.inj h
      exact hs.frame rfl rfl (fun _ hid => hid) nofun

end NotificationsNotifier

/-! ## Orderly runs keep the list and the store alike -/

open NotificationsNotifier

variable {s s' : NotificationsNotifier}

/-- Every list has its ids once, and the mutation at work is where it should be with each
notification. -/
structure Kept (s : NotificationsNotifier) : Prop where
  keys : s.Keys
  sound : ∀ id, Sound (s.entry id)

theorem kept_start {store : SembastNotificationsStore} (h : (ids store.records).Nodup) :
    Kept (start store) := by
  refine ⟨⟨List.nodup_nil, h, nofun, nofun⟩, fun id => Sound.of_idle rfl ?_ ?_ ?_ ?_ ?_⟩
  · exact nofun
  · exact fun _ => .inr ⟨rfl, rfl⟩
  · exact fun _ _ => nofun
  · exact fun _ => nofun
  · exact fun _ _ _ => nofun

theorem kept_step {e : Event} (hs : Kept s) (hO : s.Orderly e) (h : step s e = some s') :
    Kept s' where
  keys := keys_step hs.keys hs.sound h
  sound id := (hs.sound id).step (entry_step hs.keys hO h id)

/-- A live notifier that has loaded, with nothing under way. -/
def Quiet (s : NotificationsNotifier) : Prop :=
  s.queue = [] ∧ s.running = none ∧ s.loads = [] ∧ s.mounted = true ∧ s.hydrated = true

instance (s : NotificationsNotifier) : Decidable (Quiet s) := inferInstanceAs (Decidable (_ ∧ _))

theorem mem_iff_of_quiet (hs : Kept s) (hq : Quiet s) (n : NotificationModel) :
    n ∈ s.state ↔ n ∈ s.store.records := by
  obtain ⟨-, hr, -, hm, hy⟩ := hq
  have heq : card n.id s.state = card n.id s.store.records :=
    (hs.sound n.id).shown_eq_stored hm (stage_of_none hr) hy
  have hstate := Records.get_eq_some (k := n.id) (a := n) hs.keys.state
  have hstore := Records.get_eq_some (k := n.id) (a := n) hs.keys.store
  rw [and_iff_left rfl] at hstate hstore
  rw [← hstate, ← hstore]
  exact Eq.congr_left heq

/-- **The list mirrors its store.** From any store, with any interleaving of mutations and loads and
across restarts, an event is stored once and put on the list once. And in a run of orderly steps no
id is twice on the list, what was deleted is not there unless it was added again, and once nothing
is under way the list of a live notifier that has loaded holds the notifications of the store. -/
theorem list_mirrors_store (store : SembastNotificationsStore) (evs : List Event)
    (s : NotificationsNotifier) (hstore : (ids store.records).Nodup)
    (hrun : run step (start store) evs = some s) :
    s.recorded.Nodup ∧ s.inserted.Nodup ∧
      (Along step Orderly (start store) evs →
        (ids s.state).Nodup ∧ (∀ id ∈ s.gone, id ∉ ids s.state) ∧
          (Quiet s → ∀ n, n ∈ s.state ↔ n ∈ s.store.records)) := by
  have hledger : Ledger s := by
    refine run_inv (C := fun _ _ => True) (fun _ _ _ hs _ h => ledger_step hs h) ?_
      (along_true _ evs) hrun
    exact ⟨List.nodup_nil, nofun, List.nodup_nil, nofun, nofun⟩
  refine ⟨hledger.nodup_recorded, hledger.nodup_inserted, fun hO => ?_⟩
  have hkept : Kept s :=
    run_inv (fun _ _ _ hs hO h => kept_step hs hO h) (kept_start hstore) hO hrun
  refine ⟨hkept.keys.state, fun id hid => ?_, mem_iff_of_quiet hkept⟩
  exact card_eq_none.mp ((hkept.sound id).gone_shown (decide_eq_true hid))

def trade : NotificationModel := { id := "t", timestamp := 1 }

/-- A load reads before a deletion, which is noted for it, and merges when a new event is stored and
on the list. -/
def orderlyRun : List Event :=
  [.load, .call (.delete "t"), .reads 0, .begins, .goesOn,
    .call (.addIfNew { id := "e", timestamp := 2 }), .begins, .goesOn, .goesOn, .merges 0]

theorem list_mirrors_store_orderly :
    ∃ s, run step (start { records := [trade] }) orderlyRun = some s ∧ s.inserted.Nodup ∧
      ids s.state = ["e"] ∧ "t" ∈ s.gone ∧ "t" ∉ ids s.state ∧
      ∀ n, n ∈ s.state ↔ n ∈ s.store.records := by
  have hany : (run step (start { records := [trade] }) orderlyRun).any fun s =>
      Quiet s ∧ ids s.state = ["e"] ∧ "t" ∈ s.gone := by decide
  obtain ⟨s, hrun, hs⟩ := (Option.any_eq_true _ _).mp hany
  obtain ⟨hquiet, hstate, hgone⟩ := of_decide_eq_true hs
  obtain ⟨-, hinserted, horderly⟩ :=
    list_mirrors_store { records := [trade] } orderlyRun s (by decide) hrun
  obtain ⟨-, hdeleted, hsame⟩ := horderly (by decide)
  exact ⟨s, hrun, hinserted, hstate, hgone, hdeleted "t" hgone, hsame hquiet⟩

/-- A load merges the new event that is stored and not yet on the list. -/
def duplicatingRun : List Event :=
  [.load, .call (.addIfNew trade), .begins, .goesOn, .reads 0, .merges 0, .goesOn]

/-- A load that starts after a deletion reads before its commit. -/
def resurrectingRun : List Event :=
  [.load, .reads 0, .merges 0, .call (.delete "t"), .begins, .load, .reads 0, .goesOn, .merges 0]

/-- A run that puts a notification on the list twice, and one that brings a deleted notification
back, with another list in the end than the store's. -/
theorem list_not_mirrors_store :
    (∃ s, run step (start { records := [] }) duplicatingRun = some s ∧ ¬(ids s.state).Nodup) ∧
      ∃ s, run step (start { records := [trade] }) resurrectingRun = some s ∧
        Quiet s ∧ "t" ∈ s.gone ∧ "t" ∈ ids s.state ∧ "t" ∉ ids s.store.records := by
  constructor
  · have hany : (run step (start { records := [] }) duplicatingRun).any fun s =>
        ¬(ids s.state).Nodup := by decide
    obtain ⟨s, hrun, hs⟩ := (Option.any_eq_true _ _).mp hany
    exact ⟨s, hrun, of_decide_eq_true hs⟩
  · have hany : (run step (start { records := [trade] }) resurrectingRun).any fun s =>
        Quiet s ∧ "t" ∈ s.gone ∧ "t" ∈ ids s.state ∧ "t" ∉ ids s.store.records := by decide
    obtain ⟨s, hrun, hs⟩ := (Option.any_eq_true _ _).mp hany
    exact ⟨s, hrun, of_decide_eq_true hs⟩

end MostroApp.Notifications
