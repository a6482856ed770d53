import MostroApp.Db.Backends
import MostroApp.Lib.Numeral
import MostroApp.Lib.Sorting

set_option autoImplicit false

/-! # Writes of a trade row that fail (`api/orders.rs`)

A trade row and its wipe tombstone are two writes. `wipe_trade_row` deletes the row first and
returns with an error when that fails; `persist_trade_row` lifts the tombstone before it saves the
row, and a save that fails leaves the order with neither. What an order is classified as is then
what it was exactly when there was no tombstone to lose (`failed_writes_keep_iff`).
-/

namespace MostroApp.RowWrites

open Db Rows

/-! ## The stores -/

/-- The id a trade document is stored under, as the deletion reads it. -/
def idOf (d : Json) : Option String := (d.get "id").bind Json.asStr

/-- IndexedDB's trade documents. Each is saved under its own id. -/
structure KeyedStore where
  store : IdbStore
  keyed : ∀ k d, store.lookup k = some d → idOf d = some k

inductive Trades where
  | sqlite (table : SqlTable)
  | indexedDb (docs : KeyedStore)

structure Store where
  trades : Trades
  settings : AList fun _ : String => String

/-- A trade to save, beside the order it is of. -/
structure OrderTrade extends SavedTrade where
  orderId : String
  ofOrder : orderIdOf doc = some orderId

/-- How a deletion goes. It fails as a whole or, where the documents are removed one by one, at
the one after the first `n`. -/
inductive Deletion where
  | succeeds
  | fails
  | stopsAfter (n : Nat)

namespace KeyedStore

/-- The documents of an order, newest first: what its deletion removes, in that order. -/
def ofOrder (docs : KeyedStore) (orderId : String) : List Json :=
  docs.store.documents.filter fun d => orderIdOf d = some orderId

/-- The deletion's pass over some documents. -/
def erase (docs : KeyedStore) (orderId : String) (l : List Json) : KeyedStore where
  store := l.foldl (IdbStore.deleteOne orderId) docs.store
  keyed k d h := docs.keyed k d (lookup_foldl_deleteOne.mp h).1

def insert (docs : KeyedStore) (t : SavedTrade) : KeyedStore where
  store := docs.store.insert t.id t.doc
  keyed k d h := by
    by_cases hk : k = t.id
    · subst hk
      rw [AList.lookup_insert] at h
      obtain rfl := Option.some.inj h
      simp [idOf, t.shaped.id, Json.asStr]
    · rw [AList.lookup_insert_ne hk] at h
      exact docs.keyed k d h

/-- `delete_trade_by_order_id`; whether it succeeded. -/
def deleteTrades (docs : KeyedStore) (orderId : String) : Deletion → KeyedStore × Bool
  | .succeeds => (docs.erase orderId docs.store.documents, true)
  | .fails => (docs, false)
  | .stopsAfter n =>
      if n < (docs.ofOrder orderId).length then
        (docs.erase orderId ((docs.ofOrder orderId).take n), false)
      else (docs.erase orderId docs.store.documents, true)

end KeyedStore

namespace Trades

variable {T : Type}

/-- `get_trade_by_order_id`. -/
def getByOrderId (R : Reader T) (E : Engine) (orderId : String) : Trades → Answer T
  | sqlite table => table.answer R E (.getTradeByOrderId orderId)
  | indexedDb docs => (docs.store.exec R (.getTradeByOrderId orderId)).2

def save (t : SavedTrade) : Trades → Trades
  | sqlite table => sqlite (table.after (.saveTrade t))
  | indexedDb docs => indexedDb (docs.insert t)

/-- `delete_trade_by_order_id`; whether it succeeded. SQLite's one statement fails as a whole. -/
def deleteByOrderId (orderId : String) (deletion : Deletion) : Trades → Trades × Bool
  | sqlite table =>
      match deletion with
      | .succeeds => (sqlite (table.after (.deleteTradeByOrderId orderId)), true)
      | .fails | .stopsAfter _ => (sqlite table, false)
  | indexedDb docs => (indexedDb (docs.deleteTrades orderId deletion).1,
      (docs.deleteTrades orderId deletion).2)

end Trades

/-! ## Classification -/

inductive RowState (T : Type) where
  | exists (trade : T)
  | wiped
  | neverWritten
  | unknown

/-- `settings_keys::trade_wiped`. -/
def tradeWiped (orderId : String) : String := "trade_wiped:" ++ orderId

/-- Whether a tombstone's text covers messages to a trade-key index. -/
def tombstoneCovers (value : List Char) (tradeIndex : UInt32) : Bool :=
  let wipedIndex :=
    ((value.splitOn ':')[1]?.bind (Numeral.parseUnsigned (2 ^ 32))).getD (2 ^ 32 - 1)
  tradeIndex.toNat ≤ wipedIndex

variable {T : Type}

/-- What the lookup of the row answers, and the tombstone where there is one, make of an order. -/
def classified (row : Answer T) (tombstone : Option String) (tradeIndex : UInt32) : RowState T :=
  match row with
  | .found (some trade) => .exists trade
  | .found none =>
      if tombstone.any fun value => tombstoneCovers value.toList tradeIndex then .wiped
      else .neverWritten
  | _ => .unknown

/-- `trade_row_state`, where the database answers. -/
def tradeRowState (R : Reader T) (E : Engine) (db : Store) (orderId : String)
    (tradeIndex : UInt32) : RowState T :=
  classified (db.trades.getByOrderId R E orderId) (db.settings.lookup (tradeWiped orderId))
    tradeIndex

/-! ## The writes -/

/-- `wipe_trade_row`; whether it returned without an error. A tombstone that is not written is
only logged. -/
def wipeTradeRow (deletion : Deletion) (noteFails : Bool) (orderId : String) (wipedAt : Int)
    (wipedIndex : UInt32) (db : Store) : Store × Bool :=
  let deleted := db.trades.deleteByOrderId orderId deletion
  if deleted.2 then
    let value := toString wipedAt ++ ":" ++ toString wipedIndex.toNat
    ({ trades := deleted.1
       settings :=
        if noteFails then db.settings else db.settings.insert (tradeWiped orderId) value }, true)
  else ({ db with trades := deleted.1 }, false)

/-- `persist_trade_row`; whether it returned without an error. A tombstone that is not lifted is
only logged. -/
def persistTradeRow (liftFails saveFails : Bool) (trade : OrderTrade) (db : Store) :
    Store × Bool :=
  let lifted :=
    if liftFails then db
    else { db with settings := db.settings.erase (tradeWiped trade.orderId) }
  if saveFails then (lifted, false)
  else ({ lifted with trades := lifted.trades.save trade.toSavedTrade }, true)

/-! ## Deletions cut short -/

variable {docs : KeyedStore} {orderId : String} {l : List Json} {d : Json}

theorem KeyedStore.exists_key (hd : d ∈ docs.store.documents) :
    ∃ k, docs.store.lookup k = some d ∧ idOf d = some k := by
  obtain ⟨k, hk⟩ := mem_documents.mp hd
  exact ⟨k, hk, docs.keyed k d hk⟩

/-- No two documents have one id. -/
theorem KeyedStore.documents_nodup (docs : KeyedStore) :
    (docs.store.documents.map idOf).Nodup := by
  have hids : (docs.store.entries.map fun e => idOf e.2) = docs.store.keys.map some := by
    show _ = (docs.store.entries.map Sigma.fst).map some
    rw [List.map_map]
    exact List.map_congr_left fun e he => docs.keyed e.1 e.2 (AList.mem_lookup_iff.mpr he)
  have hperm : docs.store.documents.Perm (docs.store.entries.map fun e => e.2) :=
    (List.perm_insertionSort _ _).trans ((List.perm_insertionSort _ _).map _)
  rw [(hperm.map idOf).nodup_iff, List.map_map]
  show (docs.store.entries.map fun e => idOf e.2).Nodup
  rw [hids]
  exact docs.store.nodupKeys.map (Option.some_injective _)

theorem kerase_eq_filter {m : List (Sigma fun _ : String => Json)} (hm : m.NodupKeys)
    (k : String) : m.kerase k = m.filter fun e => e.1 ≠ k := by
  induction m with
  | nil => rfl
  | cons e m ih =>
      have hrest := (List.nodupKeys_cons.mp hm).1
      by_cases hk : k = e.1
      · rw [List.kerase_cons_eq hk, List.filter_cons_of_neg (by simp [hk])]
        refine (List.filter_eq_self.mpr fun e' he' => ?_).symm
        have hne : e'.1 ≠ k := fun heq =>
          hrest (hk ▸ heq ▸ List.mem_map_of_mem he')
        exact decide_eq_true hne
      · rw [List.kerase_cons_ne hk, List.filter_cons_of_pos (by simpa using Ne.symm hk),
          ih (List.nodupKeys_cons.mp hm).2]

/-- A removed document leaves the others in their order. -/
theorem KeyedStore.documents_erase_key (docs : KeyedStore) (k : String) :
    IdbStore.documents (docs.store.erase k) =
      docs.store.documents.filter fun d => idOf d ≠ some k := by
  have hentries : (docs.store.erase k).entries =
      docs.store.entries.filter fun e => idOf e.2 ≠ some k := by
    show docs.store.entries.kerase k = _
    rw [kerase_eq_filter docs.store.nodupKeys]
    refine List.filter_congr fun e he => ?_
    rw [docs.keyed e.1 e.2 (AList.mem_lookup_iff.mpr he)]
    simp
  have htotal : Std.Total fun a b : Json => startedAtOf b ≤ startedAtOf a :=
    ⟨fun a b => Int.le_total (startedAtOf b) (startedAtOf a)⟩
  have htrans : IsTrans Json fun a b => startedAtOf b ≤ startedAtOf a :=
    ⟨fun _ _ _ hab hbc => Int.le_trans hbc hab⟩
  have htotal' : Std.Total fun a b : Sigma fun _ : String => Json => a.1 ≤ b.1 :=
    ⟨fun a b => String.le_total a.1 b.1⟩
  have htrans' : IsTrans (Sigma fun _ : String => Json) fun a b => a.1 ≤ b.1 :=
    ⟨fun _ _ _ hab hbc => String.le_trans hab hbc⟩
  unfold IdbStore.documents
  rw [hentries, Sorting.filter_insertionSort, List.filter_map, ← Sorting.filter_insertionSort]
  rfl

theorem KeyedStore.documents_erase (docs : KeyedStore)
    (hl : ∀ d ∈ l, orderIdOf d = some orderId ∧ ∃ k, idOf d = some k) :
    (docs.erase orderId l).store.documents =
      docs.store.documents.filter fun d => idOf d ∉ l.map idOf := by
  induction l generalizing docs with
  | nil => simp [KeyedStore.erase]
  | cons d l ih =>
      obtain ⟨horder, k, hk⟩ := hl d List.mem_cons_self
      have hone : (docs.erase orderId [d]).store = docs.store.erase k := by
        show IdbStore.deleteOne orderId docs.store d = _
        unfold IdbStore.deleteOne
        rw [if_pos horder]
        change (d.get "id").bind Json.asStr = some k at hk
        rw [hk]
      calc (docs.erase orderId (d :: l)).store.documents
          = ((docs.erase orderId [d]).erase orderId l).store.documents := rfl
        _ = (docs.erase orderId [d]).store.documents.filter fun d => idOf d ∉ l.map idOf :=
            ih _ fun d' hd' => hl d' (List.mem_cons_of_mem d hd')
        _ = docs.store.documents.filter fun d' => idOf d' ∉ (d :: l).map idOf := by
            rw [hone, docs.documents_erase_key, List.filter_filter]
            refine List.filter_congr fun d' _ => ?_
            simp [hk, Bool.and_comm]

/-- **The lookup after a deletion that stops** finds the document at which it stopped. -/
theorem KeyedStore.documentByOrderId_stopped (docs : KeyedStore) (orderId : String) (n : Nat) :
    (docs.erase orderId ((docs.ofOrder orderId).take n)).store.documentByOrderId orderId =
      (docs.ofOrder orderId)[n]? := by
  have hmem : ∀ d ∈ (docs.ofOrder orderId).take n,
      orderIdOf d = some orderId ∧ ∃ k, idOf d = some k := by
    intro d hd
    obtain ⟨hd, horder⟩ := List.mem_filter.mp (List.mem_of_mem_take hd)
    obtain ⟨k, -, hk⟩ := KeyedStore.exists_key hd
    exact ⟨by simpa using horder, k, hk⟩
  have hnodup : ((docs.ofOrder orderId).map idOf).Nodup :=
    docs.documents_nodup.sublist (List.filter_sublist.map idOf)
  -- The first `n` go, and no later one has the id of one of them.
  have hleft : (docs.ofOrder orderId).filter
      (fun d => idOf d ∉ ((docs.ofOrder orderId).take n).map idOf) =
        (docs.ofOrder orderId).drop n := by
    rw [← List.take_append_drop n (docs.ofOrder orderId), List.map_append,
      List.nodup_append] at hnodup
    calc _ = ((docs.ofOrder orderId).take n ++ (docs.ofOrder orderId).drop n).filter
          (fun d => idOf d ∉ ((docs.ofOrder orderId).take n).map idOf) := by
            rw [List.take_append_drop]
      _ = [] ++ (docs.ofOrder orderId).drop n := by
            rw [List.filter_append]
            refine congrArg₂ _ (List.filter_eq_nil_iff.mpr fun d hd => ?_)
              (List.filter_eq_self.mpr fun d hd => ?_)
            · have hkept := List.mem_map_of_mem (f := idOf) hd
              simpa using hkept
            · refine decide_eq_true fun hmem => ?_
              exact hnodup.2.2 _ hmem _ (List.mem_map_of_mem hd) rfl
      _ = (docs.ofOrder orderId).drop n := List.nil_append _
  unfold IdbStore.documentByOrderId
  rw [docs.documents_erase hmem, ← List.head?_filter, List.filter_filter]
  calc _ = ((docs.ofOrder orderId).filter
        (fun d => idOf d ∉ ((docs.ofOrder orderId).take n).map idOf)).head? := by
          rw [KeyedStore.ofOrder, List.filter_filter]
          simp only [Bool.and_comm]
    _ = (docs.ofOrder orderId)[n]? := by rw [hleft, List.head?_drop]

/-! ## What a failed write leaves -/

variable {R : Reader T} {E : Engine} {db : Store} {trade : OrderTrade} {liftFails saveFails : Bool}
  {deletion : Deletion} {noteFails : Bool} {wipedAt : Int} {wipedIndex : UInt32}

/-- A save that fails takes no tombstone with it. -/
def KeepsTombstone (R : Reader T) (E : Engine) (db : Store) (orderId : String)
    (liftFails : Bool) : Prop :=
  liftFails = true ∨ db.settings.lookup (tradeWiped orderId) = none ∨
    db.trades.getByOrderId R E orderId ≠ .found none

/-- A deletion that stops leaves a document that reads as the order's newest. -/
def KeepsNewest (R : Reader T) (db : Store) (orderId : String) (deletion : Deletion) : Prop :=
  match db.trades, deletion with
  | .indexedDb docs, .stopsAfter n =>
      ∀ first ∈ (docs.ofOrder orderId)[0]?, ∀ left ∈ (docs.ofOrder orderId)[n]?,
        R.read left = R.read first
  | _, _ => True

/-- Every tombstone covers the first key index. -/
theorem tombstoneCovers_zero (value : List Char) : tombstoneCovers value 0 = true := by
  unfold tombstoneCovers
  exact decide_eq_true (Nat.zero_le _)

/-- Without its tombstone an order is classified as before when there was none, or the lookup
answers something else than that there is no row. -/
theorem classified_none_iff {a : Answer T} {tombstone : Option String} :
    (∀ i, classified a none i = classified a tombstone i) ↔ tombstone = none ∨ a ≠ .found none := by
  constructor
  · intro hkeep
    by_contra hlost
    rw [not_or, not_not] at hlost
    obtain ⟨value, rfl⟩ := Option.ne_none_iff_exists'.mp hlost.1
    obtain rfl := hlost.2
    have hfirst := hkeep 0
    simp [classified, tombstoneCovers_zero] at hfirst
  · rintro (rfl | hrow) i
    · rfl
    · cases a with
      | found row =>
          cases row with
          | some trade => rfl
          | none => exact absurd rfl hrow
      | done | listed ts | failed => rfl

/-- Two documents classify their order alike when they read alike. -/
theorem classified_answer_iff {d d' : Json} {tombstone : Option String} :
    (∀ i, classified (R.answer (some d)) tombstone i =
      classified (R.answer (some d')) tombstone i) ↔ R.read d = R.read d' := by
  have hanswer : ∀ d i, classified (R.answer (some d)) tombstone i =
      (R.read d).elim .unknown .exists := by
    intro d i
    simp only [Reader.answer]
    cases R.read d <;> rfl
  simp only [hanswer]
  cases R.read d <;> cases R.read d' <;> simp

/-- **A failed save keeps the classification when it takes no tombstone.** -/
theorem persistTradeRow_keeps_iff
    (h : (persistTradeRow liftFails saveFails trade db).2 = false) :
    (∀ i, tradeRowState R E (persistTradeRow liftFails saveFails trade db).1 trade.orderId i =
        tradeRowState R E db trade.orderId i) ↔
      KeepsTombstone R E db trade.orderId liftFails := by
  cases saveFails with
  | false => cases h
  | true =>
      cases liftFails with
      | true => exact ⟨fun _ => Or.inl rfl, fun _ _ => rfl⟩
      | false =>
          have hlifted : tradeRowState R E (persistTradeRow false true trade db).1 trade.orderId =
              classified (db.trades.getByOrderId R E trade.orderId) none := by
            show classified _ ((db.settings.erase (tradeWiped trade.orderId)).lookup
              (tradeWiped trade.orderId)) = _
            rw [AList.lookup_erase]
            rfl
          rw [hlifted]
          exact classified_none_iff.trans ⟨Or.inr, fun h => h.resolve_left Bool.false_ne_true⟩

theorem wipeTradeRow_failed
    (h : (wipeTradeRow deletion noteFails orderId wipedAt wipedIndex db).2 = false) :
    (db.trades.deleteByOrderId orderId deletion).2 = false ∧
      (wipeTradeRow deletion noteFails orderId wipedAt wipedIndex db).1 =
        { db with trades := (db.trades.deleteByOrderId orderId deletion).1 } := by
  unfold wipeTradeRow at h ⊢
  dsimp only at h ⊢
  cases hdone : (db.trades.deleteByOrderId orderId deletion).2 with
  | true => simp [hdone] at h
  | false => exact ⟨rfl, rfl⟩

/-- **A failed deletion keeps the classification when it leaves the newest document's reading.** -/
theorem wipeTradeRow_keeps_iff
    (h : (wipeTradeRow deletion noteFails orderId wipedAt wipedIndex db).2 = false) :
    (∀ i, tradeRowState R E (wipeTradeRow deletion noteFails orderId wipedAt wipedIndex db).1
        orderId i = tradeRowState R E db orderId i) ↔ KeepsNewest R db orderId deletion := by
  obtain ⟨hfailed, hleft⟩ := wipeTradeRow_failed h
  rw [hleft]
  obtain ⟨trades, settings⟩ := db
  cases trades with
  | sqlite table =>
      cases deletion with
      | succeeds => cases hfailed
      | fails | stopsAfter n => exact ⟨fun _ => trivial, fun _ _ => rfl⟩
  | indexedDb docs =>
      cases deletion with
      | succeeds => cases hfailed
      | fails => exact ⟨fun _ => trivial, fun _ _ => rfl⟩
      | stopsAfter n =>
          unfold Trades.deleteByOrderId KeyedStore.deleteTrades at hfailed ⊢
          dsimp only at hfailed ⊢
          by_cases hn : n < (docs.ofOrder orderId).length
          · rw [if_pos hn]
            have hpos : 0 < (docs.ofOrder orderId).length := Nat.zero_lt_of_lt hn
            have hbefore : docs.store.documentByOrderId orderId =
                some (docs.ofOrder orderId)[0] := by
              unfold IdbStore.documentByOrderId
              rw [← List.head?_filter, ← List.getElem?_eq_getElem hpos, ← List.head?_eq_getElem?]
              rfl
            have hafter := docs.documentByOrderId_stopped orderId n
            rw [List.getElem?_eq_getElem hn] at hafter
            show (∀ i, classified (R.answer (IdbStore.documentByOrderId _ orderId)) _ i =
              classified (R.answer (docs.store.documentByOrderId orderId)) _ i) ↔ _
            rw [hbefore, hafter]
            unfold KeepsNewest
            dsimp only
            rw [List.getElem?_eq_getElem hpos, List.getElem?_eq_getElem hn]
            exact classified_answer_iff.trans
              ⟨fun heq _ hfirst _ hleft => by
                rw [← Option.some.inj hfirst, ← Option.some.inj hleft]
                exact heq,
              fun hkeep => hkeep _ rfl _ rfl⟩
          · rw [if_neg hn] at hfailed
            cases hfailed

/-- **Failed writes and the classification.** When `persist_trade_row` fails, the order is
classified as before, for every key index, exactly when the tombstone was not lifted, there was
none, or the lookup does not say that the order has no row. When `wipe_trade_row` fails, exactly
when no removal went through, or the first document left reads as the newest did. -/
theorem failed_writes_keep_iff (R : Reader T) (E : Engine) (db : Store) :
    (∀ liftFails saveFails trade,
      (persistTradeRow liftFails saveFails trade db).2 = false →
        ((∀ i, tradeRowState R E (persistTradeRow liftFails saveFails trade db).1
            trade.orderId i = tradeRowState R E db trade.orderId i) ↔
          KeepsTombstone R E db trade.orderId liftFails)) ∧
    ∀ deletion noteFails orderId wipedAt wipedIndex,
      (wipeTradeRow deletion noteFails orderId wipedAt wipedIndex db).2 = false →
        ((∀ i, tradeRowState R E
            (wipeTradeRow deletion noteFails orderId wipedAt wipedIndex db).1 orderId i =
              tradeRowState R E db orderId i) ↔
          KeepsNewest R db orderId deletion) :=
  ⟨fun _ _ _ h => persistTradeRow_keeps_iff h, fun _ _ _ _ _ h => wipeTradeRow_keeps_iff h⟩

/-! ## A save that fails after the lift -/

/-- A reader that reads no document. -/
def unreadable : Reader Unit := ⟨fun _ => none, fun _ => 0, fun _ _ h => nomatch h⟩

noncomputable def anyEngine : Engine := .picking ⟨.null, 0⟩

/-- An order wiped on key index 3 that is saved anew. -/
def retaken : OrderTrade where
  doc := .obj [("id", .str "row"), ("started_at", .num 0), ("order", .obj [("id", .str "o")])]
  id := "row"
  startedAt := 0
  shaped := ⟨rfl, rfl, _, rfl⟩
  orderId := "o"
  ofOrder := rfl

def wipedStore : Store where
  trades := .sqlite ∅
  settings := (∅ : AList fun _ : String => String).insert (tradeWiped "o") "5:3"

/-- No row is found in an empty table. -/
theorem wipedStore_no_row (R : Reader T) (E : Engine) :
    wipedStore.trades.getByOrderId R E "o" = .found none := by
  have hnone : E.limitOne [] = none := by
    cases h : E.limitOne [] with
    | none => rfl
    | some r => cases E.limitOne_mem [] r h
  show R.answer ((E.limitOne []).map fun r => r.data) = _
  rw [hnone]
  rfl

/-- **The lifted tombstone is lost**: the save fails, and replays of the wiped trade are of an
order never written. -/
theorem failed_save_uncovers_replays :
    ¬∀ (R : Reader Unit) (E : Engine) (db : Store) (liftFails saveFails : Bool)
        (trade : OrderTrade), (persistTradeRow liftFails saveFails trade db).2 = false →
      ∀ i, tradeRowState R E (persistTradeRow liftFails saveFails trade db).1 trade.orderId i =
        tradeRowState R E db trade.orderId i := by
  intro hkeep
  have hstate := hkeep unreadable anyEngine wipedStore false true retaken rfl 3
  have hnow : (wipedStore.settings.erase (tradeWiped "o")).lookup (tradeWiped "o") = none :=
    AList.lookup_erase _ _
  have hthen : wipedStore.settings.lookup (tradeWiped "o") = some "5:3" := AList.lookup_insert _
  have hcovers : tombstoneCovers ['5', ':', '3'] 3 = true := by decide
  change classified (wipedStore.trades.getByOrderId _ _ "o")
      ((wipedStore.settings.erase (tradeWiped "o")).lookup (tradeWiped "o")) 3 =
    classified (wipedStore.trades.getByOrderId _ _ "o")
      (wipedStore.settings.lookup (tradeWiped "o")) 3 at hstate
  rw [wipedStore_no_row, hnow, hthen] at hstate
  simp [classified, hcovers] at hstate

/-- A reader of the start alone. -/
def startReader : Reader Int :=
  ⟨fun d => some (startedAtOf d), id, fun _ _ h => (Option.some.inj h).symm⟩

/-- A second document of the order, from the same second. -/
def repeated : SavedTrade where
  doc := .obj [("id", .str "row2"), ("started_at", .num 0), ("order", .obj [("id", .str "o")])]
  id := "row2"
  startedAt := 0
  shaped := ⟨rfl, rfl, _, rfl⟩

def twiceStored : KeyedStore :=
  (KeyedStore.insert ⟨∅, fun _ _ h => nomatch h⟩ retaken.toSavedTrade).insert repeated

/-- A wiped order whose tombstone cannot be lifted either stays wiped. A stored one stays, of whose
two documents a wipe removes the first and fails at the second. -/
theorem failed_writes_of_wiped_and_stored :
    ((∀ i, tradeRowState startReader anyEngine (persistTradeRow true true retaken wipedStore).1
          "o" i = tradeRowState startReader anyEngine wipedStore "o" i) ∧
        tradeRowState startReader anyEngine wipedStore "o" 3 = .wiped) ∧
      (∀ i, tradeRowState startReader anyEngine
          (wipeTradeRow (.stopsAfter 1) false "o" 9 3 ⟨.indexedDb twiceStored, ∅⟩).1 "o" i =
        tradeRowState startReader anyEngine ⟨.indexedDb twiceStored, ∅⟩ "o" i) ∧
      tradeRowState startReader anyEngine ⟨.indexedDb twiceStored, ∅⟩ "o" 3 = .exists 0 ∧
      (twiceStored.deleteTrades "o" (.stopsAfter 1)).1.ofOrder "o" = [repeated.doc] := by
  refine ⟨⟨?_, ?_⟩, ?_, rfl, rfl⟩
  · exact ((failed_writes_keep_iff startReader anyEngine wipedStore).1 true true retaken rfl).mpr
      (Or.inl rfl)
  · have hnote : wipedStore.settings.lookup (tradeWiped "o") = some "5:3" := AList.lookup_insert _
    have hcovers : tombstoneCovers ['5', ':', '3'] 3 = true := by decide
    unfold tradeRowState
    rw [wipedStore_no_row, hnote]
    simp [classified, hcovers]
  · refine ((failed_writes_keep_iff startReader anyEngine ⟨.indexedDb twiceStored, ∅⟩).2
      (.stopsAfter 1) false "o" 9 3 rfl).mpr fun first hfirst left hleft => ?_
    -- Both documents start in one second, which is all that is read of them.
    obtain rfl : retaken.doc = first := Option.some.inj hfirst
    obtain rfl : repeated.doc = left := Option.some.inj hleft
    rfl

end MostroApp.RowWrites
