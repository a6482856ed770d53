import MostroApp.Db.TradeStore
import MostroApp.Lib.Transition

set_option autoImplicit false

/-! # The two backends side by side

A sequence of operations is run on both stores from empty. As long as the stores hold the same
documents, an operation keeps them in agreement exactly when it does not part them: an update
must find one document to patch where SQLite patches every match, a read by order id must not
depend on which match is returned. By that step condition the agreement over a whole sequence is
characterised (`backends_agree_iff`).
-/

namespace MostroApp.Db

open Rows Transition

variable {T : Type} {R : Reader T}

/-! ## Sequences of operations -/

structure Backends where
  sql : SqlTable
  idb : IdbStore

/-- One operation on both. -/
def Backends.next (R : Reader T) (b : Backends) (op : TradeOp) : Option Backends :=
  some ⟨b.sql.after op, (b.idb.exec R op).1⟩

def Backends.empty : Backends := ⟨∅, ∅⟩

/-- The two hold the same documents. -/
def Backends.Same (b : Backends) : Prop :=
  ∀ k, (b.sql.lookup k).map (fun r => r.data) = b.idb.lookup k

/-- The operation returns the same on both, whatever SQLite does where it is free, and leaves the
same documents. -/
def Agrees (R : Reader T) (b : Backends) (op : TradeOp) : Prop :=
  (∀ E : Engine, (b.sql.answer R E op).Same R (b.idb.exec R op).2) ∧
    Backends.Same ⟨b.sql.after op, (b.idb.exec R op).1⟩

/-- The operation does not part the backends. An update finds no document of its order, or one to
patch, does not store an infinite rating in it, and leaves the order's other documents, if there
are, as they are; one that is refused finds a document. What a read by order id finds reads as the
newest does. -/
def Unparted (R : Reader T) (b : Backends) : TradeOp → Prop
  | .getTradeByOrderId orderId =>
      ∀ first, b.idb.documentByOrderId orderId = some first →
        ∀ k d, b.idb.lookup k = some d → orderIdOf d = some orderId → R.read d = R.read first
  | .update orderId p =>
      match p.sets orderId with
      | .error _ => b.idb.documentByOrderId orderId ≠ none
      | .ok sets =>
          ∀ first, b.idb.documentByOrderId orderId = some first →
            p.infinite = false ∧ ∀ k d, b.idb.lookup k = some d → orderIdOf d = some orderId →
              d ≠ first → Json.setAll sets d = d
  | _ => True

/-- The backends agree, and every row is shaped as it was saved. -/
structure Backends.Inv (b : Backends) : Prop where
  same : b.Same
  shaped : ∀ k r, b.sql.lookup k = some r → Shaped r.data k r.startedAt

/-! ## Documents -/

variable {b : Backends} {store : IdbStore} {orderId k : String} {d : Json}

theorem mem_documents : d ∈ store.documents ↔ ∃ k, store.lookup k = some d := by
  unfold IdbStore.documents
  rw [(List.perm_insertionSort _ _).mem_iff, ((List.perm_insertionSort _ _).map _).mem_iff]
  exact mem_values

theorem documentByOrderId_some (h : store.documentByOrderId orderId = some d) :
    (∃ k, store.lookup k = some d) ∧ orderIdOf d = some orderId :=
  ⟨mem_documents.mp (List.mem_of_find?_eq_some h), by simpa using List.find?_some h⟩

theorem documentByOrderId_none (h : store.documentByOrderId orderId = none)
    (hk : store.lookup k = some d) : orderIdOf d ≠ some orderId := by
  have hall := List.find?_eq_none.mp h d (mem_documents.mpr ⟨k, hk⟩)
  simpa using hall

/-- The row behind a document, and its shape. -/
theorem Backends.Inv.row (h : b.Inv) (hk : b.idb.lookup k = some d) :
    ∃ r, b.sql.lookup k = some r ∧ r.data = d ∧ Shaped d k r.startedAt := by
  have hsame := h.same k
  rw [hk] at hsame
  obtain ⟨r, hr, rfl⟩ := Option.map_eq_some_iff.mp hsame
  exact ⟨r, hr, rfl, h.shaped k r hr⟩

theorem Backends.Inv.document (h : b.Inv) {r : TradeRow} (hr : b.sql.lookup k = some r) :
    b.idb.lookup k = some r.data := by
  rw [← h.same k, hr]
  rfl

/-- A document is found under its own id only. -/
theorem Backends.Inv.key_eq (h : b.Inv) {k' : String} (hk : b.idb.lookup k = some d)
    (hk' : b.idb.lookup k' = some d) : k = k' := by
  obtain ⟨_, -, -, hshape⟩ := h.row hk
  obtain ⟨_, -, -, hshape'⟩ := h.row hk'
  exact Json.str.inj (Option.some.inj (hshape.id.symm.trans hshape'.id))

/-- The documents are those of the rows. -/
theorem Backends.Inv.documents_perm (h : b.Inv) :
    (b.sql.rows.map fun r => r.data).Perm b.idb.documents := by
  have hentries : (mapValues (fun r : TradeRow => r.data) b.sql).entries.Perm b.idb.entries := by
    refine List.lookup_ext (AList.nodupKeys _) (AList.nodupKeys _) fun k d => ?_
    show d ∈ (mapValues (fun r : TradeRow => r.data) b.sql).lookup k ↔ d ∈ b.idb.lookup k
    rw [lookup_mapValues, h.same k]
  have hrows : (b.sql.rows.map fun r => r.data) =
      (mapValues (fun r : TradeRow => r.data) b.sql).entries.map fun e => e.2 := by
    unfold SqlTable.rows mapValues
    rw [List.map_map, List.map_map]
    rfl
  rw [hrows]
  unfold IdbStore.documents
  refine (hentries.map _).trans (List.Perm.trans ?_ (List.perm_insertionSort _ _).symm)
  exact (List.perm_insertionSort _ _).symm.map _

theorem documents_desc (store : IdbStore) :
    store.documents.Pairwise fun a b => startedAtOf b ≤ startedAtOf a := by
  have htotal : Std.Total fun a b : Json => startedAtOf b ≤ startedAtOf a :=
    ⟨fun a b => Int.le_total (startedAtOf b) (startedAtOf a)⟩
  have htrans : IsTrans Json fun a b => startedAtOf b ≤ startedAtOf a :=
    ⟨fun _ _ _ hab hbc => Int.le_trans hbc hab⟩
  exact List.pairwise_insertionSort _ _

/-! ## Lists of trades -/

/-- Trades read from documents in descending order of `started_at` are in that order. -/
theorem startedAt_desc {l : List Json} (h : l.Pairwise fun a b => startedAtOf b ≤ startedAtOf a) :
    ((l.filterMap R.read).map R.startedAt).Pairwise fun a b => b ≤ a := by
  rw [List.pairwise_map, List.pairwise_filterMap]
  refine h.imp fun hab t ht t' ht' => ?_
  rwa [R.startedAt_read _ t ht, R.startedAt_read _ t' ht']

/-- **The two lists agree**, up to the order of trades with one `started_at`. -/
theorem lists_same (h : b.Inv) (E : Engine) :
    Answer.Same R (.listed ((E.ordered b.sql.rows).filterMap fun r => R.read r.data))
      (.listed (b.idb.documents.filterMap R.read)) := by
  have hread : ((E.ordered b.sql.rows).filterMap fun r => R.read r.data) =
      ((E.ordered b.sql.rows).map fun r => r.data).filterMap R.read := by
    rw [List.filterMap_map]
    rfl
  have hrows : ((E.ordered b.sql.rows).map fun r => r.data).Perm b.idb.documents :=
    ((E.ordered_perm _).map _).trans h.documents_perm
  have hdesc : ((E.ordered b.sql.rows).map fun r => r.data).Pairwise
      fun a b => startedAtOf b ≤ startedAtOf a := by
    rw [List.pairwise_map]
    refine (E.ordered_desc b.sql.rows).imp_of_mem fun {r r'} hr hr' hle => ?_
    have started : ∀ r ∈ E.ordered b.sql.rows, startedAtOf r.data = r.startedAt := by
      intro r hr
      obtain ⟨k, hk⟩ := mem_values.mp ((E.ordered_perm _).mem_iff.mp hr)
      exact (h.shaped k r hk).startedAtOf
    rwa [started r hr, started r' hr']
  rw [hread]
  -- The times of permuted lists that are both in descending order are the same.
  have hperm := hrows.filterMap R.read
  refine ⟨hperm, ?_⟩
  exact List.Perm.eq_of_pairwise (fun _ _ _ _ hab hba => Int.le_antisymm hba hab)
    (startedAt_desc hdesc) (startedAt_desc (documents_desc b.idb)) (hperm.map R.startedAt)

/-! ## Reads by order id -/

theorem Answer.same_refl (R : Reader T) (a : Answer T) : a.Same R a := by
  cases a with
  | done | failed => trivial
  | found t => exact rfl
  | listed ts => exact ⟨List.Perm.refl ts, rfl⟩

/-- Two documents that are there are answered alike when they read alike. -/
theorem answer_same_iff {d d' : Json} :
    (R.answer (some d)).Same R (R.answer (some d')) ↔ R.read d = R.read d' := by
  have hanswer : ∀ d, R.answer (some d) = (R.read d).elim .failed fun t => .found (some t) := by
    intro d
    simp only [Reader.answer]
    cases R.read d <;> rfl
  rw [hanswer, hanswer]
  cases R.read d <;> cases R.read d' <;> simp [Answer.Same]

/-- An engine that returns `r` wherever it matches. -/
noncomputable def Engine.picking (r : TradeRow) : Engine where
  limitOne rows := open Classical in if r ∈ rows then some r else rows.head?
  limitOne_mem rows r' h := by
    split at h
    · next hr => exact Option.some.inj h ▸ hr
    · exact List.mem_of_mem_head? h
  limitOne_some rows h := by
    split
    · exact Option.some_ne_none r
    · simpa using h
  ordered rows := rows.insertionSort fun a b => b.startedAt ≤ a.startedAt
  ordered_perm rows := List.perm_insertionSort _ rows
  ordered_desc rows := by
    have htotal : Std.Total fun a b : TradeRow => b.startedAt ≤ a.startedAt :=
      ⟨fun a b => Int.le_total b.startedAt a.startedAt⟩
    have htrans : IsTrans TradeRow fun a b => b.startedAt ≤ a.startedAt :=
      ⟨fun _ _ _ hab hbc => Int.le_trans hbc hab⟩
    exact List.pairwise_insertionSort _ _

theorem Engine.picking_limitOne {r : TradeRow} {rows : List TradeRow} (h : r ∈ rows) :
    (Engine.picking r).limitOne rows = some r := if_pos h

theorem mem_matching {table : SqlTable} {r : TradeRow} :
    r ∈ table.rows.filter (fun r => r.matches orderId) ↔
      (∃ k, table.lookup k = some r) ∧ orderIdOf r.data = some orderId := by
  rw [List.mem_filter]
  exact and_congr mem_values (by simp [TradeRow.matches])

/-- **A read by order id agrees** exactly when the order's documents all read as the newest. -/
theorem getTradeByOrderId_agrees_iff (h : b.Inv) (orderId : String) :
    Agrees R b (.getTradeByOrderId orderId) ↔ Unparted R b (.getTradeByOrderId orderId) := by
  constructor
  · intro hagrees first hfirst k d hk hd
    obtain ⟨r, hr, rfl, -⟩ := h.row hk
    -- SQLite may return just this row.
    have hanswer := hagrees.1 (Engine.picking r)
    simp only [SqlTable.answer, IdbStore.exec, hfirst,
      Engine.picking_limitOne (mem_matching.mpr ⟨⟨k, hr⟩, hd⟩)] at hanswer
    exact answer_same_iff.mp hanswer
  · intro hread
    refine ⟨fun E => ?_, h.same⟩
    show (R.answer ((E.limitOne _).map fun r => r.data)).Same R
      (R.answer (b.idb.documentByOrderId orderId))
    cases hfirst : b.idb.documentByOrderId orderId with
    | none =>
        have hno : b.sql.rows.filter (fun r => r.matches orderId) = [] := by
          refine List.eq_nil_iff_forall_not_mem.mpr fun r hr => ?_
          obtain ⟨⟨k, hk⟩, hd⟩ := mem_matching.mp hr
          exact documentByOrderId_none hfirst (h.document hk) hd
        have hnone : E.limitOne [] = none := by
          cases hr : E.limitOne [] with
          | none => rfl
          | some r => cases E.limitOne_mem [] r hr
        rw [hno, hnone]
        exact Answer.same_refl R _
    | some first =>
        obtain ⟨⟨k, hk⟩, hd⟩ := documentByOrderId_some hfirst
        obtain ⟨r, hr, rfl, -⟩ := h.row hk
        have hmem := mem_matching.mpr ⟨⟨k, hr⟩, hd⟩
        obtain ⟨r', hr'⟩ := Option.ne_none_iff_exists'.mp
          (E.limitOne_some _ (List.ne_nil_of_mem hmem))
        obtain ⟨⟨k', hk'⟩, hd'⟩ := mem_matching.mp (E.limitOne_mem _ r' hr')
        rw [hr']
        exact answer_same_iff.mpr (hread _ hfirst k' r'.data (h.document hk') hd')

/-! ## Deletions -/

theorem lookup_deleteOne {d' : Json} :
    (store.deleteOne orderId d').lookup k = some d ↔
      store.lookup k = some d ∧
        (orderIdOf d' = some orderId → (d'.get "id").bind Json.asStr ≠ some k) := by
  unfold IdbStore.deleteOne
  by_cases horder : orderIdOf d' = some orderId
  · rw [if_pos horder]
    cases hid : (d'.get "id").bind Json.asStr with
    | none => simp
    | some id =>
        by_cases hk : k = id
        · subst hk
          simp [AList.lookup_erase, horder]
        · have hne : id ≠ k := Ne.symm hk
          simp [AList.lookup_erase_ne hk, hne]
  · rw [if_neg horder]
    simp [horder]

/-- What the deletion's pass leaves. -/
theorem lookup_foldl_deleteOne {l : List Json} :
    (l.foldl (IdbStore.deleteOne orderId) store).lookup k = some d ↔
      store.lookup k = some d ∧ ∀ d' ∈ l, orderIdOf d' = some orderId →
        (d'.get "id").bind Json.asStr ≠ some k := by
  induction l generalizing store with
  | nil => simp
  | cons d' l ih =>
      rw [List.foldl_cons, ih, lookup_deleteOne, List.forall_mem_cons, and_assoc]

/-- **The two deletions agree.** -/
theorem deleteTradeByOrderId_agrees (h : b.Inv) (orderId : String) :
    Agrees R b (.deleteTradeByOrderId orderId) := by
  refine ⟨fun _ => trivial, fun k => Option.ext fun d => ?_⟩
  show d ∈ ((retain _ b.sql).lookup k).map _ ↔
    (b.idb.documents.foldl (IdbStore.deleteOne orderId) b.idb).lookup k = some d
  rw [lookup_retain, lookup_foldl_deleteOne, Option.mem_def, ← h.same k]
  constructor
  · intro hd
    obtain ⟨r, hr, rfl⟩ := Option.map_eq_some_iff.mp hd
    obtain ⟨hr, hother⟩ := Option.mem_filter_iff.mp hr
    refine ⟨by rw [hr]; rfl, fun d' hd' horder hid => ?_⟩
    -- The only document under this id is the row's, which is of another order.
    obtain ⟨k', hk'⟩ := mem_documents.mp hd'
    obtain ⟨r', hr', rfl, hshape⟩ := h.row hk'
    obtain rfl : k' = k := by
      rw [hshape.id] at hid
      exact Option.some.inj hid
    obtain rfl : r' = r := Option.some.inj (hr'.symm.trans hr)
    simp [TradeRow.matches, horder] at hother
  · rintro ⟨hd, hleft⟩
    obtain ⟨r, hr, rfl⟩ := Option.map_eq_some_iff.mp hd
    have hother : orderIdOf r.data ≠ some orderId := fun horder => by
      refine hleft r.data (mem_documents.mpr ⟨k, h.document hr⟩) horder ?_
      rw [(h.shaped k r hr).id]
      rfl
    rw [hr]
    simp [Option.filter, TradeRow.matches, hother]

/-! ## Updates -/

/-- What SQLite makes of a document. -/
def updated (orderId : String) (sets : List (List String × Json)) (d : Json) : Json :=
  if orderIdOf d = some orderId then Json.setAll sets d else d

/-- The documents of the table after an update. -/
theorem Backends.Inv.lookup_setMatching (h : b.Inv) (orderId : String)
    (sets : List (List String × Json)) (k : String) :
    ((b.sql.setMatching orderId sets).lookup k).map (fun r => r.data) =
      (b.idb.lookup k).map (updated orderId sets) := by
  unfold SqlTable.setMatching
  rw [lookup_mapValues, ← h.same k, Option.map_map, Option.map_map]
  congr 1
  funext r
  by_cases hr : orderIdOf r.data = some orderId <;> simp [updated, TradeRow.matches, hr]

/-- With no document of the order, neither changes anything. -/
theorem update_same_of_none (h : b.Inv) (hnone : b.idb.documentByOrderId orderId = none)
    (sets : List (List String × Json)) :
    Backends.Same ⟨b.sql.setMatching orderId sets, b.idb⟩ := by
  intro k
  show ((b.sql.setMatching orderId sets).lookup k).map _ = b.idb.lookup k
  rw [h.lookup_setMatching]
  cases hk : b.idb.lookup k with
  | none => rfl
  | some d => exact congrArg some (if_neg (documentByOrderId_none hnone hk))

/-- With one, IndexedDB puts a document in its place, and SQLite patches every match. -/
theorem update_same_iff (h : b.Inv) {first d' : Json} {k₀ : String}
    (hk₀ : b.idb.lookup k₀ = some first) (horder : orderIdOf first = some orderId)
    (sets : List (List String × Json)) :
    Backends.Same ⟨b.sql.setMatching orderId sets, b.idb.insert k₀ d'⟩ ↔
      d' = Json.setAll sets first ∧ ∀ k d, b.idb.lookup k = some d → orderIdOf d = some orderId →
        d ≠ first → Json.setAll sets d = d := by
  have hself : ((b.idb.lookup k₀).map (updated orderId sets)) = some (Json.setAll sets first) := by
    rw [hk₀]
    exact congrArg some (if_pos horder)
  constructor
  · intro hsame
    refine ⟨?_, fun k d hk hd hne => ?_⟩
    · have hput := hsame k₀
      simp only [h.lookup_setMatching, AList.lookup_insert, hself] at hput
      exact (Option.some.inj hput).symm
    · have hother : k ≠ k₀ := by
        rintro rfl
        exact hne (Option.some.inj (hk.symm.trans hk₀))
      have hleft := hsame k
      simp only [h.lookup_setMatching, AList.lookup_insert_ne hother, hk] at hleft
      have hupdated : updated orderId sets d = Json.setAll sets d := if_pos hd
      exact hupdated.symm.trans (Option.some.inj hleft)
  · rintro ⟨rfl, hothers⟩ k
    show ((b.sql.setMatching orderId sets).lookup k).map _ = (b.idb.insert k₀ _).lookup k
    rw [h.lookup_setMatching]
    by_cases hk : k = k₀
    · subst hk
      rw [hself, AList.lookup_insert]
    · rw [AList.lookup_insert_ne hk]
      cases hkd : b.idb.lookup k with
      | none => rfl
      | some d =>
          refine congrArg some ?_
          unfold updated
          split
          · next hd => exact hothers k d hkd hd fun e => hk (h.key_eq hkd (e ▸ hk₀))
          · rfl

/-- The patch of a document that is accepted. -/
theorem patch_of_ok {f : Json → Except String Json} {first d' : Json} {k₀ : String}
    (hfirst : store.documentByOrderId orderId = some first) (hf : f first = .ok d')
    (hid : d'.get "id" = some (.str k₀)) :
    (store.patch orderId f : IdbStore × Answer T) = (store.insert k₀ d', .done) := by
  simp only [IdbStore.patch, hfirst, hf, hid]
  rfl

theorem patch_of_error {f : Json → Except String Json} {first : Json} {m : String}
    (hfirst : store.documentByOrderId orderId = some first) (hf : f first = .error m) :
    (store.patch orderId f : IdbStore × Answer T) = (store, .failed) := by
  simp only [IdbStore.patch, hfirst, hf]

theorem patch_of_none {f : Json → Except String Json}
    (hnone : store.documentByOrderId orderId = none) :
    (store.patch orderId f : IdbStore × Answer T) = (store, .done) := by
  simp only [IdbStore.patch, hnone]

/-- **An update agrees** exactly when it does not part the backends. -/
theorem update_agrees_iff (h : b.Inv) (orderId : String) (p : TradePatch) :
    Agrees R b (.update orderId p) ↔ Unparted R b (.update orderId p) := by
  unfold Agrees Unparted
  simp only [SqlTable.answer, SqlTable.after, IdbStore.exec]
  cases hsets : p.sets orderId with
  | error m =>
      -- SQLite refuses before it looks, IndexedDB once it has a document.
      cases hfirst : b.idb.documentByOrderId orderId with
      | none =>
          rw [patch_of_none hfirst]
          exact ⟨fun hagrees => (hagrees.1 (Engine.picking ⟨.null, 0⟩)).elim,
            fun hfound => absurd rfl hfound⟩
      | some first =>
          obtain ⟨m', hm'⟩ := TradePatch.apply_error hsets first
          rw [patch_of_error hfirst hm']
          exact ⟨fun _ => Option.some_ne_none first, fun _ => ⟨fun _ => trivial, h.same⟩⟩
  | ok sets =>
      cases hfirst : b.idb.documentByOrderId orderId with
      | none =>
          rw [patch_of_none hfirst]
          exact ⟨fun _ first hnone => (nomatch hnone),
            fun _ => ⟨fun _ => trivial, update_same_of_none h hfirst sets⟩⟩
      | some first =>
          obtain ⟨⟨k₀, hk₀⟩, horder⟩ := documentByOrderId_some hfirst
          obtain ⟨r, -, -, hshape⟩ := h.row hk₀
          cases hp : p.infinite with
          | true =>
              -- The documents already differ in the one that is patched.
              obtain ⟨d', hd', hshape', hne⟩ := TradePatch.apply_infinite hsets hp hshape
              rw [patch_of_ok hfirst hd' hshape'.id]
              constructor
              · intro hagrees
                exact absurd ((update_same_iff h hk₀ horder sets).mp hagrees.2).1 hne
              · intro hunparted
                exact nomatch (hunparted first rfl).1
          | false =>
              have hd' := TradePatch.apply_eq_setAll hsets hp hshape
              have hid := (hshape.setAll (TradePatch.sets_updatable hsets)).id
              rw [patch_of_ok hfirst hd' hid]
              constructor
              · intro hagrees first' hfirst'
                obtain rfl := Option.some.inj hfirst'
                exact ⟨rfl, ((update_same_iff h hk₀ horder sets).mp hagrees.2).2⟩
              · intro hunparted
                exact ⟨fun _ => trivial,
                  (update_same_iff h hk₀ horder sets).mpr ⟨rfl, (hunparted first rfl).2⟩⟩

/-! ## Sequences of operations -/

theorem saveTrade_agrees (h : b.Inv) (t : SavedTrade) : Agrees R b (.saveTrade t) := by
  refine ⟨fun _ => trivial, fun k => ?_⟩
  show ((b.sql.insert t.id ⟨t.doc, t.startedAt⟩).lookup k).map _ =
    (b.idb.insert t.id t.doc).lookup k
  by_cases hk : k = t.id
  · subst hk
    rw [AList.lookup_insert, AList.lookup_insert]
    rfl
  · rw [AList.lookup_insert_ne hk, AList.lookup_insert_ne hk]
    exact h.same k

/-- One operation: it agrees exactly when it does not part the backends. -/
theorem agrees_iff_unparted (h : b.Inv) (op : TradeOp) : Agrees R b op ↔ Unparted R b op := by
  cases op with
  | saveTrade t => exact iff_of_true (saveTrade_agrees h t) trivial
  | getTrade id =>
      refine iff_of_true ⟨fun _ => ?_, h.same⟩ trivial
      show (R.answer ((b.sql.lookup id).map fun r => r.data)).Same R (R.answer (b.idb.lookup id))
      rw [h.same id]
      exact Answer.same_refl R _
  | listTrades => exact iff_of_true ⟨fun E => lists_same h E, h.same⟩ trivial
  | getTradeByOrderId orderId => exact getTradeByOrderId_agrees_iff h orderId
  | deleteTradeByOrderId orderId =>
      exact iff_of_true (deleteTradeByOrderId_agrees h orderId) trivial
  | update orderId p => exact update_agrees_iff h orderId p

/-- Every operation leaves rows of the shape they were saved in. -/
theorem shaped_after {table : SqlTable} (op : TradeOp)
    (h : ∀ k r, table.lookup k = some r → Shaped r.data k r.startedAt) :
    ∀ k r, (table.after op).lookup k = some r → Shaped r.data k r.startedAt := by
  intro k r hr
  cases op with
  | saveTrade t =>
      by_cases hk : k = t.id
      · subst hk
        have hput : some r = some ⟨t.doc, t.startedAt⟩ :=
          hr.symm.trans (AList.lookup_insert table)
        obtain rfl := Option.some.inj hput
        exact t.shaped
      · exact h k r ((AList.lookup_insert_ne hk).symm.trans hr)
  | getTrade | listTrades | getTradeByOrderId => exact h k r hr
  | deleteTradeByOrderId orderId =>
      have hkept := (lookup_retain _ table k).symm.trans hr
      exact h k r (Option.mem_filter_iff.mp hkept).1
  | update orderId p =>
      simp only [SqlTable.after] at hr
      cases hsets : p.sets orderId with
      | error m =>
          rw [hsets] at hr
          exact h k r hr
      | ok sets =>
          rw [hsets] at hr
          have hmapped := (lookup_mapValues _ table k).symm.trans hr
          obtain ⟨r₀, hr₀, rfl⟩ := Option.map_eq_some_iff.mp hmapped
          split
          · exact (h k r₀ hr₀).setAll (TradePatch.sets_updatable hsets)
          · exact h k r₀ hr₀

theorem Backends.empty_inv : Backends.empty.Inv where
  same _ := rfl
  shaped _ _ hr := nomatch hr

/-- **The backends agree over a sequence of operations exactly when no operation parts them.** -/
theorem backends_agree_iff (R : Reader T) (ops : List TradeOp) :
    Along (Backends.next R) (Agrees R) Backends.empty ops ↔
      Along (Backends.next R) (Unparted R) Backends.empty ops := by
  refine along_iff (fun b op b' h hagrees hnext => ?_) (fun b op h => agrees_iff_unparted h op)
    Backends.empty_inv
  obtain rfl := Option.some.inj hnext
  exact ⟨hagrees.2, shaped_after op h.shaped⟩

/-! ## Two rows of one order -/

/-- A buyer's trade on one sell order, as `save_trade` stores it. -/
def boughtTrade (id : String) (startedAt : Int) : SavedTrade where
  doc := .obj
    [("id", .str id),
      ("order", .obj
        [("id", .str "order"), ("kind", .str "Sell"), ("status", .str "Active"),
          ("amount_sats", .num 6307), ("fiat_amount", .num 5), ("fiat_amount_min", .null),
          ("fiat_amount_max", .null), ("fiat_code", .str "USD"), ("payment_method", .str "cash"),
          ("premium", .num 0), ("creator_pubkey", .str "maker"), ("created_at", .num 1),
          ("expires_at", .null), ("is_mine", .bool false), ("rating", .num 0),
          ("total_reviews", .num 0), ("days_active", .num 0)]),
      ("role", .str "Buyer"), ("counterparty_pubkey", .str "maker"),
      ("current_step", .obj [("Buyer", .str "OrderTaken")]), ("hold_invoice", .null),
      ("buyer_invoice", .null), ("trade_key_index", .num 1), ("cooperative_cancel_state", .null),
      ("timeout_at", .null), ("started_at", .num startedAt), ("completed_at", .null),
      ("outcome", .null), ("peer_rating", .null), ("peer_reviews", .null), ("peer_days", .null),
      ("rated_at", .null), ("bond", .null)]
  id := id
  startedAt := startedAt
  shaped := ⟨rfl, rfl, ⟨_, rfl⟩⟩

/-- Documents read as they are. -/
def Reader.plain : Reader Json := ⟨some, startedAtOf, fun _ _ h => Option.some.inj h ▸ rfl⟩

/-- **SQLite marks both rows of the order as rated, IndexedDB the newer one.** -/
theorem older_row_not_rated :
    ¬ Along (Backends.next Reader.plain) (Agrees Reader.plain) Backends.empty
      [.saveTrade (boughtTrade "older" 10), .saveTrade (boughtTrade "newer" 20),
        .update "order" (.markRated 30)] := by
  intro h
  have hsame := ((h.2 _ rfl).2 _ rfl).1.2 "older"
  have hrated := congrArg
    (fun d => (d.bind fun d => (d.get "rated_at").bind Json.asInt).isSome) hsame
  exact absurd hrated (by decide +kernel)

end MostroApp.Db
