import MostroApp.Types
import MostroApp.Lib.Newest
import MostroApp.Lib.Rows
import MostroApp.Lib.Text
import Mathlib.Data.List.Dedup
import Mathlib.Data.List.Perm.Basic
import Mathlib.Data.Int.Order.Basic
import Mathlib.Order.MinMax

set_option autoImplicit false

/-! # Open orders per node (`api/node_stats.rs`)

`count_open_orders` keeps the newest revision of each order and tallies the open ones. Of two
revisions of one second it keeps the first, so what it counts is the newest revision in every order
of the list exactly when the newest revisions of an order contribute alike
(`counts_newest_iff`).
-/

namespace MostroApp.NodeStats

open Newest Rows

/-! ## The fold -/

/-- An order is addressed by its author and its `d` tag. -/
abbrev OrderKey : Type := String × String

def orderKey (o : OrderInfo) : OrderKey := (o.creatorPubkey, o.id)

abbrev LatestMap : Type := AList fun _ : OrderKey => OrderInfo

def keepLatest (latest : LatestMap) (order : OrderInfo) : LatestMap :=
  match latest.lookup (orderKey order) with
  | some existing =>
      if order.createdAt ≤ existing.createdAt then latest
      else latest.insert (orderKey order) order
  | none => latest.insert (orderKey order) order

def dedupLatest (orders : List OrderInfo) : LatestMap := orders.foldl keepLatest ∅

def isOpen (order : OrderInfo) (now : Int) : Bool :=
  order.status = .pending && order.expiresAt.all fun exp => now < exp

/-- Orders per fiat code, and the newest `created_at`. -/
abbrev NodeLiquidity : Type := (AList fun _ : String => Nat) × Option Int

abbrev LiquidityMap : Type := AList fun _ : String => NodeLiquidity

def fiatOf (order : OrderInfo) : String := Text.asciiUppercase order.fiatCode

def NodeLiquidity.note (order : OrderInfo) (l : NodeLiquidity) : NodeLiquidity :=
  (l.1.insert (fiatOf order) ((l.1.lookup (fiatOf order)).getD 0 + 1),
    some (l.2.elim order.createdAt fun latest => max latest order.createdAt))

def countOpen (now : Int) (perNode : LiquidityMap) (order : OrderInfo) : LiquidityMap :=
  if isOpen order now = true then
    perNode.insert order.creatorPubkey
      (NodeLiquidity.note order ((perNode.lookup order.creatorPubkey).getD (∅, none)))
  else perNode

/-- `count_open_orders` may go through the kept revisions in any order. -/
def CountOpenOrders (orders : List OrderInfo) (now : Int) (perNode : LiquidityMap) : Prop :=
  ∃ kept : List OrderInfo, kept.Perm ((dedupLatest orders).entries.map (·.2)) ∧
    perNode = kept.foldl (countOpen now) ∅

/-- The open orders of a node in a fiat currency. -/
def LiquidityMap.open (m : LiquidityMap) (author fiat : String) : Nat :=
  ((m.lookup author).bind fun l => l.1.lookup fiat).getD 0

/-- When a node's newest open order was published. -/
def LiquidityMap.latest (m : LiquidityMap) (author : String) : Option Int :=
  (m.lookup author).bind (·.2)

/-! ## The tally -/

variable {orders kept : List OrderInfo} {now : Int} {m : LiquidityMap} {author fiat : String}

/-- The order is an open one of the node in the currency. -/
def Counted (now : Int) (author fiat : String) (o : OrderInfo) : Prop :=
  isOpen o now = true ∧ o.creatorPubkey = author ∧ fiatOf o = fiat

instance (now : Int) (author fiat : String) (o : OrderInfo) :
    Decidable (Counted now author fiat o) := inferInstanceAs (Decidable (_ ∧ _ ∧ _))

/-- The later of a time, if any, and another. -/
def later (l : Option Int) (t : Int) : Option Int := some (l.elim t fun latest => max latest t)

theorem later_comm (l : Option Int) (t u : Int) : later (later l t) u = later (later l u) t := by
  cases l with
  | none => exact congrArg some (max_comm t u)
  | some l => exact congrArg some (max_right_comm l t u)

/-- When the order was published, if it is an open one of the node. -/
def openTime (now : Int) (author : String) (o : OrderInfo) : Option Int :=
  if isOpen o now = true ∧ o.creatorPubkey = author then some o.createdAt else none

/-- The times of the node's open orders. -/
def openTimes (now : Int) (author : String) (l : List OrderInfo) : List Int :=
  l.filterMap (openTime now author)

theorem NodeLiquidity.open_note (fiat : String) (o : OrderInfo) (l : NodeLiquidity) :
    ((l.note o).1.lookup fiat).getD 0 =
      (l.1.lookup fiat).getD 0 + if fiatOf o = fiat then 1 else 0 := by
  unfold NodeLiquidity.note
  by_cases hf : fiatOf o = fiat
  · subst hf
    rw [AList.lookup_insert, if_pos rfl]
    rfl
  · rw [AList.lookup_insert_ne (Ne.symm hf), if_neg hf]
    rfl

theorem open_countOpen (o : OrderInfo) : (countOpen now m o).open author fiat =
    m.open author fiat + if Counted now author fiat o then 1 else 0 := by
  unfold countOpen Counted
  by_cases hopen : isOpen o now = true
  · rw [if_pos hopen]
    by_cases ha : o.creatorPubkey = author
    · subst ha
      have hnote := NodeLiquidity.open_note fiat o
        ((m.lookup o.creatorPubkey).getD (∅, none))
      have hold : ((((m.lookup o.creatorPubkey).getD (∅, none)).1.lookup fiat).getD 0) =
          m.open o.creatorPubkey fiat := by
        unfold LiquidityMap.open
        cases m.lookup o.creatorPubkey <;> rfl
      rw [hold] at hnote
      simp only [LiquidityMap.open, AList.lookup_insert] at hnote ⊢
      simpa [hopen] using hnote
    · unfold LiquidityMap.open
      rw [AList.lookup_insert_ne (Ne.symm ha)]
      simp [ha]
  · rw [if_neg hopen]
    simp [hopen]

theorem latest_countOpen (o : OrderInfo) : (countOpen now m o).latest author =
    (openTime now author o).elim (m.latest author) (later (m.latest author)) := by
  unfold countOpen LiquidityMap.latest openTime
  by_cases hopen : isOpen o now = true
  · rw [if_pos hopen]
    by_cases ha : o.creatorPubkey = author
    · subst ha
      rw [AList.lookup_insert, if_pos ⟨hopen, rfl⟩]
      cases m.lookup o.creatorPubkey <;> rfl
    · rw [AList.lookup_insert_ne (Ne.symm ha), if_neg fun h => ha h.2]
      rfl
  · rw [if_neg hopen, if_neg fun h => hopen h.1]
    rfl

/-- A tally counts the orders that are open, once each. -/
theorem open_foldl (l : List OrderInfo) (m : LiquidityMap) :
    (l.foldl (countOpen now) m).open author fiat =
      m.open author fiat + l.countP fun o => Counted now author fiat o := by
  induction l generalizing m with
  | nil => rfl
  | cons o l ih =>
      rw [List.foldl_cons, ih, open_countOpen, List.countP_cons]
      simp only [decide_eq_true_eq]
      omega

theorem latest_foldl (l : List OrderInfo) (m : LiquidityMap) :
    (l.foldl (countOpen now) m).latest author =
      (openTimes now author l).foldl later (m.latest author) := by
  induction l generalizing m with
  | nil => rfl
  | cons o l ih =>
      rw [List.foldl_cons, ih, latest_countOpen]
      unfold openTimes
      cases h : openTime now author o with
      | none =>
          rw [List.filterMap_cons_none h]
          rfl
      | some t =>
          rw [List.filterMap_cons_some h]
          rfl

theorem foldl_later (t : Int) (l : List Int) :
    l.foldl later (some t) = some (l.foldl max t) := by
  induction l generalizing t with
  | nil => rfl
  | cons u l ih => exact ih (max t u)

theorem foldl_later_none (l : List Int) : l.foldl later none = l.max? := by
  cases l with
  | nil => rfl
  | cons t l => exact foldl_later t l

theorem max?_perm {l l' : List Int} (h : l.Perm l') : l.max? = l'.max? := by
  rw [← foldl_later_none, ← foldl_later_none]
  exact h.foldl_eq' (fun t _ u _ x => later_comm x t u) none

/-- What is counted, of the revisions kept. -/
theorem CountOpenOrders.tally {perNode : LiquidityMap} (h : CountOpenOrders orders now perNode)
    {l : List OrderInfo} (hl : ((dedupLatest orders).entries.map (·.2)).Perm l) :
    (∀ author fiat, perNode.open author fiat = l.countP fun o => Counted now author fiat o) ∧
      ∀ author, perNode.latest author = (openTimes now author l).max? := by
  obtain ⟨kept, hkept, rfl⟩ := h
  have hperm := hkept.trans hl
  refine ⟨fun author fiat => ?_, fun author => ?_⟩
  · rw [open_foldl, hperm.countP_eq]
    exact Nat.zero_add _
  · rw [latest_foldl]
    exact (foldl_later_none _).trans (max?_perm (hperm.filterMap _))

/-! ## Which revision is kept -/

/-- The revision kept of an order: the first of the newest. -/
def keptOf (orders : List OrderInfo) (k : OrderKey) : Option OrderInfo :=
  newest OrderInfo.createdAt none (orders.filter fun o => orderKey o = k)

/-- A revision of the order that none is newer than. -/
structure IsNewest (orders : List OrderInfo) (k : OrderKey) (o : OrderInfo) : Prop where
  mem : o ∈ orders
  key : orderKey o = k
  newest : ∀ o' ∈ orders, orderKey o' = k → o'.createdAt ≤ o.createdAt

theorem keepLatest_local :
    Local keepLatest (fun (m : LatestMap) k => m.lookup k) orderKey
      fun o held => join OrderInfo.createdAt held o where
  self m o := by
    unfold keepLatest
    cases hheld : m.lookup (orderKey o) with
    | none => exact AList.lookup_insert m
    | some existing =>
        show _ = some (if existing.createdAt < o.createdAt then o else existing)
        dsimp only
        by_cases hle : o.createdAt ≤ existing.createdAt
        · rw [if_pos hle, if_neg (not_lt.mpr hle), hheld]
        · rw [if_neg hle, if_pos (not_le.mp hle), AList.lookup_insert]
  other m o k hk := by
    unfold keepLatest
    split
    · split
      · rfl
      · exact AList.lookup_insert_ne hk
    · exact AList.lookup_insert_ne hk

theorem lookup_dedupLatest (orders : List OrderInfo) (k : OrderKey) :
    (dedupLatest orders).lookup k = keptOf orders k :=
  keepLatest_local.foldl orders ∅ k

theorem keptOf_isNewest {k : OrderKey} {o : OrderInfo} (h : keptOf orders k = some o) :
    IsNewest orders k o := by
  have hleft := newest_left h
  have hmem : o ∈ orders.filter fun o => orderKey o = k :=
    hleft.source.resolve_left (fun h => nomatch h) |>.1
  obtain ⟨hmem, hkey⟩ := List.mem_filter.mp hmem
  refine ⟨hmem, of_decide_eq_true hkey, fun o' ho' hk => hleft.above o' ?_⟩
  exact List.mem_filter.mpr ⟨ho', decide_eq_true hk⟩

theorem keptOf_isSome {k : OrderKey} (h : k ∈ orders.map orderKey) :
    ∃ o, keptOf orders k = some o := by
  refine Option.ne_none_iff_exists'.mp fun hnone => ?_
  obtain ⟨o, ho, rfl⟩ := List.mem_map.mp h
  have hempty := (newest_eq_none.mp hnone).2
  exact absurd (List.filter_eq_nil_iff.mp hempty o ho) (by simp)

/-- The same for an order there is. -/
def chosen (orders : List OrderInfo) (k : OrderKey) : OrderInfo :=
  (keptOf orders k).getD { id := k.2, kind := .buy, status := .pending }

theorem chosen_eq {k : OrderKey} {o : OrderInfo} (h : keptOf orders k = some o) :
    chosen orders k = o := by
  unfold chosen
  rw [h]
  rfl

/-- The orders of a list. -/
def keysOf (orders : List OrderInfo) : List OrderKey := (orders.map orderKey).dedup

theorem mem_keysOf {k : OrderKey} : k ∈ keysOf orders ↔ k ∈ orders.map orderKey := List.mem_dedup

theorem kept_perm (orders : List OrderInfo) :
    ((dedupLatest orders).entries.map (·.2)).Perm ((keysOf orders).filterMap (keptOf orders)) := by
  have hkeys : (dedupLatest orders).keys.Perm (keysOf orders) := by
    refine (List.perm_ext_iff_of_nodup (dedupLatest orders).keys_nodup
      (List.nodup_dedup _)).mpr fun k => ?_
    refine Iff.trans ?_ mem_keysOf.symm
    constructor
    · intro hk
      obtain ⟨o, ho⟩ := Option.isSome_iff_exists.mp (AList.lookup_isSome.mpr hk)
      have hnewest := keptOf_isNewest ((lookup_dedupLatest orders k).symm.trans ho)
      exact List.mem_map.mpr ⟨o, hnewest.mem, hnewest.key⟩
    · intro hk
      obtain ⟨o, ho⟩ := keptOf_isSome hk
      refine AList.lookup_isSome.mp ?_
      rw [lookup_dedupLatest, ho]
      rfl
  rw [values_eq_filterMap]
  refine (hkeys.filterMap _).trans (List.Perm.of_eq ?_)
  exact List.filterMap_congr fun k _ => lookup_dedupLatest orders k

/-! ## Ties -/

/-- Two revisions contribute alike: both are closed, or open in one currency. -/
structure Alike (now : Int) (a b : OrderInfo) : Prop where
  status : isOpen a now = isOpen b now
  fiat : isOpen a now = true → fiatOf a = fiatOf b

/-- The newest revisions of each order contribute alike. -/
def TiesAlike (orders : List OrderInfo) (now : Int) : Prop :=
  ∀ k a b, IsNewest orders k a → IsNewest orders k b → Alike now a b

/-- Some choice of a newest revision of each order says what is counted, whatever the order of the
list: the orders whose chosen revision is open, and when the newest of these was published. -/
def CountsNewest (orders : List OrderInfo) (now : Int) : Prop :=
  ∃ choice : OrderKey → OrderInfo, (∀ k ∈ keysOf orders, IsNewest orders k (choice k)) ∧
    ∀ orders' perNode, orders'.Perm orders → CountOpenOrders orders' now perNode →
      (∀ author fiat, perNode.open author fiat =
        (keysOf orders).countP fun k => Counted now author fiat (choice k)) ∧
      ∀ author, perNode.latest author = (openTimes now author ((keysOf orders).map choice)).max?

theorem IsNewest.createdAt_eq {k : OrderKey} {a b : OrderInfo} (ha : IsNewest orders k a)
    (hb : IsNewest orders k b) : a.createdAt = b.createdAt :=
  le_antisymm (hb.newest a ha.mem ha.key) (ha.newest b hb.mem hb.key)

theorem IsNewest.author_eq {k : OrderKey} {a b : OrderInfo} (ha : IsNewest orders k a)
    (hb : IsNewest orders k b) : a.creatorPubkey = b.creatorPubkey :=
  congrArg Prod.fst (ha.key.trans hb.key.symm)

theorem IsNewest.perm {k : OrderKey} {o : OrderInfo} {orders' : List OrderInfo}
    (h : IsNewest orders' k o) (hp : orders'.Perm orders) : IsNewest orders k o :=
  ⟨hp.mem_iff.mp h.mem, h.key, fun o' ho' => h.newest o' (hp.mem_iff.mpr ho')⟩

/-- Newest revisions that contribute alike are counted alike. -/
theorem Alike.counted {k : OrderKey} {a b : OrderInfo} (h : Alike now a b)
    (ha : IsNewest orders k a) (hb : IsNewest orders k b) :
    Counted now author fiat a ↔ Counted now author fiat b := by
  have hauthor := ha.author_eq hb
  unfold Counted
  rw [h.status, hauthor]
  exact and_congr_right fun hopen => and_congr_right fun _ => by rw [h.fiat (h.status.trans hopen)]

theorem Alike.openTime {k : OrderKey} {a b : OrderInfo} (h : Alike now a b)
    (ha : IsNewest orders k a) (hb : IsNewest orders k b) :
    openTime now author a = openTime now author b := by
  unfold NodeStats.openTime
  rw [h.status, ha.author_eq hb, ha.createdAt_eq hb]

/-- Where ties contribute alike, it does not matter which revision is kept. -/
theorem TiesAlike.countsNewest (h : TiesAlike orders now) : CountsNewest orders now := by
  have found : ∀ k ∈ keysOf orders, ∃ o, keptOf orders k = some o :=
    fun k hk => keptOf_isSome (mem_keysOf.mp hk)
  refine ⟨chosen orders, fun k hk => ?_, fun orders' perNode hp hc => ?_⟩
  · obtain ⟨o, ho⟩ := found k hk
    rw [chosen_eq ho]
    exact keptOf_isNewest ho
  · have hkeys : (keysOf orders').Perm (keysOf orders) := (hp.map orderKey).dedup
    have hkept := (kept_perm orders').trans (hkeys.filterMap (keptOf orders'))
    obtain ⟨hopen, hlatest⟩ := hc.tally hkept
    -- The revision kept in this order of the list may be another one, but both are newest.
    have both : ∀ k ∈ keysOf orders, ∃ a b, keptOf orders' k = some a ∧
        keptOf orders k = some b ∧ IsNewest orders k a ∧ IsNewest orders k b := by
      intro k hk
      have hk' : k ∈ orders'.map orderKey := (hp.map orderKey).mem_iff.mpr (mem_keysOf.mp hk)
      obtain ⟨a, ha⟩ := keptOf_isSome hk'
      obtain ⟨b, hb⟩ := found k hk
      exact ⟨a, b, ha, hb, (keptOf_isNewest ha).perm hp, keptOf_isNewest hb⟩
    refine ⟨fun author fiat => ?_, fun author => ?_⟩
    · rw [hopen, List.countP_filterMap]
      refine List.countP_congr fun k hk => ?_
      obtain ⟨a, b, ha, hb, hna, hnb⟩ := both k hk
      rw [ha, chosen_eq hb]
      simpa using (h k a b hna hnb).counted hna hnb
    · rw [hlatest]
      unfold openTimes
      rw [List.filterMap_filterMap, List.filterMap_map]
      refine congrArg List.max? (List.filterMap_congr fun k hk => ?_)
      obtain ⟨a, b, ha, hb, hna, hnb⟩ := both k hk
      show (keptOf orders' k).bind (openTime now author) = openTime now author (chosen orders k)
      rw [ha, chosen_eq hb]
      exact (h k a b hna hnb).openTime hna hnb

/-- An order of the list in which a revision comes first, and which leaves the other orders'
revisions as they are. -/
theorem exists_front {a : OrderInfo} (ha : a ∈ orders) :
    ∃ rest, (a :: rest).Perm orders ∧
      ∀ k ≠ orderKey a, keptOf (a :: rest) k = keptOf orders k := by
  obtain ⟨l₁, l₂, rfl⟩ := List.append_of_mem ha
  refine ⟨l₁ ++ l₂, List.perm_middle.symm, fun k hk => ?_⟩
  unfold keptOf
  rw [List.filter_cons_of_neg (by simpa using Ne.symm hk), List.filter_append,
    List.filter_append, List.filter_cons_of_neg (by simpa using Ne.symm hk)]

/-- A newest revision that comes first is kept. -/
theorem keptOf_front {a : OrderInfo} {rest : List OrderInfo} {k : OrderKey}
    (h : IsNewest (a :: rest) k a) : keptOf (a :: rest) k = some a := by
  unfold keptOf
  rw [List.filter_cons_of_pos (by simpa using h.key)]
  refine newest_eq_held fun o ho => ?_
  obtain ⟨ho, hkey⟩ := List.mem_filter.mp ho
  exact h.newest o (List.mem_cons_of_mem a ho) (of_decide_eq_true hkey)

/-- What is counted when a newest revision comes first. -/
theorem counted_front (now : Int) {a : OrderInfo} {rest : List OrderInfo}
    (hp : (a :: rest).Perm orders)
    (hrest : ∀ k ≠ orderKey a, keptOf (a :: rest) k = keptOf orders k)
    (ha : IsNewest orders (orderKey a) a) :
    ∃ perNode, CountOpenOrders (a :: rest) now perNode ∧ ∀ author fiat,
      perNode.open author fiat = (if Counted now author fiat a then 1 else 0) +
        (((keysOf orders).erase (orderKey a)).filterMap (keptOf orders)).countP
          fun o => Counted now author fiat o := by
  refine ⟨_, ⟨_, List.Perm.refl _, rfl⟩, fun author fiat => ?_⟩
  have hmem : orderKey a ∈ keysOf orders :=
    mem_keysOf.mpr (List.mem_map.mpr ⟨a, ha.mem, rfl⟩)
  have hkeys : (keysOf (a :: rest)).Perm
      (orderKey a :: (keysOf orders).erase (orderKey a)) :=
    (hp.map orderKey).dedup.trans (List.perm_cons_erase hmem)
  have hcount : CountOpenOrders (a :: rest) now _ := ⟨_, List.Perm.refl _, rfl⟩
  have hopen := (hcount.tally ((kept_perm (a :: rest)).trans (hkeys.filterMap _))).1 author fiat
  have hfront : keptOf (a :: rest) (orderKey a) = some a :=
    keptOf_front (ha.perm hp.symm)
  have hothers : ((keysOf orders).erase (orderKey a)).filterMap (keptOf (a :: rest)) =
      ((keysOf orders).erase (orderKey a)).filterMap (keptOf orders) :=
    List.filterMap_congr fun k hk =>
      hrest k ((List.nodup_dedup _).mem_erase_iff.mp hk).1
  rw [hopen, List.filterMap_cons_some hfront, hothers, List.countP_cons, Nat.add_comm]
  simp

/-- Where the count is of the newest revisions in every order, newest revisions count alike. -/
theorem CountsNewest.counted (h : CountsNewest orders now) {k : OrderKey} {a b : OrderInfo}
    (ha : IsNewest orders k a) (hb : IsNewest orders k b) (author fiat : String) :
    Counted now author fiat a ↔ Counted now author fiat b := by
  obtain ⟨choice, -, hall⟩ := h
  -- One number is counted in every order of the list, so in those with `a` or `b` first too.
  have front : ∀ {o : OrderInfo}, IsNewest orders k o →
      (keysOf orders).countP (fun k => Counted now author fiat (choice k)) =
        (if Counted now author fiat o then 1 else 0) +
          (((keysOf orders).erase k).filterMap (keptOf orders)).countP
            fun o => Counted now author fiat o := by
    intro o ho
    obtain ⟨rest, hp, hrest⟩ := exists_front ho.mem
    obtain ⟨perNode, hcount, hopen⟩ := counted_front now hp hrest (ho.key.symm ▸ ho)
    rw [← (hall _ perNode hp hcount).1 author fiat, hopen author fiat, ho.key]
  have heq := (front ha).symm.trans (front hb)
  by_cases hca : Counted now author fiat a <;> by_cases hcb : Counted now author fiat b
  · exact ⟨fun _ => hcb, fun _ => hca⟩
  · rw [if_pos hca, if_neg hcb] at heq
    omega
  · rw [if_neg hca, if_pos hcb] at heq
    omega
  · exact ⟨fun h => absurd h hca, fun h => absurd h hcb⟩

/-- **The count is of the newest revisions in every order of the list exactly when ties contribute
alike.** -/
theorem counts_newest_iff (orders : List OrderInfo) (now : Int) :
    CountsNewest orders now ↔ TiesAlike orders now := by
  refine ⟨fun h k a b ha hb => ?_, TiesAlike.countsNewest⟩
  have hcounted := h.counted ha hb
  constructor
  · refine Bool.eq_iff_iff.mpr ⟨fun hopen => ?_, fun hopen => ?_⟩
    · exact ((hcounted a.creatorPubkey (fiatOf a)).mp ⟨hopen, rfl, rfl⟩).1
    · exact ((hcounted b.creatorPubkey (fiatOf b)).mpr ⟨hopen, rfl, rfl⟩).1
  · intro hopen
    exact ((hcounted a.creatorPubkey (fiatOf a)).mp ⟨hopen, rfl, rfl⟩).2.2.symm

/-- A revision of the order `o1` of the node `a`, published at 100. -/
def revision (status : OrderStatus) : OrderInfo where
  id := "o1"
  kind := .sell
  status := status
  fiatCode := "ARS"
  creatorPubkey := "a"
  createdAt := 100

/-- **An order that was canceled in the second it was published in** counts as open or not by the
order of the list. -/
theorem same_second_cancel_counts :
    ¬ CountsNewest [revision .pending, revision .canceled] 1000 ∧
      (∃ perNode, CountOpenOrders [revision .pending, revision .canceled] 1000 perNode ∧
        perNode.open "a" "ARS" = 1 ∧ perNode.latest "a" = some 100) ∧
      ∃ perNode, CountOpenOrders [revision .canceled, revision .pending] 1000 perNode ∧
        perNode.open "a" "ARS" = 0 ∧ perNode.latest "a" = none := by
  have isNewest : ∀ o ∈ [revision .pending, revision .canceled],
      IsNewest [revision .pending, revision .canceled] ("a", "o1") o := by
    intro o ho
    refine ⟨ho, ?_, fun o' ho' _ => ?_⟩
    · rcases List.mem_pair.mp ho with rfl | rfl <;> rfl
    · rcases List.mem_pair.mp ho with rfl | rfl <;> rcases List.mem_pair.mp ho' with rfl | rfl <;>
        exact le_rfl
  refine ⟨fun h => ?_, ⟨_, ⟨_, List.Perm.refl _, rfl⟩, by decide, by decide⟩,
    ⟨_, ⟨_, List.Perm.refl _, rfl⟩, by decide, by decide⟩⟩
  have hcounted := h.counted (isNewest _ (List.mem_pair.mpr (Or.inl rfl)))
    (isNewest _ (List.mem_pair.mpr (Or.inr rfl))) "a" "ARS"
  exact absurd (hcounted.mp (by decide)) (by decide)

end MostroApp.NodeStats
