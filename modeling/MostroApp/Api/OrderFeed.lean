import MostroApp.Api.OrderBook
import MostroApp.Lib.Transition

set_option autoImplicit false

/-! # The replica of the order book (`api/orders.rs`, `order_book_feed.dart`)

A client subscribes to the deltas, takes a snapshot, and applies what the stream says and the
snapshot does not yet hold. The stream is a broadcast channel that keeps a bounded number of deltas:
a receiver that falls behind is told so, and a client that is told to resync takes a fresh snapshot.
The revision goes over the bridge as a `u32`; past its range every change is a resync.
-/

namespace MostroApp.OrderBook

open Collect Transition

/-! ## The stream -/

/-- `bridge_revision`: the revision as a `u32` below its maximum. -/
def bridgeRevision (revision : Nat) : Option Nat :=
  if revision < 2 ^ 32 - 1 then some revision else none

inductive OrderDelta where
  | upserted (revision : Nat) (order : OrderInfo)
  | removed (revision : Nat) (orderId : String)
  | resync
  | loaded
  deriving DecidableEq, Repr

/-- What `OrderDeltaStream::next` makes of a delta. -/
def OrderBookDelta.bridge : OrderBookDelta → OrderDelta
  | .upserted revision order =>
      (bridgeRevision revision).elim .resync fun revision => .upserted revision order
  | .removed revision orderId =>
      (bridgeRevision revision).elim .resync fun revision => .removed revision orderId
  | .reset => .resync
  | .loaded => .loaded

/-! ## The client -/

/-- Not subscribed yet; about to take a snapshot; or applying deltas. -/
inductive Phase where
  | fresh
  | restarting
  | running
  deriving DecidableEq, Repr

/-- `OrderBookFeed`, with what an order is mapped to. -/
structure Feed (τ : Type) where
  byId : AList fun _ : String => τ := ∅
  revision : Nat := 0
  phase : Phase := .fresh

variable {τ : Type} (map : OrderInfo → τ)

/-- What `_run` does with one delta. -/
def Feed.apply (f : Feed τ) : OrderDelta → Feed τ
  | .upserted revision order =>
      if revision ≤ f.revision then f
      else { f with revision := revision, byId := f.byId.insert order.id (map order) }
  | .removed revision orderId =>
      if revision ≤ f.revision then f
      else { f with revision := revision, byId := f.byId.erase orderId }
  | .resync => { f with phase := .restarting }
  | .loaded => f

/-- `_restart`, on what `get_order_book_snapshot` returns. -/
def Feed.restart (book : BookState) : Feed τ where
  byId := collect OrderInfo.id map book.snapshot
  revision := (bridgeRevision book.revision).getD (2 ^ 32 - 1)
  phase := .running

/-! ## The book, the channel and one client of it -/

/-- `pos` is where the client's receiver stands in what has been sent. -/
structure FeedState (τ : Type) where
  book : BookState := .empty
  sent : List OrderBookDelta := []
  feed : Feed τ := {}
  pos : Nat := 0

inductive FeedEvent where
  | write (op : BookOp)
  | subscribe
  | snapshot
  | next
  deriving DecidableEq, Repr

/-- One write of the book, or one step of the client, on a channel that keeps `capacity` deltas. -/
def FeedState.step (capacity : Nat) (s : FeedState τ) : FeedEvent → Option (FeedState τ)
  | .write op =>
      let (book, delta) := op.write s.book
      some { s with book := book, sent := s.sent ++ delta.toList }
  | .subscribe =>
      if s.feed.phase = .fresh then
        some { s with feed := { s.feed with phase := .restarting }, pos := s.sent.length }
      else none
  | .snapshot =>
      if s.feed.phase = .restarting then some { s with feed := Feed.restart map s.book } else none
  | .next =>
      if s.feed.phase = .running then
        if capacity < s.sent.length - s.pos then
          some { s with feed := s.feed.apply map .resync, pos := s.sent.length - capacity }
        else
          s.sent[s.pos]?.map fun delta =>
            { s with feed := s.feed.apply map delta.bridge, pos := s.pos + 1 }
      else none

/-! ## What is still to be read -/

/-- The client after it has read these deltas. -/
def Feed.reads (f : Feed τ) (deltas : List OrderBookDelta) : Feed τ :=
  deltas.foldl (fun f delta => f.apply map delta.bridge) f

/-- The client is told to resync, or has the orders of the book at no later revision. -/
def Feed.Caught (f : Feed τ) (book : BookState) : Prop :=
  f.phase = .restarting ∨
    f.revision ≤ book.revision ∧ ∀ id, f.byId.lookup id = (book.orders.lookup id).map map

variable {map} {f : Feed τ} {book book' : BookState} {s t : FeedState τ}

theorem apply_restarting (h : f.phase = .restarting) (delta : OrderDelta) :
    (f.apply map delta).phase = .restarting := by
  cases delta with
  | upserted revision order =>
      dsimp only [Feed.apply]
      split <;> exact h
  | removed revision orderId =>
      dsimp only [Feed.apply]
      split <;> exact h
  | resync => rfl
  | loaded => exact h

/-- A revision goes over the bridge as it is, or as a resync. -/
theorem bridgeRevision_cases (revision : Nat) :
    revision < 2 ^ 32 - 1 ∧ bridgeRevision revision = some revision ∨
      2 ^ 32 - 1 ≤ revision ∧ bridgeRevision revision = none := by
  unfold bridgeRevision
  split
  · next h => exact Or.inl ⟨h, rfl⟩
  · next h => exact Or.inr ⟨Nat.not_lt.mp h, rfl⟩

/-- A delta of one row goes over the bridge as it is, where an old one changes nothing, or as a
resync. -/
theorem apply_row {row : Nat → OrderDelta} {byId : AList fun _ : String => τ}
    (hrow : ∀ revision, f.apply map (row revision) =
      if revision ≤ f.revision then f else { f with revision := revision, byId := byId })
    (revision : Nat) :
    revision < 2 ^ 32 - 1 ∧ f.apply map ((bridgeRevision revision).elim .resync row) =
        (if revision ≤ f.revision then f else { f with revision := revision, byId := byId }) ∨
      (f.apply map ((bridgeRevision revision).elim .resync row)).phase = .restarting := by
  rcases bridgeRevision_cases revision with ⟨hlt, hb⟩ | ⟨-, hb⟩
  · rw [hb]
    exact Or.inl ⟨hlt, hrow revision⟩
  · rw [hb]
    exact Or.inr rfl

/-- The delta of the next revision brings a client that had caught up to the next book. -/
theorem caught_row {row : Nat → OrderDelta} {byId : AList fun _ : String => τ}
    (hrow : ∀ revision, f.apply map (row revision) =
      if revision ≤ f.revision then f else { f with revision := revision, byId := byId })
    (hrev : f.revision ≤ book.revision) (hr : book'.revision = book.revision + 1)
    (hmap : ∀ id, byId.lookup id = (book'.orders.lookup id).map map) :
    (f.apply map ((bridgeRevision (book.revision + 1)).elim .resync row)).Caught map book' := by
  have hnew : ¬ book.revision + 1 ≤ f.revision := by omega
  rcases apply_row hrow (book.revision + 1) with ⟨-, happly⟩ | hre
  · rw [happly, if_neg hnew]
    exact Or.inr ⟨Nat.le_of_eq hr.symm, hmap⟩
  · exact Or.inl hre

/-- A client that has read all there was catches up with one more write. -/
theorem Feed.Caught.written {delta : Option OrderBookDelta} (h : f.Caught map book)
    (hw : Written book book' delta) : (f.reads map delta.toList).Caught map book' := by
  rcases h with hre | ⟨hrev, hmap⟩
  · cases delta with
    | none => exact Or.inl hre
    | some delta => exact Or.inl (apply_restarting hre delta.bridge)
  · cases hw with
    | same _ ho hr hd =>
        have hsame : f.reads map delta.toList = f := by
          cases delta with
          | none => rfl
          | some d => rw [hd d rfl]; rfl
        rw [hsame]
        exact Or.inr ⟨hr ▸ hrev, fun id => ho ▸ hmap id⟩
    | upserts order ho hr =>
        refine caught_row (fun _ => rfl) hrev hr fun id => ?_
        by_cases hid : id = order.id
        · subst hid
          simp [ho]
        · simp [ho, AList.lookup_insert_ne hid, hmap id]
    | removes orderId ho hr =>
        refine caught_row (fun _ => rfl) hrev hr fun id => ?_
        by_cases hid : id = orderId
        · subst hid
          simp [ho]
        · simp [ho, AList.lookup_erase_ne hid, hmap id]
    | replaces => exact Or.inl rfl

/-! ## A fresh snapshot -/

/-- The revision a delta carries. -/
def OrderBookDelta.revision : OrderBookDelta → Nat
  | .upserted revision _ | .removed revision _ => revision
  | .reset | .loaded => 0

theorem caught_restart (book : BookState) : (Feed.restart map book).Caught map book := by
  refine Or.inr ⟨?_, book.lookup_snapshot map⟩
  show (bridgeRevision book.revision).getD (2 ^ 32 - 1) ≤ book.revision
  rcases bridgeRevision_cases book.revision with ⟨-, hb⟩ | ⟨hle, hb⟩
  · rw [hb]
    exact Nat.le_refl _
  · rw [hb]
    exact hle

/-- A delta the book had sent when the snapshot was taken changes nothing, or asks for another. -/
theorem apply_old {delta : OrderBookDelta} (h : delta.revision ≤ book.revision) :
    (Feed.restart map book).apply map delta.bridge = Feed.restart map book ∨
      ((Feed.restart map book).apply map delta.bridge).phase = .restarting := by
  have hold : ∀ revision, revision ≤ book.revision → revision < 2 ^ 32 - 1 →
      revision ≤ (Feed.restart map book).revision := by
    intro revision hle hlt
    show revision ≤ (bridgeRevision book.revision).getD (2 ^ 32 - 1)
    rcases bridgeRevision_cases book.revision with ⟨-, hb⟩ | ⟨-, hb⟩
    · rw [hb]
      exact hle
    · rw [hb]
      exact Nat.le_of_lt hlt
  cases delta with
  | upserted revision order | removed revision orderId =>
      refine Or.imp (fun happly => ?_) id (apply_row (fun _ => rfl) revision)
      exact happly.2.trans (if_pos (hold revision h happly.1))
  | reset => exact Or.inr rfl
  | loaded => exact Or.inl rfl

theorem reads_restarting (h : f.phase = .restarting) (deltas : List OrderBookDelta) :
    (f.reads map deltas).phase = .restarting := by
  induction deltas generalizing f with
  | nil => exact h
  | cons delta deltas ih => exact ih (apply_restarting h delta.bridge)

/-- What the receiver still holds from before the snapshot does it no harm. -/
theorem caught_reads_restart {deltas : List OrderBookDelta}
    (h : ∀ delta ∈ deltas, delta.revision ≤ book.revision) :
    ((Feed.restart map book).reads map deltas).Caught map book := by
  induction deltas with
  | nil => exact caught_restart book
  | cons delta deltas ih =>
      show (((Feed.restart map book).apply map delta.bridge).reads map deltas).Caught map book
      rcases apply_old (h delta (List.mem_cons_self ..)) with hsame | hre
      · rw [hsame]
        exact ih fun d hd => h d (List.mem_cons_of_mem _ hd)
      · exact Or.inl (reads_restarting hre deltas)

/-! ## The invariant -/

/-- No delta is ahead of the book, and a client that reads all there is for it has caught up. -/
structure FeedOk (map : OrderInfo → τ) (s : FeedState τ) : Prop where
  sent : ∀ delta ∈ s.sent, delta.revision ≤ s.book.revision
  pos : s.pos ≤ s.sent.length
  caught : s.feed.phase = .running → (s.feed.reads map (s.sent.drop s.pos)).Caught map s.book

theorem Written.revision {delta : Option OrderBookDelta} (hw : Written book book' delta) :
    book.revision ≤ book'.revision ∧ ∀ d, delta = some d → d.revision ≤ book'.revision := by
  cases hw with
  | same _ _ hr hd =>
      refine ⟨Nat.le_of_eq hr.symm, fun d h => ?_⟩
      rw [hd d h]
      exact Nat.zero_le _
  | upserts order _ hr =>
      refine ⟨by omega, fun d h => ?_⟩
      obtain rfl := Option.some.inj h
      exact Nat.le_of_eq hr.symm
  | removes orderId _ hr =>
      refine ⟨by omega, fun d h => ?_⟩
      obtain rfl := Option.some.inj h
      exact Nat.le_of_eq hr.symm
  | replaces hr =>
      refine ⟨by omega, fun d h => ?_⟩
      obtain rfl := Option.some.inj h
      exact Nat.zero_le _

theorem FeedOk.step {capacity : Nat} {e : FeedEvent} (hs : FeedOk map s)
    (h : s.step map capacity e = some t) : FeedOk map t := by
  cases e with
  | write op =>
      cases h
      have hw := op.written s.book
      obtain ⟨hle, hnew⟩ := hw.revision
      refine ⟨fun d hd => ?_, ?_, fun hrun => ?_⟩
      · rcases List.mem_append.mp hd with hold | hlast
        · exact Nat.le_trans (hs.sent d hold) hle
        · exact hnew d (Option.mem_toList.mp hlast)
      · exact Nat.le_trans hs.pos (by simp)
      · show (s.feed.reads map ((s.sent ++ _).drop s.pos)).Caught map _
        rw [List.drop_append_of_le_length hs.pos]
        unfold Feed.reads
        rw [List.foldl_append]
        exact (hs.caught hrun).written hw
  | subscribe =>
      simp only [FeedState.step] at h
      split at h
      · cases h
        exact ⟨hs.sent, Nat.le_refl _, fun hrun => by cases hrun⟩
      · cases h
  | snapshot =>
      simp only [FeedState.step] at h
      split at h
      · cases h
        refine ⟨hs.sent, hs.pos, fun _ => caught_reads_restart fun d hd => ?_⟩
        exact hs.sent d (List.mem_of_mem_drop hd)
      · cases h
  | next =>
      simp only [FeedState.step] at h
      split at h
      · next hrun =>
        split at h
        · cases h
          exact ⟨hs.sent, Nat.sub_le _ _, fun hrun => by cases hrun⟩
        · obtain ⟨delta, hdelta, rfl⟩ := Option.map_eq_some_iff.mp h
          obtain ⟨hlt, hget⟩ := List.getElem?_eq_some_iff.mp hdelta
          refine ⟨hs.sent, hlt, fun _ => ?_⟩
          have hread := hs.caught hrun
          rw [List.drop_eq_getElem_cons hlt, hget] at hread
          exact hread
      · cases h

/-- **The replica is the book.** Whatever is written to the book, whenever the client subscribes,
and however far its receiver falls behind: once the client runs and has read all that was sent, its
map has exactly the orders of the book. -/
theorem replica_is_book (map : OrderInfo → τ) (capacity : Nat) {es : List FeedEvent}
    {s : FeedState τ} (hr : run (FeedState.step map capacity) {} es = some s)
    (hrun : s.feed.phase = .running) (hpos : s.pos = s.sent.length) (id : String) :
    s.feed.byId.lookup id = (s.book.orders.lookup id).map map := by
  have hinit : FeedOk map ({} : FeedState τ) :=
    ⟨fun _ hd => absurd hd List.not_mem_nil, Nat.le_refl _, fun hrun => by cases hrun⟩
  have hok : FeedOk map s :=
    run_inv (fun _ _ _ hs _ h => hs.step h) hinit (along_true _ es) hr
  have hcaught := hok.caught hrun
  rw [hpos, List.drop_length] at hcaught
  rcases hcaught with hre | ⟨-, hmap⟩
  · exact absurd (hrun.symm.trans hre) nofun
  · exact hmap id

/-- An order comes between the subscription and the snapshot, two changes overrun a channel of one
delta, and the client starts over. -/
def overrun : List FeedEvent :=
  [.subscribe, .write (.upsertOrder (pendingOrder "a" .sell)), .snapshot, .next,
    .write (.upsertOrder (pendingOrder "b" .buy)), .write (.removeOrder "a"), .next, .snapshot,
    .next]

theorem overrun_replica :
    ∃ s, run (FeedState.step OrderInfo.kind 1) {} overrun = some s ∧
      s.feed.byId.entries = [⟨"b", .buy⟩] ∧
      ∀ id, s.feed.byId.lookup id = (s.book.orders.lookup id).map OrderInfo.kind := by
  have hsome : (run (FeedState.step OrderInfo.kind 1) {} overrun).isSome = true := by decide
  obtain ⟨s, hr⟩ := Option.isSome_iff_exists.mp hsome
  have hread : (run (FeedState.step OrderInfo.kind 1) {} overrun).map
      (fun s => (s.feed.phase, s.pos, s.sent.length, s.feed.byId.entries)) =
        some (.running, 3, 3, [⟨"b", .buy⟩]) := by decide
  simp only [hr, Option.map_some, Option.some.injEq, Prod.mk.injEq] at hread
  obtain ⟨hrun, hpos, hlen, hentries⟩ := hread
  exact ⟨s, hr, hentries, replica_is_book OrderInfo.kind 1 hr hrun (hpos.trans hlen.symm)⟩

end MostroApp.OrderBook
