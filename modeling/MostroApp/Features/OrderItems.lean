import MostroApp.Lib.Checked
import MostroApp.Lib.Transition
import MostroApp.Nostr.OrderEvents
import Mathlib.Data.List.AList

set_option autoImplicit false

/-! # The orders of the book (`home_order_providers.dart`, `order_book_feed.dart`)

The book shows an order as an item, which takes an amount of one shape and dates in range and cannot
be built otherwise. The feed of the book maps each order it is handed, and the first that cannot be
mapped ends it. So a published order ends the feed exactly when its amount or its dates are not
right (`order_stream_survives_iff`).
-/

namespace MostroApp.OrderEvents

open Checked Db Transition

/-! ## Items -/

inductive DartError where
  | argumentError (message : String)
  | rangeError
deriving DecidableEq, Repr

/-- The most milliseconds a date is away from the epoch. -/
def maxMillisecondsSinceEpoch : Int := 8640000000000000

structure DateTime where
  millisecondsSinceEpoch : Int
  inRange : |millisecondsSinceEpoch| ≤ maxMillisecondsSinceEpoch
deriving DecidableEq

def DateTime.fromMillisecondsSinceEpoch (ms : Int) : Except DartError DateTime :=
  if h : |ms| ≤ maxMillisecondsSinceEpoch then .ok ⟨ms, h⟩ else .error .rangeError

/-- Seconds as milliseconds, in a 64-bit integer that wraps. -/
def milliseconds (seconds : Int) : Int := (seconds * 1000).bmod (2 ^ 64)

def dateOf (seconds : Int) : Except DartError DateTime :=
  DateTime.fromMillisecondsSinceEpoch (milliseconds seconds)

def optionalDateOf : Option Int → Except DartError (Option DateTime)
  | none => pure none
  | some seconds => (dateOf seconds).map some

structure OrderItem where
  id : String
  kind : String
  fiatAmount : Option F64
  fiatAmountMin : Option F64
  fiatAmountMax : Option F64
  fiatCode : String
  paymentMethod : String
  premium : F64
  creatorPubkey : String
  createdAt : DateTime
  expiresAt : Option DateTime
  rating : F64
  tradeCount : Nat
  daysActive : Nat
  status : OrderStatus
  amountSats : Option Nat
  isMine : Bool
  oneShape : OneShape (fiatAmount, fiatAmountMin, fiatAmountMax) = true
deriving DecidableEq

def shapeError : DartError :=
  .argumentError ("OrderItem requires exactly one shape: " ++
    "fiatAmount (fixed) or fiatAmountMin+fiatAmountMax (range)")

/-- The item of an order whose dates are built. -/
def itemOf (info : OrderInfo) (createdAt : DateTime) (expiresAt : Option DateTime)
    (h : OneShape (info.fiatAmount, info.fiatAmountMin, info.fiatAmountMax) = true) :
    OrderItem where
  id := info.id
  kind := if info.kind = .buy then "buy" else "sell"
  fiatAmount := info.fiatAmount
  fiatAmountMin := info.fiatAmountMin
  fiatAmountMax := info.fiatAmountMax
  fiatCode := info.fiatCode
  paymentMethod := info.paymentMethod
  premium := info.premium
  creatorPubkey := info.creatorPubkey
  createdAt := createdAt
  expiresAt := expiresAt
  rating := info.rating
  tradeCount := info.totalReviews
  daysActive := info.daysActive
  status := info.status
  amountSats := info.amountSats
  isMine := info.isMine
  oneShape := h

/-- The dates are built before the shape of the amount is looked at. -/
def OrderItem.fromInfo (info : OrderInfo) : Except DartError OrderItem := do
  let createdAt ← dateOf info.createdAt
  let expiresAt ← optionalDateOf info.expiresAt
  if h : OneShape (info.fiatAmount, info.fiatAmountMin, info.fiatAmountMax) = true then
    pure (itemOf info createdAt expiresAt h)
  else
    .error shapeError

/-! ## The feed -/

/-- Not subscribed yet; about to take a snapshot; applying deltas; or ended, by an error or with
the stream. -/
inductive Phase where
  | fresh
  | restarting
  | running
  | closed (error : Option DartError)
deriving DecidableEq

/-- `OrderBookFeed`, with what an order is mapped to. -/
structure Feed (τ : Type) where
  byId : AList fun _ : String => τ := ∅
  revision : Nat := 0
  phase : Phase := .fresh

/-- What the source hands the feed. -/
inductive FeedEvent where
  | subscribed
  | snapshot (orders : List OrderInfo) (revision : Nat)
  | upserted (revision : Nat) (order : OrderInfo)
  | removed (revision : Nat) (orderId : String)
  | resync
  | loaded
  | ended
deriving DecidableEq

section Feed

variable {τ : Type} (map : OrderInfo → Except DartError τ)

/-- The orders of a snapshot, mapped one after the other. -/
def entries : List OrderInfo → Except DartError (AList fun _ : String => τ)
  | orders => orders.foldlM (fun byId order => (map order).map (byId.insert order.id)) ∅

/-- `_run`, and `_restart` on a snapshot: an order that cannot be mapped ends the feed. -/
def Feed.step (f : Feed τ) : FeedEvent → Option (Feed τ)
  | .subscribed => if f.phase = .fresh then some { f with phase := .restarting } else none
  | .snapshot orders revision =>
      if f.phase = .restarting then
        match entries map orders with
        | .ok byId => some { byId := byId, revision := revision, phase := .running }
        | .error e => some { f with phase := .closed (some e) }
      else none
  | .upserted revision order =>
      if f.phase = .running then
        if revision ≤ f.revision then some f
        else
          match map order with
          | .ok item => some { f with revision := revision, byId := f.byId.insert order.id item }
          | .error e => some { f with revision := revision, phase := .closed (some e) }
      else none
  | .removed revision orderId =>
      if f.phase = .running then
        if revision ≤ f.revision then some f
        else some { f with revision := revision, byId := f.byId.erase orderId }
      else none
  | .resync => if f.phase = .running then some { f with phase := .restarting } else none
  | .loaded => if f.phase = .running then some f else none
  | .ended => if f.phase = .running then some { f with phase := .closed none } else none

/-- The orders the feed maps. -/
def Feed.mapped (f : Feed τ) : FeedEvent → List OrderInfo
  | .snapshot orders _ => orders
  | .upserted revision order => if revision ≤ f.revision then [] else [order]
  | _ => []

/-- No error has ended the feed. -/
def Feed.Open (f : Feed τ) : Prop := ∀ e, f.phase ≠ .closed (some e)

/-- The order can be mapped. -/
def Mappable (order : OrderInfo) : Prop := ∃ item, map order = .ok item

variable {map} {f f' : Feed τ} {ev : FeedEvent}

/-- A snapshot is mapped whole, or ends the feed. -/
theorem entries_ok_iff (orders : List OrderInfo) :
    (∃ byId, entries map orders = .ok byId) ↔ ∀ order ∈ orders, Mappable map order := by
  refine foldlM_ok_iff fun byId order => ?_
  unfold Mappable
  cases map order with
  | ok item => exact iff_of_true ⟨_, rfl⟩ ⟨item, rfl⟩
  | error e => exact iff_of_false (fun ⟨_, h⟩ => nomatch h) fun ⟨_, h⟩ => nomatch h

/-- **A step ends an open feed with an error** exactly when it maps an order that cannot be. -/
theorem Feed.Open.step (h : f.Open) (hs : f.step map ev = some f') :
    f'.Open ↔ ∀ order ∈ f.mapped ev, Mappable map order := by
  have hnone : ∀ order ∈ ([] : List OrderInfo), Mappable map order :=
    fun _ h => absurd h List.not_mem_nil
  cases ev with
  | subscribed | resync =>
      simp only [Feed.step] at hs
      split at hs <;> cases hs
      exact iff_of_true nofun hnone
  | snapshot orders revision =>
      simp only [Feed.step] at hs
      split at hs
      · refine Iff.trans ?_ (entries_ok_iff orders)
        cases hmap : entries map orders with
        | ok byId =>
            rw [hmap] at hs
            cases hs
            exact iff_of_true nofun ⟨byId, rfl⟩
        | error e =>
            rw [hmap] at hs
            cases hs
            exact iff_of_false (fun hopen => hopen e rfl) nofun
      · cases hs
  | upserted revision order =>
      simp only [Feed.step] at hs
      simp only [Feed.mapped]
      split at hs
      · next hrunning =>
        split at hs
        · next hold =>
          cases hs
          rw [if_pos hold]
          exact iff_of_true h hnone
        · next hnew =>
          rw [if_neg hnew, List.forall_mem_singleton]
          cases hmap : map order with
          | ok item =>
              rw [hmap] at hs
              cases hs
              exact iff_of_true h ⟨item, hmap⟩
          | error e =>
              rw [hmap] at hs
              cases hs
              refine iff_of_false (fun hopen => hopen e rfl) ?_
              rintro ⟨item, hitem⟩
              exact absurd (hmap.symm.trans hitem) nofun
      · cases hs
  | removed revision orderId =>
      simp only [Feed.step] at hs
      split at hs
      · split at hs <;> cases hs <;> exact iff_of_true h hnone
      · cases hs
  | loaded =>
      simp only [Feed.step] at hs
      split at hs <;> cases hs
      exact iff_of_true h hnone
  | ended =>
      simp only [Feed.step] at hs
      split at hs <;> cases hs
      exact iff_of_true nofun hnone

/-- An order that can be mapped is kept. -/
theorem Feed.step_upserted {revision : Nat} {order : OrderInfo} {item : τ}
    (hrunning : f.phase = .running) (hnew : f.revision < revision)
    (hitem : map order = .ok item) : f.step map (.upserted revision order) =
      some { f with revision := revision, byId := f.byId.insert order.id item } := by
  simp only [Feed.step, if_pos hrunning, if_neg (Nat.not_le.mpr hnew), hitem]

/-- **The feed outlives a run** all of whose orders can be mapped. -/
theorem Feed.Open.run {evs : List FeedEvent} (h : f.Open)
    (hall : Along (Feed.step map) (fun f ev => ∀ order ∈ f.mapped ev, Mappable map order) f evs)
    (hrun : run (Feed.step map) f evs = some f') : f'.Open :=
  run_inv (fun _ _ _ hopen hev hs => (hopen.step hs).mpr hev) h hall hrun

end Feed

/-! ## Published orders -/

/-- The seconds are those of a date. -/
def DateRight (seconds : Int) : Prop := |milliseconds seconds| ≤ maxMillisecondsSinceEpoch

theorem dateOf_ok_iff (seconds : Int) : (∃ d, dateOf seconds = .ok d) ↔ DateRight seconds := by
  unfold dateOf DateTime.fromMillisecondsSinceEpoch
  split
  · next h => exact iff_of_true ⟨_, rfl⟩ h
  · next h => exact iff_of_false (fun ⟨_, hd⟩ => nomatch hd) h

theorem optionalDateOf_ok_iff (seconds : Option Int) :
    (∃ d, optionalDateOf seconds = .ok d) ↔ ∀ t ∈ seconds, DateRight t := by
  cases seconds with
  | none => exact iff_of_true ⟨none, rfl⟩ fun t ht => nomatch ht
  | some t =>
      have honly : (∀ t' ∈ some t, DateRight t') ↔ DateRight t :=
        ⟨fun h => h t rfl, fun h t' ht' => Option.some.inj ht' ▸ h⟩
      rw [optionalDateOf, honly, ← dateOf_ok_iff]
      cases dateOf t with
      | ok d => exact iff_of_true ⟨_, rfl⟩ ⟨d, rfl⟩
      | error e => exact iff_of_false (fun ⟨_, h⟩ => nomatch h) fun ⟨_, h⟩ => nomatch h

/-- **An order has an item** exactly when its amount has one shape and its dates are in range. -/
theorem mappable_fromInfo_iff (info : OrderInfo) :
    Mappable OrderItem.fromInfo info ↔
      OneShape (info.fiatAmount, info.fiatAmountMin, info.fiatAmountMax) = true ∧
        DateRight info.createdAt ∧ ∀ t ∈ info.expiresAt, DateRight t := by
  rw [← dateOf_ok_iff, ← optionalDateOf_ok_iff]
  unfold Mappable OrderItem.fromInfo
  constructor
  · rintro ⟨item, h⟩
    obtain ⟨createdAt, hcreated, h⟩ := bind_eq_ok.mp h
    obtain ⟨expiresAt, hexpires, h⟩ := bind_eq_ok.mp h
    split at h
    · next hshape => exact ⟨hshape, ⟨createdAt, hcreated⟩, expiresAt, hexpires⟩
    · cases h
  · rintro ⟨hshape, ⟨createdAt, hcreated⟩, expiresAt, hexpires⟩
    refine ⟨itemOf info createdAt expiresAt hshape, bind_eq_ok.mpr ⟨createdAt, hcreated, ?_⟩⟩
    exact bind_eq_ok.mpr ⟨expiresAt, hexpires, dif_pos hshape⟩

/-- The event's amount is a number or a range of two, and its dates are in range. -/
def Event.Right (event : Event) : Prop :=
  AmountRight event.fiatValues ∧ DateRight (u64AsI64 event.createdAt) ∧
    ∀ t ∈ event.expiration, DateRight t

/-- The order is read from the event, whatever the app has made of its status and owner. -/
def ReadFrom (fromJson : String → Option Value) (event : Event) (order : OrderInfo) : Prop :=
  ∃ info status isMine, parseOrderEvent fromJson event = some info ∧
    order = { info with status := status, isMine := isMine }

theorem ReadFrom.mappable_iff {fromJson : String → Option Value} {event : Event}
    {order : OrderInfo} (h : ReadFrom fromJson event order) :
    (OneShape (order.fiatAmount, order.fiatAmountMin, order.fiatAmountMax) = true ↔
      AmountRight event.fiatValues) ∧
    (Mappable OrderItem.fromInfo order ↔ event.Right) := by
  obtain ⟨info, status, isMine, hparse, rfl⟩ := h
  obtain ⟨hamounts, hcreated, hexpires⟩ := parseOrderEvent_eq_some hparse
  have hshape : OneShape (info.fiatAmount, info.fiatAmountMin, info.fiatAmountMax) = true ↔
      AmountRight event.fiatValues := by
    rw [hamounts]
    exact oneShape_parseFiatAmounts event.fiatValues
  refine ⟨hshape, (mappable_fromInfo_iff _).trans ?_⟩
  show _ ∧ DateRight info.createdAt ∧ (∀ t ∈ info.expiresAt, DateRight t) ↔ _
  rw [hcreated, hexpires]
  exact and_congr_left' hshape

/-- **A published order ends the stream exactly when its amount or its dates are not right**: its
amount has one shape, and it has an item, and the feed outlives its arrival in any state reached,
exactly when they are; and a run all of whose orders come from such events does not end with an
error. -/
theorem order_stream_survives_iff (fromJson : String → Option Value) (event : Event)
    (order : OrderInfo) (horder : ReadFrom fromJson event order) :
    (OneShape (order.fiatAmount, order.fiatAmountMin, order.fiatAmountMax) = true ↔
      AmountRight event.fiatValues) ∧
    (Mappable OrderItem.fromInfo order ↔ event.Right) ∧
    (∀ evs f f' revision, run (Feed.step OrderItem.fromInfo) {} evs = some f →
      f.revision < revision → f.step OrderItem.fromInfo (.upserted revision order) = some f' →
        (f'.Open ↔ event.Right)) ∧
    ∀ evs f, Along (Feed.step OrderItem.fromInfo) (fun f ev => ∀ o ∈ f.mapped ev,
        ∃ e : Event, ReadFrom fromJson e o ∧ e.Right) {} evs →
      run (Feed.step OrderItem.fromInfo) {} evs = some f → f.Open := by
  obtain ⟨hshape, hitem⟩ := horder.mappable_iff
  refine ⟨hshape, hitem, fun evs f f' revision hrun hnew hs => ?_, fun evs f hall hrun => ?_⟩
  · have hrunning : f.phase = .running := by
      by_contra hnot
      exact absurd ((if_neg hnot).symm.trans hs) nofun
    have hopen : f.Open := fun e he => nomatch hrunning.symm.trans he
    refine (hopen.step hs).trans ?_
    simp only [Feed.mapped, if_neg (Nat.not_le.mpr hnew), List.forall_mem_singleton]
    exact hitem
  · have hstart : Feed.Open ({} : Feed OrderItem) := nofun
    refine hstart.run (hall.mono fun f ev h o ho => ?_) hrun
    obtain ⟨e, hread, hright⟩ := h o ho
    exact hread.mappable_iff.2.mpr hright

/-- An event whose amount has the values `values`. -/
def orderEvent (seconds : UInt64) (values : List String) : Event where
  createdAt := seconds
  tags := [["d", "o"], ["k", "sell"], ["s", "pending"], ["f", "USD"], "fa" :: values]

/-- The feed after an empty snapshot. -/
def emptyFeed : List FeedEvent := [.subscribed, .snapshot [] 0]

/-- An order of 20 has an item, and the feed outlives it. -/
theorem fixed_amount_keeps_stream :
    ∃ order f', ReadFrom (fun _ => none) (orderEvent 1700000000 ["20"]) order ∧
      run (Feed.step OrderItem.fromInfo) {} (emptyFeed ++ [.upserted 1 order]) = some f' ∧
      f'.Open := by
  obtain ⟨info, hparse⟩ := Option.isSome_iff_exists.mp
    (show (parseOrderEvent (fun _ => none) (orderEvent 1700000000 ["20"])).isSome = true by decide)
  have hread : ReadFrom (fun _ => none) (orderEvent 1700000000 ["20"]) info :=
    ⟨info, info.status, info.isMine, hparse, rfl⟩
  have hright : (orderEvent 1700000000 ["20"]).Right := by
    refine ⟨?_, ?_, nofun⟩
    · show (F64.fromStr _).isSome = true
      decide
    · show |_| ≤ _
      decide
  obtain ⟨-, hitem, harrives, -⟩ :=
    order_stream_survives_iff (fun _ => none) (orderEvent 1700000000 ["20"]) info hread
  obtain ⟨item, hitem⟩ := hitem.mpr hright
  have hstep := Feed.step_upserted (f := { phase := .running }) rfl Nat.one_pos hitem
  refine ⟨info, _, hread, ?_, (harrives emptyFeed _ _ 1 rfl Nat.one_pos hstep).mpr hright⟩
  exact run_cons_eq_some.mpr ⟨_, rfl, run_cons_eq_some.mpr ⟨_, rfl,
    run_cons_eq_some.mpr ⟨_, hstep, rfl⟩⟩⟩

/-- What comes of an event: whether the order's amount has one shape, and how the feed stands after
its arrival. -/
def arrival (event : Event) : Option (Bool × Phase) :=
  (parseOrderEvent (fun _ => none) event).bind fun info =>
    (run (Feed.step OrderItem.fromInfo) {} (emptyFeed ++ [.upserted 1 info])).map fun f =>
      (OneShape (info.fiatAmount, info.fiatAmountMin, info.fiatAmountMax), f.phase)

/-- **Published orders that end the stream**: one without an amount, one with half a range, and one
of 20 that is dated out of range. -/
theorem orders_that_end_stream :
    arrival (orderEvent 1700000000 []) = some (false, .closed (some shapeError)) ∧
      arrival (orderEvent 1700000000 ["20", "x"]) = some (false, .closed (some shapeError)) ∧
      arrival (orderEvent 8640000000001 ["20"]) = some (true, .closed (some .rangeError)) := by
  decide

end MostroApp.OrderEvents
