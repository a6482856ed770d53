import MostroApp.Types
import MostroApp.Lib.Collect
import Mathlib.Algebra.Group.Nat.Defs
import Mathlib.Data.List.Sort

set_option autoImplicit false

/-! # The order book (`api/orders.rs`)

The book is a map of orders under their ids, with a revision that counts its changes. Every change
goes out as a delta, under the book's write lock; an order written again unchanged is no change. The
revision is a `u64` that counts up from zero, here a natural number.
-/

namespace MostroApp.OrderBook

open Collect

/-! ## The book -/

/-- One change of the book. -/
inductive OrderBookDelta where
  | upserted (revision : Nat) (order : OrderInfo)
  | removed (revision : Nat) (orderId : String)
  | reset
  | loaded
  deriving DecidableEq, Repr

structure BookState where
  orders : AList fun _ : String => OrderInfo
  revision : Nat
  loaded : Bool
  keyed : ∀ id o, orders.lookup id = some o → o.id = id

namespace BookState

/-- `BookState::default`. -/
def empty : BookState where
  orders := ∅
  revision := 0
  loaded := false
  keyed := fun id _ h => absurd ((AList.lookup_empty id).symm.trans h) (Option.some_ne_none _).symm

/-- `upsert`, with the delta it sends. -/
def upsert (order : OrderInfo) (s : BookState) : BookState × Option OrderBookDelta :=
  if s.orders.lookup order.id = some order then (s, none)
  else
    ({ s with
        orders := s.orders.insert order.id order
        revision := s.revision + 1
        keyed := fun id o h => by
          by_cases hid : id = order.id
          · subst hid
            rw [AList.lookup_insert] at h
            exact congrArg OrderInfo.id (Option.some.inj h).symm
          · exact s.keyed id o ((AList.lookup_insert_ne hid).symm.trans h) },
      some (.upserted (s.revision + 1) order))

/-- `remove`. Whether anything was there is whether there is a delta. -/
def remove (orderId : String) (s : BookState) : BookState × Option OrderBookDelta :=
  if s.orders.lookup orderId = none then (s, none)
  else
    ({ s with
        orders := s.orders.erase orderId
        revision := s.revision + 1
        keyed := fun id o h => by
          by_cases hid : id = orderId
          · subst hid
            rw [AList.lookup_erase] at h
            cases h
          · exact s.keyed id o ((AList.lookup_erase_ne hid).symm.trans h) },
      some (.removed (s.revision + 1) orderId))

/-- `replace_all`. -/
def replaceAll (orders : List OrderInfo) (s : BookState) : BookState × Option OrderBookDelta :=
  ({ s with
      orders := collect OrderInfo.id id orders
      revision := s.revision + 1
      keyed := fun _ _ h => lookup_collect_key h },
    some .reset)

/-- The book's part of `clear`. -/
def clear (s : BookState) : BookState × Option OrderBookDelta :=
  ({ (s.replaceAll []).1 with loaded := false }, some .reset)

/-- The book's part of `update_order_status`, if the book has the order. -/
def updateOrderStatus (orderId : String) (status : OrderStatus) (s : BookState) :
    Option (BookState × Option OrderBookDelta) :=
  (s.orders.lookup orderId).map fun order => s.upsert { order with status := status }

/-- The book's part of `publish_on_stored_events_end`, for the pending feed. -/
def storedEventsEnd (s : BookState) : BookState × Option OrderBookDelta :=
  ({ s with loaded := true }, some .loaded)

/-- `snapshot`: the whole book, ordered by id. -/
def snapshot (s : BookState) : List OrderInfo :=
  (values s.orders).insertionSort fun a b => a.id ≤ b.id

/-- A snapshot, collected again, is the book. -/
theorem lookup_snapshot {β : Type} (f : OrderInfo → β) (s : BookState) (id : String) :
    (collect OrderInfo.id f s.snapshot).lookup id = (s.orders.lookup id).map f :=
  lookup_collect_values s.keyed (List.perm_insertionSort _ _) id

end BookState

/-! ## What is done to it -/

/-- A write of the book. The deferred and the coalesced upsert write it as the plain one does. -/
inductive BookOp where
  | upsertOrder (order : OrderInfo)
  | removeOrder (orderId : String)
  | setOrders (orders : List OrderInfo)
  | clear
  | updateOrderStatus (orderId : String) (status : OrderStatus)
  | storedEventsEnd
  deriving DecidableEq, Repr

/-- The write, under the book's lock. -/
def BookOp.write : BookOp → BookState → BookState × Option OrderBookDelta
  | .upsertOrder order, s => s.upsert order
  | .removeOrder orderId, s => s.remove orderId
  | .setOrders orders, s => s.replaceAll orders
  | .clear, s => s.clear
  | .updateOrderStatus orderId status, s => (s.updateOrderStatus orderId status).getD (s, none)
  | .storedEventsEnd, s => s.storedEventsEnd

/-- What one write does: it leaves the orders and the revision and says at most that the book is
loaded, or it counts one change and says what it was. -/
inductive Written (s : BookState) : BookState → Option OrderBookDelta → Prop where
  | same (t : BookState) (delta : Option OrderBookDelta) : t.orders = s.orders →
      t.revision = s.revision → (∀ d, delta = some d → d = .loaded) → Written s t delta
  | upserts (t : BookState) (order : OrderInfo) : t.orders = s.orders.insert order.id order →
      t.revision = s.revision + 1 → Written s t (some (.upserted (s.revision + 1) order))
  | removes (t : BookState) (orderId : String) : t.orders = s.orders.erase orderId →
      t.revision = s.revision + 1 → Written s t (some (.removed (s.revision + 1) orderId))
  | replaces (t : BookState) : t.revision = s.revision + 1 → Written s t (some .reset)

theorem Written.idle (s : BookState) : Written s s none :=
  .same s none rfl rfl fun _ hd => by cases hd

theorem written_upsert (order : OrderInfo) (s : BookState) :
    Written s (s.upsert order).1 (s.upsert order).2 := by
  unfold BookState.upsert
  split
  · exact .idle s
  · exact .upserts _ order rfl rfl

theorem written_remove (orderId : String) (s : BookState) :
    Written s (s.remove orderId).1 (s.remove orderId).2 := by
  unfold BookState.remove
  split
  · exact .idle s
  · exact .removes _ orderId rfl rfl

theorem BookOp.written (op : BookOp) (s : BookState) : Written s (op.write s).1 (op.write s).2 := by
  cases op with
  | upsertOrder order => exact written_upsert order s
  | removeOrder orderId => exact written_remove orderId s
  | setOrders orders => exact .replaces _ rfl
  | clear => exact .replaces _ rfl
  | updateOrderStatus orderId status =>
      dsimp only [BookOp.write, BookState.updateOrderStatus]
      cases s.orders.lookup orderId with
      | none => exact .idle s
      | some order => exact written_upsert _ s
  | storedEventsEnd => exact .same _ _ rfl rfl fun d hd => (Option.some.inj hd).symm

/-- A pending order, as far as runs on fixed orders go. -/
def pendingOrder (id : String) (kind : OrderKind) : OrderInfo :=
  { id := id, kind := kind, status := .pending }

end MostroApp.OrderBook
