import MostroApp.Db.TradeJson
import MostroApp.Lib.Rows
import Mathlib.Data.List.Sort
import Mathlib.Order.Lattice

set_option autoImplicit false

/-! # The two backends' trade stores (`db/sqlite.rs`, `db/indexeddb.rs`)

SQLite keeps rows and patches all that match with one statement; which row a `LIMIT 1` returns,
and the order of rows with one `started_at`, are the engine's. IndexedDB keeps documents under
their id, reads them all newest first, and patches the first that matches. How serde reads a
document back is the reader's.
-/

namespace MostroApp.Db

open Rows

/-! ## Operations -/

/-- A trade as serde writes it. -/
structure SavedTrade where
  doc : Json
  id : String
  startedAt : Int
  shaped : Shaped doc id startedAt

/-- How serde reads a trade document: a trade that is read has the document's `started_at`. -/
structure Reader (T : Type) where
  read : Json → Option T
  startedAt : T → Int
  startedAt_read : ∀ d t, read d = some t → startedAt t = startedAtOf d

inductive TradeOp where
  | saveTrade (t : SavedTrade)
  | getTrade (id : String)
  | listTrades
  | getTradeByOrderId (orderId : String)
  | deleteTradeByOrderId (orderId : String)
  | update (orderId : String) (p : TradePatch)

/-- What an operation returns. -/
inductive Answer (T : Type) where
  | done
  | found (t : Option T)
  | listed (ts : List T)
  | failed

variable {T : Type}

/-- What a read of a document that may be there returns: one that does not parse is an error. -/
def Reader.answer (R : Reader T) : Option Json → Answer T
  | none => .found none
  | some d =>
      match R.read d with
      | some t => .found (some t)
      | none => .failed

/-- The answers agree; lists do up to the order of trades with one `started_at`, and errors
whatever they say. -/
def Answer.Same (R : Reader T) : Answer T → Answer T → Prop
  | .done, .done => True
  | .failed, .failed => True
  | .found a, .found b => a = b
  | .listed ts, .listed ts' => ts.Perm ts' ∧ ts.map R.startedAt = ts'.map R.startedAt
  | _, _ => False

/-! ## SQLite -/

/-- A row of `trades`. Its `status` and `completed_at` columns are written and never read. -/
structure TradeRow where
  data : Json
  startedAt : Int

/-- What the statements leave to the database: which match `LIMIT 1` returns, and the order of
`ORDER BY started_at DESC` where it ties. -/
structure Engine where
  limitOne : List TradeRow → Option TradeRow
  limitOne_mem : ∀ rows r, limitOne rows = some r → r ∈ rows
  limitOne_some : ∀ rows, rows ≠ [] → limitOne rows ≠ none
  ordered : List TradeRow → List TradeRow
  ordered_perm : ∀ rows, (ordered rows).Perm rows
  ordered_desc : ∀ rows, (ordered rows).Pairwise fun a b => b.startedAt ≤ a.startedAt

abbrev SqlTable := AList fun _ : String => TradeRow

/-- `json_extract(data, '$.order.id') = ?`. -/
def TradeRow.matches (orderId : String) (r : TradeRow) : Bool := orderIdOf r.data = some orderId

namespace SqlTable

def rows (table : SqlTable) : List TradeRow := table.entries.map fun e => e.2

/-- `UPDATE trades SET data = json_set(...) WHERE` the order id matches. -/
def setMatching (table : SqlTable) (orderId : String) (sets : List (List String × Json)) :
    SqlTable :=
  mapValues
    (fun r => if r.matches orderId then { r with data := Json.setAll sets r.data } else r) table

/-- The table after an operation. -/
def after (table : SqlTable) : TradeOp → SqlTable
  | .saveTrade t => table.insert t.id ⟨t.doc, t.startedAt⟩
  | .deleteTradeByOrderId orderId => retain (fun r => !r.matches orderId) table
  | .update orderId p =>
      match p.sets orderId with
      | .ok sets => table.setMatching orderId sets
      | .error _ => table
  | .getTrade _ | .listTrades | .getTradeByOrderId _ => table

/-- What the operation returns. -/
def answer (R : Reader T) (E : Engine) (table : SqlTable) : TradeOp → Answer T
  | .saveTrade _ => .done
  | .getTrade id => R.answer ((table.lookup id).map fun r => r.data)
  | .listTrades => .listed ((E.ordered table.rows).filterMap fun r => R.read r.data)
  | .getTradeByOrderId orderId =>
      R.answer ((E.limitOne (table.rows.filter fun r => r.matches orderId)).map fun r => r.data)
  | .deleteTradeByOrderId _ => .done
  | .update orderId p =>
      -- to match no row is no error
      match p.sets orderId with
      | .ok _ => .done
      | .error _ => .failed

end SqlTable

/-! ## IndexedDB -/

abbrev IdbStore := AList fun _ : String => Json

namespace IdbStore

/-- `trade_documents`: all documents, in the order of their keys, newest first. -/
def documents (store : IdbStore) : List Json :=
  ((store.entries.insertionSort fun a b => a.1 ≤ b.1).map fun e => e.2).insertionSort
    fun a b => startedAtOf b ≤ startedAtOf a

/-- `trade_document_by_order_id`. -/
def documentByOrderId (store : IdbStore) (orderId : String) : Option Json :=
  store.documents.find? fun d => orderIdOf d = some orderId

/-- `patch_trade_by_order_id`. -/
def patch (store : IdbStore) (orderId : String) (f : Json → Except String Json) :
    IdbStore × Answer T :=
  match store.documentByOrderId orderId with
  | none => (store, .done)
  | some doc =>
      match f doc with
      | .error _ => (store, .failed)
      | .ok doc =>
          -- the document is put back under the id it has
          match (doc.get "id").bind Json.asStr with
          | none => (store, .failed)
          | some key => (store.insert key doc, .done)

/-- One document of the deletion's pass. -/
def deleteOne (orderId : String) (store : IdbStore) (doc : Json) : IdbStore :=
  if orderIdOf doc = some orderId then
    match (doc.get "id").bind Json.asStr with
    | some id => store.erase id
    | none => store
  else store

/-- One operation: the store it leaves and what it returns. -/
def exec (R : Reader T) (store : IdbStore) : TradeOp → IdbStore × Answer T
  | .saveTrade t => (store.insert t.id t.doc, .done)
  | .getTrade id => (store, R.answer (store.lookup id))
  | .listTrades => (store, .listed (store.documents.filterMap R.read))
  | .getTradeByOrderId orderId => (store, R.answer (store.documentByOrderId orderId))
  | .deleteTradeByOrderId orderId => (store.documents.foldl (deleteOne orderId) store, .done)
  | .update orderId p => store.patch orderId p.apply

end IdbStore

end MostroApp.Db
