import MostroApp.Db.Float64

set_option autoImplicit false

/-! # JSON values as `serde_json` keeps them

A number is a `u64`, an `i64` or an `f64`, told apart by how it is written. What reads a text as a
value is `serde_json::from_str`, a parameter of the models that use it.
-/

namespace MostroApp.Db

inductive Value where
  | null
  | bool (b : Bool)
  | unsigned (n : Nat)
  | signed (i : Int)
  | float (x : F64)
  | str (s : String)
  | arr (items : List Value)
  | obj (fields : List (String × Value))

namespace Value

def get (name : String) : Value → Option Value
  | obj fields => fields.lookup name
  | _ => none

def asStr : Value → Option String
  | str s => some s
  | _ => none

def asU64 : Value → Option Nat
  | unsigned n => some n
  | _ => none

def asF64 : Value → Option F64
  | unsigned n => some (F64.rounded n)
  | signed i => some (F64.rounded i)
  | float x => some x
  | _ => none

end Value

end MostroApp.Db
