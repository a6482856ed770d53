import Mathlib.Data.List.Basic
import Mathlib.Data.Rat.Defs

set_option autoImplicit false

/-! # JSON values and assignments at a path

`Json.set` is the `json_set` of SQL: it creates what is missing along a path and leaves a value
alone that the path cannot enter. `Json.assign` writes to the slot at a path in memory: it creates
what is missing, takes a `null` on the way for a missing object, and fails at any other value that
is not an object. Along a path whose steps enter objects only, the two agree (`assign_eq_set`).
-/

namespace MostroApp

/-- A JSON value. Numbers are told apart by their value. -/
inductive Json where
  | null
  | bool (b : Bool)
  | num (q : ℚ)
  | str (s : String)
  | arr (items : List Json)
  | obj (fields : List (String × Json))

namespace Json

/-! ## Objects -/

def get (k : String) : Json → Option Json
  | obj fields => fields.lookup k
  | _ => none

def asStr : Json → Option String
  | str s => some s
  | _ => none

/-- The number, if it is an integer. -/
def asInt : Json → Option Int
  | num q => if q.den = 1 then some q.num else none
  | _ => none

/-- The fields with `k` set to `v`, at its place or at the end. -/
def setKey (k : String) (v : Json) : List (String × Json) → List (String × Json)
  | [] => [(k, v)]
  | (k', v') :: fields => if k' = k then (k, v) :: fields else (k', v') :: setKey k v fields

theorem lookup_setKey (k : String) (v : Json) (fields : List (String × Json)) :
    (setKey k v fields).lookup k = some v := by
  induction fields with
  | nil => simp [setKey]
  | cons f fields ih =>
      unfold setKey
      split
      · simp
      · next hne =>
        have hkey : (k == f.1) = false := by simpa using fun e => hne e.symm
        rw [List.lookup_cons, hkey]
        exact ih

theorem lookup_setKey_ne {k k' : String} (h : k' ≠ k) (v : Json)
    (fields : List (String × Json)) : (setKey k v fields).lookup k' = fields.lookup k' := by
  induction fields with
  | nil => simp [setKey, h]
  | cons f fields ih =>
      unfold setKey
      split
      · next hk =>
        have hkey : (k' == k) = false := by simpa using h
        rw [List.lookup_cons, List.lookup_cons, hk, hkey]
      · rw [List.lookup_cons, List.lookup_cons, ih]

theorem get_obj {d : Json} {k : String} {v : Json} (h : d.get k = some v) :
    ∃ fields, d = obj fields ∧ fields.lookup k = some v := by
  cases d with
  | obj fields => exact ⟨fields, rfl, h⟩
  | null | bool | num | str | arr => cases h

/-! ## Paths -/

/-- The objects a path creates when nothing is there. -/
def nest : List String → Json → Json
  | [], v => v
  | k :: ks, v => obj [(k, nest ks v)]

/-- `json_set`. -/
def set : List String → Json → Json → Json
  | [], v, _ => v
  | k :: ks, v, obj fields =>
      match fields.lookup k with
      | some child => obj (setKey k (set ks v child) fields)
      | none => obj (setKey k (nest ks v) fields)
  | _ :: _, _, d => d

/-- The assignment of `v` to the slot at a path, or the key that is not inside an object. -/
def assign : List String → Json → Json → Except String Json
  | [], v, _ => .ok v
  | k :: ks, v, null => (assign ks v null).map fun child => obj (setKey k child [])
  | k :: ks, v, obj fields =>
      (assign ks v ((fields.lookup k).getD null)).map fun child => obj (setKey k child fields)
  | k :: _, _, _ => .error k

/-- Every step of the path is into an object, as far as there is something. -/
def Enters : List String → Json → Prop
  | [], _ => True
  | k :: ks, obj fields => ∀ child, fields.lookup k = some child → Enters ks child
  | _ :: _, _ => False

theorem assign_null (ks : List String) (v : Json) : assign ks v null = .ok (nest ks v) := by
  induction ks with
  | nil => rfl
  | cons k ks ih =>
      unfold assign
      rw [ih]
      rfl

/-- **The two ways to set a path agree** on what the path can enter. -/
theorem assign_eq_set {ks : List String} {v d : Json} (h : Enters ks d) :
    assign ks v d = .ok (set ks v d) := by
  induction ks generalizing d with
  | nil => rfl
  | cons k ks ih =>
      cases d with
      | obj fields =>
          unfold assign set
          cases hk : fields.lookup k with
          | some child =>
              rw [Option.getD_some, ih (h child hk)]
              rfl
          | none =>
              rw [Option.getD_none, assign_null]
              rfl
      | null | bool | num | str | arr => exact absurd h id

/-- A path leaves the other fields alone. -/
theorem get_set_ne {k k' : String} (h : k' ≠ k) (ks : List String) (v d : Json) :
    (set (k :: ks) v d).get k' = d.get k' := by
  cases d with
  | obj fields =>
      unfold set
      cases fields.lookup k <;> exact lookup_setKey_ne h _ fields
  | null | bool | num | str | arr => rfl

theorem set_singleton (k : String) (v : Json) (fields : List (String × Json)) :
    set [k] v (obj fields) = obj (setKey k v fields) := by
  unfold set
  cases fields.lookup k <;> rfl

/-- A field that is an object is one after a path into it was set. -/
theorem get_set_child {k k' : String} {v d : Json} {fields : List (String × Json)}
    (h : d.get k = some (obj fields)) :
    (set [k, k'] v d).get k = some (obj (setKey k' v fields)) := by
  obtain ⟨outer, rfl, hk⟩ := get_obj h
  have hset : set [k, k'] v (obj outer) = obj (setKey k (set [k'] v (obj fields)) outer) := by
    rw [set, hk]
  rw [hset, set_singleton]
  exact lookup_setKey k _ outer

/-- Several assignments, one after the other. -/
def setAll (sets : List (List String × Json)) (d : Json) : Json :=
  sets.foldl (fun d s => set s.1 s.2 d) d

end Json

end MostroApp
