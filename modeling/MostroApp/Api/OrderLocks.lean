import MostroApp.Lib.Handles
import MostroApp.Lib.Mutex
import MostroApp.Lib.Records
import Mathlib.Data.Finset.Insert
import Mathlib.Data.Finset.Erase
import Mathlib.Data.List.Count

set_option autoImplicit false

/-! # The locks of the orders (`lock_order`)

The registry maps an order to its mutex and is itself behind one. A call drops the entries that
nobody else refers to, clones or inserts the one of its order, and waits for that mutex outside the
registry; its guard keeps the reference. Calls run interleaved, one access to what they share per
step, and a wait may be cancelled. `order_locks_right` says of every run that a guard excludes the
other calls of its order, and that the clean-up takes no mutex from a call.
-/

namespace MostroApp.Locking

open Interleaving Transition Records

/-! ## The registry and its calls -/

/-- `ORDER_LOCKS` and the mutexes it refers to, by number: the reference count and the lock of
each. `held` is the registry's own lock. -/
structure OrderLocks where
  map : List (String × Nat)
  strong : Nat → Nat
  locked : Finset Nat
  next : Nat
  held : Bool

def OrderLocks.new : OrderLocks := ⟨[], fun _ => 0, ∅, 0, false⟩

/-- The place of a call of `lock_order`, and of the guard it returns. -/
inductive LockCall where
  | calls (order : String)
  /-- `retain` has still to look at `rest`. -/
  | retains (order : String) (rest : List (String × Nat))
  /-- The reference count of `e` has been read. -/
  | decides (order : String) (e : String × Nat) (keep : Bool) (rest : List (String × Nat))
  | enters (order : String)
  | clones (order : String) (m : Nat)
  | leaves (order : String) (m : Nat)
  | waits (order : String) (m : Nat)
  /-- The mutex is the call's, which has not run since. -/
  | granted (order : String) (m : Nat)
  | guards (order : String) (m : Nat)
  /-- The mutex is given back, the reference not yet. -/
  | drops (order : String) (m : Nat)
  deriving DecidableEq

/-- The order of the map's iteration, and whether the future is dropped where it can be. -/
structure Choice where
  entries : List (String × Nat)
  cancelled : Bool

/-- Another reference to the mutex. -/
def OrderLocks.retainRef (m : Nat) (s : OrderLocks) : OrderLocks :=
  { s with strong := Function.update s.strong m (s.strong m + 1) }

/-- A reference is dropped. -/
def OrderLocks.dropRef (m : Nat) (s : OrderLocks) : OrderLocks :=
  { s with strong := Function.update s.strong m (s.strong m - 1) }

/-- A new mutex for the order, which the map alone refers to. -/
def OrderLocks.insert (order : String) (s : OrderLocks) : OrderLocks :=
  { s with
    map := s.map ++ [(order, s.next)]
    strong := Function.update s.strong s.next 1
    next := s.next + 1 }

/-- `lock_order` and the guard's drop, one access to what the calls share per step. -/
def LockCall.step (w : Choice) : LockCall → OrderLocks → Option (OrderLocks × Option LockCall)
  | .calls order, s =>
      if w.cancelled then some (s, none)
      else if s.held = false ∧ w.entries.isPerm s.map then
        some ({ s with held := true }, some (.retains order w.entries))
      else none
  | .retains order [], s => some (s, some (.enters order))
  | .retains order (e :: rest), s => some (s, some (.decides order e (1 < s.strong e.2) rest))
  | .decides order e keep rest, s =>
      if keep then some (s, some (.retains order rest))
      else some ({ s with map := s.map.erase e }.dropRef e.2, some (.retains order rest))
  | .enters order, s =>
      match get Prod.fst order s.map with
      | some e => some (s, some (.clones order e.2))
      | none => some (s.insert order, some (.clones order s.next))
  | .clones order m, s => some (s.retainRef m, some (.leaves order m))
  | .leaves order m, s => some ({ s with held := false }, some (.waits order m))
  | .waits order m, s =>
      if w.cancelled then some (s.dropRef m, none)
      else if m ∈ s.locked then none
      else some ({ s with locked := Insert.insert m s.locked }, some (.granted order m))
  | .granted order m, s =>
      if w.cancelled then some ({ s with locked := s.locked.erase m }, some (.drops order m))
      else some (s, some (.guards order m))
  | .guards order m, s => some ({ s with locked := s.locked.erase m }, some (.drops order m))
  | .drops _ m, s => some (s.dropRef m, none)

/-- Any number of calls. -/
def lockProg : Prog OrderLocks LockCall Choice Empty where
  enter
    | .calls _ => true
    | _ => false
  tstep := LockCall.step
  act a := nomatch a

def LockCall.order : LockCall → String
  | .calls order | .retains order _ | .decides order .. | .enters order | .clones order _
  | .leaves order _ | .waits order _ | .granted order _ | .guards order _ | .drops order _ => order

/-- The mutex a call has come to. -/
def LockCall.mutex : LockCall → Option Nat
  | .calls _ | .retains .. | .decides .. | .enters _ => none
  | .clones _ m | .leaves _ m | .waits _ m | .granted _ m | .guards _ m | .drops _ m => some m

/-! ## What a step does -/

/-- The steps of a call. -/
inductive LockCall.Steps (w : Choice) (s : OrderLocks) :
    LockCall → OrderLocks → Option LockCall → Prop
  | gives_up (order : String) : Steps w s (.calls order) s none
  | takes (order : String) (entries : List (String × Nat)) (hfree : s.held = false)
      (hmap : entries.Perm s.map) :
      Steps w s (.calls order) { s with held := true } (some (.retains order entries))
  | done (order : String) : Steps w s (.retains order []) s (some (.enters order))
  | reads (order : String) (e : String × Nat) (rest : List (String × Nat)) (keep : Bool)
      (hkeep : keep = false → s.strong e.2 ≤ 1) :
      Steps w s (.retains order (e :: rest)) s (some (.decides order e keep rest))
  | keeps (order : String) (e : String × Nat) (rest : List (String × Nat)) :
      Steps w s (.decides order e true rest) s (some (.retains order rest))
  | removes (order : String) (e : String × Nat) (rest : List (String × Nat)) :
      Steps w s (.decides order e false rest) ({ s with map := s.map.erase e }.dropRef e.2)
        (some (.retains order rest))
  | finds (order : String) (m : Nat) (hfind : (order, m) ∈ s.map) :
      Steps w s (.enters order) s (some (.clones order m))
  | inserts (order : String) (hnone : order ∉ s.map.map Prod.fst) :
      Steps w s (.enters order) (s.insert order) (some (.clones order s.next))
  | clones (order : String) (m : Nat) :
      Steps w s (.clones order m) (s.retainRef m) (some (.leaves order m))
  | leaves (order : String) (m : Nat) :
      Steps w s (.leaves order m) { s with held := false } (some (.waits order m))
  -- a cancelled wait, and a guard's last act
  | leaves_off (p : LockCall) (order : String) (m : Nat)
      (hp : p = .waits order m ∨ p = .drops order m) :
      Steps w s p (s.dropRef m) none
  | locks (order : String) (m : Nat) (hfree : m ∉ s.locked) :
      Steps w s (.waits order m) { s with locked := Insert.insert m s.locked }
        (some (.granted order m))
  | wakes (order : String) (m : Nat) :
      Steps w s (.granted order m) s (some (.guards order m))
  | unlocks (p : LockCall) (order : String) (m : Nat)
      (hp : p = .granted order m ∨ p = .guards order m) :
      Steps w s p { s with locked := s.locked.erase m } (some (.drops order m))

theorem LockCall.steps {w : Choice} {p : LockCall} {s t : OrderLocks} {q : Option LockCall}
    (h : p.step w s = some (t, q)) : LockCall.Steps w s p t q := by
  cases p with
  | calls order =>
      simp only [LockCall.step] at h
      split at h
      · cases h
        exact .gives_up order
      · split at h
        · rename_i htake
          cases h
          exact .takes order _ htake.1 (List.isPerm_iff.mp htake.2)
        · cases h
  | retains order rest =>
      cases rest with
      | nil =>
          cases h
          exact .done order
      | cons e rest =>
          cases h
          exact .reads order e rest _ fun hkeep => Nat.not_lt.mp (of_decide_eq_false hkeep)
  | decides order e keep rest =>
      cases keep with
      | true =>
          cases h
          exact .keeps order e rest
      | false =>
          cases h
          exact .removes order e rest
  | enters order =>
      simp only [LockCall.step] at h
      split at h
      · rename_i e hget
        cases h
        exact .finds order e.2 (key_of_get hget ▸ mem_of_get hget)
      · rename_i hget
        cases h
        exact .inserts order (get_eq_none.mp hget)
  | clones order m =>
      cases h
      exact .clones order m
  | leaves order m =>
      cases h
      exact .leaves order m
  | waits order m =>
      simp only [LockCall.step] at h
      split at h
      · cases h
        exact .leaves_off _ order m (Or.inl rfl)
      · split at h
        · cases h
        · rename_i hfree
          cases h
          exact .locks order m hfree
  | granted order m =>
      simp only [LockCall.step] at h
      split at h
      · cases h
        exact .unlocks _ order m (Or.inl rfl)
      · cases h
        exact .wakes order m
  | guards order m =>
      cases h
      exact .unlocks _ order m (Or.inr rfl)
  | drops order m =>
      cases h
      exact .leaves_off _ order m (Or.inr rfl)

/-! ## The two kinds of locks -/

/-- The call has the registry. -/
def LockCall.critical : LockCall → Bool
  | .retains .. | .decides .. | .enters _ | .clones .. | .leaves .. => true
  | _ => false

/-- The call has the lock of the mutex `m`, as a guard or before it returns one. -/
def LockCall.holds (m : Nat) : LockCall → Bool
  | .granted _ n | .guards _ n => n = m
  | _ => false

theorem registryMutex : Mutex lockProg OrderLocks.held LockCall.critical where
  enter p hp := by cases p <;> first | rfl | nomatch hp
  take w p s t q h hp hq := by
    cases LockCall.steps h with
    | takes order entries hfree => exact ⟨hfree, rfl⟩
    | unlocks | locks | wakes => nomatch hq
    | _ => nomatch hp
  stay w p s t q h hp hq := by
    cases LockCall.steps h with
    | done | reads | keeps | removes | finds | inserts | clones => rfl
    | leaves => nomatch hq
    | unlocks => nomatch hq
    | _ => nomatch hp
  keep w p s t q h hp hq := by
    cases LockCall.steps h with
    | takes => nomatch hq _ rfl
    | gives_up | leaves_off | locks | wakes | unlocks => rfl
    | _ => nomatch hp
  env a := nomatch a

theorem orderMutex (m : Nat) :
    Mutex lockProg (fun s => decide (m ∈ s.locked)) (LockCall.holds m) where
  enter p hp := by cases p <;> first | rfl | nomatch hp
  take w p s t q h hp hq := by
    cases LockCall.steps h with
    | locks order n hfree =>
        obtain rfl : n = m := of_decide_eq_true hq
        exact ⟨decide_eq_false hfree, decide_eq_true (Finset.mem_insert_self n _)⟩
    | wakes order n => exact absurd (hp.symm.trans hq) nofun
    | unlocks => nomatch hq
    | _ => nomatch hq
  stay w p s t q h hp hq := by
    cases LockCall.steps h with
    | wakes => rfl
    | unlocks => nomatch hq
    | _ => nomatch hp
  keep w p s t q h hp hq := by
    cases LockCall.steps h with
    | locks order n =>
        have hne : m ≠ n := fun h => absurd (hq _ rfl) (by simp [LockCall.holds, h])
        simp [hne]
    | unlocks _ order n hn =>
        have hne : m ≠ n := by
          rintro rfl
          rcases hn with rfl | rfl <;> exact absurd hp (by simp [LockCall.holds])
        simp [hne]
    | _ => rfl
  env a := nomatch a

/-! ## What the calls rely on -/

/-- An order has one mutex, and a number that is not given out belongs to none: the next mutex is
new and free. -/
structure OrderLocks.Inv (s : OrderLocks) : Prop where
  keys : (s.map.map Prod.fst).Nodup
  below : ∀ e ∈ s.map, e.2 < s.next
  fresh : ∀ m, s.next ≤ m → s.strong m = 0
  free : ∀ m, s.next ≤ m → m ∉ s.locked

/-- The call's mutex is in the map under its order, and the clean-up goes through entries of the
map; what it removes, the map alone refers to. -/
def LockCall.Asserts : LockCall → OrderLocks → Prop
  | .calls _, _ | .enters _, _ => True
  | .retains _ rest, s => rest.Nodup ∧ ∀ e ∈ rest, e ∈ s.map
  | .decides _ e keep rest, s =>
      (e :: rest).Nodup ∧ (∀ x ∈ e :: rest, x ∈ s.map) ∧ (keep = false → s.strong e.2 ≤ 1)
  | .clones order m, s | .leaves order m, s | .waits order m, s | .granted order m, s
  | .guards order m, s | .drops order m, s => (order, m) ∈ s.map

/-- The entries of the map that refer to `m`. -/
def OrderLocks.stored (s : OrderLocks) (m : Nat) : Nat := s.map.countP fun e => e.2 = m

/-- The references of a call: it has one from the clone to its end. -/
def LockCall.uses : LockCall → Nat → Nat
  | .leaves _ n, m | .waits _ n, m | .granted _ n, m | .guards _ n, m | .drops _ n, m =>
      if n = m then 1 else 0
  | _, _ => 0

/-- Every reference count is that of the map's entries and the calls. -/
abbrev Counted (c : Pool OrderLocks LockCall) : Prop :=
  c.Counted OrderLocks.strong OrderLocks.stored LockCall.uses

theorem stored_pos {s : OrderLocks} {e : String × Nat} (h : e ∈ s.map) : 0 < s.stored e.2 :=
  List.countP_pos_iff.mpr ⟨e, h, decide_eq_true rfl⟩

/-! ## One step -/

section Steps

variable {w : Choice} {p : LockCall} {s t : OrderLocks} {q : Option LockCall}

/-- Outside the registry, no reference is made and the map stays. -/
theorem steps_quiet (h : LockCall.Steps w s p t q) (hp : p.critical = false) :
    t.map = s.map ∧ ∀ m, t.strong m ≤ s.strong m := by
  cases h with
  | leaves_off p order m =>
      refine ⟨rfl, fun k => ?_⟩
      unfold OrderLocks.dropRef
      by_cases hk : k = m
      · subst hk
        simp
      · simp [hk]
  | gives_up | takes | locks | wakes | unlocks => exact ⟨rfl, fun m => le_refl _⟩
  | _ => nomatch hp

/-- An entry stays unless the clean-up has decided against it. -/
theorem steps_keep_entry (h : LockCall.Steps w s p t q) {e : String × Nat} (he : e ∈ s.map)
    (hkeep : ∀ order x rest, p = .decides order x false rest → e ≠ x) : e ∈ t.map := by
  cases h with
  | removes order x rest => exact (List.mem_erase_of_ne (hkeep order x rest rfl)).mpr he
  | inserts => exact List.mem_append_left _ he
  | _ => exact he

theorem steps_inv (hs : s.Inv) (hp : p.Asserts s) (h : LockCall.Steps w s p t q) : t.Inv := by
  have hdrop : ∀ m, (s.dropRef m).Inv := by
    refine fun m => ⟨hs.keys, hs.below, fun k hk => ?_, hs.free⟩
    unfold OrderLocks.dropRef
    by_cases hkm : k = m
    · subst hkm
      simp [hs.fresh k hk]
    · simpa [hkm] using hs.fresh k hk
  cases h with
  | removes order e rest =>
      have hsub : (s.map.erase e).Sublist s.map := List.erase_sublist
      exact ⟨hs.keys.sublist (hsub.map _), fun x hx => hs.below x (hsub.subset hx),
        (hdrop e.2).fresh, hs.free⟩
  | inserts order hnone =>
      refine ⟨?_, fun e he => ?_, fun k hk => ?_, fun k hk => hs.free k (Nat.le_of_lt hk)⟩
      · show ((s.map ++ [(order, s.next)]).map Prod.fst).Nodup
        rw [List.map_append, List.map_singleton]
        refine List.nodup_append.mpr ⟨hs.keys, List.nodup_singleton _, fun x hx y hy heq => ?_⟩
        obtain rfl : y = order := List.mem_singleton.mp hy
        exact hnone (heq ▸ hx)
      · rcases List.mem_append.mp he with he | he
        · exact Nat.lt_succ_of_lt (hs.below e he)
        · exact List.mem_singleton.mp he ▸ Nat.lt_succ_self s.next
      · have hlt : s.next < k := hk
        show Function.update s.strong s.next 1 k = 0
        rw [Function.update_of_ne (Nat.ne_of_gt hlt)]
        exact hs.fresh k (Nat.le_of_lt hlt)
  | clones order m =>
      refine ⟨hs.keys, hs.below, fun k hk => ?_, hs.free⟩
      have hlt : m < k := (hs.below _ hp).trans_le hk
      show Function.update s.strong m (s.strong m + 1) k = 0
      rw [Function.update_of_ne (Nat.ne_of_gt hlt)]
      exact hs.fresh k hk
  | leaves_off p order m => exact hdrop m
  | locks order m =>
      refine ⟨hs.keys, hs.below, hs.fresh, fun k hk => ?_⟩
      have hne : k ≠ m := Nat.ne_of_gt ((hs.below _ hp).trans_le hk)
      exact fun hmem => hs.free k hk ((Finset.mem_insert.mp hmem).resolve_left hne)
  | unlocks p order m =>
      exact ⟨hs.keys, hs.below, hs.fresh, fun k hk hmem =>
        hs.free k hk (Finset.mem_of_mem_erase hmem)⟩
  | _ => exact ⟨hs.keys, hs.below, hs.fresh, hs.free⟩

/-- The call that steps establishes what it relies on next. -/
theorem steps_self (hs : s.Inv) (hp : p.Asserts s) {r : LockCall}
    (h : LockCall.Steps w s p t (some r)) : r.Asserts t := by
  cases h with
  | takes order entries _ hmap =>
      exact ⟨hmap.nodup_iff.mpr (List.Nodup.of_map _ hs.keys), fun e he => hmap.mem_iff.mp he⟩
  | reads order e rest keep hkeep => exact ⟨hp.1, hp.2, hkeep⟩
  | done => trivial
  | keeps order e rest =>
      exact ⟨(List.nodup_cons.mp hp.1).2, fun x hx => hp.2.1 x (List.mem_cons_of_mem e hx)⟩
  | removes order e rest =>
      obtain ⟨hout, hrest⟩ := List.nodup_cons.mp hp.1
      refine ⟨hrest, fun x hx => ?_⟩
      have hne : x ≠ e := fun heq => hout (heq ▸ hx)
      exact (List.mem_erase_of_ne hne).mpr (hp.2.1 x (List.mem_cons_of_mem e hx))
  | finds order m hfind => exact hfind
  | inserts order => exact List.mem_append_right _ (List.mem_singleton_self _)
  | unlocks p order m hm => rcases hm with rfl | rfl <;> exact hp
  | _ => exact hp

/-- A call that waits for the registry, or has it, is not disturbed by one that has it not. -/
theorem asserts_quiet {r : LockCall} (hr : r.Asserts s) (hmap : t.map = s.map)
    (hstrong : ∀ m, t.strong m ≤ s.strong m) : r.Asserts t := by
  cases r with
  | calls | enters => trivial
  | retains order rest =>
      obtain ⟨hnodup, hmem⟩ := hr
      exact ⟨hnodup, hmap ▸ hmem⟩
  | decides order e keep rest =>
      obtain ⟨hnodup, hmem, hcount⟩ := hr
      exact ⟨hnodup, hmap ▸ hmem, fun hkeep => (hstrong e.2).trans (hcount hkeep)⟩
  | clones | leaves | waits | granted | guards | drops =>
      show _ ∈ t.map
      rw [hmap]
      exact hr

theorem stored_erase {e : String × Nat} (he : e ∈ s.map) (m : Nat) :
    OrderLocks.stored { s with map := s.map.erase e } m + (if e.2 = m then 1 else 0) =
      s.stored m := by
  have hcount := (List.perm_cons_erase he).countP_eq fun x => decide (x.2 = m)
  unfold OrderLocks.stored
  rw [hcount, List.countP_cons]
  simp

/-- **No reference is made or lost** but with the count. -/
theorem steps_balance (hs : s.Inv) (hp : p.Asserts s)
    (hcount : ∀ m, s.stored m + p.uses m ≤ s.strong m) (h : LockCall.Steps w s p t q) (k : Nat) :
    t.strong k + s.stored k + p.uses k =
      s.strong k + t.stored k + handles LockCall.uses k q := by
  have hk := hcount k
  cases h with
  | removes order e rest =>
      have hstored := stored_erase (hp.2.1 e List.mem_cons_self) k
      have hpos := stored_pos (hp.2.1 e List.mem_cons_self)
      show Function.update s.strong e.2 (s.strong e.2 - 1) k + s.stored k + 0 =
        s.strong k + OrderLocks.stored { s with map := s.map.erase e } k + 0
      by_cases heq : e.2 = k
      · subst heq
        rw [if_pos rfl] at hstored
        rw [Function.update_self]
        omega
      · rw [if_neg heq] at hstored
        rw [Function.update_of_ne (Ne.symm heq)]
        omega
  | inserts order =>
      have hstored : (s.insert order).stored k = s.stored k + if s.next = k then 1 else 0 := by
        unfold OrderLocks.stored OrderLocks.insert
        rw [List.countP_append, List.countP_singleton]
        simp
      have hfresh := hs.fresh k
      show Function.update s.strong s.next 1 k + s.stored k + 0 =
        s.strong k + (s.insert order).stored k + 0
      by_cases heq : s.next = k
      · subst heq
        rw [if_pos rfl] at hstored
        rw [Function.update_self, hstored, hfresh (le_refl _)]
        omega
      · rw [if_neg heq] at hstored
        rw [Function.update_of_ne (Ne.symm heq), hstored]
        omega
  | clones order m =>
      show Function.update s.strong m (s.strong m + 1) k + s.stored k + 0 =
        s.strong k + s.stored k + if m = k then 1 else 0
      by_cases heq : m = k
      · subst heq
        rw [Function.update_self, if_pos rfl]
        omega
      · rw [Function.update_of_ne (Ne.symm heq), if_neg heq]
  | leaves_off p order m hm =>
      have huses : p.uses k = if m = k then 1 else 0 := by rcases hm with rfl | rfl <;> rfl
      show Function.update s.strong m (s.strong m - 1) k + s.stored k + p.uses k =
        s.strong k + s.stored k + 0
      rw [huses] at hk ⊢
      by_cases heq : m = k
      · subst heq
        rw [if_pos rfl] at hk ⊢
        rw [Function.update_self]
        omega
      · rw [if_neg heq, Function.update_of_ne (Ne.symm heq)]
  | unlocks p order m hm => rcases hm with rfl | rfl <;> exact Nat.add_assoc .. ▸ rfl
  | _ => rfl

end Steps

/-! ## Every run -/

/-- What holds of the calls together, at any time. -/
structure Sound (c : Pool OrderLocks LockCall) : Prop where
  calls : PoolInv OrderLocks.Inv LockCall.Asserts c
  registry : c.Alone OrderLocks.held LockCall.critical
  locks : ∀ m, c.Alone (fun s => decide (m ∈ s.locked)) (LockCall.holds m)
  counted : Counted c

/-- A call with a mutex, in the registry or past it. -/
theorem mutex_cases {p : LockCall} {m : Nat} (h : p.mutex = some m) :
    p.critical = true ∧ p.uses m = 0 ∨ p.uses m = 1 := by
  cases p with
  | calls | retains | decides | enters => nomatch h
  | clones order n => exact Or.inl ⟨rfl, rfl⟩
  | leaves | waits | granted | guards | drops =>
      obtain rfl := Option.some.inj h
      exact Or.inr (if_pos rfl)

theorem asserts_mutex {p : LockCall} {s : OrderLocks} {m : Nat} (h : p.mutex = some m) :
    p.Asserts s ↔ (p.order, m) ∈ s.map := by
  cases p with
  | calls | retains | decides | enters => nomatch h
  | clones | leaves | waits | granted | guards | drops =>
      obtain rfl := Option.some.inj h
      exact Iff.rfl

/-- **What the clean-up removes is no call's**: only the map refers to it, and no call but the one
that cleans up is in the registry. -/
theorem Sound.removed {c : Pool OrderLocks LockCall} (h : Sound c) {i : Nat} {order : String}
    {e : String × Nat} {rest : List (String × Nat)}
    (hp : c.threads i = some (.decides order e false rest)) {j : Nat} {r : LockCall}
    (hr : c.threads j = some r) : r.mutex ≠ some e.2 := by
  intro hm
  obtain ⟨-, hmem, hone⟩ := h.calls.threads i _ hp
  have hstored := stored_pos (hmem e List.mem_cons_self)
  rcases mutex_cases hm with ⟨hcrit, -⟩ | huses
  · have hij := h.registry.one j i r _ hr hp hcrit rfl
    subst hij
    obtain rfl := Option.some.inj (hp.symm.trans hr)
    nomatch hm
  · have hnone := h.counted.unused ((hone rfl).trans hstored) hr
    omega

/-- Every step keeps what each call relies on. -/
theorem lockOutline : Outline lockProg (fun c _ => Sound c) OrderLocks.Inv LockCall.Asserts where
  spawn c i p _ _ hp _ := by cases p <;> trivial
  step_shared c i w p s q hinv _ hp h :=
    steps_inv hinv.shared (hinv.threads i p hp) (LockCall.steps h)
  step_self c i w p s r hinv _ hp h :=
    steps_self hinv.shared (hinv.threads i p hp) (LockCall.steps h)
  step_other c i w p s q j r hinv hsound hp h hj hr := by
    have hsteps := LockCall.steps h
    have hasserts := hinv.threads j r hr
    cases hcrit : r.critical with
    | true =>
        -- The registry is that call's, so this one leaves the map and the counts as low.
        have hquiet := steps_quiet hsteps
          (hsound.registry.not_holds hr hcrit hp (Ne.symm hj))
        exact asserts_quiet hasserts hquiet.1 hquiet.2
    | false =>
        cases hm : r.mutex with
        | none => cases r <;> trivial
        | some m =>
            rw [asserts_mutex hm] at hasserts ⊢
            refine steps_keep_entry hsteps hasserts fun order x rest hdec heq => ?_
            subst hdec
            exact hsound.removed hp hr (heq ▸ hm)
  env_shared c a := nomatch a
  env_threads c a := nomatch a

theorem Sound.next {c c' : Pool OrderLocks LockCall} {l : Label LockCall Choice Empty}
    (h : Sound c) (hn : lockProg.next c l = some c') : Sound c' := by
  refine ⟨lockOutline.keep c l c' h.calls h hn, registryMutex.next h.registry hn,
    fun m => (orderMutex m).next (h.locks m) hn, ?_⟩
  cases l with
  | spawn i p =>
      obtain ⟨hp, hi, rfl⟩ := Prog.next_spawn.mp hn
      refine h.counted.move fun k => ?_
      rw [hi]
      cases p <;> first | rfl | nomatch hp
  | step i w =>
      obtain ⟨p, s, q, hp, hs, rfl⟩ := Prog.next_step.mp hn
      refine h.counted.move fun k => ?_
      rw [hp]
      exact steps_balance h.calls.shared (h.calls.threads i p hp) (h.counted.le hp)
        (LockCall.steps hs) k
  | env a => nomatch a

theorem sound_idle : Sound (Pool.idle .new) :=
  ⟨poolInv_idle ⟨List.nodup_nil, nofun, fun _ _ => rfl, fun _ _ => Finset.notMem_empty _⟩,
    alone_idle _, fun _ => alone_idle _, counted_idle fun _ => rfl⟩

variable {c : Pool OrderLocks LockCall} {ls : List (Label LockCall Choice Empty)}

theorem sound_run (hr : run lockProg.next (Pool.idle .new) ls = some c) : Sound c :=
  run_inv (C := fun _ _ => True) (fun _ _ _ h _ hn => h.next hn) sound_idle (along_true _ ls) hr

/-- An entry of a call's order is that of its mutex. -/
theorem Sound.entry (h : Sound c) {i : Nat} {p : LockCall} {m : Nat} (hp : c.threads i = some p)
    (hm : p.mutex = some m) {e : String × Nat} (he : e ∈ c.shared.map) (horder : p.order = e.1) :
    m = e.2 := by
  have hown := (asserts_mutex hm).mp (h.calls.threads i p hp)
  have hget := (get_eq_some h.calls.shared.keys).mpr ⟨hown, horder⟩
  have hsame := hget.symm.trans ((get_eq_some h.calls.shared.keys).mpr ⟨he, rfl⟩)
  exact congrArg Prod.snd (Option.some.inj hsame)

/-- The calls of an order come to one mutex. -/
theorem Sound.same_mutex (h : Sound c) {i j : Nat} {p r : LockCall} {m n : Nat}
    (hp : c.threads i = some p) (hr : c.threads j = some r) (horder : p.order = r.order)
    (hm : p.mutex = some m) (hn : r.mutex = some n) : m = n :=
  h.entry hp hm ((asserts_mutex hn).mp (h.calls.threads j r hr)) horder

/-- Only the clean-up takes an entry out of the registry. -/
theorem removal_cases {c' : Pool OrderLocks LockCall} {l : Label LockCall Choice Empty}
    (hn : lockProg.next c l = some c') {e : String × Nat} (he : e ∈ c.shared.map)
    (hgone : e ∉ c'.shared.map) :
    ∃ i order rest, c.threads i = some (.decides order e false rest) := by
  cases l with
  | spawn i p =>
      obtain ⟨-, -, rfl⟩ := Prog.next_spawn.mp hn
      exact absurd he hgone
  | step i w =>
      obtain ⟨p, s, q, hp, hs, rfl⟩ := Prog.next_step.mp hn
      by_contra hnone
      refine hgone (steps_keep_entry (LockCall.steps hs) he fun order x rest hdec heq => ?_)
      exact hnone ⟨i, order, rest, heq ▸ hdec ▸ hp⟩
  | env a => nomatch a

/-- **A guard excludes the other calls of its order, whatever the clean-up does.** In every run of
calls, waits, cancelled waits and guard drops over any orders, at most one guard of an order is
live, the calls of an order that have come to a mutex have the same one, and a step that takes an
entry out of the registry takes a mutex no call has, of an order no call has a mutex of. -/
theorem order_locks_right (hr : run lockProg.next (Pool.idle .new) ls = some c) :
    (∀ i j order m n, c.threads i = some (.guards order m) →
      c.threads j = some (.guards order n) → i = j) ∧
    (∀ i j p r m n, c.threads i = some p → c.threads j = some r → p.order = r.order →
      p.mutex = some m → r.mutex = some n → m = n) ∧
    ∀ l c' e, lockProg.next c l = some c' → e ∈ c.shared.map → e ∉ c'.shared.map →
      ∀ i p, c.threads i = some p → p.mutex ≠ some e.2 ∧ (p.order = e.1 → p.mutex = none) := by
  have h := sound_run hr
  refine ⟨fun i j order m n hi hj => ?_, fun i j p r m n => h.same_mutex,
    fun l c' e hn he hgone i p hp => ?_⟩
  · obtain rfl := h.same_mutex hi hj rfl rfl rfl
    exact (h.locks m).one i j _ _ hi hj (decide_eq_true rfl) (decide_eq_true rfl)
  · obtain ⟨j, order, rest, hj⟩ := removal_cases hn he hgone
    refine ⟨h.removed hj hp, fun horder => ?_⟩
    cases hm : p.mutex with
    | none => rfl
    | some m => exact absurd (h.entry hp hm he horder ▸ hm) (h.removed hj hp)

/-- What a step is given when nothing is cancelled and the map holds `entries`. -/
def onward (entries : List (String × Nat)) : Choice := ⟨entries, false⟩

/-- Two calls for one order: the first has its guard, and the second waits for it. -/
def waiting : List (Label LockCall Choice Empty) :=
  [.spawn 0 (.calls "a")] ++ List.replicate 7 (.step 0 (onward [])) ++
  [.spawn 1 (.calls "a")] ++ List.replicate 7 (.step 1 (onward [("a", 0)]))

/-- The guard's entry stays. -/
theorem waiting_right :
    ∃ c, run lockProg.next (Pool.idle .new) waiting = some c ∧
      c.threads 0 = some (.guards "a" 0) ∧ c.threads 1 = some (.waits "a" 0) ∧
      ∀ l c' e, lockProg.next c l = some c' → e ∈ c.shared.map → e ∉ c'.shared.map → e.2 ≠ 0 := by
  have hrun : ∃ c, run lockProg.next (Pool.idle .new) waiting = some c ∧
      c.threads 0 = some (.guards "a" 0) ∧ c.threads 1 = some (.waits "a" 0) :=
    ⟨_, rfl, rfl, rfl⟩
  obtain ⟨c, hr, hguard, hwait⟩ := hrun
  refine ⟨c, hr, hguard, hwait, fun l c' e hn he hgone hzero => ?_⟩
  exact ((order_locks_right hr).2.2 l c' e hn he hgone 0 _ hguard).1 (congrArg some hzero.symm)

end MostroApp.Locking
