import MostroApp.Lib.Rows
import Mathlib.Data.List.Sort
import Mathlib.Order.Lattice

set_option autoImplicit false

/-! # Push registration rules

Which trade pubkeys the push server should hold a token for is given by the wanted set; which
it holds, and since when, by the persisted rows. `plan` is the difference of the two. Every
action is about one key, and the actions of a key follow from its own row and node
(`filter_plan`). Times are `i64` seconds: `+` and `-` wrap, `saturatingAdd` clamps.
-/

namespace MostroApp.Push

open Rows

/-! ## Registrations -/

def REFRESH_SECS : Int64 := 12 * 3600

def GRACE_SECS : Int64 := 24 * 3600

def NODE_REFUSAL_SECS : Int64 := 24 * 3600

/-- `i64::saturating_add`. -/
def saturatingAdd (a b : Int64) : Int64 := Int64.ofIntClamp (a.toInt + b.toInt)

/-- `u32::saturating_add` of one. -/
def saturatingSucc (n : UInt32) : UInt32 := if n = 4294967295 then n else n + 1

/-- Seconds to wait after the given number of consecutive failures. -/
def backoffSecs (attempts : UInt32) : Int64 :=
  if attempts = 0 ∨ attempts = 1 then 60
  else if attempts = 2 then 5 * 60
  else if attempts = 3 then 30 * 60
  else 2 * 3600

/-- One trade pubkey the push server holds, or held, a token for. -/
structure PushRegistration where
  tradePubkey : String
  /-- The clock of the last `200`. -/
  registeredAt : Int64
  /-- Hash of the device token the last `200` was for. -/
  tokenHash : String
  mostroPubkey : String
  /-- The first reconcile that found the key outside the wanted set: the grace clock. -/
  unwantedSince : Option Int64
  attempts : UInt32
  nextAttemptAt : Int64
deriving DecidableEq

namespace PushRegistration

/-- The server accepted a registration of the key. -/
def noteAccepted (r : PushRegistration) (mostroPubkey tokenHash : String) (now : Int64) :
    PushRegistration :=
  { r with
    registeredAt := now
    tokenHash := tokenHash
    mostroPubkey := mostroPubkey
    attempts := 0
    nextAttemptAt := 0 }

/-- An attempt failed: back off. -/
def noteFailed (r : PushRegistration) (now : Int64) (retryAfter : Option Int64) :
    PushRegistration :=
  let attempts := saturatingSucc r.attempts
  { r with
    attempts := attempts
    nextAttemptAt := saturatingAdd now (retryAfter.getD (backoffSecs attempts)) }

/-- A placeholder for a key the server has not accepted yet. -/
def pending (tradePubkey mostroPubkey : String) : PushRegistration :=
  { tradePubkey, registeredAt := 0, tokenHash := "", mostroPubkey, unwantedSince := none,
    attempts := 0, nextAttemptAt := 0 }

/-- The server accepted the key with some token. -/
def isRegistered (r : PushRegistration) : Bool := 0 < r.registeredAt && r.tokenHash != ""

/-- A failed attempt whose wait is not over. -/
def backingOff (r : PushRegistration) (now : Int64) : Bool :=
  0 < r.attempts && now < r.nextAttemptAt

@[simp] theorem isRegistered_noteFailed (r : PushRegistration) (now : Int64)
    (retryAfter : Option Int64) : (r.noteFailed now retryAfter).isRegistered = r.isRegistered :=
  rfl

theorem isRegistered_noteAccepted (r : PushRegistration) (node : String) {tokenHash : String}
    {now : Int64} (hhash : tokenHash ≠ "") (hnow : 0 < now) :
    (r.noteAccepted node tokenHash now).isRegistered = true := by
  simp [isRegistered, noteAccepted, hnow, hhash]

end PushRegistration

open PushRegistration

/-! ## The plan -/

/-- What the push server should hold: pubkey to the node that issued it. -/
abbrev Wanted := AList fun _ : String => String

abbrev Registrations := AList fun _ : String => PushRegistration

/-- Nodes the operator refused, with the seconds of the `403`. -/
abbrev Refusals := AList fun _ : String => Int64

/-- Every row is under its own trade pubkey. -/
def Keyed (m : Registrations) : Prop := ∀ k r, m.lookup k = some r → r.tradePubkey = k

inductive Action where
  | register (tradePubkey mostroPubkey : String)
  | unregister (tradePubkey : String)
  | noteUnwanted (tradePubkey : String)
  | noteWanted (tradePubkey : String)
  | forget (tradePubkey : String)
deriving DecidableEq

def Action.key : Action → String
  | .register k _ => k
  | .unregister k => k
  | .noteUnwanted k => k
  | .noteWanted k => k
  | .forget k => k

/-- Whether a `403` recorded then still suppresses registration. -/
def refusalActive (refusedAt now : Int64) : Bool :=
  now < saturatingAdd refusedAt NODE_REFUSAL_SECS

/-- The server never accepted the key, or not with this token, for this node and recently. -/
def due (reg : Option PushRegistration) (node tokenHash : String) (now : Int64) : Bool :=
  match reg with
  | none => true
  | some r =>
      !r.isRegistered || r.tokenHash != tokenHash || r.mostroPubkey != node ||
        now < r.registeredAt || REFRESH_SECS ≤ now - r.registeredAt || 0 < r.attempts

/-- The actions of a wanted key. -/
def planWanted (reg : Option PushRegistration) (tokenHash : String) (refusals : Refusals)
    (now : Int64) (pubkey node : String) : List Action :=
  (if reg.any fun r => r.unwantedSince.isSome then [.noteWanted pubkey] else []) ++
    if (refusals.lookup node).any fun refusedAt => refusalActive refusedAt now then []
    else if due reg node tokenHash now && !reg.any fun r => r.backingOff now then
      [.register pubkey node]
    else []

/-- The actions of a row whose key is not wanted. -/
def planStale (now : Int64) (reg : PushRegistration) : List Action :=
  if !reg.isRegistered then [.forget reg.tradePubkey]
  else
    match reg.unwantedSince with
    | none => [.noteUnwanted reg.tradePubkey]
    | some since =>
        if GRACE_SECS < now - since then
          if !reg.backingOff now then [.unregister reg.tradePubkey] else []
        else []

/-- The rows whose key is not wanted, by key. -/
def stale (wanted : Wanted) (registrations : Registrations) : List PushRegistration :=
  ((registrations.entries.map fun e => e.2).filter
    fun r => (wanted.lookup r.tradePubkey).isNone).insertionSort
      fun a b => a.tradePubkey ≤ b.tradePubkey

/-- What to do, given what is wanted and what the server holds. -/
def plan (wanted : Wanted) (registrations : Registrations) (tokenHash : String)
    (refusals : Refusals) (now : Int64) : List Action :=
  (wanted.entries.insertionSort fun a b => a.1 ≤ b.1).flatMap
      (fun e => planWanted (registrations.lookup e.1) tokenHash refusals now e.1 e.2) ++
    (stale wanted registrations).flatMap (planStale now)

/-! ## The actions of one key -/

/-- The actions of a key, from its own row, node and refusal. -/
def planFor (wanted : Wanted) (registrations : Registrations) (tokenHash : String)
    (refusals : Refusals) (now : Int64) (k : String) : List Action :=
  match wanted.lookup k with
  | some node => planWanted (registrations.lookup k) tokenHash refusals now k node
  | none => ((registrations.lookup k).map (planStale now)).getD []

theorem mem_planWanted {reg : Option PushRegistration} {tokenHash k node : String}
    {refusals : Refusals} {now : Int64} {a : Action}
    (h : a ∈ planWanted reg tokenHash refusals now k node) :
    a = .noteWanted k ∨ a = .register k node := by
  unfold planWanted at h
  rcases List.mem_append.mp h with h | h
  · split at h
    · exact Or.inl (List.mem_singleton.mp h)
    · cases h
  · split at h
    · cases h
    · split at h
      · exact Or.inr (List.mem_singleton.mp h)
      · cases h

/-- What is planned for a row that is not wanted: at most one action, and why. -/
theorem planStale_cases (now : Int64) (r : PushRegistration) :
    planStale now r = [] ∨
      (planStale now r = [.forget r.tradePubkey] ∧ r.isRegistered = false) ∨
      (planStale now r = [.noteUnwanted r.tradePubkey] ∧ r.isRegistered = true) ∨
      planStale now r = [.unregister r.tradePubkey] ∧
        ∃ since, r.unwantedSince = some since ∧ GRACE_SECS < now - since := by
  unfold planStale
  by_cases hreg : r.isRegistered = true
  · rw [if_neg (by simp [hreg])]
    cases hsince : r.unwantedSince with
    | none => exact Or.inr (Or.inr (Or.inl ⟨rfl, hreg⟩))
    | some since =>
        by_cases hgrace : GRACE_SECS < now - since
        · by_cases hback : r.backingOff now = true
          · exact Or.inl (by simp [hback])
          · refine Or.inr (Or.inr (Or.inr ⟨?_, since, rfl, hgrace⟩))
            simp [hgrace, hback]
        · exact Or.inl (by simp [hgrace])
  · refine Or.inr (Or.inl ⟨?_, by simpa using hreg⟩)
    rw [if_pos (by simpa using hreg)]

theorem key_planWanted {reg : Option PushRegistration} {tokenHash k node : String}
    {refusals : Refusals} {now : Int64} {a : Action}
    (h : a ∈ planWanted reg tokenHash refusals now k node) : a.key = k := by
  rcases mem_planWanted h with rfl | rfl <;> rfl

theorem key_planStale {now : Int64} {r : PushRegistration} {a : Action}
    (h : a ∈ planStale now r) : a.key = r.tradePubkey := by
  rcases planStale_cases now r with hp | ⟨hp, -⟩ | ⟨hp, -⟩ | ⟨hp, -⟩ <;> rw [hp] at h
  · cases h
  · rw [List.mem_singleton.mp h]
    rfl
  · rw [List.mem_singleton.mp h]
    rfl
  · rw [List.mem_singleton.mp h]
    rfl

variable {wanted : Wanted} {registrations : Registrations} {tokenHash : String}
  {refusals : Refusals} {now : Int64} {k : String}

theorem mem_stale {r : PushRegistration} : r ∈ stale wanted registrations ↔
    (∃ k, registrations.lookup k = some r) ∧ wanted.lookup r.tradePubkey = none := by
  unfold stale
  rw [(List.perm_insertionSort _ _).mem_iff, List.mem_filter, Option.isNone_iff_eq_none]
  exact and_congr_left fun _ => mem_values

/-- Rows under their own key are listed once each. -/
theorem nodup_stale (hkeyed : Keyed registrations) :
    ((stale wanted registrations).map PushRegistration.tradePubkey).Nodup := by
  have hkeys : (registrations.entries.map fun e => e.2).map PushRegistration.tradePubkey =
      registrations.keys := by
    rw [List.map_map]
    exact List.map_congr_left fun e he => hkeyed e.1 e.2 (AList.mem_lookup_iff.mpr he)
  have hall := hkeys ▸ registrations.keys_nodup
  unfold stale
  rw [((List.perm_insertionSort _ _).map _).nodup_iff]
  exact hall.sublist (List.filter_sublist.map _)

/-- **The plan, key by key**: the actions of a key are those its own row and node call for. -/
theorem filter_plan (hkeyed : Keyed registrations) :
    ((plan wanted registrations tokenHash refusals now).filter fun a => a.key = k) =
      planFor wanted registrations tokenHash refusals now k := by
  have hperm := List.perm_insertionSort (fun a b : Sigma fun _ : String => String => a.1 ≤ b.1)
    wanted.entries
  have hwantedKey : ∀ e : Sigma fun _ : String => String,
      ∀ a ∈ planWanted (registrations.lookup e.1) tokenHash refusals now e.1 e.2, a.key = e.1 :=
    fun e a ha => key_planWanted ha
  have hstaleKey : ∀ r, ∀ a ∈ planStale now r, a.key = r.tradePubkey := fun r a => key_planStale
  unfold plan planFor
  rw [List.filter_append]
  cases hk : wanted.lookup k with
  | some node =>
      have hmem := hperm.mem_iff.mpr (AList.mem_lookup_iff.mp hk)
      have hnodup : ((wanted.entries.insertionSort fun a b => a.1 ≤ b.1).map Sigma.fst).Nodup :=
        (hperm.map _).nodup_iff.mpr wanted.keys_nodup
      have hstale : k ∉ (stale wanted registrations).map PushRegistration.tradePubkey := by
        intro hmem
        obtain ⟨r, hr, rfl⟩ := List.mem_map.mp hmem
        exact absurd (hk.symm.trans (mem_stale.mp hr).2) nofun
      rw [filter_flatMap_eq_nil hstaleKey hstale, List.append_nil]
      exact filter_flatMap_of_mem (x := ⟨k, node⟩) hwantedKey hnodup hmem
  | none =>
      have hwanted : k ∉ (wanted.entries.insertionSort fun a b => a.1 ≤ b.1).map Sigma.fst := by
        intro hmem
        have hkeys := ((hperm.map Sigma.fst).mem_iff.mp hmem)
        exact AList.lookup_eq_none.mp hk (AList.mem_keys.mpr hkeys)
      rw [filter_flatMap_eq_nil hwantedKey hwanted, List.nil_append]
      cases hr : registrations.lookup k with
      | some r =>
          obtain rfl := hkeyed k r hr
          exact filter_flatMap_of_mem hstaleKey (nodup_stale hkeyed)
            (mem_stale.mpr ⟨⟨_, hr⟩, hk⟩)
      | none =>
          refine filter_flatMap_eq_nil hstaleKey fun hmem => ?_
          obtain ⟨r, hr', rfl⟩ := List.mem_map.mp hmem
          obtain ⟨⟨k', hk'⟩, -⟩ := mem_stale.mp hr'
          obtain rfl := hkeyed k' r hk'
          exact absurd (hr.symm.trans hk') nofun

/-- Nothing is planned when nothing is for any key. -/
theorem plan_eq_nil (hkeyed : Keyed registrations)
    (h : ∀ k, planFor wanted registrations tokenHash refusals now k = []) :
    plan wanted registrations tokenHash refusals now = [] := by
  refine List.eq_nil_iff_forall_not_mem.mpr fun a ha => ?_
  have hmem : a ∈ (plan wanted registrations tokenHash refusals now).filter
      fun b => b.key = a.key := List.mem_filter.mpr ⟨ha, by simp⟩
  rw [filter_plan hkeyed, h] at hmem
  cases hmem

end MostroApp.Push
