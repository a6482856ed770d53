import MostroApp.Nostr.Coalesce
import MostroApp.Api.ReconcileRequests
import MostroApp.Api.BookStream

set_option autoImplicit false

/-! # The three coalescers

Refreshes (`nostr/coalesce.rs`), reconciles (`api/push.rs`) and the snapshots of the order book
(`api/orders.rs`) are asked for more often than they are run. None of the three loses a request:
whoever finds a window armed is served by it, since a window is disarmed before its run reads.
-/

namespace MostroApp.Coalescers

open Interleaving Coalesce Reconcile OrderBook

/-! ## The order book's window -/

/-- A call that is about to arm the window. -/
def asks : BookTask → Bool
  | .schedules => true
  | _ => false

def armed : BookTask → Bool
  | .sleeps => true
  | _ => false

/-- The task is about to take the snapshot. -/
def reads : BookTask → Bool
  | .publishes => true
  | _ => false

/-- No write arms the window: the call does, afterwards. -/
theorem armed_of_write {call : BookCall} {s : BookState} {q : BookTask}
    (h : (BookTask.write call s).2 = some q) : armed q = false := by
  cases call with
  | updateOrderStatus orderId status =>
      simp only [BookTask.write] at h
      split at h <;> cases h
      rfl
  | removeOrder orderId | removeOrderCoalesced orderId =>
      simp only [BookTask.write, Option.ite_none_left_eq_some] at h
      cases h.2
      rfl
  | _ =>
      cases h
      rfl

theorem bookLock : Mutex streamProg BookStream.scheduled armed where
  enter p hp := by
    cases p with
    | writes call | publishes => rfl
    | _ => cases hp
  take w p s t q h hp hq := by
    cases p with
    | schedules =>
        simp only [streamProg, BookTask.step] at h
        split at h
        · cases h
        · next hdown =>
          cases h
          exact ⟨by simpa using hdown, rfl⟩
    | writes call =>
        have hnext := congrArg Prod.snd (Option.some.inj h)
        exact absurd ((armed_of_write hnext).symm.trans hq) Bool.false_ne_true
    | sleeps => cases hp
    | publishes =>
        cases h
        cases hq
    | sends snapshot => cases h
  stay w p s t q h hp hq := by
    cases p with
    | sleeps =>
        cases h
        cases hq
    | _ => cases hp
  keep w p s t q h hp hq := by
    cases p with
    | schedules =>
        simp only [streamProg, BookTask.step] at h
        split at h <;> cases h
        · rfl
        · cases hq _ rfl
    | sleeps => cases hp
    | _ =>
        cases h
        rfl
  env a := a.elim

theorem bookWindow : Exec.Window streamProg BookStream.scheduled asks armed reads where
  lock := bookLock
  disarm w p s t q h hup := by
    cases p with
    | sleeps =>
        cases h
        exact ⟨rfl, _, rfl, rfl⟩
    | _ => cases hup
  look w p s t q h hasks := by
    cases p with
    | schedules =>
        simp only [streamProg, BookTask.step] at h
        split at h
        · next hup => exact .inl hup
        · cases h
          exact .inr ⟨_, rfl, rfl⟩
    | _ => cases hasks
  ready p s _ := ⟨(), _, rfl⟩

/-! ## No request is lost -/

/-- **Coalescing loses no request**: under each of the three, at most one window is armed, every
request is followed by a run that reads its input after the request was made, and at most one
reconcile pass is in progress. -/
theorem coalescing_loses_no_request :
    (∀ e : Exec coalesceProg, e.pool 0 = Pool.idle .new →
      e.Windowed CoalesceTask.asks CoalesceTask.armed CoalesceTask.reads) ∧
    (∀ e : Exec reconcileProg, e.pool 0 = Pool.idle .new → Reconciled e) ∧
    ∀ (e : Exec streamProg) (s : BookStream), s.scheduled = false → e.pool 0 = Pool.idle s →
      e.Windowed asks armed reads :=
  ⟨fun e h0 => coalesceWindow.windowed e h0 rfl, fun _ h0 => reconciled h0,
    fun e _ hs h0 => bookWindow.windowed e h0 hs⟩

/-- A refresh is asked for, and its window is left to its task. -/
def oneRefresh : List (Label CoalesceTask Unit Empty) :=
  [.spawn 0 .requests, .step 0 (), .step 0 (), .step 0 (), .step 0 ()]

/-- A second reconcile is asked for while the first one's window is armed. -/
def twoReconciles : List (Label ReconcileTask Unit Empty) :=
  [.spawn 0 .requests, .step 0 (), .step 0 (), .spawn 1 .requests, .step 1 (), .step 1 (),
    .step 0 (), .step 0 (), .step 0 (), .step 0 (), .step 0 (), .step 0 (), .step 0 ()]

theorem requests_are_served :
    (∃ e : Exec coalesceProg, e.Fair ∧ e.label 0 = some (.spawn 0 .requests) ∧
      ∃ m > 0, ∃ j r, e.Steps j r m ∧ r.reads = true) ∧
    (∃ e : Exec reconcileProg, e.Fair ∧ e.label 3 = some (.spawn 1 .requests) ∧
      ∃ m > 3, ReadsAt e m) ∧
    ∃ e : Exec streamProg, e.pool 0 = Pool.idle newStream ∧ e.Fair ∧
      e.Windowed asks armed reads := by
  refine ⟨?_, ?_, ?_⟩
  · obtain ⟨e, h0, hfair, hlabel⟩ := Exec.exists_fair (P := coalesceProg) (s := .new)
      oneRefresh 1 rfl rfl
    obtain ⟨j, a, r, m₁, m₂, hm₁, hm₂, -, -, hreads, hr⟩ :=
      (coalescing_loses_no_request.1 e h0).followed hfair 1 0 .requests
        (Exec.spawned (hlabel 0)) rfl
    exact ⟨e, hfair, hlabel 0, m₂, by omega, j, r, hreads, hr⟩
  · obtain ⟨e, h0, hfair, hlabel⟩ := Exec.exists_fair (P := reconcileProg) (s := .new)
      twoReconciles 2 rfl rfl
    obtain ⟨m, hm, hreads⟩ :=
      (coalescing_loses_no_request.2.1 e h0).followed hfair 4 1 .requests
        (Exec.spawned (hlabel 3)) rfl
    exact ⟨e, hfair, hlabel 3, m, by omega, hreads⟩
  · obtain ⟨e, h0, hfair, -⟩ := Exec.exists_fair (P := streamProg) (s := newStream)
      inTurn 2 rfl (by decide)
    exact ⟨e, h0, hfair, coalescing_loses_no_request.2.2 e newStream rfl h0⟩

end MostroApp.Coalescers
