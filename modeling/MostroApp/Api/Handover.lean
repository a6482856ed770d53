import MostroApp.Api.Confirm
import MostroApp.Api.ConfirmedRow
import MostroApp.Lib.Interleaving

set_option autoImplicit false

/-! # The woken task and the order's guard

The dispatcher resolves a create or a take and wakes the caller that waits for it; the caller
then builds its row and persists it. With some replies the dispatcher's guard of the order
travels to the caller, so that the row is written before the next message of the order; a
caller that was handed none takes the lock itself, when it is a take, and writes without it,
when it is a create. Where no message comes before the lock is held or the row saved, the
outcome is the confirmation's, followed by the later messages.
-/

namespace MostroApp.Orders

open Pending Status Interleaving Transition
open Wire (Action)

/-! ## The tasks -/

/-- The first half of persisting a row. -/
@[simps] def OrderState.liftTombstone (s : OrderState) : OrderState := { s with tradeWiped := none }

/-- The second half. -/
@[simps] def OrderState.saveTrade (t : TradeInfo) (s : OrderState) : OrderState :=
  { s with trades := t.save s.trades }

/-- An order, and whether a woken task holds its lock. -/
structure GuardedOrder where
  s : OrderState
  held : Bool := false

/-- Where a task stands, from its wait for the daemon's verdict to the end of its writes. -/
inductive Confirming where
  | createWaits (a : CreateAttempt) (tx : Waiter)
  | createLifts (row : TradeInfo) (guarded : Bool)
  | createSaves (row : TradeInfo) (guarded : Bool)
  | takeWaits (a : TakeAttempt) (tx : Waiter)
  | takeLocks (a : TakeAttempt) (v : TakeVerdict) (now : Int)
  | takeBinds (a : TakeAttempt) (v : TakeVerdict) (now : Int)
  | takeSyncsBook (a : TakeAttempt) (v : TakeVerdict) (now : Int)
  | takeDeletes (a : TakeAttempt) (v : TakeVerdict) (now : Int)
  | takeLifts (a : TakeAttempt) (v : TakeVerdict) (now : Int)
  | takeSaves (a : TakeAttempt) (v : TakeVerdict) (now : Int)
  | takeInstalls (a : TakeAttempt) (v : TakeVerdict) (now : Int)
  | takeReplays

/-- What came over the channel of a waiter. -/
def wakeOf (tx : Waiter) (s : OrderState) : Option Wake :=
  (s.wakes.find? (·.1 = tx)).map (·.2)

/-- Whether the task keeps the guard that came with its reply: one that came with a plain
confirmation is dropped. -/
def keptGuard (wake : Wake) : Bool :=
  match wake.reply with
  | .confirmed _ => false
  | _ => wake.orderGuard

/-- The lock once the guard is dropped. -/
def GuardedOrder.drop (guarded : Bool) (x : GuardedOrder) : GuardedOrder :=
  { x with held := x.held && !guarded }

/-- One step of a task at local time `now`; `none` while it waits for its reply or the lock. -/
def Confirming.step (env : Env) (now : Int) :
    Confirming → GuardedOrder → Option (GuardedOrder × Option Confirming)
  | .createWaits a tx, x =>
      (wakeOf tx x.s).map fun wake => match createVerdict wake.reply with
        | some (daemonId, bond) =>
            (x.drop (wake.orderGuard && !keptGuard wake),
              some (.createLifts (a.row env daemonId bond) (keptGuard wake)))
        | none => (x.drop wake.orderGuard, none)
  -- a create takes no lock of its own: a message may come between its two writes
  | .createLifts row guarded, x =>
      some ({ x with s := x.s.liftTombstone }, some (.createSaves row guarded))
  | .createSaves row guarded, x =>
      some (GuardedOrder.drop guarded { x with s := x.s.saveTrade row }, none)
  | .takeWaits a tx, x =>
      (wakeOf tx x.s).map fun wake => match takeVerdict wake.reply with
        | some v =>
            (x.drop (wake.orderGuard && !keptGuard wake),
              some (if keptGuard wake then .takeBinds a v now else .takeLocks a v now))
        | none => (x.drop wake.orderGuard, none)
  -- the reply came without the guard, so the take waits for the lock
  | .takeLocks a v now, x =>
      if x.held then none else some ({ x with held := true }, some (.takeBinds a v now))
  | .takeBinds a v now, x =>
      some ({ x with s := x.s.storeTradeKeyIndex a.tradeIndex }, some (.takeSyncsBook a v now))
  | .takeSyncsBook a v now, x =>
      some ({ x with s := syncTakenEntry v x.s }, some (.takeDeletes a v now))
  | .takeDeletes a v now, x =>
      some ({ x with s := x.s.deleteTradeByOrderId }, some (.takeLifts a v now))
  | .takeLifts a v now, x => some ({ x with s := x.s.liftTombstone }, some (.takeSaves a v now))
  | .takeSaves a v now, x =>
      some ({ x with s := x.s.saveTrade (a.row env v now) }, some (.takeInstalls a v now))
  | .takeInstalls a v now, x =>
      some ({ x with s := x.s.installSession a.role a.tradeIndex (a.row env v now).order now },
        some .takeReplays)
  -- the last write, after which the guard is dropped
  | .takeReplays, x => some (GuardedOrder.drop true { x with s := replayCounterparty x.s }, none)

/-- A message needs the lock; a reply that carries the guard takes it along. -/
def dispatchGuarded (env : Env) (d : Delivery) (x : GuardedOrder) : Option GuardedOrder :=
  if x.held then none
  else
    let s := dispatchMostroMessage env d x.s
    some ⟨s, (s.wakes.drop x.s.wakes.length).any (·.2.orderGuard)⟩

/-- A task that waits for its verdict, beside the messages of its order. -/
def confirming (env : Env) : Prog GuardedOrder Confirming Int Delivery where
  enter _ := false
  tstep now p x := p.step env now x
  act d x := dispatchGuarded env d x

/-! ## Attempts and their confirmation -/

inductive Attempt where
  | create (a : CreateAttempt)
  | take (a : TakeAttempt)

def Attempt.tradeIndex : Attempt → Nat
  | .create a => a.tradeIndex
  | .take a => a.tradeIndex

def Attempt.waits (tx : Waiter) : Attempt → Confirming
  | .create a => .createWaits a tx
  | .take a => .takeWaits a tx

/-- Everything an accepted attempt writes, at once; `none` for a refusal. -/
def Attempt.confirm (env : Env) (reply : DaemonReply) (now : Int) (s : OrderState) :
    Attempt → Option OrderState
  | .create a => (createVerdict reply).map fun r => s.persistTradeRow (a.row env r.1 r.2)
  | .take a => (takeVerdict reply).map fun v => confirmTake env a v now s

/-- The reply accepts the attempt; a create's is for the order itself. -/
def Attempt.Accepted (orderId : String) (reply : DaemonReply) : Attempt → Prop
  | .create _ => ∃ bond, createVerdict reply = some (orderId, bond)
  | .take _ => ∃ v, takeVerdict reply = some v

/-- A created order is new; a take finds whatever earlier takes of the order left. -/
def Attempt.Fresh (rows : List TradeInfo) : Attempt → Prop
  | .create _ => rows = []
  | .take _ => True

/-- What still waits on the attempt's key is not the attempt: its request is consumed, or it is
a create parked on its bond. -/
def Attempt.Leaves (p : PendingRequest) : Attempt → Prop
  | .create a => p.tradeIndex = a.tradeIndex ∧ ∀ u, p.kind ≠ .create u false
  | .take a => p.tradeIndex = a.tradeIndex ∧ ∀ u b, p.kind ≠ .create u b

/-- An order on which an attempt waits, and the message that wakes it with an acceptance. -/
structure Confirmation (env : Env) where
  s : OrderState
  attempt : Attempt
  tx : Waiter
  key : String
  d : Delivery
  wake : Wake
  unwoken : ∀ w ∈ s.wakes, w.1 ≠ tx
  wakes : (dispatchMostroMessage env d s).wakes = s.wakes ++ [(tx, wake)]
  accepts : attempt.Accepted (dispatchMostroMessage env d s).orderId wake.reply
  fresh : attempt.Fresh (dispatchMostroMessage env d s).trades
  leaves : ∀ p, (dispatchMostroMessage env d s).pending key = some p → attempt.Leaves p

namespace Confirmation

variable {env : Env} (x : Confirmation env)

/-- The order right after the confirming message. -/
def woken : OrderState := dispatchMostroMessage env x.d x.s

/-- The attempt waits and nothing else runs. -/
def pool : Pool GuardedOrder Confirming := .one ⟨x.s, false⟩ (x.attempt.waits x.tx)

/-- The confirmation's own outcome, written at local time `now`. -/
def outcome (now : Int) : OrderState :=
  (x.attempt.confirm env x.wake.reply now x.woken).getD x.woken

end Confirmation

/-! ## The undisturbed task -/

/-- What the task still writes, where nothing comes between; `now` is the clock a take that
still waits will read. -/
def Confirming.finish (env : Env) (now : Int) : Confirming → OrderState → OrderState
  | .createWaits a tx, s => match (wakeOf tx s).bind (createVerdict ·.reply) with
      | some r => s.persistTradeRow (a.row env r.1 r.2)
      | none => s
  | .createLifts row _, s => s.persistTradeRow row
  | .createSaves row _, s => s.saveTrade row
  | .takeWaits a tx, s => match (wakeOf tx s).bind (takeVerdict ·.reply) with
      | some v => confirmTake env a v now s
      | none => s
  | .takeLocks a v now, s | .takeBinds a v now, s => confirmTake env a v now s
  | .takeSyncsBook a v now, s =>
      replayCounterparty
        (((syncTakenEntry v s).persistConfirmedTake (a.row env v now)).installSession
          a.role a.tradeIndex (a.row env v now).order now)
  | .takeDeletes a v now, s =>
      replayCounterparty ((s.persistConfirmedTake (a.row env v now)).installSession
        a.role a.tradeIndex (a.row env v now).order now)
  | .takeLifts a v now, s =>
      replayCounterparty ((s.persistTradeRow (a.row env v now)).installSession
        a.role a.tradeIndex (a.row env v now).order now)
  | .takeSaves a v now, s =>
      replayCounterparty ((s.saveTrade (a.row env v now)).installSession
        a.role a.tradeIndex (a.row env v now).order now)
  | .takeInstalls a v now, s =>
      replayCounterparty (s.installSession a.role a.tradeIndex (a.row env v now).order now)
  | .takeReplays, s => replayCounterparty s

/-- A woken task no guard protects: a create without one until its row is saved, a take until it
has the lock. -/
def Confirming.exposed : Confirming → OrderState → Bool
  | .createWaits _ tx, s | .takeWaits _ tx, s => (wakeOf tx s).any (!keptGuard ·)
  | .createLifts _ guarded, _ | .createSaves _ guarded, _ => !guarded
  | .takeLocks .., _ => true
  | _, _ => false

section Steps

variable {env : Env} {now : Int} {p : Confirming} {x y : GuardedOrder} {q : Option Confirming}

/-- A take without a guard gets the lock once it is free. -/
theorem Confirming.step_takeLocks {a : TakeAttempt} {v : TakeVerdict} {t : Int}
    (h : (takeLocks a v t).step env now x = some (y, q)) :
    y = { x with held := true } ∧ q = some (.takeBinds a v t) := by
  simp only [step] at h
  split at h
  · cases h
  · obtain ⟨rfl, rfl⟩ := Prod.mk.inj (Option.some.inj h)
    exact ⟨rfl, rfl⟩

/-- A step does the first part of what the task still writes, and leaves the rest. -/
theorem Confirming.step_finish (h : p.step env now x = some (y, q)) :
    match q with
    | some p' => ∀ m, p'.finish env m y.s = p.finish env now x.s
    | none => y.s = p.finish env now x.s := by
  cases p with
  | createWaits a tx =>
      obtain ⟨wake, hw, h⟩ := Option.map_eq_some_iff.mp h
      split at h
      · next hv =>
        obtain ⟨rfl, rfl⟩ := Prod.mk.inj h
        intro m
        simp [finish, hw, hv, GuardedOrder.drop]
      · next hv =>
        obtain ⟨rfl, rfl⟩ := Prod.mk.inj h
        simp [finish, hw, hv, GuardedOrder.drop]
  | takeWaits a tx =>
      obtain ⟨wake, hw, h⟩ := Option.map_eq_some_iff.mp h
      split at h
      · next hv =>
        obtain ⟨rfl, rfl⟩ := Prod.mk.inj h
        intro m
        -- with the guard the task goes straight to its writes, without it first to the lock
        split <;> simp [finish, hw, hv, GuardedOrder.drop]
      · next hv =>
        obtain ⟨rfl, rfl⟩ := Prod.mk.inj h
        simp [finish, hw, hv, GuardedOrder.drop]
  | takeLocks a v t =>
      obtain ⟨rfl, rfl⟩ := step_takeLocks h
      exact fun _ => rfl
  | createSaves row guarded =>
      obtain ⟨rfl, rfl⟩ := Prod.mk.inj (Option.some.inj h)
      rfl
  | takeReplays =>
      obtain ⟨rfl, rfl⟩ := Prod.mk.inj (Option.some.inj h)
      rfl
  | _ =>
      obtain ⟨rfl, rfl⟩ := Prod.mk.inj (Option.some.inj h)
      exact fun _ => rfl

/-- A task that goes on is exposed, or holds the lock. -/
theorem Confirming.step_held {p' : Confirming} (h : p.step env now x = some (y, some p'))
    (hp : p.exposed x.s = false → x.held = true) (hp' : p'.exposed y.s = false) :
    y.held = true := by
  cases p with
  | createWaits a tx =>
      obtain ⟨wake, hw, h⟩ := Option.map_eq_some_iff.mp h
      split at h
      · obtain ⟨rfl, hq⟩ := Prod.mk.inj h
        obtain rfl := Option.some.inj hq
        have hk : keptGuard wake = true := by simpa [exposed] using hp'
        have hx : x.held = true := hp (by simp [exposed, hw, hk])
        simp [GuardedOrder.drop, hx, hk]
      · cases h
  | takeWaits a tx =>
      obtain ⟨wake, hw, h⟩ := Option.map_eq_some_iff.mp h
      split at h
      · obtain ⟨rfl, hq⟩ := Prod.mk.inj h
        obtain rfl := Option.some.inj hq
        have hk : keptGuard wake = true := by
          by_contra hk
          simp [hk, exposed] at hp'
        have hx : x.held = true := hp (by simp [exposed, hw, hk])
        simp [GuardedOrder.drop, hx, hk]
      · cases h
  | takeLocks a v t =>
      obtain ⟨rfl, -⟩ := step_takeLocks h
      rfl
  | createLifts row guarded =>
      obtain ⟨rfl, hq⟩ := Prod.mk.inj (Option.some.inj h)
      obtain rfl := Option.some.inj hq
      exact hp hp'
  | createSaves row guarded => cases h
  | takeReplays => cases h
  | _ =>
      obtain ⟨rfl, -⟩ := Prod.mk.inj (Option.some.inj h)
      exact hp rfl

end Steps

/-! ## Every run -/

/-- No message of the order is dispatched while the task is exposed. -/
def Unhurried (c : Pool GuardedOrder Confirming) (l : Label Confirming Int Delivery) : Prop :=
  ∀ d p, l = .env d → c.threads 0 = some p → p.exposed c.shared.s = false

namespace Confirmation

variable {env : Env} (x : Confirmation env)

/-- A pool after the messages `ds`: the task has yet to write its part of the outcome and none
has come, or they found the outcome complete. -/
structure Stands (ds : List Delivery) (c : Pool GuardedOrder Confirming) : Prop where
  solo : Solo 0 c
  running : ∀ p, c.threads 0 = some p → ds = [] ∧
    (∀ m, ∃ now, p.finish env m c.shared.s = x.outcome now) ∧
    (p.exposed c.shared.s = false → c.shared.held = true)
  done : c.threads 0 = none → ∃ now, c.shared.s = dispatchAll env (x.outcome now) ds

variable {x}

theorem wakeOf_woken : wakeOf x.tx x.woken = some x.wake := by
  have hnone : x.s.wakes.find? (·.1 = x.tx) = none :=
    List.find?_eq_none.mpr fun w hw => by simpa using x.unwoken w hw
  unfold wakeOf woken
  rw [x.wakes, List.find?_append, hnone]
  simp

/-- What the woken attempt still writes is the outcome. -/
theorem finish_waits (m : Int) :
    (x.attempt.waits x.tx).finish env m x.woken = x.outcome m := by
  have hw := x.wakeOf_woken
  unfold outcome
  cases x.attempt with
  | create a =>
      simp only [Attempt.waits, Confirming.finish, Attempt.confirm, hw, Option.bind_some]
      cases createVerdict x.wake.reply <;> rfl
  | take a =>
      simp only [Attempt.waits, Confirming.finish, Attempt.confirm, hw, Option.bind_some]
      cases takeVerdict x.wake.reply <;> rfl

/-- The guard the attempt keeps came with its reply. -/
theorem held_of_kept (h : (x.attempt.waits x.tx).exposed x.woken = false) :
    x.wake.orderGuard = true := by
  have hk : keptGuard x.wake = true := by
    cases hat : x.attempt <;>
      simpa [hat, Attempt.waits, Confirming.exposed, x.wakeOf_woken] using h
  unfold keptGuard at hk
  split at hk
  · cases hk
  · exact hk

theorem stands_start {c : Pool GuardedOrder Confirming}
    (h : (confirming env).next x.pool (.env x.d) = some c) : x.Stands [] c := by
  obtain ⟨y, hy, rfl⟩ := Prog.next_env.mp h
  have hy : ⟨x.woken, x.wake.orderGuard⟩ = y := by
    have hact : dispatchGuarded env x.d ⟨x.s, false⟩ = some y := hy
    simpa [dispatchGuarded, woken, x.wakes] using hact
  subst hy
  refine ⟨fun j hj => ?_, fun p hp => ?_, fun hn => ?_⟩
  · simp [pool, Pool.one, Function.update_of_ne hj]
  · obtain rfl : x.attempt.waits x.tx = p := by simpa [pool, Pool.one] using hp
    exact ⟨rfl, fun m => ⟨m, x.finish_waits m⟩, x.held_of_kept⟩
  · simp [pool, Pool.one] at hn

/-- A step of the task. -/
theorem Stands.step {ds : List Delivery} {c c' : Pool GuardedOrder Confirming} {i : Nat} {w : Int}
    (hc : x.Stands ds c) (h : (confirming env).next c (.step i w) = some c') :
    x.Stands ds c' := by
  obtain ⟨p, y, q, hp, hs, rfl⟩ := Prog.next_step.mp h
  have hi : i = 0 := by
    by_contra hi
    rw [hc.solo i hi] at hp
    cases hp
  subst hi
  obtain ⟨rfl, hfinish, hheld⟩ := hc.running p hp
  obtain ⟨now, hnow⟩ := hfinish w
  have hstep : p.step env w c.shared = some (y, q) := hs
  have hrest := Confirming.step_finish hstep
  refine ⟨hc.solo.update y q, fun p' hp' => ?_, fun hn => ⟨now, ?_⟩⟩
  · obtain rfl : q = some p' := by simpa using hp'
    exact ⟨rfl, fun m => ⟨now, (hrest m).trans hnow⟩, Confirming.step_held hstep hheld⟩
  · obtain rfl : q = none := by simpa using hn
    exact hrest.trans hnow

/-- A message: it waits for the lock, or finds the outcome complete. -/
theorem Stands.dispatch {ds : List Delivery} {c c' : Pool GuardedOrder Confirming} {d : Delivery}
    (hc : x.Stands ds c) (hu : Unhurried c (.env d))
    (h : (confirming env).next c (.env d) = some c') : x.Stands (ds ++ [d]) c' := by
  obtain ⟨y, hy, rfl⟩ := Prog.next_env.mp h
  have hact : dispatchGuarded env d c.shared = some y := hy
  unfold dispatchGuarded at hact
  split at hact
  · cases hact
  next hfree =>
  obtain rfl := Option.some.inj hact
  refine ⟨hc.solo, fun p hp => ?_, fun hn => ?_⟩
  · exact absurd ((hc.running p hp).2.2 (hu d p rfl hp)) hfree
  · obtain ⟨now, hnow⟩ := hc.done hn
    refine ⟨now, ?_⟩
    show dispatchMostroMessage env d c.shared.s = _
    rw [hnow, dispatchAll, dispatchAll, List.foldl_append]
    rfl

/-- The induction over the labels of a run; `ds` are the messages so far. -/
theorem Stands.run {ls : List (Label Confirming Int Delivery)} {ds : List Delivery}
    {c c' : Pool GuardedOrder Confirming} (hc : x.Stands ds c)
    (hu : Along (confirming env).next Unhurried c ls)
    (h : run (confirming env).next c ls = some c') : x.Stands (ds ++ actions ls) c' := by
  induction ls generalizing ds c with
  | nil =>
      obtain rfl : c = c' := Option.some.inj h
      simpa [actions] using hc
  | cons l ls ih =>
      obtain ⟨c₁, hn, hrun⟩ := run_cons_eq_some.mp h
      have hu₁ := hu.2 c₁ hn
      cases l with
      | spawn i p => exact absurd (Prog.next_spawn.mp hn).1 Bool.false_ne_true
      | step i w => exact ih (hc.step hn) hu₁ hrun
      | env d =>
          have hd := ih (hc.dispatch hu.1 hn) hu₁ hrun
          rwa [List.append_assoc] at hd

/-! ## The outcome -/

/-- A confirmed take is its order's one row. -/
theorem settled_confirmTake {i : Nat} {key : String} {a : TakeAttempt} {v : TakeVerdict}
    {now : Int} {s : OrderState} (hi : a.tradeIndex = i)
    (hp : ∀ p, s.pending key = some p → p.tradeIndex = i ∧ ∀ u b, p.kind ≠ .create u b) :
    Settled i key (confirmTake env a v now s) := by
  have hbook : ∀ s' : OrderState, (syncTakenEntry v s').pending = s'.pending := by
    intro s'
    unfold syncTakenEntry
    repeat' split
    all_goals rfl
  have hreplay : ∀ s' : OrderState, Settled i key s' → Settled i key (replayCounterparty s') := by
    intro s' h
    unfold replayCounterparty
    split
    · exact h.of_stands (sameRows_updateTradeCounterparty s' _).rowsStand (.refl _)
    · exact h
  refine hreplay _ ⟨Or.inl ⟨a.row env v now, ?_, hi, Or.inr ?_⟩, ?_⟩
  · simp [OrderState.persistConfirmedTake, TradeInfo.save]
  · intro p u b hp' hk
    refine (hp p ?_).2 u b hk
    simpa [OrderState.persistConfirmedTake, hbook] using hp'
  · intro p hp'
    have hold : s.pending key = some p := by
      simpa [OrderState.persistConfirmedTake, hbook] using hp'
    exact ⟨(hp p hold).1, fun u => (hp p hold).2 u false⟩

variable (x)

/-- The outcome is settled: one row, of the attempt's key. -/
theorem settled_outcome (now : Int) : Settled x.attempt.tradeIndex x.key (x.outcome now) := by
  have hleaves := x.leaves
  have haccepts := x.accepts
  have hfresh := x.fresh
  unfold outcome
  cases hat : x.attempt with
  | create a =>
      rw [hat] at hleaves haccepts hfresh
      obtain ⟨bond, hv⟩ := haccepts
      have hout : ((Attempt.create a).confirm env x.wake.reply now x.woken).getD x.woken =
          x.woken.persistTradeRow (a.row env x.woken.orderId bond) := by
        simp [Attempt.confirm, hv, woken]
      rw [hout]
      refine ⟨Or.inl ⟨a.row env x.woken.orderId bond, ?_, rfl, Or.inl rfl⟩, hleaves⟩
      have hnil : x.woken.trades = [] := hfresh
      simp [TradeInfo.save, hnil]
  | take a =>
      rw [hat] at hleaves haccepts
      obtain ⟨v, hv⟩ := haccepts
      have hout : ((Attempt.take a).confirm env x.wake.reply now x.woken).getD x.woken =
          confirmTake env a v now x.woken := by
        simp [Attempt.confirm, hv]
      rw [hout]
      exact settled_confirmTake rfl hleaves

/-- **A confirmation never overwrites newer state**, in any run in which no message of the order
is dispatched while the woken task is exposed: the order ends as the confirmation followed by
the later messages leaves it. Its one row is of the confirmed key, unless a later message
wiped it. -/
theorem confirmed_then_messages {ls : List (Label Confirming Int Delivery)}
    {c : Pool GuardedOrder Confirming}
    (hrun : run (confirming env).next x.pool (.env x.d :: ls) = some c)
    (hend : c.threads 0 = none)
    (hu : Along (confirming env).next Unhurried x.pool (.env x.d :: ls))
    (hlater : ∀ d ∈ actions ls, Later x.attempt.tradeIndex x.key d) :
    ∃ now, c.shared.s = dispatchAll env (x.outcome now) (actions ls) ∧
      ((∃ t, c.shared.s.trades = [t] ∧ t.tradeKeyIndex = x.attempt.tradeIndex) ∨
        Gone x.attempt.tradeIndex c.shared.s) := by
  obtain ⟨c₁, hstart, hrest⟩ := run_cons_eq_some.mp hrun
  have hstands := (stands_start hstart).run (hu.2 c₁ hstart) hrest
  obtain ⟨now, hnow⟩ := hstands.done hend
  have hnow : c.shared.s = dispatchAll env (x.outcome now) (actions ls) := hnow
  have hsettled := settled_dispatchAll env (x.settled_outcome now) hlater
  rw [← hnow] at hsettled
  refine ⟨now, hnow, ?_⟩
  rcases hsettled.row with ⟨t, ht, hi, -⟩ | hgone
  · exact Or.inl ⟨t, ht, hi⟩
  · exact Or.inr hgone

end Confirmation

/-! ## A take under its guard, and a create without one -/

/-- A take waits; the daemon asks for an invoice and echoes the take's nonce. -/
def guardedTake : Confirmation bareEnv where
  s := { orderId := "order", pending := register "key" ⟨7, 1, .take, some 0⟩ fun _ => none }
  attempt := .take ⟨"row", { id := "order", kind := .sell, status := .pending }, .buyer, 1, none⟩
  tx := 0
  key := "key"
  d := { bareMessage .addInvoice 10 with
         msg := { action := .addInvoice, createdAt := 10, requestId := some 7
                  payload := some (.order { kind := some .sell
                                            status := some .waitingBuyerInvoice }) } }
  wake := ⟨.takeAccepted .addInvoice (some .waitingBuyerInvoice) none none none, true⟩
  unwoken := fun _ hw => absurd hw List.not_mem_nil
  wakes := by decide
  accepts := ⟨_, rfl⟩
  fresh := trivial
  leaves := fun _ hp => by cases hp

/-- The take's steps; the acknowledged fiat comes once it is through. -/
def takeSteps : List (Label Confirming Int Delivery) := (List.replicate 8 10).map (.step 0)

def takenThenPaid : List (Label Confirming Int Delivery) :=
  takeSteps ++ [.env (bareMessage .fiatSentOk 20)]

/-- A task's own steps are no messages. -/
theorem unhurried_steps (ws : List Int) (c : Pool GuardedOrder Confirming) :
    Along (confirming bareEnv).next Unhurried c (ws.map (.step 0)) := by
  induction ws generalizing c with
  | nil => trivial
  | cons w ws ih => exact ⟨fun d p hl => by (cases hl), fun c' _ => ih c'⟩

theorem unhurried_guardedTake :
    Along (confirming bareEnv).next Unhurried guardedTake.pool
      (.env guardedTake.d :: takenThenPaid) := by
  refine ⟨fun d p _ hp => ?_, fun c hc => (unhurried_steps _ c).append fun t ht => ?_⟩
  · obtain rfl : Confirming.takeWaits _ 0 = p := Option.some.inj hp
    rfl
  · obtain rfl := Option.some.inj hc
    obtain rfl := Option.some.inj ht
    exact ⟨fun d p _ hp => by (cases hp), fun _ _ => trivial⟩

/-- The take writes its row under the guard, and the message after it finds the row. -/
theorem guarded_take_keeps_messages :
    ∃ c now, run (confirming bareEnv).next guardedTake.pool
        (.env guardedTake.d :: takenThenPaid) = some c ∧
      c.shared.s = dispatchAll bareEnv (guardedTake.outcome now) (actions takenThenPaid) ∧
      c.shared.s.rowStatus = some .fiatSent := by
  obtain ⟨c, hc⟩ : ∃ c, run (confirming bareEnv).next guardedTake.pool
      (.env guardedTake.d :: takenThenPaid) = some c := ⟨_, rfl⟩
  have hend : (run (confirming bareEnv).next guardedTake.pool
      (.env guardedTake.d :: takenThenPaid)).map (fun c => ((c.threads 0).isNone,
        c.shared.s.rowStatus)) = some (true, some .fiatSent) := by decide
  rw [hc, Option.map_some, Option.some.injEq, Prod.mk.injEq, Option.isNone_iff_eq_none] at hend
  have hlater : ∀ d ∈ actions takenThenPaid, Later 1 "key" d := by
    intro d hd
    obtain rfl := List.mem_singleton.mp hd
    exact ⟨rfl, rfl, rfl, rfl⟩
  obtain ⟨now, hnow, -⟩ :=
    guardedTake.confirmed_then_messages hc hend.1 unhurried_guardedTake hlater
  exact ⟨c, now, hc, hnow, hend.2⟩

/-- A create waits, and the daemon confirms it. -/
def unguardedCreate : Confirmation bareEnv where
  s := { orderId := "order"
         pending := register "key" ⟨7, 1, .create "local" false, some 0⟩ fun _ => none }
  attempt := .create ⟨{ id := "local", kind := .buy, status := .pending, isMine := true }, 1, 5⟩
  tx := 0
  key := "key"
  d := { bareMessage .newOrder 10 with
         msg := { action := .newOrder, createdAt := 10, requestId := some 7 } }
  wake := ⟨.confirmed "order", false⟩
  unwoken := fun _ hw => absurd hw List.not_mem_nil
  wakes := by decide
  accepts := ⟨none, rfl⟩
  fresh := rfl
  leaves := fun _ hp => by cases hp

/-- The order is taken at once: the daemon asks its maker for an invoice. -/
def takenAtOnce : Delivery :=
  { bareMessage .addInvoice 11 with
    msg := { action := .addInvoice, createdAt := 11
             payload := some (.order { kind := some .buy
                                       status := some .waitingBuyerInvoice }) } }

/-- **The create overwrites a later message**: the invoice request comes between the wake and the
save, and the row the save leaves is `Pending` again. -/
theorem unguarded_create_overwrites :
    (run (confirming bareEnv).next unguardedCreate.pool
        [.env unguardedCreate.d, .env takenAtOnce, .step 0 12, .step 0 12, .step 0 12]).map
          (fun c => ((c.threads 0).isNone, c.shared.s.rowStatus)) =
        some (true, some .pending) ∧
      ∀ now, (dispatchAll bareEnv (unguardedCreate.outcome now) [takenAtOnce]).rowStatus =
        some .waitingBuyerInvoice := by
  have hout : ∀ now, unguardedCreate.outcome now = unguardedCreate.outcome 12 := fun _ => rfl
  refine ⟨by decide, fun now => ?_⟩
  rw [hout now]
  decide

end MostroApp.Orders
