import MostroApp.Api.Identity
import MostroApp.Api.Tasks

set_option autoImplicit false

/-! # Recovering the trade-key counter (`mostro/trade_index.rs`, `api/orders.rs`)

The daemon keeps the last trade index of each identity and refuses an order or a take whose index
is not above it. The local counter may be behind: the seed trades elsewhere, or it was imported.
A refused request asks the daemon for its counter (`resync_trade_key_index`), raises the local one
and is made once more; a restore raises the counter before anything else and records what the
daemon still counts as in progress.

The daemon is a parameter: what is used of it is that it refuses no index above its counter, and
that a request raises the counter to its own index at most (`Daemon.Keeps`).
-/

namespace MostroApp.Recovery

open Interleaving Transition Identity Orders
open Wire (RestoredOrder RestoreSessionInfo)

/-! ## The daemon -/

/-- The daemon's answer to an order or a take. -/
inductive Verdict where
  | accepted
  | invalidTradeIndex
  | refused
  deriving DecidableEq, Repr

/-- One node, as far as one identity is concerned: the counter it keeps, and what it makes of a
request that carries an index. -/
structure Daemon (δ : Type) where
  last : δ → Nat
  takes : δ → Nat → δ × Verdict

/-- What the client relies on. -/
structure Daemon.Keeps {δ : Type} (d : Daemon δ) : Prop where
  above : ∀ x index, (d.takes x index).2 = .invalidTradeIndex → index ≤ d.last x
  raises : ∀ x index, d.last (d.takes x index).1 ≤ max (d.last x) index

/-! ## Floors -/

/-- A wire index that can be a counter: `u32::MAX` is reserved. -/
def sanitizeTradeIndex (i : Int) : Option Nat :=
  if 0 ≤ i ∧ i < 4294967295 then some i.toNat else none

def recoveredMaxTradeIndex (info : RestoreSessionInfo) : Option Nat :=
  ((info.restoreOrders.map (·.tradeIndex) ++ info.restoreDisputes.map (·.tradeIndex)).filterMap
    sanitizeTradeIndex).max?

/-- The daemon's counter or the highest recovered index, whichever is higher. -/
def resyncFloor (daemonCounter : Option Nat) (info : RestoreSessionInfo) : Option Nat :=
  match daemonCounter, recoveredMaxTradeIndex info with
  | some daemon, some payload => some (max daemon payload)
  | daemon, payload => daemon.or payload

/-- The snapshot `record_restore_snapshot` stores. -/
def restoreSnapshot (floor : Nat) (info : RestoreSessionInfo) : RestoreSnapshot where
  floor := floor
  live := info.restoreOrders.map (·.orderId) ++ info.restoreDisputes.map (·.orderId)

theorem sanitizeTradeIndex_natCast {n c : Nat} (h : sanitizeTradeIndex n = some c) : c = n := by
  unfold sanitizeTradeIndex at h
  split at h
  · have := Option.some.inj h
    omega
  · cases h

/-- No recovered trade's index is above the floor. -/
theorem le_resyncFloor {counter : Option Nat} {info : RestoreSessionInfo} {floor : Nat}
    (h : resyncFloor counter info = some floor) {o : RestoredOrder}
    (ho : o ∈ info.restoreOrders ∨ o ∈ info.restoreDisputes) {index : Nat}
    (hi : sanitizeTradeIndex o.tradeIndex = some index) : index ≤ floor := by
  have hmem : index ∈ (info.restoreOrders.map (·.tradeIndex) ++
      info.restoreDisputes.map (·.tradeIndex)).filterMap sanitizeTradeIndex := by
    refine List.mem_filterMap.mpr ⟨o.tradeIndex, List.mem_append.mpr ?_, hi⟩
    exact ho.imp (fun h => List.mem_map.mpr ⟨o, h, rfl⟩) fun h => List.mem_map.mpr ⟨o, h, rfl⟩
  have hmax : ∃ payload, recoveredMaxTradeIndex info = some payload ∧ index ≤ payload := by
    cases hm : recoveredMaxTradeIndex info with
    | none =>
        have hnil := List.max?_eq_none_iff.mp hm
        rw [hnil] at hmem
        cases hmem
    | some payload => exact ⟨payload, rfl, (List.max?_eq_some_iff.mp hm).2 index hmem⟩
  obtain ⟨payload, hp, hle⟩ := hmax
  unfold resyncFloor at h
  rw [hp] at h
  cases counter with
  | none =>
      obtain rfl : payload = floor := Option.some.inj h
      exact hle
  | some daemon =>
      obtain rfl : max daemon payload = floor := Option.some.inj h
      omega

/-- What the daemon returned is not history. -/
theorem not_isHistory_of_returned {floor index : Nat} {info : RestoreSessionInfo}
    {o : RestoredOrder} (ho : o ∈ info.restoreOrders ∨ o ∈ info.restoreDisputes) :
    (restoreSnapshot floor info).isHistory o.orderId index = false := by
  have hlive : o.orderId ∈ (restoreSnapshot floor info).live := by
    refine List.mem_append.mpr ?_
    exact ho.imp (fun h => List.mem_map.mpr ⟨o, h, rfl⟩) fun h => List.mem_map.mpr ⟨o, h, rfl⟩
  simp [RestoreSnapshot.isHistory, hlive]

theorem not_isHistory_of_above {x : RestoreSnapshot} {orderId : String} {index : Nat}
    (h : x.floor < index) : x.isHistory orderId index = false := by
  have hle : ¬ index ≤ x.floor := by omega
  simp [RestoreSnapshot.isHistory, hle]

/-! ## Calls -/

/-- A restore that has raised the counter: what the daemon returned, and how many indices had
been issued by then. -/
structure Restore where
  info : RestoreSessionInfo
  mark : Nat
  deriving DecidableEq, Repr

/-- The app and the node. `issued` is every index `derive_trade_key` has returned, newest first,
and `seen` every index the daemon has received, oldest first. The stored snapshot stands beside
the restore that wrote it. -/
structure World (δ : Type) where
  device : Device
  daemon : δ
  snapshot : Option (RestoreSnapshot × Restore) := none
  issued : List Nat := []
  seen : List Nat := []

/-- What a step cannot know from the state: whether a store write succeeds, whether a request
reaches the daemon with its reply, and what a restore brings back. -/
structure RecoveryOracle where
  saves : Bool := true
  answers : Bool := true
  info : RestoreSessionInfo := ⟨[], []⟩

/-- The first attempt of a create or a take, or its retry: the index the first one was refused
with, the counter the daemon gave, and how many requests it had received then. -/
inductive Attempt where
  | first
  | second (index counter mark : Nat)
  deriving DecidableEq, Repr

/-- Where a call stands: `retry_after_resync` over `create_order_once` or `take_order_once` with
`resync_trade_key_index`, and `restore_session`. -/
inductive RecoveryTask where
  | derives (a : Attempt)
  | publishes (a : Attempt) (index : Nat)
  /-- `resync_trade_key_index` derives the key its reply goes to. -/
  | resyncs (index : Nat)
  /-- `last_trade_index`. -/
  | asks (index : Nat)
  | raises (index counter mark : Nat)
  /-- The caller gets `InvalidTradeIndex`. -/
  | refused (a : Attempt) (index : Nat)
  | restores
  | awaits
  | asksFloor (info : RestoreSessionInfo)
  | raisesFloor (info : RestoreSessionInfo) (counter : Option Nat)
  /-- `record_restore_snapshot`. -/
  | records (snapshot : RestoreSnapshot) (restore : Restore)
  deriving DecidableEq, Repr

variable {δ : Type} (d : Daemon δ)

/-- `derive_trade_key`, with what it returned among the issued indices. -/
def World.derive (saves : Bool) (s : World δ) : World δ × Option Nat :=
  match deriveTradeKey saves s.device with
  | (device, .ok index) => ({ s with device := device, issued := index :: s.issued }, some index)
  | (device, .error _) => ({ s with device := device }, none)

/-- `ensure_trade_key_index_at_least`; whether it succeeded. -/
def World.ensure (floor : Nat) (saves : Bool) (s : World δ) : World δ × Bool :=
  match ensureTradeKeyIndexAtLeast floor saves s.device with
  | (device, .ok _) => ({ s with device := device }, true)
  | (device, .error _) => ({ s with device := device }, false)

/-- The daemon receives a request of this identity. -/
def World.receives (index : Nat) (s : World δ) : World δ × Verdict :=
  ({ s with daemon := (d.takes s.daemon index).1, seen := s.seen ++ [index] },
    (d.takes s.daemon index).2)

/-- A call's next step; a call that is over stays where it is or ends. -/
def RecoveryTask.step (w : RecoveryOracle) :
    RecoveryTask → World δ → World δ × Option RecoveryTask
  | .derives a, s =>
      match s.derive w.saves with
      | (s, some index) => (s, some (.publishes a index))
      | (s, none) => (s, none)
  | .publishes a index, s =>
      -- a reply that is lost, or a request that arrives after its timeout, is a move of the relays
      if w.answers then
        match s.receives d index with
        | (s, .invalidTradeIndex) =>
            (s, some (match a with
              | .first => .resyncs index
              | .second .. => .refused a index))
        | (s, _) => (s, none)
      else (s, none)
  | .resyncs index, s =>
      match s.derive w.saves with
      | (s, some _) => (s, some (.asks index))
      | (s, none) => (s, some (.refused .first index))
  | .asks index, s =>
      match if w.answers then sanitizeTradeIndex (d.last s.daemon) else none with
      | some counter => (s, some (.raises index counter s.seen.length))
      | none => (s, some (.refused .first index))
  | .raises index counter mark, s =>
      match s.ensure counter w.saves with
      | (s, true) => (s, some (.derives (.second index counter mark)))
      | (s, false) => (s, some (.refused .first index))
  | .refused .., s => (s, none)
  | .restores, s =>
      match s.derive w.saves with
      | (s, some _) => (s, some .awaits)
      | (s, none) => (s, none)
  | .awaits, s => (s, if w.answers then some (.asksFloor w.info) else none)
  | .asksFloor info, s =>
      (s, some (.raisesFloor info
        (if w.answers then sanitizeTradeIndex (d.last s.daemon) else none)))
  | .raisesFloor info counter, s =>
      match resyncFloor counter info with
      | none => (s, none)
      | some floor =>
          match s.ensure floor w.saves with
          | (s, true) => (s, some (.records (restoreSnapshot floor info) ⟨info, s.issued.length⟩))
          | (s, false) => (s, none)
  | .records snapshot restore, s =>
      (if w.saves then { s with snapshot := some (snapshot, restore) } else s, none)

/-- Any number of creates, takes and restores. The daemon may receive any index at any time: from
another device of the seed, or from a request whose caller has given up. -/
def recoveryProg : Prog (World δ) RecoveryTask RecoveryOracle Nat where
  enter
    | .derives .first | .restores => true
    | _ => false
  tstep w p s := some (p.step d w s)
  act index s := some (s.receives d index).1

/-! ## What a step leaves -/

variable {d}

/-- The counter in memory is at least `n`. -/
def World.AtLeast (n : Nat) (s : World δ) : Prop :=
  ∃ info, s.device.memory = some info ∧ n ≤ info.tradeKeyIndex

theorem World.AtLeast.mono {m n : Nat} {s : World δ} (h : s.AtLeast n) (hle : m ≤ n) :
    s.AtLeast m := by
  obtain ⟨info, hm, hn⟩ := h
  exact ⟨info, hm, Nat.le_trans hle hn⟩

/-- What any step may do: the counter in memory does not go down, an index that is issued is above
it, and the daemon may receive a request. -/
structure Grows (d : Daemon δ) (s t : World δ) : Prop where
  counter : ∀ n, s.AtLeast n → t.AtLeast n
  issued : t.issued = s.issued ∨
    ∃ index, t.issued = index :: s.issued ∧ t.AtLeast index ∧ ∀ n, s.AtLeast n → n < index
  daemon : t.daemon = s.daemon ∧ t.seen = s.seen ∨
    ∃ index, t.daemon = (d.takes s.daemon index).1 ∧ t.seen = s.seen ++ [index]

theorem Grows.refl (s : World δ) : Grows d s s :=
  ⟨fun _ h => h, Or.inl rfl, Or.inl ⟨rfl, rfl⟩⟩

theorem World.derive_grows (saves : Bool) (s : World δ) : Grows d s (s.derive saves).1 ∧
    (s.derive saves).1.snapshot = s.snapshot ∧
    ∀ index, (s.derive saves).2 = some index →
      (s.derive saves).1.AtLeast index ∧ ∀ n, s.AtLeast n → n < index := by
  unfold World.derive
  cases hr : (deriveTradeKey saves s.device).2 with
  | ok index =>
      obtain ⟨info, hm, rfl, hdev⟩ := deriveTradeKey_ok hr
      rw [show deriveTradeKey saves s.device = (_, .ok (info.tradeKeyIndex + 1)) from
        Prod.ext hdev hr]
      have above : ∀ n, s.AtLeast n → n < info.tradeKeyIndex + 1 := by
        rintro n ⟨info', hm', hn⟩
        obtain rfl := Option.some.inj (hm.symm.trans hm')
        omega
      have reached : ∀ n, n ≤ info.tradeKeyIndex + 1 → World.AtLeast n
          ({ s with
              device := s.device.advance { info with tradeKeyIndex := info.tradeKeyIndex + 1 }
              issued := (info.tradeKeyIndex + 1) :: s.issued } : World δ) :=
        fun n hn => ⟨_, rfl, hn⟩
      refine ⟨⟨fun n hn => reached n (Nat.le_of_lt (above n hn)), ?_, Or.inl ⟨rfl, rfl⟩⟩, rfl, ?_⟩
      · exact Or.inr ⟨_, rfl, reached _ (Nat.le_refl _), above⟩
      · intro index hi
        obtain rfl := Option.some.inj hi
        exact ⟨reached _ (Nat.le_refl _), above⟩
  | error e =>
      rw [show deriveTradeKey saves s.device = ((deriveTradeKey saves s.device).1, .error e) from
        Prod.ext rfl hr]
      refine ⟨⟨?_, Or.inl rfl, Or.inl ⟨rfl, rfl⟩⟩, rfl, fun index hi => ?_⟩
      · rintro n ⟨info, hm, hn⟩
        rcases deriveTradeKey_error hr with hsame | ⟨info', hm', hdev⟩
        · exact ⟨info, (congrArg Device.memory hsame).trans hm, hn⟩
        · obtain rfl := Option.some.inj (hm.symm.trans hm')
          exact ⟨_, congrArg Device.memory hdev, Nat.le_succ_of_le hn⟩
      · cases hi

theorem World.ensure_grows (floor : Nat) (saves : Bool) (s : World δ) :
    Grows d s (s.ensure floor saves).1 ∧ (s.ensure floor saves).1.issued = s.issued ∧
      (s.ensure floor saves).1.snapshot = s.snapshot ∧
      (s.ensure floor saves).1.daemon = s.daemon ∧ (s.ensure floor saves).1.seen = s.seen ∧
      ((s.ensure floor saves).2 = true → (s.ensure floor saves).1.AtLeast floor) := by
  unfold World.ensure
  rcases ensureTradeKeyIndexAtLeast_cases floor saves s.device with
    ⟨e, he⟩ | ⟨info, hm, hle, he⟩ | ⟨info, hm, hlt, he⟩
  · rw [he]
    exact ⟨Grows.refl s, rfl, rfl, rfl, rfl, nofun⟩
  · rw [he]
    exact ⟨Grows.refl s, rfl, rfl, rfl, rfl, fun _ => ⟨info, hm, hle⟩⟩
  · rw [he]
    refine ⟨⟨?_, Or.inl rfl, Or.inl ⟨rfl, rfl⟩⟩, rfl, rfl, rfl, rfl,
      fun _ => ⟨_, rfl, Nat.le_refl _⟩⟩
    rintro n ⟨info', hm', hn⟩
    obtain rfl := Option.some.inj (hm.symm.trans hm')
    exact ⟨_, rfl, by show n ≤ floor; omega⟩

theorem World.receives_grows (index : Nat) (s : World δ) : Grows d s (s.receives d index).1 :=
  ⟨fun _ h => h, Or.inl rfl, Or.inr ⟨index, rfl, rfl⟩⟩

theorem RecoveryTask.step_grows (w : RecoveryOracle) (p : RecoveryTask) (s : World δ) :
    Grows d s (p.step d w s).1 := by
  cases p with
  | derives | resyncs | restores =>
      have h := (World.derive_grows (d := d) w.saves s).1
      simp only [RecoveryTask.step]
      split <;> next heq => rw [heq] at h; exact h
  | publishes a index =>
      have h := World.receives_grows (d := d) index s
      simp only [RecoveryTask.step]
      split
      · split <;> next heq => rw [heq] at h; exact h
      · exact Grows.refl s
  | asks =>
      simp only [RecoveryTask.step]
      split <;> exact Grows.refl s
  | raises index counter =>
      have h := (World.ensure_grows (d := d) counter w.saves s).1
      simp only [RecoveryTask.step]
      split <;> next heq => rw [heq] at h; exact h
  | raisesFloor info counter =>
      simp only [RecoveryTask.step]
      split
      · exact Grows.refl s
      · next floor _ =>
        have h := (World.ensure_grows (d := d) floor w.saves s).1
        split <;> next heq => rw [heq] at h; exact h
  | records =>
      simp only [RecoveryTask.step]
      split
      · exact ⟨fun _ h => h, Or.inl rfl, Or.inl ⟨rfl, rfl⟩⟩
      · exact Grows.refl s
  | refused | awaits | asksFloor => exact Grows.refl s

/-! ## What a call knows -/

/-- The daemon's counter is what it said, or was raised by a request received since. -/
def World.Told (d : Daemon δ) (s : World δ) (counter mark : Nat) : Prop :=
  mark ≤ s.seen.length ∧
    (d.last s.daemon ≤ counter ∨ ∃ other ∈ s.seen.drop mark, d.last s.daemon ≤ other)

/-- The indices issued since a restore raised the counter. -/
def World.later (s : World δ) (r : Restore) : List Nat :=
  s.issued.take (s.issued.length - r.mark)

/-- A snapshot of a restore: every recovered index is at most the floor, and every index issued
since is above it. -/
structure World.Since (s : World δ) (x : RestoreSnapshot) (r : Restore) : Prop where
  taken : x = restoreSnapshot x.floor r.info
  recovered : ∀ o, o ∈ r.info.restoreOrders ∨ o ∈ r.info.restoreDisputes →
    ∀ index, sanitizeTradeIndex o.tradeIndex = some index → index ≤ x.floor
  reached : s.AtLeast x.floor
  mark : r.mark ≤ s.issued.length
  later : ∀ index ∈ s.later r, x.floor < index

theorem World.Told.grows {s t : World δ} {counter mark : Nat} (hd : d.Keeps)
    (h : s.Told d counter mark) (hg : Grows d s t) : t.Told d counter mark := by
  obtain ⟨hmark, hlast⟩ := h
  rcases hg.daemon with ⟨hx, hseen⟩ | ⟨index, hx, hseen⟩
  · unfold World.Told
    rw [hx, hseen]
    exact ⟨hmark, hlast⟩
  · have hle : d.last t.daemon ≤ max (d.last s.daemon) index := by
      rw [hx]
      exact hd.raises s.daemon index
    have hdrop : t.seen.drop mark = s.seen.drop mark ++ [index] := by
      rw [hseen, List.drop_append_of_le_length hmark]
    refine ⟨by rw [hseen, List.length_append]; omega, ?_⟩
    rw [hdrop]
    by_cases hi : d.last t.daemon ≤ index
    · exact Or.inr ⟨index, List.mem_append_right _ (List.mem_singleton_self _), hi⟩
    · have hold : d.last t.daemon ≤ d.last s.daemon := by omega
      rcases hlast with hc | ⟨other, hmem, ho⟩
      · exact Or.inl (Nat.le_trans hold hc)
      · exact Or.inr ⟨other, List.mem_append_left _ hmem, Nat.le_trans hold ho⟩

theorem World.Since.grows {s t : World δ} {x : RestoreSnapshot} {r : Restore} (h : s.Since x r)
    (hg : Grows d s t) : t.Since x r := by
  have hmark := h.mark
  rcases hg.issued with hi | ⟨index, hi, -, habove⟩
  · have hlater : t.later r = s.later r := by
      unfold World.later
      rw [hi]
    exact ⟨h.taken, h.recovered, hg.counter _ h.reached, hi ▸ h.mark, hlater ▸ h.later⟩
  · have hlater : t.later r = index :: s.later r := by
      unfold World.later
      rw [hi, List.length_cons, Nat.succ_sub hmark, List.take_succ_cons]
    refine ⟨h.taken, h.recovered, hg.counter _ h.reached, ?_, fun k hk => ?_⟩
    · rw [hi, List.length_cons]
      omega
    · rw [hlater] at hk
      rcases List.mem_cons.mp hk with rfl | hk
      · exact habove _ h.reached
      · exact h.later k hk

/-- What the place a call stands at says of the state. -/
def RecoveryTask.Knows (d : Daemon δ) : RecoveryTask → World δ → Prop
  | .derives (.second index counter mark), s =>
      s.Told d counter mark ∧ s.AtLeast counter ∧ s.AtLeast index
  | .publishes .first index, s => s.AtLeast index
  | .publishes (.second index counter mark) index', s =>
      s.Told d counter mark ∧ counter < index' ∧ index < index'
  | .resyncs index, s => s.AtLeast index
  | .asks index, s => s.AtLeast index
  | .raises index counter mark, s => s.Told d counter mark ∧ s.AtLeast index
  | .refused (.second index _ mark) index', s =>
      index < index' ∧ ∃ other ∈ s.seen.drop mark, index' ≤ other
  | .records x r, s => s.Since x r
  | _, _ => True

theorem RecoveryTask.Knows.grows {p : RecoveryTask} {s t : World δ} (hd : d.Keeps)
    (h : p.Knows d s) (hg : Grows d s t) : p.Knows d t := by
  cases p with
  | derives a =>
      cases a with
      | first => trivial
      | second => exact ⟨h.1.grows hd hg, hg.counter _ h.2.1, hg.counter _ h.2.2⟩
  | publishes a index =>
      cases a with
      | first => exact hg.counter _ h
      | second => exact ⟨h.1.grows hd hg, h.2⟩
  | resyncs | asks => exact hg.counter _ h
  | raises => exact ⟨h.1.grows hd hg, hg.counter _ h.2⟩
  | refused a index =>
      cases a with
      | first => trivial
      | second _ _ mark =>
          obtain ⟨hlt, other, hmem, ho⟩ := h
          refine ⟨hlt, other, ?_, ho⟩
          rcases hg.daemon with ⟨-, hseen⟩ | ⟨k, -, hseen⟩
          · rw [hseen]
            exact hmem
          · rw [hseen, List.drop_append]
            exact List.mem_append_left _ hmem
  | records => exact World.Since.grows h hg
  | restores | awaits | asksFloor | raisesFloor => trivial

/-- What holds of the app at all times: an issued index is below every later one, and the stored
snapshot is one of its restore. -/
structure World.Sound (s : World δ) : Prop where
  decreasing : s.issued.Pairwise (· > ·)
  bounded : ∀ index ∈ s.issued, s.AtLeast index
  snapshot : ∀ x r, s.snapshot = some (x, r) → s.Since x r

theorem World.Sound.grows {s t : World δ} (h : s.Sound) (hg : Grows d s t)
    (hx : ∀ x r, t.snapshot = some (x, r) → s.snapshot = some (x, r) ∨ s.Since x r) :
    t.Sound := by
  have hsnapshot : ∀ x r, t.snapshot = some (x, r) → t.Since x r := by
    intro x r ht
    rcases hx x r ht with hs | hs
    · exact (h.snapshot x r hs).grows hg
    · exact hs.grows hg
  rcases hg.issued with hi | ⟨index, hi, hreached, habove⟩
  · refine ⟨hi ▸ h.decreasing, fun k hk => ?_, hsnapshot⟩
    rw [hi] at hk
    exact hg.counter _ (h.bounded k hk)
  · refine ⟨?_, fun k hk => ?_, hsnapshot⟩
    · rw [hi]
      exact List.pairwise_cons.mpr ⟨fun k hk => habove k (h.bounded k hk), h.decreasing⟩
    · rw [hi] at hk
      rcases List.mem_cons.mp hk with rfl | hk
      · exact hreached
      · exact hg.counter _ (h.bounded k hk)

/-- Only a restore stores a snapshot, its own. -/
theorem RecoveryTask.step_snapshot (w : RecoveryOracle) (p : RecoveryTask) (s : World δ) :
    (p.step d w s).1.snapshot = s.snapshot ∨
      ∃ x r, p = .records x r ∧ (p.step d w s).1.snapshot = some (x, r) := by
  cases p with
  | derives | resyncs | restores =>
      have h := (World.derive_grows (d := d) w.saves s).2.1
      refine Or.inl ?_
      simp only [RecoveryTask.step]
      split <;> next heq => rw [heq] at h; exact h
  | publishes =>
      refine Or.inl ?_
      simp only [RecoveryTask.step, World.receives]
      split
      · split <;> next heq => rw [← congrArg Prod.fst heq]
      · rfl
  | asks =>
      refine Or.inl ?_
      simp only [RecoveryTask.step]
      split <;> rfl
  | raises index counter =>
      have h := (World.ensure_grows (d := d) counter w.saves s).2.2.1
      refine Or.inl ?_
      simp only [RecoveryTask.step]
      split <;> next heq => rw [heq] at h; exact h
  | raisesFloor info counter =>
      refine Or.inl ?_
      simp only [RecoveryTask.step]
      split
      · rfl
      · next floor _ =>
        have h := (World.ensure_grows (d := d) floor w.saves s).2.2.1
        split <;> next heq => rw [heq] at h; exact h
  | records x r =>
      simp only [RecoveryTask.step]
      split
      · exact Or.inr ⟨x, r, rfl, rfl⟩
      · exact Or.inl rfl
  | refused | awaits | asksFloor => exact Or.inl rfl

/-- A new index is above whatever the counter was known to be at. -/
theorem RecoveryTask.derives_knows (hd : d.Keeps) {w : RecoveryOracle} {a : Attempt}
    {q : RecoveryTask} {s t : World δ} (h : (RecoveryTask.derives a).Knows d s)
    (hs : (RecoveryTask.derives a).step d w s = (t, some q)) : q.Knows d t := by
  obtain ⟨hg, -, hissue⟩ := World.derive_grows (d := d) w.saves s
  simp only [RecoveryTask.step] at hs
  split at hs
  · next u index heq =>
    rw [heq] at hg hissue
    obtain ⟨rfl, hq⟩ := Prod.mk.inj hs
    obtain rfl := Option.some.inj hq
    obtain ⟨hreached, habove⟩ := hissue index rfl
    cases a with
    | first => exact hreached
    | second => exact ⟨h.1.grows hd hg, habove _ h.2.1, habove _ h.2.2⟩
  · cases (Prod.mk.inj hs).2

/-- A retry is refused only if the daemon's last index has moved past what was told. -/
theorem RecoveryTask.publishes_knows (hd : d.Keeps) {w : RecoveryOracle} {a : Attempt}
    {index : Nat} {q : RecoveryTask} {s t : World δ}
    (h : (RecoveryTask.publishes a index).Knows d s)
    (hs : (RecoveryTask.publishes a index).step d w s = (t, some q)) : q.Knows d t := by
  have hg := World.receives_grows (d := d) index s
  simp only [RecoveryTask.step] at hs
  split at hs
  · split at hs
    · next u heq =>
      obtain ⟨rfl, hq⟩ := Prod.mk.inj hs
      obtain rfl := Option.some.inj hq
      obtain ⟨rfl, hrefused⟩ := Prod.mk.inj heq
      cases a with
      | first => exact hg.counter _ h
      | second first counter mark =>
          obtain ⟨⟨hmark, hlast⟩, hcounter, hlt⟩ := h
          -- The daemon's last index, not below the refused one, has moved past what was told.
          have hle := hd.above s.daemon index hrefused
          refine ⟨hlt, ?_⟩
          rcases hlast with hc | ⟨other, hmem, ho⟩
          · omega
          · refine ⟨other, ?_, Nat.le_trans hle ho⟩
            show other ∈ (s.seen ++ [index]).drop mark
            rw [List.drop_append_of_le_length hmark]
            exact List.mem_append_left _ hmem
    · cases (Prod.mk.inj hs).2
  · cases (Prod.mk.inj hs).2

/-- A restore that has raised the counter knows its snapshot: nothing has been issued since. -/
theorem RecoveryTask.raisesFloor_knows {w : RecoveryOracle} {info : RestoreSessionInfo}
    {counter : Option Nat} {q : RecoveryTask} {s t : World δ}
    (hs : (RecoveryTask.raisesFloor info counter).step d w s = (t, some q)) : q.Knows d t := by
  simp only [RecoveryTask.step] at hs
  split at hs
  · cases (Prod.mk.inj hs).2
  · next floor hfloor =>
    obtain ⟨-, -, -, -, -, hreached⟩ := World.ensure_grows (d := d) floor w.saves s
    split at hs
    · next u heq =>
      rw [heq] at hreached
      obtain ⟨rfl, hq⟩ := Prod.mk.inj hs
      obtain rfl := Option.some.inj hq
      refine ⟨rfl, fun o ho index hi => le_resyncFloor hfloor ho hi, hreached rfl,
        Nat.le_refl _, fun index hi => ?_⟩
      -- nothing has been issued since
      have hnil : u.later ⟨info, u.issued.length⟩ = [] := by
        unfold World.later
        rw [Nat.sub_self, List.take_zero]
      rw [hnil] at hi
      cases hi
    · cases (Prod.mk.inj hs).2

/-- **A call's step keeps what it knows.** -/
theorem RecoveryTask.step_knows (hd : d.Keeps) {w : RecoveryOracle} {p q : RecoveryTask}
    {s t : World δ} (h : p.Knows d s) (hs : p.step d w s = (t, some q)) : q.Knows d t := by
  cases p with
  | derives a => exact derives_knows hd h hs
  | publishes a index => exact publishes_knows hd h hs
  | resyncs index =>
      have hg := (World.derive_grows (d := d) w.saves s).1
      simp only [RecoveryTask.step] at hs
      split at hs <;> next heq =>
        obtain ⟨rfl, hq⟩ := Prod.mk.inj hs
        obtain rfl := Option.some.inj hq
        rw [heq] at hg
        first | exact hg.counter _ h | trivial
  | asks index =>
      simp only [RecoveryTask.step] at hs
      split at hs
      · next counter heq =>
        obtain ⟨rfl, hq⟩ := Prod.mk.inj hs
        obtain rfl := Option.some.inj hq
        split at heq
        · have hle : d.last s.daemon ≤ counter := Nat.le_of_eq (sanitizeTradeIndex_natCast heq).symm
          exact ⟨⟨Nat.le_refl _, Or.inl hle⟩, h⟩
        · cases heq
      · obtain ⟨rfl, hq⟩ := Prod.mk.inj hs
        obtain rfl := Option.some.inj hq
        trivial
  | raises index counter mark =>
      obtain ⟨hg, -, -, -, -, hreached⟩ := World.ensure_grows (d := d) counter w.saves s
      simp only [RecoveryTask.step] at hs
      split at hs <;> next heq =>
        obtain ⟨rfl, hq⟩ := Prod.mk.inj hs
        obtain rfl := Option.some.inj hq
        rw [heq] at hg hreached
        first | exact ⟨h.1.grows hd hg, hreached rfl, hg.counter _ h.2⟩ | trivial
  | refused => cases (Prod.mk.inj hs).2
  | restores =>
      simp only [RecoveryTask.step] at hs
      split at hs <;> cases (Prod.mk.inj hs).2
      trivial
  | awaits =>
      obtain ⟨-, hq⟩ := Prod.mk.inj hs
      split at hq <;> cases hq
      trivial
  | asksFloor =>
      obtain rfl := Option.some.inj (Prod.mk.inj hs).2
      trivial
  | raisesFloor info counter => exact raisesFloor_knows hs
  | records =>
      obtain ⟨-, hq⟩ := Prod.mk.inj hs
      cases hq

theorem recoveryOutline (hd : d.Keeps) :
    Outline (recoveryProg d) (fun _ _ => True) World.Sound (RecoveryTask.Knows d) := by
  constructor
  · intro c i p _ _ henter _
    cases p with
    | derives a =>
        cases a with
        | first => trivial
        | second => cases henter
    | restores => trivial
    | _ => cases henter
  · intro c i w p s q hc _ hp hs
    obtain rfl := congrArg Prod.fst (Option.some.inj hs)
    refine hc.shared.grows (p.step_grows w c.shared) fun x r hx => ?_
    rcases p.step_snapshot (d := d) w c.shared with hsame | ⟨x', r', rfl, hnew⟩
    · exact Or.inl (hsame.symm.trans hx)
    · obtain ⟨rfl, rfl⟩ := Prod.mk.inj (Option.some.inj (hnew.symm.trans hx))
      exact Or.inr (hc.threads i _ hp)
  · intro c i w p s p' hc _ hp hs
    exact RecoveryTask.step_knows hd (hc.threads i p hp) (Option.some.inj hs)
  · intro c i w p s q j r hc _ _ hs _ hr
    obtain rfl := congrArg Prod.fst (Option.some.inj hs)
    exact (hc.threads j r hr).grows hd (p.step_grows w c.shared)
  · intro c index s hc _ hs
    obtain rfl := Option.some.inj hs
    exact hc.shared.grows (World.receives_grows index c.shared) fun _ _ => Or.inl
  · intro c index s i p hc _ hs hp
    obtain rfl := Option.some.inj hs
    exact (hc.threads i p hp).grows hd (World.receives_grows index c.shared)

/-! ## Every interleaving -/

/-- What a retry is to do. -/
structure Retried (c : Pool (World δ) RecoveryTask) : Prop where
  /-- No index is issued twice. -/
  fresh : c.shared.issued.Nodup
  /-- A retry goes out with an index above the refused one and above the daemon's counter. -/
  above : ∀ i index counter mark index',
    c.threads i = some (.publishes (.second index counter mark) index') →
      index < index' ∧ counter < index'
  /-- It is refused only if the daemon has received another index at least as high since. -/
  overtaken : ∀ i index counter mark index',
    c.threads i = some (.refused (.second index counter mark) index') →
      ∃ other ∈ c.shared.seen.drop mark, index' ≤ other

/-- What the snapshot of a restore is to do. -/
structure Settled (s : World δ) : Prop where
  /-- No trade the daemon returned is history. -/
  returned : ∀ x r, s.snapshot = some (x, r) →
    ∀ o, o ∈ r.info.restoreOrders ∨ o ∈ r.info.restoreDisputes →
      ∀ index, x.isHistory o.orderId index = false
  /-- Neither is a trade started under an index issued since. -/
  started : ∀ x r, s.snapshot = some (x, r) → ∀ index ∈ s.later r, ∀ orderId,
    x.isHistory orderId index = false
  /-- No index issued since belongs to a recovered trade. -/
  apart : ∀ x r, s.snapshot = some (x, r) →
    ∀ o, o ∈ r.info.restoreOrders ∨ o ∈ r.info.restoreDisputes →
      ∀ index, sanitizeTradeIndex o.tradeIndex = some index → index ∉ s.later r

theorem recovery_inv (hd : d.Keeps) {device : Device} {daemon : δ}
    {c : Pool (World δ) RecoveryTask} {ls : List (Label RecoveryTask RecoveryOracle Nat)}
    (h : run (recoveryProg d).next (Pool.idle ⟨device, daemon, none, [], []⟩) ls = some c) :
    PoolInv World.Sound (RecoveryTask.Knows d) c :=
  (recoveryOutline hd).run_inv
    (poolInv_idle ⟨List.Pairwise.nil, fun _ hk => absurd hk List.not_mem_nil,
      fun _ _ hx => (Option.some_ne_none _ hx.symm).elim⟩)
    (along_true _ ls) h

/-- **A request the daemon refuses for its index is retried above the daemon's counter**, and the
retry fails for its index only when another request of the seed overtook it. -/
theorem refused_index_recovers (hd : d.Keeps) {device : Device} {daemon : δ}
    {c : Pool (World δ) RecoveryTask} {ls : List (Label RecoveryTask RecoveryOracle Nat)}
    (h : run (recoveryProg d).next (Pool.idle ⟨device, daemon, none, [], []⟩) ls = some c) :
    Retried c := by
  have hinv := recovery_inv hd h
  refine ⟨hinv.shared.decreasing.imp fun hlt => (Nat.ne_of_lt hlt).symm, ?_, ?_⟩
  · intro i index counter mark index' hp
    obtain ⟨-, hcounter, hlt⟩ := hinv.threads i _ hp
    exact ⟨hlt, hcounter⟩
  · intro i index counter mark index' hp
    exact (hinv.threads i _ hp).2

/-- A daemon that does just what it must. -/
def strictDaemon : Daemon Nat where
  last := id
  takes last index := if index ≤ last then (last, .invalidTradeIndex) else (index, .accepted)

theorem strictDaemon_keeps : strictDaemon.Keeps where
  above x index h := by
    by_cases hle : index ≤ x
    · exact hle
    · simp [strictDaemon, hle] at h
  raises x index := by
    by_cases hle : index ≤ x
    · simp [strictDaemon, hle]
    · simp only [strictDaemon, if_neg hle, id]
      omega

/-- The counter stands at 5 and the daemon's at 9; while the app resyncs, another device trades
under index 10. -/
def overtakenRetry : List (Label RecoveryTask RecoveryOracle Nat) :=
  [.spawn 0 (.derives .first), .step 0 {}, .step 0 {}, .step 0 {}, .step 0 {}, .env 10, .step 0 {},
    .step 0 {}, .step 0 {}]

theorem refused_index_recovers_overtaken :
    ∃ c, run (recoveryProg strictDaemon).next
        (Pool.idle ⟨{ memory := some ⟨"me", 5⟩ }, 9, none, [], []⟩) overtakenRetry = some c ∧
      c.threads 0 = some (.refused (.second 6 9 1) 10) ∧ c.shared.seen = [6, 10, 10] ∧
      Retried c := by
  have h : run (recoveryProg strictDaemon).next
      (Pool.idle ⟨{ memory := some ⟨"me", 5⟩ }, 9, none, [], []⟩) overtakenRetry = some _ := rfl
  exact ⟨_, h, rfl, rfl, refused_index_recovers strictDaemon_keeps h⟩

/-- **A restore takes no live trade for history**: none the daemon returned, and none started under
a key issued after it raised the counter. -/
theorem restore_spares_live_trades (hd : d.Keeps) {device : Device} {daemon : δ}
    {c : Pool (World δ) RecoveryTask} {ls : List (Label RecoveryTask RecoveryOracle Nat)}
    (h : run (recoveryProg d).next (Pool.idle ⟨device, daemon, none, [], []⟩) ls = some c) :
    Settled c.shared := by
  have hsound := (recovery_inv hd h).shared
  refine ⟨fun x r hx o ho index => ?_, fun x r hx index hi orderId => ?_,
    fun x r hx o ho index hi hmem => ?_⟩
  · rw [(hsound.snapshot x r hx).taken]
    exact not_isHistory_of_returned ho
  · exact not_isHistory_of_above ((hsound.snapshot x r hx).later index hi)
  · have hle := (hsound.snapshot x r hx).recovered o ho index hi
    have hlt := (hsound.snapshot x r hx).later index hmem
    omega

/-- A restore that finds one order in progress, then an order of the restored app. -/
def restoreThenCreate : List (Label RecoveryTask RecoveryOracle Nat) :=
  [.spawn 0 .restores, .step 0 {}, .step 0 { info := ⟨[⟨"old", 8, "active"⟩], []⟩ },
    .step 0 {}, .step 0 {}, .step 0 {}, .spawn 1 (.derives .first), .step 1 {}]

theorem restore_spares_live_trades_after :
    ∃ c, run (recoveryProg strictDaemon).next
        (Pool.idle ⟨{ memory := some ⟨"me", 5⟩ }, 9, none, [], []⟩) restoreThenCreate = some c ∧
      c.shared.issued = [10, 6] ∧
      c.shared.snapshot.map (fun r => (r.1, c.shared.later r.2)) = some (⟨9, ["old"]⟩, [10]) ∧
      Settled c.shared := by
  have h : run (recoveryProg strictDaemon).next
      (Pool.idle ⟨{ memory := some ⟨"me", 5⟩ }, 9, none, [], []⟩) restoreThenCreate = some _ := rfl
  exact ⟨_, h, rfl, rfl, restore_spares_live_trades strictDaemon_keeps h⟩

end MostroApp.Recovery
