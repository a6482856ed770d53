import MostroApp.Lib.Transition
import Mathlib.Algebra.Group.Nat.Defs

set_option autoImplicit false

/-! # The trade-key counter (`api/identity.rs`)

The counter of consumed trade-key indices is held three times: in memory under the identity
lock, in the database row, and in the mirror Flutter keeps of what was published. A derivation
and a raise happen under the lock; a load reads the row without it and installs what it read
later. The file follows one mnemonic through every order of derivations, raises, loads and
restarts, with each write of the row succeeding or failing.

No index is handed out twice as long as a load installs a counter that is not behind the row,
and a raise finds memory ahead of its floor only when the row is too.
-/

namespace MostroApp.Identity

open Transition

/-! ## The counter's copies -/

/-- The persisted identity: what the counter depends on. -/
structure IdentityInfo where
  publicKey : String
  tradeKeyIndex : Nat
  deriving DecidableEq, Repr

/-- The stable markers of a refused call. -/
inductive IdentityError where
  | noIdentity
  | keyDerivation
  | storageError (index : Nat)
  deriving DecidableEq, Repr

/-- One installation: the loaded identity, the database row, the index last published, and the
loads that have read the row and not yet installed it. -/
structure Device where
  memory : Option IdentityInfo := none
  stored : Option IdentityInfo := none
  published : Option Nat := none
  loads : List Nat := []
  deriving DecidableEq, Repr

/-- Index 0 is the identity key, and a child number has 31 bits: the counter stops far below
the end of its `u32`. -/
def derivable (index : Nat) : Bool := 0 < index && index < 2 ^ 31

/-- `publish_index`. -/
def Device.publishIndex (index : Nat) (s : Device) : Device := { s with published := some index }

/-- `save_identity`, where the store takes the write. -/
def Device.saveIdentity (info : IdentityInfo) (s : Device) : Device :=
  { s with stored := some info }

/-! ## Calls -/

/-- Derive a new trade key. The index is consumed in memory even when the write fails. -/
def deriveTradeKey (saves : Bool) (s : Device) : Device × Except IdentityError Nat :=
  match s.memory with
  | none => (s, .error .noIdentity)
  | some info =>
      let candidate := info.tradeKeyIndex + 1
      if derivable candidate = false then (s, .error .keyDerivation)
      else
        let info := { info with tradeKeyIndex := candidate }
        let s := { s with memory := some info }
        if saves then ((s.saveIdentity info).publishIndex candidate, .ok candidate)
        else (s, .error (.storageError candidate))

/-- Raise the counter to at least `floor`. A failed write is rolled back in memory. -/
def ensureTradeKeyIndexAtLeast (floor : Nat) (saves : Bool) (s : Device) :
    Device × Except IdentityError Unit :=
  match s.memory with
  | none => (s, .error .noIdentity)
  | some info =>
      let raised := max info.tradeKeyIndex floor
      -- memory is at the floor already: the row is not looked at
      if raised = info.tradeKeyIndex then (s, .ok ())
      else
        let raisedInfo := { info with tradeKeyIndex := raised }
        if saves then
          ((({ s with memory := some raisedInfo } : Device).saveIdentity raisedInfo).publishIndex
            raised, .ok ())
        else (s, .error (.storageError raised))

/-- The highest of the passed index and the row's, when the row is this identity's. -/
def reconcileTradeKeyIndex (passed : Nat) (stored : Option IdentityInfo) (publicKey : String) :
    Nat :=
  match stored with
  | some info => if info.publicKey = publicKey then max passed info.tradeKeyIndex else passed
  | none => passed

/-- Reconcile, and publish when the row knew a higher counter. -/
def reconcileAndPublish (passed : Nat) (publicKey : String) (s : Device) : Device × Nat :=
  let reconciled := reconcileTradeKeyIndex passed s.stored publicKey
  (if reconciled > passed then s.publishIndex reconciled else s, reconciled)

/-- The first half of `load_identity_from_mnemonic`: the row is read without the lock. -/
def beginLoad (hint : Nat) (publicKey : String) (s : Device) : Device :=
  let r := reconcileAndPublish hint publicKey s
  { r.1 with loads := r.1.loads ++ [r.2] }

/-- The second half: what the `k`-th load in flight read becomes the identity. -/
def finishLoad (k : Nat) (publicKey : String) (s : Device) : Option Device :=
  s.loads[k]?.map fun index =>
    { s with memory := some ⟨publicKey, index⟩, loads := s.loads.eraseIdx k }

/-- The process ends: memory and what was running in it are gone. -/
def restart (s : Device) : Device := { s with memory := none, loads := [] }

/-! ## Runs of one mnemonic -/

inductive Call where
  | derive (saves : Bool)
  | ensure (floor : Nat) (saves : Bool)
  | beginLoad (hint : Nat)
  | finishLoad (k : Nat)
  | restart
  deriving DecidableEq, Repr

/-- A device, the indices `derive_trade_key` returned and the floors that were ensured. -/
structure Ledger where
  device : Device
  issued : List Nat := []
  ensured : List Nat := []
  deriving DecidableEq, Repr

/-- One call. A load's hint is at most the index last published. -/
def callStep (publicKey : String) (s : Ledger) : Call → Option Ledger
  | .derive saves =>
      let r := deriveTradeKey saves s.device
      match r.2 with
      | .ok index => some { s with device := r.1, issued := index :: s.issued }
      | .error _ => some { s with device := r.1 }
  | .ensure floor saves =>
      let r := ensureTradeKeyIndexAtLeast floor saves s.device
      match r.2 with
      | .ok _ => some { s with device := r.1, ensured := floor :: s.ensured }
      | .error _ => some { s with device := r.1 }
  | .beginLoad hint =>
      if hint ≤ s.device.published.getD 0 then
        some { s with device := Identity.beginLoad hint publicKey s.device }
      else none
  | .finishLoad k => (Identity.finishLoad k publicKey s.device).map fun d => { s with device := d }
  | .restart => some { s with device := Identity.restart s.device }

/-- The counter the row holds for this identity. -/
def Device.durable (publicKey : String) (s : Device) : Nat :=
  reconcileTradeKeyIndex 0 s.stored publicKey

/-- An index that is handed out is new, and above every floor ensured so far. -/
def FreshIndex (s : Ledger) (c : Call) : Prop :=
  ∀ saves index, c = .derive saves → (deriveTradeKey saves s.device).2 = .ok index →
    index ∉ s.issued ∧ ∀ floor ∈ s.ensured, floor < index

/-- A load does not install a counter the row has left behind, and a raise that finds memory at
its floor finds the row there too. -/
def Steady (publicKey : String) (s : Ledger) : Call → Prop
  | .finishLoad k => ∀ index ∈ s.device.loads[k]?, s.device.durable publicKey ≤ index
  | .ensure floor _ => ∀ info ∈ s.device.memory, floor ≤ info.tradeKeyIndex →
      floor ≤ s.device.durable publicKey
  | _ => True

instance (publicKey : String) (s : Ledger) : ∀ c, Decidable (Steady publicKey s c)
  | .finishLoad k => inferInstanceAs (Decidable (∀ index ∈ s.device.loads[k]?, _))
  | .ensure .. => inferInstanceAs (Decidable (∀ info ∈ s.device.memory, _))
  | .derive _ | .beginLoad _ | .restart => inferInstanceAs (Decidable True)

/-- A process that has not loaded the identity yet, whose mirror is not ahead of the row. -/
structure Installed (publicKey : String) (d : Device) : Prop where
  memory : d.memory = none
  loads : d.loads = []
  published : d.published.getD 0 ≤ d.durable publicKey

/-! ## The row bounds everything handed out -/

/-- What every call keeps: the row is this identity's as soon as it is loaded, and nothing
handed out, ensured or published is above it. -/
structure Counted (publicKey : String) (s : Ledger) : Prop where
  owned : ∀ info, s.device.memory = some info → info.publicKey = publicKey ∧
    s.device.durable publicKey ≤ info.tradeKeyIndex
  issued : ∀ index ∈ s.issued, index ≤ s.device.durable publicKey
  ensured : ∀ floor ∈ s.ensured, floor ≤ s.device.durable publicKey
  published : s.device.published.getD 0 ≤ s.device.durable publicKey

variable {pk : String} {s s' : Ledger} {c : Call} {d : Device}

/-- A counter that moved in memory, the row and the mirror together. -/
def Device.advance (info : IdentityInfo) (d : Device) : Device :=
  (({ d with memory := some info } : Device).saveIdentity info).publishIndex info.tradeKeyIndex

theorem durable_advance (info : IdentityInfo) (d : Device) (h : info.publicKey = pk) :
    (d.advance info).durable pk = info.tradeKeyIndex := by
  show reconcileTradeKeyIndex 0 (some info) pk = info.tradeKeyIndex
  simp [reconcileTradeKeyIndex, h]

/-- Moving all three up to an index keeps the bounds, with that index among those handed out or
ensured. -/
theorem Counted.advance (hs : Counted pk s) (info : IdentityInfo) (hpk : info.publicKey = pk)
    (hle : s.device.durable pk ≤ info.tradeKeyIndex) {issued ensured : List Nat}
    (hi : ∀ i ∈ issued, i ∈ s.issued ∨ i = info.tradeKeyIndex)
    (he : ∀ i ∈ ensured, i ∈ s.ensured ∨ i = info.tradeKeyIndex) :
    Counted pk ⟨s.device.advance info, issued, ensured⟩ := by
  have hdur : (s.device.advance info).durable pk = info.tradeKeyIndex := durable_advance info _ hpk
  refine ⟨fun info' hm => ?_, fun i hmem => ?_, fun i hmem => ?_, ?_⟩
  · obtain rfl := Option.some.inj hm
    exact ⟨hpk, Nat.le_of_eq hdur⟩
  · show i ≤ (s.device.advance info).durable pk
    rw [hdur]
    rcases hi i hmem with hold | rfl
    · exact Nat.le_trans (hs.issued i hold) hle
    · exact Nat.le_refl _
  · show i ≤ (s.device.advance info).durable pk
    rw [hdur]
    rcases he i hmem with hold | rfl
    · exact Nat.le_trans (hs.ensured i hold) hle
    · exact Nat.le_refl _
  · exact Nat.le_of_eq hdur.symm

/-- A derivation that returns an index hands out the successor of the one in memory, and has
written it to the row. -/
theorem deriveTradeKey_ok {saves : Bool} {index : Nat}
    (h : (deriveTradeKey saves d).2 = .ok index) :
    ∃ info, d.memory = some info ∧ index = info.tradeKeyIndex + 1 ∧
      (deriveTradeKey saves d).1 = d.advance { info with tradeKeyIndex := index } := by
  unfold deriveTradeKey at h ⊢
  cases hm : d.memory with
  | none => simp [hm] at h
  | some info =>
      simp only [hm] at h ⊢
      split at h
      · cases h
      next hd =>
      rw [if_neg hd]
      split at h
      · next hs =>
        obtain rfl : info.tradeKeyIndex + 1 = index := Except.ok.inj h
        exact ⟨info, rfl, rfl, by rw [if_pos hs]; rfl⟩
      · cases h

/-- A derivation that is refused may have consumed an index in memory, nothing more. -/
theorem deriveTradeKey_error {saves : Bool} {e : IdentityError}
    (h : (deriveTradeKey saves d).2 = .error e) :
    (deriveTradeKey saves d).1 = d ∨ ∃ info, d.memory = some info ∧
      (deriveTradeKey saves d).1 =
        { d with memory := some { info with tradeKeyIndex := info.tradeKeyIndex + 1 } } := by
  unfold deriveTradeKey at h ⊢
  cases hm : d.memory with
  | none => exact Or.inl rfl
  | some info =>
      simp only [hm] at h ⊢
      split
      · exact Or.inl rfl
      next hd =>
      rw [if_neg hd] at h
      split at h
      · cases h
      next hs =>
      rw [if_neg hs]
      exact Or.inr ⟨info, rfl, rfl⟩

/-- What a raise does: nothing where memory is at its floor already or the write fails, else
memory and the row move to the floor together. -/
theorem ensureTradeKeyIndexAtLeast_cases (floor : Nat) (saves : Bool) (d : Device) :
    (∃ e, ensureTradeKeyIndexAtLeast floor saves d = (d, .error e)) ∨
    (∃ info, d.memory = some info ∧ floor ≤ info.tradeKeyIndex ∧
      ensureTradeKeyIndexAtLeast floor saves d = (d, .ok ())) ∨
    ∃ info, d.memory = some info ∧ info.tradeKeyIndex < floor ∧
      ensureTradeKeyIndexAtLeast floor saves d =
        (d.advance { info with tradeKeyIndex := floor }, .ok ()) := by
  unfold ensureTradeKeyIndexAtLeast
  cases hm : d.memory with
  | none => exact Or.inl ⟨_, rfl⟩
  | some info =>
      dsimp only
      split
      · next hraised =>
        have hle : floor ≤ info.tradeKeyIndex := by omega
        exact Or.inr (Or.inl ⟨info, rfl, hle, rfl⟩)
      · next hraised =>
        have hlt : info.tradeKeyIndex < floor := by omega
        have hmax : max info.tradeKeyIndex floor = floor := by omega
        split
        · exact Or.inr (Or.inr ⟨info, rfl, hlt, by rw [hmax]; rfl⟩)
        · exact Or.inl ⟨_, rfl⟩

/-- A load reads at least the row's counter, and at most that or its hint. -/
theorem reconcile_eq (hint : Nat) (d : Device) :
    reconcileTradeKeyIndex hint d.stored pk = max hint (d.durable pk) := by
  unfold Device.durable reconcileTradeKeyIndex
  cases d.stored with
  | none => simp
  | some info =>
      dsimp only
      split <;> simp

theorem beginLoad_durable (hint : Nat) (pk : String) (d : Device) :
    (beginLoad hint pk d).durable pk = d.durable pk ∧ (beginLoad hint pk d).memory = d.memory := by
  unfold beginLoad reconcileAndPublish
  dsimp only
  split <;> exact ⟨rfl, rfl⟩

/-- A load publishes no more than the row holds. -/
theorem beginLoad_published {hint : Nat} (hint_le : hint ≤ d.published.getD 0)
    (hd : d.published.getD 0 ≤ d.durable pk) :
    (beginLoad hint pk d).published.getD 0 ≤ d.durable pk := by
  unfold beginLoad reconcileAndPublish
  dsimp only
  split
  · show reconcileTradeKeyIndex hint d.stored pk ≤ d.durable pk
    rw [reconcile_eq]
    omega
  · exact hd

/-! ## Every run -/

/-- An index that is handed out is above everything the row bounds. -/
theorem Counted.freshIndex (hs : Counted pk s) : FreshIndex s c := by
  intro saves index _ hok
  obtain ⟨info, hm, rfl, -⟩ := deriveTradeKey_ok hok
  have hle := (hs.owned info hm).2
  refine ⟨fun hmem => ?_, fun floor hmem => ?_⟩
  · have := hs.issued _ hmem
    omega
  · have := hs.ensured floor hmem
    omega

/-- One step. -/
theorem counted_step (hs : Counted pk s) (hc : Steady pk s c) (h : callStep pk s c = some s') :
    Counted pk s' := by
  cases c with
  | derive saves =>
      simp only [callStep] at h
      split at h
      · next index hok =>
        obtain rfl := Option.some.inj h
        obtain ⟨info, hm, rfl, hdev⟩ := deriveTradeKey_ok hok
        obtain ⟨hpk, hle⟩ := hs.owned info hm
        rw [hdev]
        exact hs.advance { info with tradeKeyIndex := info.tradeKeyIndex + 1 } hpk
          (Nat.le_succ_of_le hle) (fun i hi => (List.mem_cons.mp hi).symm) fun _ => Or.inl
      · next e herr =>
        obtain rfl := Option.some.inj h
        rcases deriveTradeKey_error herr with hsame | ⟨info, hm, hdev⟩
        · rw [hsame]
          exact hs
        · -- consumed in memory only: the row stays where it was
          rw [hdev]
          refine ⟨fun info' hm' => ?_, hs.issued, hs.ensured, hs.published⟩
          obtain rfl := Option.some.inj hm'
          obtain ⟨hpk, hle⟩ := hs.owned info hm
          exact ⟨hpk, Nat.le_succ_of_le hle⟩
  | ensure floor saves =>
      simp only [callStep] at h
      rcases ensureTradeKeyIndexAtLeast_cases floor saves s.device with
        ⟨e, he⟩ | ⟨info, hm, hle, he⟩ | ⟨info, hm, hlt, he⟩
      · rw [he] at h
        obtain rfl := Option.some.inj h
        exact hs
      · rw [he] at h
        obtain rfl := Option.some.inj h
        refine ⟨hs.owned, hs.issued, fun f hmem => ?_, hs.published⟩
        rcases List.mem_cons.mp hmem with rfl | hmem
        · exact hc info hm hle
        · exact hs.ensured f hmem
      · rw [he] at h
        obtain rfl := Option.some.inj h
        obtain ⟨hpk, hdur⟩ := hs.owned info hm
        exact hs.advance { info with tradeKeyIndex := floor } hpk
          (Nat.le_trans hdur (Nat.le_of_lt hlt)) (fun _ => Or.inl)
          fun i hi => (List.mem_cons.mp hi).symm
  | beginLoad hint =>
      simp only [callStep] at h
      split at h
      · next hint_le =>
        obtain rfl := Option.some.inj h
        obtain ⟨hdur, hmem⟩ := beginLoad_durable hint pk s.device
        refine ⟨fun info hm => ?_, fun index hi => ?_, fun f hf => ?_, ?_⟩
        · rw [hdur]
          exact hs.owned info (hmem ▸ hm)
        · rw [hdur]
          exact hs.issued index hi
        · rw [hdur]
          exact hs.ensured f hf
        · rw [hdur]
          exact beginLoad_published hint_le hs.published
      · cases h
  | finishLoad k =>
      obtain ⟨d, hd, rfl⟩ := Option.map_eq_some_iff.mp h
      obtain ⟨index, hk, rfl⟩ := Option.map_eq_some_iff.mp hd
      refine ⟨fun info hm => ?_, hs.issued, hs.ensured, hs.published⟩
      obtain rfl := Option.some.inj hm
      exact ⟨rfl, hc index hk⟩
  | restart =>
      obtain rfl := Option.some.inj h
      exact ⟨nofun, hs.issued, hs.ensured, hs.published⟩

theorem counted_installed (h : Installed pk d) : Counted pk ⟨d, [], []⟩ :=
  ⟨fun _ hm => absurd (h.memory.symm.trans hm) nofun, nofun, nofun, h.published⟩

/-- **No trade-key index is handed out twice**, and none at or below an ensured floor, in any run
in which every call finds the counter steady. -/
theorem indices_handed_out_once {cs : List Call} (h : Installed pk d)
    (hc : Along (callStep pk) (Steady pk) ⟨d, [], []⟩ cs) :
    Along (callStep pk) FreshIndex ⟨d, [], []⟩ cs :=
  along_of_inv (fun _ _ _ hs hc hn => counted_step hs hc hn) (fun _ _ hs _ => hs.freshIndex)
    (counted_installed h) hc

/-! ## A reload that is overtaken, and a raise that is not written -/

/-- An installation whose row and mirror stand at 5. -/
def atFive : Device := { stored := some ⟨"me", 5⟩, published := some 5 }

theorem installed_atFive : Installed "me" atFive := ⟨rfl, rfl, by decide⟩

/-- Load, derive, raise, restart and derive again, one after the other. -/
def calmCalls : List Call :=
  [.beginLoad 5, .finishLoad 0, .derive true, .ensure 9 true, .restart, .beginLoad 9,
    .finishLoad 0, .derive true]

theorem calm_calls_hand_out_once :
    Along (callStep "me") FreshIndex ⟨atFive, [], []⟩ calmCalls ∧
      (run (callStep "me") ⟨atFive, [], []⟩ calmCalls).map (·.issued) = some [10, 6] :=
  ⟨indices_handed_out_once installed_atFive (by decide), by decide⟩

/-- The row is read, index 6 is derived, and then what was read is installed. -/
def overtakenReload : List Call :=
  [.beginLoad 5, .finishLoad 0, .beginLoad 5, .derive true, .finishLoad 0, .derive true]

/-- Index 6 is consumed in memory only; a raise to 6 finds nothing to do. -/
def unwrittenRaise : List Call :=
  [.beginLoad 5, .finishLoad 0, .derive false, .ensure 6 true, .restart, .beginLoad 5,
    .finishLoad 0, .derive true]

/-- **Index 6 is handed out twice** by a load that a derivation overtook; and it is handed out
after it was ensured, where the derivation before it could not be written. -/
theorem index_handed_out_twice :
    (run (callStep "me") ⟨atFive, [], []⟩ overtakenReload).map (·.issued) = some [6, 6] ∧
      (run (callStep "me") ⟨atFive, [], []⟩ unwrittenRaise).map
        (fun s => (s.issued, s.ensured)) = some ([6], [6]) := by
  decide

end MostroApp.Identity
