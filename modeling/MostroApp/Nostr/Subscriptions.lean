import MostroApp.Lib.Keyed

set_option autoImplicit false

/-! # The single owner of a trade's daemon subscription (`nostr/subscriptions.rs`)

One entry a trade key, under one lock: claimed and in setup, or live. A claim that finds the key
in setup parks on the entry's gate and tries again when it is woken; one that finds it live
bounces and marks the entry, and the owner's next idle check is then a lease refresh instead of
the end. The lock is held through each operation, the close of the relay-side REQ included, so an
operation is one step; what runs outside it (a parked claim's registration, the setup itself, a
dropped guard's spawned release) is a step of its own.

`teardown` is an owner's operation that anyone may call. A finished trade's release calls it while
the trade's watcher still runs.
-/

namespace MostroApp.Subscriptions

open Interleaving Transition

/-! ## One key of the registry -/

inductive State where
  | setup
  | live (rearmed : Bool)
  deriving DecidableEq, Repr

/-- `Entry`: `gate` stands for its `Notify`, told apart by pointer. -/
structure Entry where
  state : State
  tradeIndex : Nat
  gate : Nat
  deriving DecidableEq, Repr

/-- What there is of a trade key: its entry, how many gates were made for it, how often each was
notified, whether its REQ is open on the relays, and the gates of the owners a claim has bounced
off since their last idle check. -/
structure TradeSub where
  entry : Option Entry := none
  gates : Nat := 0
  wakes : Nat → Nat := fun _ => 0
  reqOpen : Bool := false
  bounced : Nat → Bool := fun _ => false

/-- `notify_waiters` on the entry's gate. -/
def TradeSub.wake (gate : Nat) (s : TradeSub) : TradeSub :=
  { s with wakes := Function.update s.wakes gate (s.wakes gate + 1) }

/-- `remove_and_wake`. -/
def TradeSub.removeAndWake (s : TradeSub) : TradeSub :=
  match s.entry with
  | some e => { s with entry := none }.wake e.gate
  | none => s

/-- `dismantle`, without the pending requests. -/
def TradeSub.dismantle (s : TradeSub) : TradeSub := { s with reqOpen := false }.removeAndWake

/-- `mark_live`: whatever entry the key has. -/
def TradeSub.markLive (s : TradeSub) : TradeSub :=
  match s.entry with
  | some e => { s with entry := some { e with state := .live false } }.wake e.gate
  | none => s

/-- A live entry with the mark `rearmed`, and what is recorded of the owner of `gate`. -/
def TradeSub.remark (index g gate : Nat) (rearmed : Bool) (s : TradeSub) : TradeSub :=
  { s with
    entry := some ⟨.live rearmed, index, g⟩
    bounced := Function.update s.bounced gate rearmed }

/-- `teardown_or_rearm`, by the owner of `gate`. -/
def TradeSub.teardownOrRearm (gate : Nat) (s : TradeSub) : TradeSub × Bool :=
  match s.entry with
  | some ⟨.live true, index, g⟩ => (s.remark index g gate false, true)
  | _ => (s.dismantle, false)

/-- A new entry in setup. -/
def TradeSub.taken (index : Nat) (s : TradeSub) : TradeSub :=
  { s with entry := some ⟨.setup, index, s.gates⟩, gates := s.gates + 1 }

/-- What a claim's look at the key leads to. -/
inductive Look where
  | owned (gate : Nat)
  | bounced
  | waits (gate : Nat)
  deriving DecidableEq, Repr

/-- The locked part of `claim`. -/
def TradeSub.claim (tradeIndex : Nat) (s : TradeSub) : TradeSub × Look :=
  match s.entry with
  | none => (s.taken tradeIndex, .owned s.gates)
  | some ⟨.live _, index, g⟩ => (s.remark index g g true, .bounced)
  | some ⟨.setup, _, g⟩ => (s, .waits g)

/-- `parked_on_current_setup`. -/
def TradeSub.parkedOnCurrentSetup (gate : Nat) (s : TradeSub) : Bool :=
  match s.entry with
  | some e => decide (e.state = .setup) && decide (e.gate = gate)
  | none => false

/-! ## Its users -/

/-- What a task does next. `seen` is how often the gate had been notified when the claim
registered on it. -/
inductive SubTask where
  | claims (key : String) (tradeIndex : Nat)
  | enables (key : String) (tradeIndex gate : Nat)
  | rechecks (key : String) (tradeIndex gate seen : Nat)
  | parks (key : String) (tradeIndex gate seen : Nat)
  | setsUp (key : String) (gate : Nat) (subscribed : Bool)
  | releases (key : String)
  | watches (key : String) (gate : Nat)
  | tearsDown (key : String)
  deriving DecidableEq, Repr

/-- How a task goes on: as far as it can, by its failure exit (a setup that fails, a watcher whose
channel is dead), or dropped, where a setup's guard finds the lock free or held. -/
inductive Move where
  | goes
  | fails
  | drops (contended : Bool)
  deriving DecidableEq, Repr

namespace SubTask

def key : SubTask → String
  | .claims key _ | .enables key _ _ | .rechecks key _ _ _ | .parks key _ _ _ | .setsUp key _ _
  | .releases key | .watches key _ | .tearsDown key => key

/-- One step, on the key's cell; a parked claim has none until its gate is notified. -/
def step (w : Move) : SubTask → TradeSub → Option (TradeSub × Option SubTask)
  | .claims key index, s =>
      match w with
      | .drops _ => some (s, none)
      | _ =>
          match s.claim index with
          | (s, .owned gate) => some (s, some (.setsUp key gate false))
          | (s, .bounced) => some (s, none)
          | (s, .waits gate) => some (s, some (.enables key index gate))
  | .enables key index gate, s =>
      match w with
      | .drops _ => some (s, none)
      | _ => some (s, some (.rechecks key index gate (s.wakes gate)))
  | .rechecks key index gate seen, s =>
      match w with
      | .drops _ => some (s, none)
      | _ =>
          if s.parkedOnCurrentSetup gate = true then some (s, some (.parks key index gate seen))
          else some (s, some (.claims key index))
  | .parks key index gate seen, s =>
      match w with
      | .drops _ => some (s, none)
      | _ => if s.wakes gate = seen then none else some (s, some (.claims key index))
  | .setsUp key gate subscribed, s =>
      match w, subscribed with
      | .goes, false => some ({ s with reqOpen := true }, some (.setsUp key gate true))
      | .goes, true => some (s.markLive, some (.watches key gate))
      | .fails, false => some (s.removeAndWake, none)
      -- the REQ is active: nothing fails between it and `mark_live`
      | .fails, true => none
      | .drops false, _ => some (s.removeAndWake, none)
      | .drops true, _ => some (s, some (.releases key))
  | .releases _, s => some (s.removeAndWake, none)
  | .watches key gate, s =>
      match w with
      | .goes =>
          match s.teardownOrRearm gate with
          | (s, true) => some (s, some (.watches key gate))
          | (s, false) => some (s, none)
      | .fails => some (s.dismantle, none)
      | .drops _ => none
  | .tearsDown _, s => some (s.dismantle, none)

/-- A claim, or a teardown by a caller that owns nothing. -/
def starts : SubTask → Bool
  | .claims .. | .tearsDown _ => true
  | _ => false

/-- The key an owner owns: with its armed guard, or watching. -/
def owns : SubTask → Option String
  | .setsUp key _ _ | .watches key _ => some key
  | _ => none

end SubTask

/-- Any number of claims, owners and teardowns. -/
def subProg : CellProg String TradeSub SubTask Move where
  key := SubTask.key
  enter := SubTask.starts
  cstep := SubTask.step

/-! ## Teardowns that leave no owner behind -/

/-- A claim has bounced off the entry since its owner's last idle check. -/
def TradeSub.marked (s : TradeSub) : Prop := s.entry.map (·.state) = some (.live true)

instance (s : TradeSub) : Decidable s.marked := inferInstanceAs (Decidable (_ = _))

/-- A teardown by a non-owner, or a dropped guard's late release, finds no entry a claim has
bounced off; and when a claim looks at its key, `t` is no owner of it that has lost its entry. -/
def KeepsOwner (c : Pool (String → TradeSub) SubTask) (l : Label SubTask Move Empty)
    (t : Option SubTask) : Prop :=
  match l with
  | .step i _ =>
      match c.threads i with
      | some (.tearsDown key) | some (.releases key) => ¬ (c.shared key).marked
      | some (.claims key _) => t.bind SubTask.owns = some key → (c.shared key).entry ≠ none
      | _ => True
  | _ => True

instance (c : Pool (String → TradeSub) SubTask) (l : Label SubTask Move Empty)
    (t : Option SubTask) : Decidable (KeepsOwner c l t) := by
  unfold KeepsOwner
  split
  · split <;> infer_instance
  · infer_instance

/-- Teardowns leave no owner behind for a claim to meet, and none that a claim has met. -/
def OwnersKept (c : Pool (String → TradeSub) SubTask) (l : Label SubTask Move Empty) : Prop :=
  ∀ j, KeepsOwner c l (c.threads j)

/-! ## The invariant -/

/-- A live entry has its REQ open and says whether a claim has bounced off; one in setup has
bounced none, and neither has a gate to come. -/
structure SubOk (s : TradeSub) : Prop where
  live : ∀ e r, s.entry = some e → e.state = .live r → s.reqOpen = true ∧ s.bounced e.gate = r
  setup : ∀ e, s.entry = some e → e.state = .setup → s.bounced e.gate = false
  fresh : ∀ gate, s.gates ≤ gate → s.bounced gate = false
  made : ∀ e, s.entry = some e → e.gate < s.gates

/-- What a task knows of its key. An owner's entry may be gone, but if there is one it is its own;
one a claim has bounced off is still there. A claim sleeps on the gate of a present entry. -/
def SubTask.knows : SubTask → TradeSub → Prop
  | .setsUp _ gate subscribed, s =>
      s.bounced gate = false ∧ (subscribed = true → ∀ e, s.entry = some e → s.reqOpen = true) ∧
        ∀ e, s.entry = some e → e.gate = gate ∧ e.state = .setup
  | .watches _ gate, s =>
      (∀ e, s.entry = some e → e.gate = gate ∧ e.state ≠ .setup) ∧
        (s.bounced gate = true → s.marked)
  | .rechecks _ _ gate seen, s => seen ≤ s.wakes gate
  | .parks _ _ gate seen, s =>
      seen ≤ s.wakes gate ∧
        (s.wakes gate = seen → ∃ e, s.entry = some e ∧ e.gate = gate ∧ e.state = .setup)
  | _, _ => True

/-! ## What one operation does to a key -/

variable {s t : TradeSub} {p q : SubTask} {w : Move} {gate : Nat}

theorem removeAndWake_entry (s : TradeSub) : s.removeAndWake.entry = none := by
  unfold TradeSub.removeAndWake
  split
  · rfl
  · next h => exact h

@[simp] theorem removeAndWake_bounced (s : TradeSub) : s.removeAndWake.bounced = s.bounced := by
  unfold TradeSub.removeAndWake
  split <;> rfl

@[simp] theorem removeAndWake_gates (s : TradeSub) : s.removeAndWake.gates = s.gates := by
  unfold TradeSub.removeAndWake
  split <;> rfl

/-- Of the gates, the one of the entry found is notified. -/
theorem woken {e : Entry} (he : s.entry = some e) (gate : Nat) :
    s.wakes gate ≤ (s.wake e.gate).wakes gate ∧
      ∀ e', s.entry = some e' → e'.gate = gate → s.wakes gate < (s.wake e.gate).wakes gate := by
  by_cases hg : gate = e.gate
  · subst hg
    simp [TradeSub.wake]
  · refine ⟨by simp [TradeSub.wake, Function.update_of_ne hg], fun e' he' hg' => ?_⟩
    obtain rfl := Option.some.inj (he.symm.trans he')
    exact absurd hg'.symm hg

/-- A gate is notified once, or its entry is not there. -/
theorem removeAndWake_wakes (s : TradeSub) (gate : Nat) :
    s.wakes gate ≤ s.removeAndWake.wakes gate ∧
      ∀ e, s.entry = some e → e.gate = gate → s.wakes gate < s.removeAndWake.wakes gate := by
  unfold TradeSub.removeAndWake
  split
  · next e he => exact woken he gate
  · next hnone => exact ⟨Nat.le_refl _, fun e he => absurd (hnone.symm.trans he) nofun⟩

/-- A key without an entry is in order. -/
theorem SubOk.of_none (h : SubOk s) (hnone : t.entry = none) (hb : t.bounced = s.bounced)
    (hg : t.gates = s.gates) : SubOk t where
  live := fun _ _ he => absurd (hnone.symm.trans he) nofun
  setup := fun _ he => absurd (hnone.symm.trans he) nofun
  fresh := fun gate hgate => hb ▸ h.fresh gate (hg ▸ hgate)
  made := fun _ he => absurd (hnone.symm.trans he) nofun

theorem SubOk.taken (h : SubOk s) (index : Nat) : SubOk (s.taken index) where
  live := by
    rintro e r he hlive
    obtain rfl := Option.some.inj he
    cases hlive
  setup := by
    rintro e he -
    obtain rfl := Option.some.inj he
    exact h.fresh s.gates (Nat.le_refl _)
  fresh := fun gate hgate => h.fresh gate (Nat.le_of_succ_le hgate)
  made := by
    rintro e he
    obtain rfl := Option.some.inj he
    exact Nat.lt_succ_self _

/-- The entry's mark and what is recorded of its owner change together. -/
theorem SubOk.remarked (h : SubOk s) {index : Nat} {r : Bool}
    (he : s.entry = some ⟨.live r, index, gate⟩) (r' : Bool) :
    SubOk (s.remark index gate gate r') where
  live := by
    rintro e r'' he' hlive
    obtain rfl := Option.some.inj he'
    obtain rfl : r' = r'' := State.live.inj hlive
    exact ⟨(h.live _ r he rfl).1, Function.update_self ..⟩
  setup := by
    rintro e he' hsetup
    obtain rfl := Option.some.inj he'
    cases hsetup
  fresh := fun g hg => by
    have hne : g ≠ gate := fun heq => absurd (h.made _ he) (Nat.not_lt.mpr (heq ▸ hg))
    exact (Function.update_of_ne hne ..).trans (h.fresh g hg)
  made := by
    rintro e he'
    obtain rfl := Option.some.inj he'
    exact h.made ⟨.live r, index, gate⟩ he

theorem SubOk.markLive (h : SubOk s) (hopen : ∀ e, s.entry = some e → s.reqOpen = true)
    (hsetup : ∀ e, s.entry = some e → e.state = .setup) : SubOk s.markLive := by
  unfold TradeSub.markLive
  split
  · next e he =>
    refine ⟨fun e' r he' hlive => ?_, fun e' he' hs => ?_, h.fresh, fun e' he' => ?_⟩
    · obtain rfl := Option.some.inj he'
      obtain rfl : false = r := State.live.inj hlive
      exact ⟨hopen e he, h.setup e he (hsetup e he)⟩
    · obtain rfl := Option.some.inj he'
      cases hs
    · obtain rfl := Option.some.inj he'
      exact h.made e he
  · exact h

/-- What a task's step does to its key, and what the task is then. -/
inductive SubTask.Effect (s : TradeSub) : SubTask → TradeSub → Option SubTask → Prop where
  | same (p : SubTask) (q : Option SubTask) :
      (∀ r, q = some r → r.owns = none ∧ r.knows s) → Effect s p s q
  | takes (key : String) (index : Nat) : s.entry = none →
      Effect s (.claims key index) (s.taken index) (some (.setsUp key s.gates false))
  | bounces (key : String) (index i : Nat) (r : Bool) (g : Nat) :
      s.entry = some ⟨.live r, i, g⟩ → Effect s (.claims key index) (s.remark i g g true) none
  | subscribes (key : String) (gate : Nat) :
      Effect s (.setsUp key gate false) { s with reqOpen := true } (some (.setsUp key gate true))
  | marksLive (key : String) (gate : Nat) :
      Effect s (.setsUp key gate true) s.markLive (some (.watches key gate))
  | rearms (key : String) (gate i : Nat) : s.entry = some ⟨.live true, i, gate⟩ →
      Effect s (.watches key gate) (s.remark i gate gate false) (some (.watches key gate))
  | removes (p : SubTask) (isOpen : Bool) :
      (p.owns = some p.key ∨ p = .tearsDown p.key ∨ p = .releases p.key) →
      Effect s p { s with reqOpen := isOpen }.removeAndWake none

/-- The locked part of a claim, by what it finds. -/
theorem claim_effect {key : String} {index : Nat} {q : Option SubTask}
    (h : (SubTask.claims key index).step .goes s = some (t, q)) :
    (SubTask.claims key index).Effect s t q := by
  simp only [SubTask.step, TradeSub.claim] at h
  split at h
  · next heq =>
    split at heq
    all_goals cases heq
    · next hnone =>
      cases h
      exact .takes key index hnone
  · next heq =>
    split at heq
    all_goals cases heq
    · next r i g he =>
      cases h
      exact .bounces key index i r g he
  · next heq =>
    split at heq
    all_goals cases heq
    · cases h
      exact .same _ _ fun r hr => Option.some.inj hr ▸ ⟨rfl, trivial⟩

theorem parkedOnCurrentSetup_iff :
    s.parkedOnCurrentSetup gate = true ↔
      ∃ e, s.entry = some e ∧ e.gate = gate ∧ e.state = .setup := by
  unfold TradeSub.parkedOnCurrentSetup
  cases he : s.entry with
  | none => simp
  | some e => simp [and_comm]

theorem SubTask.step_effect {q : Option SubTask} (hp : p.knows s)
    (h : p.step w s = some (t, q)) : p.Effect s t q := by
  -- a step that only moves its own task
  have idle : ∀ {r : SubTask}, r.owns = none → r.knows s → p.Effect s s (some r) :=
    fun ho hk => .same p _ fun r hr => Option.some.inj hr ▸ ⟨ho, hk⟩
  have ends : p.Effect s s none := .same p none nofun
  cases p with
  | claims key index =>
      cases w with
      | drops => cases h; exact ends
      | goes => exact claim_effect h
      | fails => exact claim_effect h
  | enables key index gate =>
      cases w with
      | drops => cases h; exact ends
      | goes => cases h; exact idle rfl (Nat.le_refl _)
      | fails => cases h; exact idle rfl (Nat.le_refl _)
  | rechecks key index gate seen =>
      have look : (SubTask.rechecks key index gate seen).step .goes s = some (t, q) →
          (SubTask.rechecks key index gate seen).Effect s t q := by
        intro h
        simp only [SubTask.step] at h
        split at h
        · next hset =>
          cases h
          exact idle rfl ⟨hp, fun _ => parkedOnCurrentSetup_iff.mp hset⟩
        · cases h; exact idle rfl trivial
      cases w with
      | drops => cases h; exact ends
      | goes => exact look h
      | fails => exact look h
  | parks key index gate seen =>
      have woken : (SubTask.parks key index gate seen).step .goes s = some (t, q) →
          (SubTask.parks key index gate seen).Effect s t q := by
        intro h
        simp only [SubTask.step] at h
        split at h
        · cases h
        · cases h; exact idle rfl trivial
      cases w with
      | drops => cases h; exact ends
      | goes => exact woken h
      | fails => exact woken h
  | setsUp key gate subscribed =>
      cases w with
      | goes =>
          cases subscribed with
          | false => cases h; exact .subscribes key gate
          | true => cases h; exact .marksLive key gate
      | fails =>
          cases subscribed with
          | false => cases h; exact .removes _ s.reqOpen (Or.inl rfl)
          | true => cases h
      | drops contended =>
          cases contended with
          | false => cases h; exact .removes _ s.reqOpen (Or.inl rfl)
          | true => cases h; exact idle rfl trivial
  | releases key =>
      cases h
      exact .removes _ s.reqOpen (Or.inr (Or.inr rfl))
  | watches key gate =>
      cases w with
      | goes =>
          simp only [SubTask.step, TradeSub.teardownOrRearm] at h
          split at h
          · next heq =>
            split at heq
            · next i g he =>
              cases heq
              cases h
              obtain rfl : g = gate := (hp.1 _ he).1
              exact .rearms key g i he
            · cases heq
          · next heq =>
            split at heq
            · cases heq
            · cases heq
              cases h
              exact .removes _ false (Or.inl rfl)
      | fails => cases h; exact .removes _ false (Or.inl rfl)
      | drops => cases h
  | tearsDown key =>
      cases h
      exact .removes _ false (Or.inr (Or.inl rfl))

/-! ## The outline on one key -/

theorem OwnersKept.removes {c : Pool (String → TradeSub) SubTask} {i : Nat} {key : String}
    (h : OwnersKept c (.step i w))
    (hi : c.threads i = some (.tearsDown key) ∨ c.threads i = some (.releases key)) :
    ¬ (c.shared key).marked := by
  have hk := h i
  unfold KeepsOwner at hk
  rcases hi with hi | hi
  · simpa only [hi] using hk
  · simpa only [hi] using hk

theorem OwnersKept.claims {c : Pool (String → TradeSub) SubTask} {i j index : Nat} {key : String}
    (h : OwnersKept c (.step i w)) (hi : c.threads i = some (.claims key index))
    (hj : c.threads j = some p) (hown : p.owns = some key) : (c.shared key).entry ≠ none := by
  have hk := h j
  unfold KeepsOwner at hk
  simp only [hi, hj] at hk
  exact hk hown

theorem owns_key {key : String} (h : p.owns = some key) : p.key = key := by
  cases p with
  | setsUp => exact Option.some.inj h
  | watches => exact Option.some.inj h
  | _ => cases h

theorem SubOk.subscribed (h : SubOk s) : SubOk { s with reqOpen := true } where
  live := fun e r he hlive => ⟨rfl, (h.live e r he hlive).2⟩
  setup := h.setup
  fresh := h.fresh
  made := h.made

/-- An operation that notifies the gate of the entry it found keeps what a parked claim knows. -/
theorem parks_kept {key : String} {index seen : Nat}
    (h : (SubTask.parks key index gate seen).knows s) (hmono : s.wakes gate ≤ t.wakes gate)
    (hwoken : ∀ e, s.entry = some e → e.gate = gate → s.wakes gate < t.wakes gate) :
    (SubTask.parks key index gate seen).knows t := by
  refine ⟨Nat.le_trans h.1 hmono, fun heq => ?_⟩
  have hasleep : s.wakes gate = seen := Nat.le_antisymm (heq ▸ hmono) h.1
  obtain ⟨e, he, hg, -⟩ := h.2 hasleep
  have := hwoken e he hg
  omega

theorem markLive_wakes (s : TradeSub) (gate : Nat) :
    s.wakes gate ≤ s.markLive.wakes gate ∧
      ∀ e, s.entry = some e → e.gate = gate → s.wakes gate < s.markLive.wakes gate := by
  unfold TradeSub.markLive
  split
  · next e he => exact woken he gate
  · next hnone => exact ⟨Nat.le_refl _, fun e he => absurd (hnone.symm.trans he) nofun⟩

/-- The store keeps `SubOk`, whatever the effect. -/
theorem SubTask.Effect.ok {q : Option SubTask} (h : p.Effect s t q) (hs : SubOk s)
    (hp : p.knows s) : SubOk t := by
  cases h with
  | same => exact hs
  | takes key index => exact hs.taken index
  | bounces key index i r g he => exact hs.remarked he true
  | subscribes => exact hs.subscribed
  | marksLive key gate => exact hs.markLive (hp.2.1 rfl) fun e he => (hp.2.2 e he).2
  | rearms key gate i he => exact hs.remarked he false
  | removes _ isOpen =>
      exact hs.of_none (removeAndWake_entry _) (removeAndWake_bounced _) (removeAndWake_gates _)

/-- What the task knows after its step. -/
theorem SubTask.Effect.self (h : p.Effect s t (some q)) (hs : SubOk s) (hp : p.knows s) :
    q.knows t := by
  cases h with
  | same _ _ hq => exact (hq q rfl).2
  | takes key index hnone =>
      refine ⟨hs.fresh s.gates (Nat.le_refl _), nofun, fun e he => ?_⟩
      obtain rfl := Option.some.inj he
      exact ⟨rfl, rfl⟩
  | subscribes key gate => exact ⟨hp.1, fun _ _ _ => rfl, hp.2.2⟩
  | marksLive key gate =>
      show (SubTask.watches key gate).knows s.markLive
      unfold TradeSub.markLive
      split
      · next e he =>
        refine ⟨fun e' he' => ?_, fun hb => absurd (hp.1.symm.trans hb) nofun⟩
        obtain rfl := Option.some.inj he'
        exact ⟨(hp.2.2 e he).1, nofun⟩
      · next hnone =>
        exact ⟨fun e he => absurd (hnone.symm.trans he) nofun,
          fun hb => absurd (hp.1.symm.trans hb) nofun⟩
  | rearms key gate i he =>
      refine ⟨fun e he' => ?_, fun hb => ?_⟩
      · obtain rfl := Option.some.inj he'
        exact ⟨rfl, nofun⟩
      · have hb : Function.update s.bounced gate false gate = true := hb
        rw [Function.update_self] at hb
        cases hb

/-- What a task of the same key that owns nothing knows is not lost. -/
theorem SubTask.Effect.bystander {r : SubTask} {q : Option SubTask} (h : p.Effect s t q)
    (hr : r.owns = none) (hk : r.knows s) : r.knows t := by
  cases r with
  | claims => trivial
  | enables => trivial
  | releases => trivial
  | tearsDown => trivial
  | setsUp => cases hr
  | watches => cases hr
  | rechecks key index gate seen =>
      cases h with
      | marksLive => exact Nat.le_trans hk (markLive_wakes s gate).1
      | removes _ isOpen =>
          exact Nat.le_trans hk (removeAndWake_wakes { s with reqOpen := isOpen } gate).1
      | _ => exact hk
  | parks key index gate seen =>
      -- an operation that notifies nobody found no entry in setup
      have live : ∀ e, s.entry = some e → e.state ≠ .setup → s.wakes gate ≠ seen := by
        intro e he hne heq
        obtain ⟨e', he', -, hs⟩ := hk.2 heq
        exact hne (Option.some.inj (he.symm.trans he') ▸ hs)
      cases h with
      | same => exact hk
      | takes _ _ hnone =>
          refine ⟨hk.1, fun heq => ?_⟩
          obtain ⟨e, he, -⟩ := hk.2 heq
          exact absurd (hnone.symm.trans he) nofun
      | bounces _ _ i b g he => exact ⟨hk.1, fun heq => absurd heq (live _ he nofun)⟩
      | subscribes => exact hk
      | marksLive => exact parks_kept hk (markLive_wakes s gate).1 (markLive_wakes s gate).2
      | rearms _ _ i he => exact ⟨hk.1, fun heq => absurd heq (live _ he nofun)⟩
      | removes _ isOpen =>
          exact parks_kept hk (removeAndWake_wakes { s with reqOpen := isOpen } gate).1
            (removeAndWake_wakes { s with reqOpen := isOpen } gate).2

/-- What an owner of the key knows is not lost to a task that owns nothing: a claim finds its entry,
and a removal none that was bounced off. -/
theorem SubTask.Effect.owner {r : SubTask} {q : Option SubTask} {key : String}
    (h : p.Effect s t q) (hp : p.owns = none) (hr : r.owns = some key) (hk : r.knows s)
    (hclaims : ∀ k index, p = .claims k index → s.entry ≠ none)
    (hremoves : p = .tearsDown p.key ∨ p = .releases p.key → ¬ s.marked) : r.knows t := by
  cases h with
  | same => exact hk
  | takes k index hnone => exact absurd hnone (hclaims k index rfl)
  | subscribes => cases hp
  | marksLive => cases hp
  | rearms => cases hp
  | bounces k index i b g he =>
      cases r with
      | setsUp => exact absurd (hk.2.2 _ he).2 nofun
      | watches _ gate =>
          refine ⟨fun e he' => ?_, fun _ => rfl⟩
          obtain rfl := Option.some.inj he'
          exact ⟨(hk.1 _ he).1, nofun⟩
      | _ => cases hr
  | removes _ isOpen hwho =>
      have hgone : ∀ e, { s with reqOpen := isOpen }.removeAndWake.entry ≠ some e := fun e he =>
        absurd ((removeAndWake_entry _).symm.trans he) nofun
      have hunmarked : ¬ s.marked := by
        rcases hwho with howns | hwho
        · exact absurd (hp.symm.trans howns) nofun
        · exact hremoves hwho
      cases r with
      | setsUp _ gate =>
          exact ⟨(congrFun (removeAndWake_bounced _) gate).trans hk.1,
            fun _ e he => absurd he (hgone e), fun e he => absurd he (hgone e)⟩
      | watches _ gate =>
          refine ⟨fun e he => absurd he (hgone e), fun hb => absurd (hk.2 ?_) hunmarked⟩
          exact (congrFun (removeAndWake_bounced { s with reqOpen := isOpen }) gate).symm.trans hb
      | _ => cases hr

/-- A label that keeps the owners, where they are apart. -/
def KeptApart (c : Pool (String → TradeSub) SubTask) (l : Label SubTask Move Empty) : Prop :=
  OwnersKept c l ∧ c.Apart SubTask.owns

theorem step_key (w : Move) (p : SubTask) (s t : TradeSub) (q : SubTask)
    (h : p.step w s = some (t, some q)) : q.key = p.key := by
  cases p with
  | setsUp key gate subscribed =>
      cases w with
      | goes => cases subscribed <;> (cases h; rfl)
      | fails => cases subscribed <;> cases h
      | drops contended =>
          cases contended with
          | false => cases h
          | true => cases h; rfl
  | _ => cases w <;> grind [SubTask.step, SubTask.key]

theorem subOutline : CellOutline subProg KeptApart SubOk SubTask.knows where
  key := step_key
  spawn := by
    intro p s hp _
    cases p with
    | claims => trivial
    | tearsDown => trivial
    | _ => cases hp
  shared := fun c i w p s' q _ _ hs hp h => (SubTask.step_effect hp h).ok hs hp
  self := fun c i w p s' q _ _ hs hp h => (SubTask.step_effect hp h).self hs hp
  other := by
    intro c i w p s' q j r hC hi hs hp h hj hr hkey hk
    have heff := SubTask.step_effect hp h
    cases hown : r.owns with
    | none => exact heff.bystander hown hk
    | some key =>
        obtain rfl : r.key = key := owns_key hown
        have hnone : p.owns = none := by
          cases hp' : p.owns with
          | none => rfl
          | some k =>
              have hk' : p.owns = some r.key := hp'.trans
                (congrArg some ((owns_key hp').symm.trans hkey.symm))
              exact absurd hown (hC.2 i j p r r.key (Ne.symm hj) hi hr hk')
        refine heff.owner hnone hown hk (fun k index hpc => ?_) fun hwho => ?_
        · subst hpc
          exact hC.1.claims hi hr (hown.trans (congrArg some hkey))
        · exact hC.1.removes (hwho.imp (fun h => hi.trans (congrArg some h))
            fun h => hi.trans (congrArg some h))

/-- A task comes to own a key as a claim that finds it free, or owned it already. -/
theorem SubTask.Effect.owned {key : String} (h : p.Effect s t (some q))
    (hq : q.owns = some key) :
    p.owns = some key ∨ ∃ index, p = .claims key index ∧ s.entry = none := by
  cases h with
  | same _ _ hsame => exact absurd ((hsame q rfl).1.symm.trans hq) nofun
  | takes k index hnone =>
      obtain rfl : k = key := Option.some.inj hq
      exact Or.inr ⟨index, rfl, hnone⟩
  | subscribes => exact Or.inl hq
  | marksLive => exact Or.inl hq
  | rearms => exact Or.inl hq

/-- The invariant of the pool: each task's own, and no two owners of one key. -/
structure SubInv (c : Pool (String → TradeSub) SubTask) : Prop where
  pool : PoolInv (fun s => ∀ k, SubOk (s k)) (fun p s => p.knows (s p.key)) c
  apart : c.Apart SubTask.owns

theorem subInv_idle : SubInv (Pool.idle fun _ => {}) where
  pool := poolInv_idle fun _ =>
    { live := fun _ _ he => by cases he
      setup := fun _ he => by cases he
      fresh := fun _ _ => rfl
      made := fun _ he => by cases he }
  apart := apart_idle _

theorem SubInv.next {c c' : Pool (String → TradeSub) SubTask} {l : Label SubTask Move Empty}
    (hc : SubInv c) (hC : OwnersKept c l) (hn : subProg.prog.next c l = some c') : SubInv c' := by
  refine ⟨subOutline.outline.keep c l c' hc.pool ⟨hC, hc.apart⟩ hn, ?_⟩
  cases l with
  | spawn i p =>
      obtain ⟨hp, -, rfl⟩ := Prog.next_spawn.mp hn
      refine hc.apart.update i c.shared fun r k hr hown => ?_
      obtain rfl := Option.some.inj hr
      have hp : p.starts = true := hp
      cases p with
      | setsUp => cases hp
      | watches => cases hp
      | _ => cases hown
  | step i w =>
      obtain ⟨p, s, q, hp, hs, rfl⟩ := Prog.next_step.mp hn
      obtain ⟨cell, hcell, rfl⟩ := CellProg.tstep_eq_some.mp hs
      refine hc.apart.update i _ fun r k hr hown => ?_
      subst hr
      rcases (SubTask.step_effect (hc.pool.threads i p hp) hcell).owned hown with
        hold | ⟨index, rfl, hnone⟩
      · exact Or.inl ⟨p, hp, hold⟩
      · exact Or.inr fun j r' _ hr' howns => hC.claims hp hr' howns hnone
  | env a => cases a

/-! ## One owner -/

/-- No two owners of one key; a claim that bounces does so off a live entry with its REQ open; an
owner a claim has bounced off keeps its lease, and its REQ, at its next idle check; and a claim that
has not been woken sleeps on the gate of the key's entry, in setup. -/
structure SingleOwner (c : Pool (String → TradeSub) SubTask) : Prop where
  owners : ∀ i j p q key, i ≠ j → c.threads i = some p → c.threads j = some q →
    p.owns = some key → q.owns ≠ some key
  bounces : ∀ i key index, c.threads i = some (.claims key index) →
    ((c.shared key).claim index).2 = .bounced →
      ∃ e r, (c.shared key).entry = some e ∧ e.state = .live r ∧ (c.shared key).reqOpen = true
  lease : ∀ i key gate, c.threads i = some (.watches key gate) →
    (c.shared key).bounced gate = true →
      ((c.shared key).teardownOrRearm gate).2 = true ∧
        ((c.shared key).teardownOrRearm gate).1.reqOpen = (c.shared key).reqOpen
  woken : ∀ i key index gate seen, c.threads i = some (.parks key index gate seen) →
    (c.shared key).wakes gate = seen →
      ∃ e, (c.shared key).entry = some e ∧ e.gate = gate ∧ e.state = .setup

theorem SubOk.bounces (h : SubOk s) {index : Nat} (hb : (s.claim index).2 = .bounced) :
    ∃ e r, s.entry = some e ∧ e.state = .live r ∧ s.reqOpen = true := by
  unfold TradeSub.claim at hb
  split at hb
  · cases hb
  · next r i g he => exact ⟨_, r, he, rfl, (h.live _ r he rfl).1⟩
  · cases hb

theorem TradeSub.marked.rearms (h : s.marked) (gate : Nat) :
    (s.teardownOrRearm gate).2 = true ∧ (s.teardownOrRearm gate).1.reqOpen = s.reqOpen := by
  obtain ⟨⟨state, index, g⟩, he, hstate⟩ := Option.map_eq_some_iff.mp h
  have he : s.entry = some ⟨.live true, index, g⟩ := hstate ▸ he
  unfold TradeSub.teardownOrRearm
  rw [he]
  exact ⟨rfl, rfl⟩

/-- **One owner.** In every run of claims, setups, watchers and teardowns on any keys whose
teardowns leave no owner behind. -/
theorem single_owner {ls : List (Label SubTask Move Empty)}
    {c : Pool (String → TradeSub) SubTask}
    (hC : Along subProg.prog.next OwnersKept (Pool.idle fun _ => {}) ls)
    (hr : run subProg.prog.next (Pool.idle fun _ => {}) ls = some c) : SingleOwner c := by
  have hinv : SubInv c := run_inv (fun _ _ _ hc hC hn => hc.next hC hn) subInv_idle hC hr
  constructor
  · exact hinv.apart
  · exact fun i key index _ hb => (hinv.pool.shared key).bounces hb
  · exact fun i key gate hi hb => ((hinv.pool.threads i _ hi).2 hb).rearms gate
  · exact fun i key index gate seen hi => (hinv.pool.threads i _ hi).2

theorem keepsOwner_none {c : Pool (String → TradeSub) SubTask} {l : Label SubTask Move Empty}
    {o : Option SubTask} (h : KeepsOwner c l o) : KeepsOwner c l none := by
  unfold KeepsOwner at h ⊢
  split
  · split
    · next hp =>
      simp only [hp] at h
      exact h
    · next hp =>
      simp only [hp] at h
      exact h
    · exact nofun
    · trivial
  · trivial

/-- A claim of a key goes through its setup while a second one waits for it; that one bounces, and
the owner keeps its lease once. -/
def refreshed : List (Label SubTask Move Empty) :=
  [.spawn 0 (.claims "aa" 1), .step 0 .goes, .spawn 1 (.claims "aa" 1), .step 1 .goes,
    .step 1 .goes, .step 1 .goes, .step 0 .goes, .step 0 .goes, .step 1 .goes, .step 1 .goes,
    .step 0 .goes]

/-- What the key looks like after a run, and where its first two tasks stand. -/
def after (ls : List (Label SubTask Move Empty)) :
    Option (Option State × Bool × Option SubTask × Option SubTask) :=
  (run subProg.prog.next (Pool.idle fun _ => {}) ls).map fun c =>
    ((c.shared "aa").entry.map (·.state), (c.shared "aa").reqOpen, c.threads 0, c.threads 1)

theorem refreshed_single_owner :
    after refreshed = some (some (.live false), true, some (.watches "aa" 0), none) ∧
      ∃ c, run subProg.prog.next (Pool.idle fun _ => {}) refreshed = some c ∧ SingleOwner c := by
  refine ⟨by decide, ?_⟩
  have hsome : (run subProg.prog.next (Pool.idle fun _ => {}) refreshed).isSome = true := by
    decide
  obtain ⟨c, hr⟩ := Option.isSome_iff_exists.mp hsome
  have hC := along_of_below 2 (fun c l h => keepsOwner_none (h 0 (by decide)))
    (below_idle 2 _) rfl
    (show Along subProg.prog.next (fun c l => ∀ j < 2, KeepsOwner c l (c.threads j))
      (Pool.idle fun _ => {}) refreshed by decide)
  exact ⟨c, hr, single_owner hC hr⟩

/-- An owner's setup to its end, the release of its trade by the finished-trade path under its
watcher, and a claim. -/
def releasedThenClaimed : List (Label SubTask Move Empty) :=
  [.spawn 0 (.claims "aa" 1), .step 0 .goes, .step 0 .goes, .step 0 .goes,
    .spawn 1 (.tearsDown "aa"), .step 1 .goes, .spawn 1 (.claims "aa" 1), .step 1 .goes]

/-- The same with the claim first. -/
def bouncedThenReleased : List (Label SubTask Move Empty) :=
  [.spawn 0 (.claims "aa" 1), .step 0 .goes, .step 0 .goes, .step 0 .goes,
    .spawn 1 (.claims "aa" 1), .step 1 .goes, .spawn 1 (.tearsDown "aa"), .step 1 .goes]

/-- **A finished trade is released under its watcher.** The next claim finds the key free, and both
own it. A claim that came before the release bounced off an owner that has lost its REQ, and that
ends at its next idle check. -/
theorem released_under_its_watcher :
    after releasedThenClaimed =
        some (some .setup, false, some (.watches "aa" 0), some (.setsUp "aa" 1 false)) ∧
      after (bouncedThenReleased ++ [.step 0 .goes]) = some (none, false, none, none) ∧
      (∃ c, run subProg.prog.next (Pool.idle fun _ => {}) releasedThenClaimed = some c ∧
        ¬ SingleOwner c) ∧
      ∃ c, run subProg.prog.next (Pool.idle fun _ => {}) bouncedThenReleased = some c ∧
        ¬ SingleOwner c := by
  refine ⟨by decide, by decide, ?_, ?_⟩
  · refine ⟨_, rfl, fun h => ?_⟩
    exact h.owners 0 1 (.watches "aa" 0) (.setsUp "aa" 1 false) "aa" nofun rfl rfl rfl rfl
  · refine ⟨_, rfl, fun h => ?_⟩
    exact absurd (h.lease 0 "aa" 0 rfl (by decide)).1 (by decide)

end MostroApp.Subscriptions
