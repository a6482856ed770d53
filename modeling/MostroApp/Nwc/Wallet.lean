import MostroApp.Lib.Interleaving
import MostroApp.Nwc.Client

set_option autoImplicit false

/-! # The connected wallet and its status stream (`api/nwc.rs`)

A call changes the slot under its lock, disconnects the client that was there, and only then tells
the listeners. What was sent last is what the slot holds as long as no call sends after one that
changed the slot later has sent its last (`status_stream_ends_on_slot`). The number of changes is
bookkeeping: it says in which order the calls had the lock.
-/

namespace MostroApp.Nwc

open Interleaving Transition

/-- The wallet store. A client is known by its wallet info. -/
structure WalletStore where
  client : Option NwcWalletInfo := none
  /-- The values sent on the status channel, oldest first. -/
  sent : List (Option NwcWalletInfo) := []
  changes : Nat := 0
  deriving DecidableEq

/-- What the listeners saw last; they start without a wallet. -/
def WalletStore.lastSent (s : WalletStore) : Option NwcWalletInfo := s.sent.getLast?.getD none

/-- Where a call stands. One that has changed the slot knows the number of its change and what it
has still to send: a value, and those after it. -/
inductive WalletCall where
  | connecting
  | storing (info : NwcWalletInfo) (balance : Option Nat)
  | taking
  | closing (change : Nat) (value : Option NwcWalletInfo) (rest : List (Option NwcWalletInfo))
  | notifying (change : Nat) (value : Option NwcWalletInfo) (rest : List (Option NwcWalletInfo))
  deriving DecidableEq

/-- `connect_wallet` and `disconnect_wallet`, one access to the store per step. The oracle is what
the wallet answers to a call that connects: its info and its balance, or none when it fails. -/
def WalletCall.step (answer : Option (NwcWalletInfo × Option Nat)) :
    WalletCall → WalletStore → Option (WalletStore × Option WalletCall)
  | .connecting, s => some (s, answer.map fun a => .storing a.1 a.2)
  | .storing info balance, s =>
      let s' := { s with client := some info, changes := s.changes + 1 }
      let connected := some { info with balanceSats := balance }
      if s.client.isSome then some (s', some (.closing s'.changes none [connected]))
      else some (s', some (.notifying s'.changes connected []))
  | .taking, s =>
      if s.client.isSome then
        some ({ s with client := none, changes := s.changes + 1 },
          some (.closing (s.changes + 1) none []))
      else some (s, none)
  | .closing n value rest, s => some (s, some (.notifying n value rest))
  | .notifying n value rest, s =>
      some ({ s with sent := s.sent ++ [value] },
        rest.head?.map fun next => .notifying n next rest.tail)

/-- Any number of calls that connect a wallet or disconnect it. -/
def walletProg : Prog WalletStore WalletCall (Option (NwcWalletInfo × Option Nat)) Empty where
  enter
    | .connecting | .taking => true
    | _ => false
  tstep := WalletCall.step
  act a := nomatch a

abbrev WalletPool := Pool WalletStore WalletCall

abbrev WalletLabel := Label WalletCall (Option (NwcWalletInfo × Option Nat)) Empty

/-! ## What a call still owes -/

/-- The number of the call's change, and the last value it has to send. -/
def WalletCall.owes : WalletCall → Option (Nat × Option NwcWalletInfo)
  | .closing n value rest | .notifying n value rest => some (n, rest.getLastD value)
  | _ => none

/-- The call that changed the slot last has still to send. -/
def LatestOwes (c : WalletPool) : Prop :=
  c.Any fun p => ∃ value, p.owes = some (c.shared.changes, value)

/-- A call sends after one that changed the slot later only while that one, or the latest, has
still to send. -/
def Timely (c : WalletPool) : WalletLabel → Prop
  | .step i _ =>
      match c.threads i with
      | some (.notifying n _ _) => n = c.shared.changes ∨ LatestOwes c
      | _ => True
  | _ => True

/-- What the wallet says on connecting is, as `f` sees it, what the client keeps. -/
def KeptAs (f : NwcWalletInfo → NwcWalletInfo) (c : WalletPool) : WalletLabel → Prop
  | .step i (some (info, balance)) =>
      c.threads i = some .connecting → f { info with balanceSats := balance } = f info
  | _ => True

variable {f : NwcWalletInfo → NwcWalletInfo} {c c' : WalletPool} {s s' : WalletStore}
  {p : WalletCall} {q : Option WalletCall} {answer : Option (NwcWalletInfo × Option Nat)}

/-- **What one step does**: it leaves the store and what is owed, changes the slot and owes its
value, or sends what it has to send next. -/
theorem WalletCall.step_cases (h : p.step answer s = some (s', q)) :
    (s' = s ∧ ∀ p' ∈ q, p'.owes = p.owes) ∧ (q = none → p.owes = none) ∨
    (∃ p' value, q = some p' ∧ p'.owes = some (s'.changes, value) ∧ p.owes = none ∧
      s'.changes = s.changes + 1 ∧ s'.sent = s.sent ∧
      (value = s'.client ∨ ∃ info balance, p = .storing info balance ∧
        s'.client = some info ∧ value = some { info with balanceSats := balance })) ∨
    ∃ n value rest, p = .notifying n value rest ∧
      s' = { s with sent := s.sent ++ [value] } ∧
      q = rest.head?.map fun next => .notifying n next rest.tail := by
  cases p with
  | connecting =>
      cases h
      refine Or.inl ⟨⟨rfl, fun p' hp' => ?_⟩, fun _ => rfl⟩
      obtain ⟨a, -, rfl⟩ := Option.map_eq_some_iff.mp hp'
      rfl
  | storing info balance =>
      right; left
      simp only [WalletCall.step] at h
      split at h
      · cases h
        exact ⟨_, _, rfl, rfl, rfl, rfl, rfl, Or.inr ⟨info, balance, rfl, rfl, rfl⟩⟩
      · cases h
        exact ⟨_, _, rfl, rfl, rfl, rfl, rfl, Or.inr ⟨info, balance, rfl, rfl, rfl⟩⟩
  | taking =>
      simp only [WalletCall.step] at h
      split at h
      · cases h
        exact Or.inr (Or.inl ⟨_, _, rfl, rfl, rfl, rfl, rfl, Or.inl rfl⟩)
      · cases h
        exact Or.inl ⟨⟨rfl, nofun⟩, fun _ => rfl⟩
  | closing n value rest =>
      cases h
      refine Or.inl ⟨⟨rfl, fun p' hp' => ?_⟩, nofun⟩
      obtain rfl := Option.some.inj hp'
      rfl
  | notifying n value rest =>
      cases h
      exact Or.inr (Or.inr ⟨n, value, rest, rfl, rfl, rfl⟩)

theorem WalletCall.step_storing {info : NwcWalletInfo} {balance : Option Nat}
    (h : p.step answer s = some (s', some (.storing info balance))) :
    p = .connecting ∧ answer = some (info, balance) := by
  cases p with
  | connecting =>
      obtain ⟨a, ha, heq⟩ := Option.map_eq_some_iff.mp (Prod.mk.inj (Option.some.inj h)).2
      cases heq
      exact ⟨rfl, ha⟩
  | storing info' balance' =>
      simp only [WalletCall.step] at h
      split at h <;> cases h
  | taking =>
      simp only [WalletCall.step] at h
      split at h <;> cases h
  | closing n value rest => cases h
  | notifying n value rest =>
      obtain ⟨next, -, heq⟩ := Option.map_eq_some_iff.mp (Prod.mk.inj (Option.some.inj h)).2
      cases heq

/-- What a call owes stays with it until it has sent its last. -/
theorem owes_notifying (n : Nat) (value : Option NwcWalletInfo)
    (rest : List (Option NwcWalletInfo)) :
    ∀ p' ∈ rest.head?.map fun next => WalletCall.notifying n next rest.tail,
      p'.owes = (WalletCall.notifying n value rest).owes := by
  intro p' hp'
  cases rest with
  | nil => cases hp'
  | cons next rest =>
      obtain rfl := Option.some.inj hp'
      simp only [WalletCall.owes, List.tail_cons, List.getLastD_cons]

/-! ## Runs -/

/-- Of the calls that have still to send, none has a change later than the latest, and who has
that one will end with what the slot holds; when no one has, the listeners saw it already. -/
structure StreamInv (f : NwcWalletInfo → NwcWalletInfo) (c : WalletPool) : Prop where
  bounded : ∀ i p n value, c.threads i = some p → p.owes = some (n, value) → n ≤ c.shared.changes
  latest : ∀ i p value, c.threads i = some p → p.owes = some (c.shared.changes, value) →
    value.map f = c.shared.client.map f
  settled : LatestOwes c ∨ c.shared.lastSent.map f = c.shared.client.map f
  storing : ∀ i info balance, c.threads i = some (.storing info balance) →
    f { info with balanceSats := balance } = f info

theorem streamInv_idle : StreamInv f (Pool.idle {}) :=
  ⟨fun _ _ _ _ h => (nomatch h), fun _ _ _ h => (nomatch h), Or.inr rfl,
    fun _ _ _ h => (nomatch h)⟩

theorem lastSent_concat (s : WalletStore) (value : Option NwcWalletInfo) :
    ({ s with sent := s.sent ++ [value] } : WalletStore).lastSent = value := by
  simp [WalletStore.lastSent]

theorem StreamInv.spawn {i : Nat} (h : StreamInv f c) (hp : walletProg.enter p = true)
    (hi : c.threads i = none) :
    StreamInv f ⟨c.shared, Function.update c.threads i (some p)⟩ := by
  have howes : p.owes = none ∧ ∀ info balance, p ≠ .storing info balance := by
    cases p with
    | connecting | taking => exact ⟨rfl, fun _ _ h => WalletCall.noConfusion h⟩
    | _ => cases hp
  refine ⟨fun j r n value hr hrow => ?_, fun j r value hr hrow => ?_, ?_,
    fun j info balance hr => ?_⟩
  · rcases threads_update hr with ⟨-, hnew⟩ | ⟨-, hold⟩
    · obtain rfl := Option.some.inj hnew
      rw [howes.1] at hrow
      cases hrow
    · exact h.bounded j r n value hold hrow
  · rcases threads_update hr with ⟨-, hnew⟩ | ⟨-, hold⟩
    · obtain rfl := Option.some.inj hnew
      rw [howes.1] at hrow
      cases hrow
    · exact h.latest j r value hold hrow
  · exact h.settled.imp (fun hlatest => hlatest.spawn hi) id
  · rcases threads_update hr with ⟨-, hnew⟩ | ⟨-, hold⟩
    · exact absurd (Option.some.inj hnew) (howes.2 info balance)
    · exact h.storing j info balance hold

theorem StreamInv.step {i : Nat} (h : StreamInv f c) (hp : c.threads i = some p)
    (hs : p.step answer c.shared = some (s', q)) (htime : Timely c (.step i answer))
    (hkept : KeptAs f c (.step i answer)) : StreamInv f ⟨s', Function.update c.threads i q⟩ := by
  have hstoring : ∀ j info balance, Function.update c.threads i q j = some (.storing info balance) →
      f { info with balanceSats := balance } = f info := by
    intro j info balance hr
    rcases threads_update hr with ⟨rfl, rfl⟩ | ⟨-, hold⟩
    · obtain ⟨rfl, rfl⟩ := WalletCall.step_storing hs
      exact hkept hp
    · exact h.storing j info balance hold
  rcases WalletCall.step_cases hs with ⟨⟨rfl, howes⟩, hdone⟩ |
    ⟨p', value, rfl, hnew, hnone, hchanges, hsent, hvalue⟩ | ⟨n, value, rest, rfl, rfl, rfl⟩
  · -- what is owed goes on to where the call stands now
    refine ⟨fun j r n value hr hrow => ?_, fun j r value hr hrow => ?_, ?_, hstoring⟩
    · rcases threads_update hr with ⟨-, rfl⟩ | ⟨-, hold⟩
      · exact h.bounded i p n value hp (howes r rfl ▸ hrow)
      · exact h.bounded j r n value hold hrow
    · rcases threads_update hr with ⟨-, rfl⟩ | ⟨-, hold⟩
      · exact h.latest i p value hp (howes r rfl ▸ hrow)
      · exact h.latest j r value hold hrow
    · refine h.settled.imp (fun hlatest => ?_) id
      rcases hlatest.split hp with ⟨value, howe⟩ | hother
      · cases q with
        | none =>
            rw [hdone rfl] at howe
            cases howe
        | some p' => exact Pool.any_self i c.shared ⟨value, (howes p' rfl).trans howe⟩
      · exact hother.any c.shared q
  · -- every change that is owed is older than this one
    have hold : ∀ j r n v, c.threads j = some r → r.owes = some (n, v) → n < s'.changes := by
      intro j r n v hr hrow
      have hle := h.bounded j r n v hr hrow
      omega
    refine ⟨fun j r n v hr hrow => ?_, fun j r v hr hrow => ?_,
      Or.inl (Pool.any_self i s' ⟨value, hnew⟩), hstoring⟩
    · rcases threads_update hr with ⟨-, hq⟩ | ⟨-, hr⟩
      · obtain rfl := Option.some.inj hq
        rw [hnew] at hrow
        exact (Prod.mk.inj (Option.some.inj hrow)).1 ▸ Nat.le_refl _
      · exact Nat.le_of_lt (hold j r n v hr hrow)
    · rcases threads_update hr with ⟨-, hq⟩ | ⟨-, hr⟩
      · obtain rfl := Option.some.inj hq
        rw [hnew] at hrow
        obtain rfl := (Prod.mk.inj (Option.some.inj hrow)).2
        rcases hvalue with rfl | ⟨info, balance, rfl, hclient, rfl⟩
        · rfl
        · show some (f _) = s'.client.map f
          rw [hclient, h.storing i info balance hp]
          rfl
      · exact absurd (hold j r _ v hr hrow) (Nat.lt_irrefl _)
  · -- the call sends
    have howes := owes_notifying n value rest
    refine ⟨fun j r m v hr hrow => ?_, fun j r v hr hrow => ?_, ?_, hstoring⟩
    · rcases threads_update hr with ⟨-, hq⟩ | ⟨-, hold⟩
      · exact h.bounded i _ m v hp (howes r hq ▸ hrow)
      · exact h.bounded j r m v hold hrow
    · rcases threads_update hr with ⟨-, hq⟩ | ⟨-, hold⟩
      · exact h.latest i _ v hp (howes r hq ▸ hrow)
      · exact h.latest j r v hold hrow
    · by_cases hn : n = c.shared.changes
      · subst hn
        cases rest with
        | nil =>
            right
            rw [lastSent_concat]
            exact h.latest i _ value hp rfl
        | cons next rest => exact Or.inl (Pool.any_self i _ ⟨_, howes _ rfl⟩)
      · left
        simp only [Timely, hp] at htime
        rcases (htime.resolve_left hn).split hp with ⟨v, howe⟩ | hother
        · exact absurd (Prod.mk.inj (Option.some.inj howe)).1 hn
        · exact hother.any _ _

theorem StreamInv.next {l : WalletLabel} (h : StreamInv f c) (hl : Timely c l ∧ KeptAs f c l)
    (hn : walletProg.next c l = some c') : StreamInv f c' := by
  cases l with
  | spawn i p =>
      obtain ⟨hp, hi, rfl⟩ := Prog.next_spawn.mp hn
      exact h.spawn hp hi
  | step i answer =>
      obtain ⟨p, s', q, hp, hs, rfl⟩ := Prog.next_step.mp hn
      exact h.step hp hs hl.1 hl.2
  | env a => nomatch a

/-- As `f` sees them, what was sent last is what the slot holds. -/
theorem lastSent_of_done {ls : List WalletLabel}
    (hls : Along walletProg.next (fun c l => Timely c l ∧ KeptAs f c l) (Pool.idle {}) ls)
    (hrun : run walletProg.next (Pool.idle {}) ls = some c) (hdone : ∀ i, c.threads i = none) :
    c.shared.lastSent.map f = c.shared.client.map f := by
  have hinv : StreamInv f c := run_inv (fun _ _ _ h hl hn => h.next hl hn) streamInv_idle hls hrun
  exact hinv.settled.resolve_left (Pool.not_any_idle hdone)

/-- **The stream ends on the stored wallet.** In a run whose calls all send in time, once all are
done, the value sent last is the stored wallet's but for the balance, and wholly so when no wallet
reported a balance on connecting that its client does not keep. -/
theorem status_stream_ends_on_slot (ls : List WalletLabel) (c : WalletPool)
    (hrun : run walletProg.next (Pool.idle {}) ls = some c) (hdone : ∀ i, c.threads i = none)
    (htime : Along walletProg.next Timely (Pool.idle {}) ls) :
    c.shared.lastSent.map (fun info => { info with balanceSats := none }) =
        c.shared.client.map (fun info => { info with balanceSats := none }) ∧
      (Along walletProg.next (KeptAs id) (Pool.idle {}) ls →
        c.shared.lastSent = c.shared.client) := by
  constructor
  · refine lastSent_of_done (htime.mono fun c l h => ⟨h, ?_⟩) hrun hdone
    cases l with
    | step i answer =>
        cases answer with
        | none => trivial
        | some answer => exact fun _ => rfl
    | spawn i p | env a => trivial
  · intro hkept
    have hlast := lastSent_of_done (htime.and hkept) hrun hdone
    rw [Option.map_id] at hlast
    exact hlast

/-! ## Calls that cross -/

/-- The call that sends is the one that changed the slot last, or that one is among the first `n`
and has still to send. -/
def sendsInTime (n : Nat) (c : WalletPool) : WalletLabel → Bool
  | .step i _ =>
      match c.threads i with
      | some (.notifying m _ _) =>
          m = c.shared.changes || (List.range n).any fun j =>
            ((c.threads j).bind WalletCall.owes).any (·.1 = c.shared.changes)
      | _ => true
  | _ => true

theorem timely_of_sendsInTime (n : Nat) (c : WalletPool) (l : WalletLabel)
    (h : sendsInTime n c l = true) : Timely c l := by
  cases l with
  | step i answer =>
      simp only [Timely, sendsInTime] at h ⊢
      cases hp : c.threads i with
      | none => trivial
      | some p =>
          rw [hp] at h
          cases p with
          | notifying m value rest =>
              refine (Bool.or_eq_true_iff.mp h).imp of_decide_eq_true fun hany => ?_
              obtain ⟨j, -, hj⟩ := List.any_eq_true.mp hany
              obtain ⟨⟨m', value'⟩, howes, hm⟩ := (Option.any_eq_true _ _).mp hj
              obtain ⟨q, hq, howes⟩ := Option.bind_eq_some_iff.mp howes
              obtain rfl : m' = c.shared.changes := by simpa using hm
              exact ⟨j, q, hq, value', howes⟩
          | _ => trivial
  | spawn i p | env a => trivial

instance (c : WalletPool) (l : WalletLabel) : Decidable (KeptAs id c l) :=
  match l with
  | .step i (some (info, balance)) =>
      inferInstanceAs (Decidable (c.threads i = some .connecting →
        { info with balanceSats := balance } = info))
  | .step _ none | .spawn _ _ | .env _ => .isTrue trivial

def wallet : NwcWalletInfo := { walletPubkey := "w", status := .connected }

def secondWallet : NwcWalletInfo := { walletPubkey := "v", status := .connected }

/-- A wallet is connected, and a second one over it. A disconnect takes that one from the slot
before the second connect has told of it, and tells of it last; then it is connected again. -/
def crossedCalls : List WalletLabel :=
  [.spawn 0 .connecting, .step 0 (some (wallet, none)), .step 0 none, .step 0 none,
    .spawn 1 .connecting, .spawn 2 .taking, .step 1 (some (secondWallet, none)), .step 1 none,
    .step 2 none, .step 1 none, .step 1 none, .step 1 none, .step 2 none, .step 2 none,
    .spawn 3 .connecting, .step 3 (some (secondWallet, none)), .step 3 none, .step 3 none]

/-- The listeners end on the wallet that is stored. -/
theorem crossed_calls_on_slot :
    ∃ c, run walletProg.next (Pool.idle {}) crossedCalls = some c ∧
      c.shared.sent = [some wallet, none, some secondWallet, none, some secondWallet] ∧
      c.shared.client = some secondWallet ∧ c.shared.lastSent = c.shared.client := by
  have hr : run walletProg.next (Pool.idle {}) crossedCalls = some _ := rfl
  have hdone := ((below_idle 4 _).run (by decide) hr).all_done (by decide)
  have htime : Along walletProg.next (fun c l => sendsInTime 4 c l = true) (Pool.idle {})
      crossedCalls := by decide
  have hkept : Along walletProg.next (KeptAs id) (Pool.idle {}) crossedCalls := by decide
  exact ⟨_, hr, rfl, rfl, (status_stream_ends_on_slot crossedCalls _ hr hdone
    (htime.mono (timely_of_sendsInTime 4))).2 hkept⟩

/-! ## A late notification -/

/-- The wallet is connected, and disconnected before its connection is told. -/
def lateNotification : List WalletLabel :=
  [.spawn 0 .connecting, .step 0 (some (wallet, none)), .step 0 none,
    .spawn 1 .taking, .step 1 none, .step 1 none, .step 1 none, .step 0 none]

/-- A wallet with a balance is connected, alone. -/
def balanceNotKept : List WalletLabel :=
  [.spawn 0 .connecting, .step 0 (some (wallet, some 21)), .step 0 none, .step 0 none]

/-- **The stream ends wrong**: after a late notification no wallet is stored and the listeners have
one; and a wallet's balance is sent but not kept. -/
theorem stream_not_on_slot :
    ((run walletProg.next (Pool.idle {}) lateNotification).map fun c =>
        (c.finished 2, c.shared.client, c.shared.lastSent)) = some (true, none, some wallet) ∧
      ((run walletProg.next (Pool.idle {}) balanceNotKept).map fun c =>
        (c.finished 1, c.shared.client, c.shared.lastSent)) =
          some (true, some wallet, some { wallet with balanceSats := some 21 }) := by
  constructor <;> decide

end MostroApp.Nwc
