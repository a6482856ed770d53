import MostroApp.Lib.Mutex
import MostroApp.Mostro.Capabilities

set_option autoImplicit false

/-! # The one Cashu wallet of the process (`api/cashu.rs`)

Connects and disconnects take the lifecycle lock; operations do not, and the mint that the escrow
resolution names changes under all of them. A connect therefore asks for the mint again before it
installs its wallet, and an operation before it uses one. What the resolution follows, and when it
lags behind a switch of the node, is the matter of `Mostro/Capabilities.lean`.
-/

namespace MostroApp.CashuWallet

open Interleaving Transition Capabilities

/-- A wallet bound to a mint. Beside it, how many disconnects there had been when its connect took
the lock. -/
structure Wallet where
  mintUrl : String
  since : Nat
  deriving DecidableEq, Repr

/-- `str::trim_end_matches('/')`. -/
def trimSlashes (url : String) : String :=
  String.ofList (url.toList.reverse.dropWhile (· = '/')).reverse

def sameMint (boundTo : String) (resolvedNow : Option String) : Bool :=
  resolvedNow.any fun current => trimSlashes current = trimSlashes boundTo

/-- An operation that was let through: the wallet and the resolution it was judged by. -/
structure Operation where
  wallet : Wallet
  resolved : ResolvedEscrowMode
  deriving DecidableEq, Repr

/-- The escrow resolution, the lifecycle lock, the wallet, the number of disconnects, and the
operations let through. -/
structure Purse where
  resolved : ResolvedEscrowMode
  locked : Bool := false
  wallet : Option Wallet := none
  disconnects : Nat := 0
  operations : List Operation := []
  deriving DecidableEq, Repr

def Purse.mint (s : Purse) : Option String := s.resolved.config.mintUrl

/-- Where a task stands; from `looks` to `installs` a connect has the lock. -/
inductive WalletTask where
  /-- `cashu_connect`. -/
  | connects
  | waits
  | looks (since : Nat)
  | compares (since : Nat) (live : Wallet)
  | drops (since : Nat)
  | resolves (since : Nat)
  | opens (since : Nat) (mintUrl : String)
  | rechecks (wallet : Wallet)
  | installs (wallet : Wallet)
  /-- `cashu_disconnect`. -/
  | disconnects
  | clears
  | unlocks
  /-- `active_wallet`. -/
  | operates
  | takes
  | judges (wallet : Wallet)
  deriving DecidableEq, Repr

/-- A task's next step; `connected` says whether there is a seed and the mint answers. -/
def WalletTask.step (connected : Bool) : WalletTask → Purse → Option (Purse × Option WalletTask)
  | .connects, s => some (s, if s.resolved.isCashuUsable then some .waits else none)
  | .waits, s =>
      if s.locked then none else some ({ s with locked := true }, some (.looks s.disconnects))
  | .looks since, s =>
      some (s, some (match s.wallet with
        | some live => .compares since live
        | none => .resolves since))
  | .compares since live, s =>
      some (s, some (if sameMint live.mintUrl s.mint then .unlocks else .drops since))
  | .drops since, s => some ({ s with wallet := none }, some (.resolves since))
  | .resolves since, s =>
      some (s, some (match s.mint with
        | some mintUrl => .opens since mintUrl
        | none => .unlocks))
  | .opens since mintUrl, s =>
      some (s, some (if connected then .rechecks ⟨mintUrl, since⟩ else .unlocks))
  | .rechecks wallet, s =>
      some (s, some (if sameMint wallet.mintUrl s.mint then .installs wallet else .unlocks))
  | .installs wallet, s => some ({ s with wallet := s.wallet.or (some wallet) }, some .unlocks)
  | .disconnects, s => if s.locked then none else some ({ s with locked := true }, some .clears)
  | .clears, s =>
      some ({ s with wallet := none, disconnects := s.disconnects + 1 }, some .unlocks)
  | .unlocks, s => some ({ s with locked := false }, none)
  | .operates, s => some (s, if s.resolved.isCashuUsable then some .takes else none)
  | .takes, s => some (s, s.wallet.map .judges)
  | .judges wallet, s =>
      some (if sameMint wallet.mintUrl s.mint then
        { s with operations := ⟨wallet, s.resolved⟩ :: s.operations } else s, none)

/-- A switch of the node, what a node announces and the developer's settings change the
resolution. -/
inductive WalletAct where
  | resolves (resolved : ResolvedEscrowMode)

/-- Any number of connects, disconnects and operations. -/
def walletProg : Prog Purse WalletTask Bool WalletAct where
  enter
    | .connects | .disconnects | .operates => true
    | _ => false
  tstep := WalletTask.step
  act
    | .resolves resolved, s => some { s with resolved := resolved }

/-! ## The lifecycle lock -/

def WalletTask.holds : WalletTask → Bool
  | .connects | .waits | .disconnects | .operates | .takes | .judges _ => false
  | _ => true

variable {connected : Bool} {p q : WalletTask} {s t : Purse} {o : Option WalletTask}

/-- The lock is taken by those who find it free, and dropped by the one who has it. -/
theorem lifecycleLock : Mutex walletProg Purse.locked WalletTask.holds where
  enter p hp := by
    cases p with
    | connects | disconnects | operates => rfl
    | _ => cases hp
  take w p s t q h hp hq := by
    simp only [walletProg] at h
    cases p with
    | waits | disconnects =>
        simp only [WalletTask.step, Option.ite_none_left_eq_some] at h
        obtain ⟨hfree, heq⟩ := h
        cases heq
        exact ⟨by simpa using hfree, rfl⟩
    | connects | operates =>
        simp only [WalletTask.step] at h
        split at h <;> cases h
        cases hq
    | takes =>
        simp only [WalletTask.step, Option.some.injEq, Prod.mk.injEq] at h
        obtain ⟨-, heq⟩ := h
        obtain ⟨w, -, rfl⟩ := Option.map_eq_some_iff.mp heq
        cases hq
    | judges => cases h
    -- Every other task has the lock already.
    | _ => cases hp
  stay w p s t q h hp hq := by
    simp only [walletProg] at h
    cases p with
    -- Inside the section the lock is not touched; only `unlocks` gives it back.
    | drops | installs | clears | looks | compares | resolves | opens | rechecks =>
        cases h
        rfl
    | unlocks => cases h
    | _ => cases hp
  keep w p s t q h hp hq := by
    simp only [walletProg] at h
    cases p with
    | waits | disconnects =>
        simp only [WalletTask.step, Option.ite_none_left_eq_some] at h
        obtain ⟨-, heq⟩ := h
        cases heq
        cases hq _ rfl
    | connects | operates | takes =>
        cases h
        rfl
    | judges =>
        cases h
        split <;> rfl
    | _ => cases hp
  env a s t h := by
    cases a
    cases h
    rfl

/-- Only the task that has the lock changes the wallet or counts a disconnect. -/
theorem WalletTask.step_spares (h : p.step connected s = some (t, o)) (hfree : p.holds = false) :
    t.wallet = s.wallet ∧ t.disconnects = s.disconnects := by
  cases p with
  | waits | disconnects =>
      simp only [WalletTask.step, Option.ite_none_left_eq_some] at h
      obtain ⟨-, heq⟩ := h
      cases heq
      exact ⟨rfl, rfl⟩
  | connects | operates | takes =>
      cases h
      exact ⟨rfl, rfl⟩
  | judges wallet =>
      cases h
      split <;> exact ⟨rfl, rfl⟩
  | _ => cases hfree

/-- A node that speaks Cashu at a mint. -/
def cashuAt (mintUrl : String) : ResolvedEscrowMode :=
  ⟨.cashu, { mintUrl := some mintUrl }, false⟩

/-! ## Every interleaving -/

/-- The operation uses a wallet bound to the mint that the resolution named. -/
def Operation.AtNamedMint (o : Operation) : Prop :=
  ∃ mintUrl, o.resolved.config.mintUrl = some mintUrl ∧
    trimSlashes mintUrl = trimSlashes o.wallet.mintUrl

/-- The wallet was connected since the last disconnect, and no operation went to another mint. -/
structure Purse.Sound (s : Purse) : Prop where
  wallet : ∀ w, s.wallet = some w → w.since = s.disconnects
  operations : ∀ o ∈ s.operations, o.AtNamedMint

/-- What a connect that has the lock relies on. -/
def WalletTask.Stands : WalletTask → Purse → Prop
  | .looks since, s | .compares since _, s | .drops since, s => since = s.disconnects
  | .resolves since, s | .opens since _, s => since = s.disconnects ∧ s.wallet = none
  | .rechecks w, s | .installs w, s => w.since = s.disconnects ∧ s.wallet = none
  | _, _ => True

theorem WalletTask.stands_of_free (h : p.holds = false) (s : Purse) : p.Stands s := by
  cases p with
  | connects | waits | disconnects | operates | takes | judges => trivial
  | _ => cases h

theorem WalletTask.Stands.congr (h : p.Stands s)
    (hsame : t.wallet = s.wallet ∧ t.disconnects = s.disconnects) : p.Stands t := by
  obtain ⟨hwallet, hcount⟩ := hsame
  cases p <;> simp only [WalletTask.Stands, hwallet, hcount] at h ⊢ <;> exact h

theorem Purse.Sound.step (h : s.Sound) (hp : p.Stands s)
    (hs : p.step connected s = some (t, o)) : t.Sound := by
  cases p with
  | waits | disconnects =>
      simp only [WalletTask.step, Option.ite_none_left_eq_some] at hs
      obtain ⟨-, heq⟩ := hs
      cases heq
      exact ⟨h.wallet, h.operations⟩
  | installs w =>
      cases hs
      refine ⟨fun w' hw' => ?_, h.operations⟩
      have hnew : s.wallet.or (some w) = some w' := hw'
      rw [hp.2] at hnew
      obtain rfl := Option.some.inj hnew
      exact hp.1
  | drops | clears =>
      cases hs
      exact ⟨fun w hw => (by cases hw), h.operations⟩
  | judges w =>
      cases hs
      split
      · next hmint =>
          obtain ⟨mintUrl, hurl, hsame⟩ := (Option.any_eq_true _ _).mp hmint
          refine ⟨h.wallet, fun o ho => ?_⟩
          rcases List.mem_cons.mp ho with rfl | hold
          · exact ⟨mintUrl, hurl, by simpa using hsame⟩
          · exact h.operations o hold
      · exact h
  | _ =>
      cases hs
      exact ⟨h.wallet, h.operations⟩

theorem WalletTask.Stands.step (hp : p.Stands s) (hs : p.step connected s = some (t, some q)) :
    q.Stands t := by
  cases p with
  | connects | operates =>
      simp only [WalletTask.step] at hs
      split at hs <;> cases hs
      trivial
  | waits | disconnects =>
      simp only [WalletTask.step, Option.ite_none_left_eq_some] at hs
      obtain ⟨-, heq⟩ := hs
      cases heq
      first | exact rfl | trivial
  | looks since =>
      cases hs
      split
      · exact hp
      · next hnone => exact ⟨hp, hnone⟩
  | compares since live =>
      cases hs
      split
      · trivial
      · exact hp
  | drops since =>
      cases hs
      exact ⟨hp, rfl⟩
  | resolves since =>
      cases hs
      split
      · exact hp
      · trivial
  | opens since mintUrl =>
      cases hs
      split
      · exact hp
      · trivial
  | rechecks wallet =>
      cases hs
      split
      · exact hp
      · trivial
  | takes =>
      simp only [WalletTask.step, Option.some.injEq, Prod.mk.injEq] at hs
      obtain ⟨-, heq⟩ := hs
      obtain ⟨w, -, rfl⟩ := Option.map_eq_some_iff.mp heq
      trivial
  | unlocks | judges => cases hs
  | installs | clears =>
      cases hs
      trivial

theorem walletOutline : Outline walletProg
    (fun c _ => c.Alone Purse.locked WalletTask.holds ∧ True)
    Purse.Sound WalletTask.Stands := by
  constructor
  · intro c i p _ _ henter _
    refine WalletTask.stands_of_free ?_ c.shared
    cases p with
    | connects | disconnects | operates => rfl
    | _ => cases henter
  · intro c i w p s o hc _ hp hs
    exact hc.shared.step (hc.threads i p hp) hs
  · intro c i w p s q hc _ hp hs
    exact (hc.threads i p hp).step hs
  · intro c i w p s o j r hc hC hp hs hj hr
    cases hholds : p.holds with
    | true => exact WalletTask.stands_of_free (hC.1.not_holds hp hholds hr hj) s
    | false => exact (hc.threads j r hr).congr (WalletTask.step_spares hs hholds)
  · intro c a s hc _ hs
    cases a
    cases hs
    exact ⟨hc.shared.wallet, hc.shared.operations⟩
  · intro c a s i p hc _ hs hp
    cases a
    cases hs
    exact (hc.threads i p hp).congr ⟨rfl, rfl⟩

/-- What is known of the purse at any time. -/
structure Kept (c : Pool Purse WalletTask) : Prop where
  /-- A disconnect drops the wallet, and any that a connect under way would have brought. -/
  wallet : ∀ w, c.shared.wallet = some w → w.since = c.shared.disconnects
  /-- A connect never finds its place taken. -/
  installs : ∀ i w, c.threads i = some (.installs w) →
    c.shared.wallet = none ∧ w.since = c.shared.disconnects
  operations : ∀ o ∈ c.shared.operations, o.AtNamedMint

/-- **No wallet outlives its binding.** However connects, disconnects, operations and changes of the
escrow resolution run into each other, the wallet is one whose connect took the lock after every
disconnect, a connect that installs finds the place empty, and every operation that is let through
uses a wallet bound to the mint that the resolution names at that moment. -/
theorem wallet_stays_bound {c : Pool Purse WalletTask}
    {ls : List (Label WalletTask Bool WalletAct)}
    (hfresh : s.wallet = none ∧ s.operations = [])
    (hr : run walletProg.next (Pool.idle s) ls = some c) : Kept c := by
  have hstart : s.Sound := by
    refine ⟨fun w hw => ?_, fun o ho => ?_⟩
    · rw [hfresh.1] at hw
      cases hw
    · rw [hfresh.2] at ho
      cases ho
  have hinv := walletOutline.run_inv (poolInv_idle hstart)
    (lifecycleLock.along (alone_idle s) (along_true _ ls)) hr
  refine ⟨hinv.shared.wallet, fun i w hi => ?_, hinv.shared.operations⟩
  obtain ⟨hsince, hnone⟩ := hinv.threads i _ hi
  exact ⟨hnone, hsince⟩

/-- A connect is overtaken by a disconnect and by a change of the mint; the next one serves an
operation. -/
def overtaken : List (Label WalletTask Bool WalletAct) :=
  [.spawn 0 .connects, .step 0 true, .step 0 true, .step 0 true, .step 0 true, .step 0 true,
    .spawn 1 .disconnects, .env (.resolves (cashuAt "https://m2/")), .step 0 true,
    .step 0 true, .step 1 true, .step 1 true, .step 1 true, .spawn 2 .connects] ++
  List.replicate 8 (.step 2 true) ++
  [.spawn 3 .operates, .step 3 true, .step 3 true, .step 3 true]

theorem wallet_stays_bound_overtaken :
    ∃ c, run walletProg.next (Pool.idle { resolved := cashuAt "https://m1" }) overtaken = some c ∧
      c.shared.wallet = some ⟨"https://m2/", 1⟩ ∧
      c.shared.operations = [⟨⟨"https://m2/", 1⟩, cashuAt "https://m2/"⟩] ∧ Kept c := by
  have hr : run walletProg.next (Pool.idle { resolved := cashuAt "https://m1" }) overtaken =
      some _ := rfl
  exact ⟨_, hr, rfl, rfl, wallet_stays_bound ⟨rfl, rfl⟩ hr⟩

end MostroApp.CashuWallet
