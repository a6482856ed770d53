import Mathlib.Data.List.Nodup
import Mathlib.Data.Set.Basic

set_option autoImplicit false

/-! # Spending conditions (NUT-11)

A proof locked to a public key (*P2PK*) is spent by signatures of enough of its keys: the `data`
key and the extra `pubkeys` together, `n_sigs` of them. Once the locktime is over, the
`refund` keys may spend it as well, `n_sigs_refund` of them, and anyone may where there are none.

A signature is checked against the `x` coordinate of a key alone, so whoever signs for one point
signs for its negation too: a set of signers is a set of `x` coordinates.
-/

namespace MostroApp.Nut11

/-- A compressed point: the parity of `y`, and `x`. -/
structure PublicKey where
  odd : Bool
  x : Nat
deriving DecidableEq

inductive SigFlag where
  | sigInputs
  | sigAll
deriving DecidableEq

structure Conditions where
  locktime : Option Nat
  pubkeys : Option (List PublicKey)
  refundKeys : Option (List PublicKey)
  numSigs : Option Nat
  sigFlag : SigFlag
  numSigsRefund : Option Nat

inductive SpendingConditions where
  | p2pk (data : PublicKey) (conditions : Option Conditions)
  | htlc (hash : String) (conditions : Option Conditions)

/-! ## Who can spend -/

/-- The signers sign for `n` different keys of the list. -/
def Threshold (n : Nat) (keys : List PublicKey) (signers : Set Nat) : Prop :=
  ∃ ks : List PublicKey, ks.Nodup ∧ ks ⊆ keys ∧ n ≤ ks.length ∧ ∀ k ∈ ks, k.x ∈ signers

/-- The refund path is open at `now`, and to these signers. -/
def Conditions.Refunds (c : Conditions) (now : Nat) (signers : Set Nat) : Prop :=
  ∃ l, c.locktime = some l ∧ l < now ∧
    match c.refundKeys.getD [] with
    | [] => True
    | keys => Threshold (c.numSigsRefund.getD 1) keys signers

/-- The signers can spend at `now` what is locked to the key `data` under the conditions. -/
def CanSpend (now : Nat) (signers : Set Nat) (data : PublicKey) : Option Conditions → Prop
  | none => Threshold 1 [data] signers
  | some c =>
    Threshold (c.numSigs.getD 1) (data :: c.pubkeys.getD []) signers ∨ c.Refunds now signers

/-! ## Thresholds -/

variable {keys keys' : List PublicKey} {signers : Set Nat}

theorem canSpend_some {now : Nat} {data : PublicKey} {c : Conditions} :
    CanSpend now signers data (some c) ↔
      Threshold (c.numSigs.getD 1) (data :: c.pubkeys.getD []) signers ∨ c.Refunds now signers :=
  Iff.rfl

theorem Threshold.mono {n : Nat} (hk : keys ⊆ keys') (h : Threshold n keys signers) :
    Threshold n keys' signers := by
  obtain ⟨ks, hnodup, hsub, hlen, hsign⟩ := h
  exact ⟨ks, hnodup, fun k hmem => hk (hsub hmem), hlen, hsign⟩

theorem threshold_one {k : PublicKey} : Threshold 1 [k] signers ↔ k.x ∈ signers := by
  constructor
  · intro ⟨ks, _, hsub, hlen, hsign⟩
    obtain ⟨k', hk'⟩ := List.exists_mem_of_length_pos hlen
    have heq : k' = k := by simpa using hsub hk'
    exact heq ▸ hsign k' hk'
  · intro hk
    refine ⟨[k], List.nodup_singleton k, List.Subset.refl _, le_rfl, ?_⟩
    simpa using hk

/-- Two signatures are those of two different keys. -/
theorem threshold_two : Threshold 2 keys signers ↔
    ∃ k ∈ keys, ∃ k' ∈ keys, k ≠ k' ∧ k.x ∈ signers ∧ k'.x ∈ signers := by
  constructor
  · intro ⟨ks, hnodup, hsub, hlen, hsign⟩
    match ks, hlen with
    | k :: k' :: rest, _ =>
      have hne : k ≠ k' := by
        intro heq
        simp [heq] at hnodup
      exact ⟨k, hsub (by simp), k', hsub (by simp), hne, hsign k (by simp), hsign k' (by simp)⟩
  · intro ⟨k, hk, k', hk', hne, hx, hx'⟩
    refine ⟨[k, k'], by simpa using hne, ?_, le_rfl, ?_⟩
    · intro j hj
      rcases List.mem_pair.mp hj with rfl | rfl
      · exact hk
      · exact hk'
    · intro j hj
      rcases List.mem_pair.mp hj with rfl | rfl
      · exact hx
      · exact hx'

/-- At least two of three. -/
def TwoOf (a b c : PublicKey) (signers : Set Nat) : Prop :=
  a.x ∈ signers ∧ b.x ∈ signers ∨ a.x ∈ signers ∧ c.x ∈ signers ∨
    b.x ∈ signers ∧ c.x ∈ signers

theorem threshold_two_of_three {a b c : PublicKey} (hab : a ≠ b) (hac : a ≠ c) (hbc : b ≠ c) :
    Threshold 2 [a, b, c] signers ↔ TwoOf a b c signers := by
  rw [threshold_two]
  constructor
  · intro ⟨k, hk, k', hk', hne, hx, hx'⟩
    simp only [List.mem_cons, List.not_mem_nil, or_false] at hk hk'
    unfold TwoOf
    -- two of the three keys: of the nine pairs, those of one key twice are excluded
    rcases hk with rfl | rfl | rfl <;> rcases hk' with rfl | rfl | rfl <;> simp_all
  · intro h
    rcases h with ⟨ha, hb⟩ | ⟨ha, hc⟩ | ⟨hb, hc⟩
    · exact ⟨a, by simp, b, by simp, hab, ha, hb⟩
    · exact ⟨a, by simp, c, by simp, hac, ha, hc⟩
    · exact ⟨b, by simp, c, by simp, hbc, hb, hc⟩

end MostroApp.Nut11
