import MostroApp.Mostro.DisputeAttempts

set_option autoImplicit false

/-! # A dispute retry that is rolled back

A retry takes a key over and its publish fails, while the attempts it replaced may be accepted late
in any order. Each acceptance takes one nonce out of what the retry inherited, and the rollback
restores what is left (`rolled_back_retry`).
-/

namespace MostroApp.Pending

variable {key : String} {n i : Nat} {tx : Waiter} {r : Registry} {superseded : List Nat}

/-- The registry after acceptances, each echoing a nonce. -/
def acceptAll (key : String) (gots : List Nat) (r : Registry) : Registry :=
  gots.foldl (fun r got => (takeMatchingDispute key (some got) r).1) r

/-- A `DisputeInitiatedByYou` echoing `m` is answered. -/
def Answers (key : String) (r : Registry) (m : Nat) : Prop :=
  (takeMatchingDispute key (some m) r).2.isSome = true

instance (key : String) (r : Registry) (m : Nat) : Decidable (Answers key r m) :=
  inferInstanceAs (Decidable (_ = true))

/-- A retry that is registered, sees the acceptances and is rolled back. -/
def failedRetry (key : String) (n i : Nat) (tx : Waiter) (gots : List Nat) (r : Registry) :
    Registry :=
  rollBackDisputeRequest key n (acceptAll key gots (registerDisputeRequest key n i tx r))

/-! ## Acceptances beside a live attempt -/

/-- An acceptance that is not the live attempt's takes its nonce out of the inherited ones. -/
theorem accept_superseded {got : Nat} (hne : got ≠ n)
    (h : r key = some ⟨n, i, .dispute superseded, some tx⟩) :
    (takeMatchingDispute key (some got) r).1 key =
      some ⟨n, i, .dispute (superseded.erase got), some tx⟩ := by
  simp only [takeMatchingDispute, alter_self, h]
  by_cases hmem : got ∈ superseded
  · simp [Option.filter, hmem]
  · simp [Option.filter, hmem, requestIdMatches, hne, List.erase_of_not_mem hmem]

theorem acceptAll_superseded {gots : List Nat} (hne : n ∉ gots)
    (h : r key = some ⟨n, i, .dispute superseded, some tx⟩) :
    acceptAll key gots r key = some ⟨n, i, .dispute (superseded.diff gots), some tx⟩ := by
  induction gots generalizing r superseded with
  | nil => exact h
  | cons got gots ih =>
      rw [List.mem_cons, not_or] at hne
      rw [List.diff_cons]
      exact ih hne.2 (accept_superseded (Ne.symm hne.1) h)

theorem acceptAll_other {k : String} (hk : k ≠ key) (gots : List Nat) (r : Registry) :
    acceptAll key gots r k = r k := by
  induction gots generalizing r with
  | nil => rfl
  | cons got gots ih => exact (ih _).trans (alter_of_ne _ _ _ hk)

/-! ## The rollback -/

/-- A rollback of a live attempt restores what it inherited, without a waiter. -/
theorem rollBackEntry_dispute (n i : Nat) (superseded : List Nat) (tx : Option Waiter) :
    let e := rollBackEntry n (some ⟨n, i, .dispute superseded, tx⟩)
    (∀ p, e = some p → p.tx = none) ∧ (superseded = [] → e = none) := by
  constructor
  · intro p hp
    simp only [rollBackEntry, ne_eq, not_true_eq_false, if_false] at hp
    obtain ⟨previous, -, rfl⟩ := Option.map_eq_some_iff.mp hp
    rfl
  · rintro rfl
    simp [rollBackEntry]

/-- **A failed retry takes back itself**: each acceptance in between takes one nonce out of what the
key answered to, and where its nonces were distinct the key answers to the others as before. -/
theorem rolled_back_retry {gots : List Nat} (hd : IsDispute (r key)) (hne : n ∉ gots) :
    nonces key (failedRetry key n i tx gots r) = (nonces key r).diff gots ∧
      ((nonces key r).Nodup →
        ∀ m, Answers key (failedRetry key n i tx gots r) m ↔ Answers key r m ∧ m ∉ gots) ∧
      (∀ p, failedRetry key n i tx gots r key = some p → p.tx = none) ∧
      (∀ k ≠ key, failedRetry key n i tx gots r k = r k) ∧
      (nonces key (failedRetry key n i tx gots r) = [] →
        failedRetry key n i tx gots r key = none) := by
  have hregistered : registerDisputeRequest key n i tx r key =
      some ⟨n, i, .dispute (nonces key r), some tx⟩ := alter_self _ _ _
  have haccepted := acceptAll_superseded hne hregistered
  have hentry : failedRetry key n i tx gots r key =
      rollBackEntry n (some ⟨n, i, .dispute ((nonces key r).diff gots), some tx⟩) :=
    (alter_self _ _ _).trans (congrArg (rollBackEntry n) haccepted)
  have hlive := rollBackEntry_live n i ((nonces key r).diff gots) (some tx)
  have hnonces : nonces key (failedRetry key n i tx gots r) = (nonces key r).diff gots := by
    unfold nonces
    rw [hentry]
    exact hlive.1
  have hdispute : IsDispute (failedRetry key n i tx gots r key) := hentry ▸ hlive.2
  have hrolled := rollBackEntry_dispute n i ((nonces key r).diff gots) (some tx)
  refine ⟨hnonces, fun hnodup m => ?_, fun p hp => hrolled.1 p (hentry ▸ hp), fun k hk => ?_,
    fun hnil => hentry ▸ hrolled.2 (hnonces ▸ hnil)⟩
  · unfold Answers
    rw [accept_isSome_iff key m hdispute, accept_isSome_iff key m hd, hnonces]
    exact hnodup.mem_sdiff_iff
  · calc failedRetry key n i tx gots r k
        = acceptAll key gots (registerDisputeRequest key n i tx r) k := alter_of_ne _ _ _ hk
      _ = registerDisputeRequest key n i tx r k := acceptAll_other hk gots _
      _ = r k := alter_of_ne _ _ _ hk

/-- Of three attempts that timed out, two are accepted while a fourth fails. -/
theorem rolled_back_fourth_attempt :
    let r : Registry := Function.update (fun _ => none) "key" (some ⟨3, 0, .dispute [1, 2], none⟩)
    failedRetry "key" 4 0 0 [3, 1] r "key" = some ⟨2, 0, .dispute [], none⟩ ∧
      ∀ m, Answers "key" (failedRetry "key" 4 0 0 [3, 1] r) m ↔ Answers "key" r m ∧ m ∉ [3, 1] := by
  refine ⟨by decide, ?_⟩
  have hd : IsDispute (some (⟨3, 0, .dispute [1, 2], none⟩ : PendingRequest)) :=
    isDispute_some 3 0 [1, 2] none
  have hne : 4 ∉ [3, 1] := by decide
  exact (rolled_back_retry (by simpa using hd) hne).2.1 (by decide)

/-- A record that names an attempt twice. -/
def namedTwice : Registry :=
  Function.update (fun _ => none) "key" (some ⟨5, 0, .dispute [5], none⟩)

/-- **A nonce a record names twice** is still answered to after it was answered. -/
theorem named_twice_stays :
    IsDispute (namedTwice "key") ∧ 7 ∉ nonces "key" namedTwice ∧
      Answers "key" (registerDisputeRequest "key" 7 0 0 namedTwice) 5 ∧
      ¬ ∀ m, Answers "key" (failedRetry "key" 7 0 0 [5] namedTwice) m ↔
        Answers "key" namedTwice m ∧ m ∉ [5] := by
  have hd : IsDispute (some (⟨5, 0, .dispute [5], none⟩ : PendingRequest)) :=
    isDispute_some 5 0 [5] none
  refine ⟨by simpa [namedTwice] using hd, by decide, by decide, fun h => ?_⟩
  exact absurd ((h 5).mp (by decide)).2 (by decide)

end MostroApp.Pending
