import MostroApp.Api.Disputes

set_option autoImplicit false

/-! # The dispute chat's listener and the recorded solver

A delivery of `admin-took-dispute` records its solver, derives the chat key and starts a listener
with it. The start is a no-op while a task owns the order's slot, whatever key that task was built
with: a solver who takes a dispute over is recorded, and the listener of the solver before stays.
The listener is the recorded solver's as long as no solver is recorded over a listener of another
key and no late start takes the slot for a solver who has been replaced
(`listener_follows_solver`).
-/

namespace MostroApp.Disputes

open Transition Interleaving

variable {derive : ChatKeys}

/-! ## The recorded solver's key -/

/-- The chat key of the record's current solver. -/
def DisputeState.adminKey (derive : ChatKeys) (s : DisputeState) : Option String :=
  (s.record.bind (·.adminPubkey)).bind derive

/-- Whoever owns the slot was built with the recorded solver's key. -/
def ListenerOk (derive : ChatKeys) (s : DisputeState) : Prop :=
  ∀ own, s.chat = some own → s.adminKey derive = some own.2

theorem ListenerOk.record {s : DisputeState} (h : ListenerOk derive s) (hnone : s.record = none) :
    s.chat = none := by
  cases hc : s.chat with
  | none => rfl
  | some own =>
      have hkey := h own hc
      unfold DisputeState.adminKey at hkey
      rw [hnone] at hkey
      cases hkey

theorem takeAdmin_ok {admin : String} {existing dispute : Dispute}
    (h : existing.takeAdmin admin = .ok dispute) :
    existing.status ≠ .resolved ∧ dispute.adminPubkey = some admin := by
  unfold Dispute.takeAdmin at h
  by_cases hreview : existing.status = .inReview
  · rw [if_pos hreview] at h
    refine ⟨by simp [hreview], ?_⟩
    by_cases hsame : existing.adminPubkey ≠ some admin
    · rw [if_pos hsame] at h
      obtain rfl := Except.ok.inj h
      rfl
    · rw [if_neg hsame] at h
      obtain rfl := Except.ok.inj h
      exact not_not.mp hsame
  · rw [if_neg hreview] at h
    by_cases hopened : existing.status ≠ .opened
    · rw [if_pos hopened] at h
      cases h
    · rw [if_neg hopened] at h
      obtain rfl := Except.ok.inj h
      exact ⟨by simp [not_not.mp hopened], rfl⟩

/-! ## The slot -/

/-- **The slot is taken by a start that finds it free**, and else only given up. -/
theorem DisputeTask.step_chat (derive : ChatKeys) (w : DisputeOracle) (p : DisputeTask)
    (s : DisputeState) :
    (p.step derive w s).1.chat = s.chat ∨ (p.step derive w s).1.chat = none ∨
      ∃ key generation, p = .claimsChat key ∧ s.chat = none ∧
        (p.step derive w s).1.chat = some (generation, key) := by
  cases p with
  | claimsChat key =>
      cases hc : s.chat with
      | none =>
          refine Or.inr (Or.inr ⟨key, s.generation + w.others + 1, rfl, rfl, ?_⟩)
          simp only [DisputeTask.step, hc]
      | some own =>
          refine Or.inl ?_
          simp only [DisputeTask.step, hc]
  | releasesChat generation =>
      simp only [DisputeTask.step]
      split
      · exact Or.inr (Or.inl rfl)
      · exact Or.inl rfl
  | recordsLate id =>
      refine Or.inl ?_
      cases id with
      | none => rfl
      | some id => simp only [DisputeTask.step]; split <;> rfl
  | checksTrade | upsertsAdmin | persistsAdmin | listens | clearsAdmin | clearsMine | inserts
  | persistsOrigin | looks | readsAdmin | restores | arms =>
      refine Or.inl ?_
      simp only [DisputeTask.step]
      repeat' split
      all_goals rfl
  | derives | dropsMarker | lists | readsMine => exact Or.inl rfl

/-! ## When the listener follows -/

/-- No solver goes into the record while a listener of another key owns the slot, and a start
takes a free slot for the recorded solver only. -/
def FollowsSolver (derive : ChatKeys) (c : Pool DisputeState DisputeTask) :
    Label DisputeTask DisputeOracle DisputeAct → Prop
  | .step i _ =>
      match c.threads i with
      | some (.upsertsAdmin admin) =>
          c.shared.record.any (·.status = .resolved) = false →
            ∀ own ∈ c.shared.chat, derive admin = some own.2
      | some (.claimsChat key) => c.shared.chat = none → c.shared.adminKey derive = some key
      | _ => True
  | _ => True

instance (derive : ChatKeys) (c : Pool DisputeState DisputeTask)
    (l : Label DisputeTask DisputeOracle DisputeAct) : Decidable (FollowsSolver derive c l) := by
  unfold FollowsSolver
  split
  · split <;> infer_instance
  · infer_instance

theorem ListenerOk.step {c : Pool DisputeState DisputeTask} {i : Nat} {w : DisputeOracle}
    {p : DisputeTask} (h : ListenerOk derive c.shared) (hp : c.threads i = some p)
    (hopens : p.opens = false) (hC : FollowsSolver derive c (.step i w)) :
    ListenerOk derive (p.step derive w c.shared).1 := by
  intro own hown
  simp only [FollowsSolver, hp] at hC
  have hrecord := (DisputeTask.step_record derive w c.shared hopens).2
  rcases DisputeTask.step_chat derive w p c.shared with
    hchat | hchat | ⟨key, generation, rfl, hfree, hchat⟩
  · rw [hchat] at hown
    unfold DisputeState.adminKey
    cases hrecord with
    | same hsame =>
        rw [hsame]
        exact h own hown
    | takes admin hp hfrom =>
        subst hp
        rcases hfrom with ⟨-, hnone, -⟩ |
          ⟨existing, hsome, ⟨dispute, ht, hnew⟩ | ⟨-, hsame⟩⟩
        · exact absurd (hown.symm.trans (h.record hnone)) nofun
        · obtain ⟨hlive, hadmin⟩ := takeAdmin_ok ht
          have hkey : derive admin = some own.2 := by
            refine hC ?_ own hown
            rw [hsome]
            simpa using hlive
          rw [hnew]
          show dispute.adminPubkey.bind derive = some own.2
          rw [hadmin]
          exact hkey
        · rw [hsame, ← hsome]
          exact h own hown
    | restores _ _ _ hnone => exact absurd (hown.symm.trans (h.record hnone)) nofun
  · exact absurd (hown.symm.trans hchat) nofun
  · obtain rfl := Option.some.inj (hown.symm.trans hchat)
    have hsame : (DisputeTask.step derive w (.claimsChat key) c.shared).1.record =
        c.shared.record := by
      simp only [DisputeTask.step, hfree]
    unfold DisputeState.adminKey
    rw [hsame]
    exact hC hfree

theorem listenerOutline :
    Outline (disputeProg derive) (FollowsSolver derive) (ListenerOk derive)
      (fun p _ => p.opens = false) := by
  constructor
  · intro c i p _ _ henter _
    cases p <;> cases henter <;> rfl
  · intro c i w p s q hc hC hp hs
    obtain rfl := congrArg Prod.fst (Option.some.inj hs)
    exact hc.shared.step hp (hc.threads i p hp) hC
  · intro c i w p s p' hc _ hp hs
    have hnext : (p.step derive w c.shared).2 = some p' := congrArg Prod.snd (Option.some.inj hs)
    have hopens := hc.threads i p hp
    refine Bool.eq_false_iff.mpr fun h => ?_
    rw [(DisputeTask.step_opens hnext).1 h] at hopens
    cases hopens
  · exact fun c i w p s q j r hc _ _ _ _ hr => hc.threads j r hr
  · intro c a s _ _ hs own hown
    obtain rfl := Option.some.inj hs
    cases a
    cases hown
  · exact fun c a s i p hc _ _ hp => hc.threads i p hp

/-- **The listener follows the assignment**, in every state of every run of deliveries, passes and
listeners in which each step meets the condition. -/
theorem listener_follows_solver {s : DisputeState} {c : Pool DisputeState DisputeTask}
    {ls : List (Label DisputeTask DisputeOracle DisputeAct)} (hs : ListenerOk derive s)
    (hC : Along (disputeProg derive).next (FollowsSolver derive) (Pool.idle s) ls)
    (hr : run (disputeProg derive).next (Pool.idle s) ls = some c) (own : Nat × String)
    (hown : c.shared.chat = some own) : c.shared.adminKey derive = some own.2 :=
  (listenerOutline.run_inv (poolInv_idle hs) hC hr).shared own hown

/-! ## A solver who is replaced -/

/-- Every pubkey gives a key of its own. -/
def ownKey (admin : String) : Option String := some ("K-" ++ admin)

/-- Thread `i` delivers an `admin-took-dispute` up to the start of its listener. -/
def delivered (i : Nat) (admin : String) : List (Label DisputeTask DisputeOracle DisputeAct) :=
  [.spawn i (.checksTrade admin), .step i {}, .step i { minted := "local" }, .step i {},
    .step i {}, .step i {}]

/-- The solver on record and the slot's owner after a run from the empty state. -/
def slotAfter (ls : List (Label DisputeTask DisputeOracle DisputeAct)) :
    Option (Option String × Option (Nat × String)) :=
  (run (disputeProg ownKey).next (Pool.idle {}) ls).map fun c =>
    (c.shared.record.bind (·.adminPubkey), c.shared.chat)

/-- The first solver's listener exits before the second solver is delivered, and a replay of the
second finds its own listener. -/
def replacedAfterExit : List (Label DisputeTask DisputeOracle DisputeAct) :=
  delivered 0 "anna" ++ [.step 0 { exits := true }, .step 0 {}] ++ delivered 1 "bela" ++
    delivered 2 "bela"

theorem replaced_after_exit_follows :
    slotAfter replacedAfterExit = some (some "bela", some (2, "K-bela")) ∧
      ∃ c, run (disputeProg ownKey).next (Pool.idle {}) replacedAfterExit = some c ∧
        c.shared.chat = some (2, "K-bela") ∧ c.shared.adminKey ownKey = some "K-bela" := by
  refine ⟨by decide, ?_⟩
  obtain ⟨c, hc, hchat⟩ := Option.map_eq_some_iff.mp (show
    (run (disputeProg ownKey).next (Pool.idle {}) replacedAfterExit).map
      (fun c => c.shared.chat) = some (some (2, "K-bela")) by decide)
  exact ⟨c, hc, hchat, listener_follows_solver (fun _ h => by cases h) (by decide) hc _ hchat⟩

/-- **A solver who takes over a dispute another is listening on** is recorded, and the slot stays
with the key of the first: once both deliveries are finished the only task left listens on the
wrong key. So it is when the first solver's start is late and takes the slot before the second's. -/
theorem replaced_solver_unheard :
    slotAfter (delivered 0 "anna" ++ delivered 1 "bela") =
        some (some "bela", some (1, "K-anna")) ∧
      slotAfter ((delivered 0 "anna").take 5 ++ (delivered 1 "bela").take 5 ++
        [.step 0 {}, .step 1 {}]) = some (some "bela", some (1, "K-anna")) ∧
      (run (disputeProg ownKey).next (Pool.idle {}) (delivered 0 "anna" ++ delivered 1 "bela")).map
        (fun c => (c.threads 0, c.threads 1)) = some (some (.listens 1), none) := by
  refine ⟨?_, ?_, ?_⟩ <;> decide

end MostroApp.Disputes
