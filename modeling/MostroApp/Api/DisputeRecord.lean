import MostroApp.Api.Disputes

set_option autoImplicit false

/-! # The dispute record, whatever its sources' order

One accepted opening of ours, in time or late, beside any number of `admin-took-dispute`
deliveries and rehydration passes. A delivery that comes first leaves a placeholder, which the
opening claims; one that comes later goes into the opening's record, and none is refused. A pass
restores a record only from a solver that was stored before all of this, since none is stored
before there is a record. A restored record is a placeholder like a delivery's, unless the stored
marker says that it is ours: then it stands as it is, under an id of this device's. So at the end
the record is ours, names the last solver heard of, and has the daemon's id unless a pass had
restored it as ours (`dispute_record_any_order`).
-/

namespace MostroApp.Disputes

open Transition Interleaving

variable {derive : ChatKeys}

/-! ## Where the record stands -/

/-- The record has the solver and the status that goes with it. -/
def Dispute.Follows (solver : Option String) (dispute : Dispute) : Prop :=
  dispute.adminPubkey = solver ∧
    dispute.status = if solver.isSome then .inReview else .opened

/-- The last solver heard of: the last message's, or the restored record's. -/
def DisputeState.solver (s : DisputeState) : Option String :=
  s.took.head?.or (s.restored.map Prod.fst)

/-- A pass has restored the record as ours. -/
def DisputeState.restoredOurs (s : DisputeState) : Bool := s.restored.any Prod.snd

/-- No opening of ours is in the record yet: there is none, or a placeholder with the last
solver. -/
def DisputeState.Unclaimed (s : DisputeState) : Prop :=
  s.restoredOurs = false ∧
    (s.record = none ∧ s.solver = none ∨
      ∃ dispute, s.record = some dispute ∧ dispute.isPeerPlaceholder = true ∧
        dispute.adminPubkey = s.solver)

/-- The record is ours, under the daemon's id unless it was restored so. -/
def DisputeState.Claimed (id : String) (s : DisputeState) : Prop :=
  ∃ dispute, s.record = some dispute ∧ dispute.initiatedByMe = true ∧
    dispute.Follows s.solver ∧ (s.restoredOurs = false → dispute.id = id)

/-- What the opening may find. -/
def DisputeState.Before (id : String) (s : DisputeState) : Prop :=
  s.Unclaimed ∨ s.restoredOurs = true ∧ s.Claimed id

/-- No record, and nothing has happened yet. -/
def DisputeState.NoRecord (s : DisputeState) : Prop :=
  s.record = none ∧ s.took = [] ∧ s.restored = none

/-- An opening of ours the daemon has accepted under `id`: about to be inserted by the call that
holds the marker, or to be recorded late. -/
def DisputeState.Accepted (id : String) (s : DisputeState) (p : DisputeTask) : Prop :=
  (∃ reason, p = .inserts id reason ∧ s.pendingOpen = true) ∨ p = .recordsLate (some id)

theorem isPeerPlaceholder_iff {dispute : Dispute} :
    dispute.isPeerPlaceholder = true ↔ dispute.status = .inReview ∧
      dispute.initiatedByMe = false ∧ dispute.reason = none ∧
        dispute.adminPubkey.isSome = true := by
  simp [Dispute.isPeerPlaceholder, and_assoc]

theorem Dispute.Follows.live {solver : Option String} {dispute : Dispute}
    (h : dispute.Follows solver) : dispute.status ≠ .resolved := by
  rw [h.2]
  split <;> decide

/-! ## One write -/

/-- **A solver is refused by a resolved record only.** -/
theorem takeAdmin_live (admin : String) {existing : Dispute} (h : existing.status ≠ .resolved) :
    ∃ dispute, existing.takeAdmin admin = .ok dispute := by
  unfold Dispute.takeAdmin
  cases hs : existing.status with
  | opened => exact ⟨_, rfl⟩
  | inReview =>
      rw [if_pos rfl]
      split <;> exact ⟨_, rfl⟩
  | resolved => exact absurd hs h

/-- **A solver into a placeholder** leaves a placeholder with that solver. -/
theorem takeAdmin_placeholder {admin : String} {existing dispute : Dispute}
    (h : existing.isPeerPlaceholder = true) (ht : existing.takeAdmin admin = .ok dispute) :
    dispute.isPeerPlaceholder = true ∧ dispute.adminPubkey = some admin := by
  obtain ⟨hstatus, hmine, hreason, hadmin⟩ := isPeerPlaceholder_iff.mp h
  unfold Dispute.takeAdmin at ht
  rw [if_pos hstatus] at ht
  by_cases hsame : existing.adminPubkey ≠ some admin
  · rw [if_pos hsame] at ht
    obtain rfl := Except.ok.inj ht
    exact ⟨isPeerPlaceholder_iff.mpr ⟨hstatus, hmine, hreason, rfl⟩, rfl⟩
  · rw [if_neg hsame] at ht
    obtain rfl := Except.ok.inj ht
    exact ⟨h, not_not.mp hsame⟩

/-- **A solver into our record** keeps the id and the origin. -/
theorem takeAdmin_follows {admin : String} {solver : Option String} {existing dispute : Dispute}
    (h : existing.Follows solver) (ht : existing.takeAdmin admin = .ok dispute) :
    dispute.id = existing.id ∧ dispute.initiatedByMe = existing.initiatedByMe ∧
      dispute.Follows (some admin) := by
  unfold Dispute.takeAdmin at ht
  by_cases hreview : existing.status = .inReview
  · rw [if_pos hreview] at ht
    by_cases hsame : existing.adminPubkey ≠ some admin
    · rw [if_pos hsame] at ht
      obtain rfl := Except.ok.inj ht
      exact ⟨rfl, rfl, rfl, hreview⟩
    · rw [if_neg hsame] at ht
      obtain rfl := Except.ok.inj ht
      exact ⟨rfl, rfl, not_not.mp hsame, hreview⟩
  · have hopened : existing.status = .opened := by
      have hstatus := h.2
      split at hstatus
      · exact absurd hstatus hreview
      · exact hstatus
    rw [if_neg hreview, if_neg (not_not.mpr hopened)] at ht
    obtain rfl := Except.ok.inj ht
    exact ⟨rfl, rfl, rfl, rfl⟩

/-- A placeholder follows its solver, also once it is claimed. -/
theorem follows_of_placeholder {solver : Option String} {dispute : Dispute}
    (h : dispute.isPeerPlaceholder = true) (hadmin : dispute.adminPubkey = solver) :
    dispute.Follows solver := by
  obtain ⟨hstatus, -, -, hsome⟩ := isPeerPlaceholder_iff.mp h
  subst hadmin
  exact ⟨rfl, hstatus.trans (if_pos hsome).symm⟩

theorem Dispute.Restored.follows {admin : String} {mine : Bool} {dispute : Dispute}
    (h : dispute.Restored admin mine) : dispute.Follows (some admin) :=
  ⟨h.admin, h.status⟩

theorem Dispute.Restored.placeholder {admin : String} {dispute : Dispute}
    (h : dispute.Restored admin false) : dispute.isPeerPlaceholder = true :=
  isPeerPlaceholder_iff.mpr ⟨h.status, h.mine, h.reason, h.admin ▸ rfl⟩

/-- **The opening's write** puts the daemon's id into the record, where none restored as ours
stands. -/
theorem DisputeTask.step_accepted {id : String} {w : DisputeOracle} {p : DisputeTask}
    {s : DisputeState} (hp : s.Accepted id p) (hs : s.Before id) :
    (p.step derive w s).1.Claimed id := by
  rcases hs with ⟨-, ⟨hnone, hsolver⟩ | ⟨existing, hsome, hplace, hadmin⟩⟩ |
    ⟨hours, existing, hsome, hmine, hfollows, hid⟩
  · have fresh : ∀ dispute : Dispute, dispute.adminPubkey = none → dispute.status = .opened →
        dispute.Follows s.solver := by
      intro dispute hnone hopened
      rw [hsolver]
      exact ⟨hnone, hopened⟩
    rcases hp with ⟨reason, rfl, hheld⟩ | rfl
    · simp only [DisputeTask.step, hnone, tryInsertIfAbsentOrResolved]
      exact ⟨_, rfl, rfl, fresh _ rfl rfl, fun _ => rfl⟩
    · simp only [DisputeTask.step, hnone, upsertOrUpdate]
      exact ⟨_, rfl, rfl, fresh _ rfl rfl, fun _ => rfl⟩
  · have hfollows := follows_of_placeholder hplace hadmin
    rcases hp with ⟨reason, rfl, hheld⟩ | rfl
    · simp only [DisputeTask.step, hsome, tryInsertIfAbsentOrResolved, hplace, hheld,
        Bool.and_self, if_true]
      exact ⟨_, rfl, rfl, hfollows, fun _ => rfl⟩
    · simp only [DisputeTask.step, hsome, upsertOrUpdate, Dispute.claimLate, hplace, if_true]
      exact ⟨_, rfl, rfl, hfollows, fun _ => rfl⟩
  -- A record of ours is no placeholder: an insert is refused, a late acceptance leaves it.
  · have hplace : existing.isPeerPlaceholder = false := by
      simp [Dispute.isPeerPlaceholder, hmine]
    have hlive := hfollows.live
    rcases hp with ⟨reason, rfl, hheld⟩ | rfl
    · simp only [DisputeTask.step, hsome, tryInsertIfAbsentOrResolved, hplace, hheld,
        Bool.false_and, Bool.false_eq_true, if_false, ne_eq, hlive, not_false_eq_true, if_true]
      exact ⟨existing, hsome, hmine, hfollows, hid⟩
    · simp only [DisputeTask.step, hsome, upsertOrUpdate, Dispute.claimLate, hplace,
        Bool.false_eq_true, if_false]
      exact ⟨existing, rfl, hmine, hfollows, hid⟩

/-- **A delivery before the opening** leaves what the opening may find. -/
theorem Unclaimed.takes {admin : String} {s t : DisputeState} (h : s.Unclaimed)
    (hrecord : Dispute.Takes admin s.record t.record) (htook : t.took = admin :: s.took)
    (hrestored : t.restored = s.restored) : t.Unclaimed := by
  have hsolver : t.solver = some admin := by
    unfold DisputeState.solver
    rw [htook]
    rfl
  refine ⟨by rw [DisputeState.restoredOurs, hrestored]; exact h.1, Or.inr ?_⟩
  rw [hsolver]
  rcases hrecord with ⟨dispute, -, hnew, hplace, hadmin⟩ | ⟨existing, hsome, htakes⟩
  · exact ⟨dispute, hnew, hplace, hadmin⟩
  · obtain ⟨hplace, hadmin⟩ : existing.isPeerPlaceholder = true ∧
        existing.adminPubkey = s.solver := by
      rcases h.2 with ⟨hnone, -⟩ | ⟨r, hr, hplace, hadmin⟩
      · exact absurd (hsome.symm.trans hnone) nofun
      · obtain rfl := Option.some.inj (hr.symm.trans hsome)
        exact ⟨hplace, hadmin⟩
    obtain ⟨dispute, hok⟩ := takeAdmin_live admin
      (follows_of_placeholder hplace hadmin).live
    rcases htakes with ⟨d, ht, hnew⟩ | ⟨⟨e, he⟩, -⟩
    · exact ⟨d, hnew, takeAdmin_placeholder hplace ht⟩
    · exact absurd (hok.symm.trans he) nofun

/-- **A delivery into our record** is recorded there. -/
theorem Claimed.takes {id admin : String} {s t : DisputeState} (h : s.Claimed id)
    (hrecord : Dispute.Takes admin s.record t.record) (htook : t.took = admin :: s.took)
    (hrestored : t.restored = s.restored) : t.Claimed id := by
  obtain ⟨r, hr, hmine, hfollows, hid⟩ := h
  have hsolver : t.solver = some admin := by
    unfold DisputeState.solver
    rw [htook]
    rfl
  unfold DisputeState.Claimed DisputeState.restoredOurs
  rw [hsolver, hrestored]
  rcases hrecord with ⟨-, hnone, -⟩ | ⟨existing, hsome, htakes⟩
  · exact absurd (hr.symm.trans hnone) nofun
  · obtain rfl := Option.some.inj (hr.symm.trans hsome)
    obtain ⟨dispute, hok⟩ := takeAdmin_live admin hfollows.live
    rcases htakes with ⟨d, ht, hnew⟩ | ⟨⟨e, he⟩, -⟩
    · obtain ⟨hid', hmine', hfollows'⟩ := takeAdmin_follows hfollows ht
      exact ⟨d, hnew, hmine'.trans hmine, hfollows', fun hours => hid'.trans (hid hours)⟩
    · exact absurd (hok.symm.trans he) nofun

/-- A pass restores a placeholder, or a record of ours that nobody has claimed. -/
theorem Unclaimed.restores {id admin : String} {mine : Bool} {s t : DisputeState}
    (h : s.Unclaimed) (hnone : s.record = none) (htook : t.took = s.took)
    (hrecord : ∃ dispute, t.record = some dispute ∧ dispute.Restored admin mine)
    (hrestored : t.restored = some (admin, mine)) : t.Before id := by
  obtain ⟨dispute, hnew, hrest⟩ := hrecord
  have hsolver : t.solver = some admin := by
    have hbefore : s.took.head? = none := by
      rcases h.2 with ⟨-, hsolver⟩ | ⟨r, hr, -⟩
      · exact (Option.or_eq_none_iff.mp hsolver).1
      · exact absurd (hr.symm.trans hnone) nofun
    unfold DisputeState.solver
    rw [htook, hbefore, hrestored]
    rfl
  cases mine with
  | false =>
      refine Or.inl ⟨by rw [DisputeState.restoredOurs, hrestored]; rfl, Or.inr ?_⟩
      exact ⟨dispute, hnew, hrest.placeholder, hrest.admin.trans hsolver.symm⟩
  | true =>
      have hours : t.restoredOurs = true := by
        rw [DisputeState.restoredOurs, hrestored]
        rfl
      refine Or.inr ⟨hours, dispute, hnew, hrest.mine, hsolver ▸ hrest.follows, fun hnot => ?_⟩
      exact absurd (hours.symm.trans hnot) nofun

theorem DisputeState.Moves.before {id : String} {s t : DisputeState} {p : DisputeTask}
    (hmoves : s.Moves t p) (h : s.Before id) : t.Before id := by
  cases hmoves with
  | same hrecord htook hrestored =>
      unfold DisputeState.Before DisputeState.Unclaimed DisputeState.Claimed DisputeState.solver
        DisputeState.restoredOurs at h ⊢
      rw [hrecord, htook, hrestored]
      exact h
  | takes admin hp hrecord htook hrestored =>
      rcases h with h | ⟨hours, h⟩
      · exact Or.inl (Unclaimed.takes h hrecord htook hrestored)
      · refine Or.inr ⟨?_, Claimed.takes h hrecord htook hrestored⟩
        rw [DisputeState.restoredOurs, hrestored]
        exact hours
  | restores admin mine hp hnone htook hrecord hrestored =>
      rcases h with h | ⟨-, r, hr, -⟩
      · exact Unclaimed.restores h hnone htook hrecord hrestored
      · exact absurd (hr.symm.trans hnone) nofun

theorem DisputeState.Moves.claimed {id : String} {s t : DisputeState} {p : DisputeTask}
    (hmoves : s.Moves t p) (h : s.Claimed id) : t.Claimed id := by
  cases hmoves with
  | same hrecord htook hrestored =>
      unfold DisputeState.Claimed DisputeState.solver DisputeState.restoredOurs at h ⊢
      rw [hrecord, htook, hrestored]
      exact h
  | takes admin hp hrecord htook hrestored => exact Claimed.takes h hrecord htook hrestored
  | restores admin mine hp hnone =>
      obtain ⟨r, hr, -⟩ := h
      exact absurd (hr.symm.trans hnone) nofun

/-! ## What a pass restores from -/

section Origin

variable {admin₀ : Option String} {mine₀ : Bool}

/-- What a task may carry while there is no record: a pass, what was stored at the start; no task
is past a write of the record. -/
def DisputeTask.Brings (admin₀ : Option String) (mine₀ : Bool) : DisputeTask → Prop
  | .persistsAdmin _ | .persistsOrigin _ => False
  | .readsMine admin => admin₀ = some admin
  | .restores admin mine => admin₀ = some admin ∧ (mine = true → mine₀ = true)
  | _ => True

/-- While there is no record, nothing is stored that was not at the start, and a restored record
was restored from that. -/
structure StoredOk (admin₀ : Option String) (mine₀ : Bool) (s : DisputeState) : Prop where
  admin : s.record = none → ∀ admin, s.storedAdmin = some admin → admin₀ = some admin
  mine : s.record = none → s.storedMine = true → mine₀ = true
  restored : ∀ admin mine, s.restored = some (admin, mine) →
    admin₀ = some admin ∧ (mine = true → mine₀ = true)

def CarriesOk (admin₀ : Option String) (mine₀ : Bool) (p : DisputeTask) (s : DisputeState) :
    Prop :=
  s.record = none → p.Brings admin₀ mine₀

theorem DisputeTask.step_record_none {w : DisputeOracle} {p : DisputeTask} {s : DisputeState}
    (h : (p.step derive w s).1.record = none) : s.record = none := by
  cases hs : s.record with
  | none => rfl
  | some dispute =>
      have hsome := DisputeTask.step_record_isSome derive w p
        (show s.record.isSome = true by rw [hs]; rfl)
      rw [h] at hsome
      cases hsome

/-- **Only a delivery that has recorded its solver stores one**, and only an opening that has
written stores the marker. -/
theorem DisputeTask.step_stored (derive : ChatKeys) (w : DisputeOracle) (p : DisputeTask)
    (s : DisputeState) :
    ((p.step derive w s).1.storedAdmin = s.storedAdmin ∨
        (p.step derive w s).1.storedAdmin = none ∨ ∃ admin, p = .persistsAdmin admin) ∧
      ((p.step derive w s).1.storedMine = s.storedMine ∨
        (p.step derive w s).1.storedMine = false ∨ ∃ held, p = .persistsOrigin held) ∧
      ((p.step derive w s).1.restored = s.restored ∨
        ∃ admin mine, p = .restores admin mine ∧ s.record = none ∧
          (p.step derive w s).1.restored = some (admin, mine)) := by
  cases p with
  | persistsAdmin admin =>
      simp only [DisputeTask.step]
      exact ⟨.inr (.inr ⟨admin, rfl⟩), .inl (by split <;> rfl), .inl (by split <;> rfl)⟩
  | persistsOrigin held =>
      simp only [DisputeTask.step]
      exact ⟨.inl (by split <;> rfl), .inr (.inr ⟨held, rfl⟩), .inl (by split <;> rfl)⟩
  | clearsAdmin pass =>
      simp only [DisputeTask.step]
      split
      · exact ⟨.inr (.inl rfl), .inl rfl, .inl rfl⟩
      · exact ⟨.inl rfl, .inl rfl, .inl rfl⟩
  | clearsMine pass =>
      simp only [DisputeTask.step]
      split
      · exact ⟨.inl rfl, .inr (.inl rfl), .inl rfl⟩
      · exact ⟨.inl rfl, .inl rfl, .inl rfl⟩
  | restores admin mine =>
      cases hs : s.record with
      | none =>
          simp only [DisputeTask.step, hs, upsertOrUpdate]
          exact ⟨.inl rfl, .inl rfl, .inr ⟨admin, mine, rfl, trivial, rfl⟩⟩
      | some dispute =>
          simp only [DisputeTask.step, hs, upsertOrUpdate]
          exact ⟨.inl rfl, .inl rfl, .inl rfl⟩
  | recordsLate id =>
      cases id with
      | none => exact ⟨.inl rfl, .inl rfl, .inl rfl⟩
      | some id =>
          simp only [DisputeTask.step]
          split <;> exact ⟨.inl rfl, .inl rfl, .inl rfl⟩
  | checksTrade | upsertsAdmin | claimsChat | listens | releasesChat | inserts | looks | readsAdmin
  | arms =>
      simp only [DisputeTask.step]
      repeat' split
      all_goals exact ⟨.inl rfl, .inl rfl, .inl rfl⟩
  | derives | dropsMarker | lists | readsMine => exact ⟨.inl rfl, .inl rfl, .inl rfl⟩

theorem StoredOk.step {w : DisputeOracle} {p : DisputeTask} {s : DisputeState}
    (h : StoredOk admin₀ mine₀ s) (hp : CarriesOk admin₀ mine₀ p s) :
    StoredOk admin₀ mine₀ (p.step derive w s).1 := by
  obtain ⟨hadmin, hmine, hrestored⟩ := DisputeTask.step_stored derive w p s
  refine ⟨fun hnone admin hstored => ?_, fun hnone hstored => ?_, fun admin mine hr => ?_⟩
  · have hbefore := DisputeTask.step_record_none hnone
    rcases hadmin with hsame | hcleared | ⟨a, rfl⟩
    · exact h.admin hbefore admin (hsame ▸ hstored)
    · exact absurd (hstored.symm.trans hcleared) nofun
    · exact (hp hbefore).elim
  · have hbefore := DisputeTask.step_record_none hnone
    rcases hmine with hsame | hcleared | ⟨held, rfl⟩
    · exact h.mine hbefore (hsame ▸ hstored)
    · exact absurd (hstored.symm.trans hcleared) nofun
    · exact (hp hbefore).elim
  · rcases hrestored with hsame | ⟨a, m, rfl, hbefore, hset⟩
    · exact h.restored admin mine (hsame ▸ hr)
    · cases hset.symm.trans hr
      exact hp hbefore

/-- A task that goes on while there is no record carries what was stored at the start. -/
theorem CarriesOk.step {w : DisputeOracle} {p q : DisputeTask} {s : DisputeState}
    (h : StoredOk admin₀ mine₀ s) (hp : CarriesOk admin₀ mine₀ p s)
    (hq : (p.step derive w s).2 = some q) :
    CarriesOk admin₀ mine₀ q (p.step derive w s).1 := by
  intro hnone
  have hbefore := DisputeTask.step_record_none hnone
  have nobody : (p.step derive w s).1.record.isSome = true → False := by
    intro hsome
    rw [hnone] at hsome
    cases hsome
  cases DisputeTask.step_next hq with
  | recorded _ hrecord | opened _ _ hrecord | openedLate _ hrecord => exact nobody hrecord
  | read admin hstored => exact h.admin hbefore admin hstored
  | readMine admin mine hstored =>
      exact ⟨hp hbefore, fun hmine => h.mine hbefore (hstored hmine)⟩
  | _ => trivial

theorem storedOutline : Outline (disputeProg derive) (fun _ _ => True) (StoredOk admin₀ mine₀)
    (CarriesOk admin₀ mine₀) := by
  constructor
  · intro c i p _ _ henter _ _
    cases p with
    | checksTrade | lists => trivial
    | _ => cases henter
  · intro c i w p s q hc _ hp hs
    obtain rfl := congrArg Prod.fst (Option.some.inj hs)
    exact hc.shared.step (hc.threads i p hp)
  · intro c i w p s p' hc _ hp hs
    obtain rfl := congrArg Prod.fst (Option.some.inj hs)
    exact CarriesOk.step hc.shared (hc.threads i p hp)
      (congrArg Prod.snd (Option.some.inj hs))
  · intro c i w p s q j r hc _ _ hs _ hr hnone
    obtain rfl := congrArg Prod.fst (Option.some.inj hs)
    exact hc.threads j r hr (DisputeTask.step_record_none hnone)
  · intro c a s hc _ hs
    obtain rfl := Option.some.inj hs
    cases a
    exact ⟨hc.shared.admin, hc.shared.mine, hc.shared.restored⟩
  · intro c a s i p hc _ hs hp
    obtain rfl := Option.some.inj hs
    cases a
    exact hc.threads i p hp

end Origin

/-! ## Every interleaving -/

/-- Only thread `0` is an opening, and it has yet to write or the record is claimed. -/
structure Settling (id : String) (c : Pool DisputeState DisputeTask) : Prop where
  lone : ∀ i p, c.threads i = some p → p.opens = true → i = 0
  book : (∃ p, c.threads 0 = some p ∧ c.shared.Accepted id p ∧ c.shared.Before id) ∨
    (∀ p, c.threads 0 = some p → p.writesOpening = false) ∧ c.shared.Claimed id

/-- The end of an opening leaves the record. -/
theorem DisputeTask.step_origin (derive : ChatKeys) (w : DisputeOracle) {p : DisputeTask}
    (s : DisputeState) (hopens : p.opens = true) (hwrites : p.writesOpening = false) :
    s.Moves (p.step derive w s).1 p := by
  cases p with
  | persistsOrigin held =>
      simp only [DisputeTask.step]
      split <;> exact .same rfl rfl rfl
  | dropsMarker => exact .same rfl rfl rfl
  | inserts | recordsLate => cases hwrites
  | _ => cases hopens

theorem Accepted.opens {id : String} {s : DisputeState} {p : DisputeTask} (h : s.Accepted id p) :
    p.opens = true := by
  rcases h with ⟨_, rfl, _⟩ | rfl <;> rfl

theorem Settling.lone_keep {id : String} {c c' : Pool DisputeState DisputeTask}
    {l : Label DisputeTask DisputeOracle DisputeAct} (hc : Settling id c)
    (hn : (disputeProg derive).next c l = some c') (i : Nat) (p : DisputeTask)
    (hp : c'.threads i = some p) (hopens : p.opens = true) : i = 0 := by
  cases l with
  | spawn j r =>
      obtain ⟨henter, -, rfl⟩ := Prog.next_spawn.mp hn
      rcases threads_update hp with ⟨-, hr⟩ | ⟨-, hp⟩
      · obtain rfl := Option.some.inj hr
        cases r <;> cases henter <;> cases hopens
      · exact hc.lone i p hp hopens
  | step j w =>
      obtain ⟨r, s, q, hr, hs, rfl⟩ := Prog.next_step.mp hn
      rcases threads_update hp with ⟨rfl, hq⟩ | ⟨-, hp⟩
      · have hnext : (r.step derive w c.shared).2 = some p :=
          (congrArg Prod.snd (Option.some.inj hs)).trans hq
        exact hc.lone i r hr ((DisputeTask.step_opens hnext).1 hopens)
      · exact hc.lone i p hp hopens
  | env a =>
      obtain ⟨s, -, rfl⟩ := Prog.next_env.mp hn
      exact hc.lone i p hp hopens

/-- **One step of the pool.** The opening's own write claims the record; every other step keeps
what the record was. -/
theorem Settling.keep {id : String} (c : Pool DisputeState DisputeTask)
    (l : Label DisputeTask DisputeOracle DisputeAct) (c' : Pool DisputeState DisputeTask)
    (hc : Settling id c) (_ : True) (hn : (disputeProg derive).next c l = some c') :
    Settling id c' := by
  refine ⟨hc.lone_keep hn, ?_⟩
  cases l with
  | spawn i p =>
      obtain ⟨henter, hi, rfl⟩ := Prog.next_spawn.mp hn
      rcases hc.book with ⟨r, hr, hrest⟩ | ⟨hpast, hclaimed⟩
      · have hi0 : 0 ≠ i := by
          rintro rfl
          exact absurd (hr.symm.trans hi) nofun
        exact Or.inl ⟨r, (Function.update_of_ne hi0 ..).trans hr, hrest⟩
      · refine Or.inr ⟨fun r hr => ?_, hclaimed⟩
        rcases threads_update hr with ⟨-, hp⟩ | ⟨-, hr⟩
        · obtain rfl := Option.some.inj hp
          cases p <;> cases henter <;> rfl
        · exact hpast r hr
  | step i w =>
      obtain ⟨p, s, q, hp, hs, rfl⟩ := Prog.next_step.mp hn
      obtain rfl := congrArg Prod.fst (Option.some.inj hs)
      have hq : (p.step derive w c.shared).2 = q := congrArg Prod.snd (Option.some.inj hs)
      -- thread 0 is the opening: its write claims the record, what follows leaves it
      by_cases hi0 : i = 0
      · subst hi0
        have hpast : ∀ r, Function.update c.threads 0 q 0 = some r →
            r.writesOpening = false := by
          intro r hr
          rcases threads_update hr with ⟨-, hr⟩ | ⟨hne, -⟩
          · exact (DisputeTask.step_opens (hq.trans hr)).2
          · exact absurd rfl hne
        refine Or.inr ⟨hpast, ?_⟩
        rcases hc.book with ⟨r, hr, haccepted, hbefore⟩ | ⟨hwrites, hclaimed⟩
        · obtain rfl := Option.some.inj (hr.symm.trans hp)
          exact DisputeTask.step_accepted haccepted hbefore
        · by_cases hopens : p.opens = true
          · exact (DisputeTask.step_origin derive w c.shared hopens (hwrites p hp)).claimed hclaimed
          · exact (DisputeTask.step_record derive w c.shared
              (Bool.not_eq_true _ ▸ hopens)).2.claimed hclaimed
      -- any other thread delivers a solver or runs a pass
      · have hopens : p.opens = false :=
          Bool.eq_false_iff.mpr fun h => hi0 (hc.lone i p hp h)
        obtain ⟨hmarker, hmoves⟩ := DisputeTask.step_record derive w c.shared hopens
        have hne : 0 ≠ i := Ne.symm hi0
        rcases hc.book with ⟨r, hr, haccepted, hbefore⟩ | ⟨hwrites, hclaimed⟩
        · refine Or.inl ⟨r, (Function.update_of_ne hne ..).trans hr, ?_, hmoves.before hbefore⟩
          rcases haccepted with ⟨reason, rfl, hheld⟩ | rfl
          · exact Or.inl ⟨reason, rfl, hmarker.trans hheld⟩
          · exact Or.inr rfl
        · refine Or.inr ⟨fun r hr => ?_, hmoves.claimed hclaimed⟩
          rcases threads_update hr with ⟨h, -⟩ | ⟨-, hr⟩
          · exact absurd h hne
          · exact hwrites r hr
  | env a =>
      obtain ⟨s, hs, rfl⟩ := Prog.next_env.mp hn
      obtain rfl := Option.some.inj hs
      cases a
      exact hc.book

theorem settling_one {id : String} {s : DisputeState} {opening : DisputeTask} (hs : s.NoRecord)
    (ho : s.Accepted id opening) : Settling id (Pool.one s opening) := by
  obtain ⟨hrecord, htook, hrestored⟩ := hs
  refine ⟨fun i p hp _ => (threads_one hp).1,
    Or.inl ⟨opening, rfl, ho, Or.inl ⟨?_, Or.inl ⟨hrecord, ?_⟩⟩⟩⟩
  · show s.restored.any Prod.snd = false
    rw [hrestored]
    rfl
  · show s.took.head?.or (s.restored.map Prod.fst) = none
    rw [htook, hrestored]
    rfl

theorem stored_one {id : String} {s : DisputeState} {opening : DisputeTask} (hs : s.NoRecord)
    (ho : s.Accepted id opening) :
    PoolInv (StoredOk s.storedAdmin s.storedMine) (CarriesOk s.storedAdmin s.storedMine)
      (Pool.one s opening) := by
  refine ⟨⟨fun _ _ h => h, fun _ h => h, fun admin mine h => ?_⟩, fun i p hp _ => ?_⟩
  · exact absurd (h.symm.trans hs.2.2) nofun
  · obtain ⟨-, rfl⟩ := threads_one hp
    rcases ho with ⟨_, rfl, _⟩ | rfl <;> trivial

/-- The task is a listener of the dispute chat, which ends with the chat only. -/
def DisputeTask.isListener : DisputeTask → Bool
  | .listens _ | .releasesChat _ => true
  | _ => false

/-- The opening stands at its insert, the daemon's acceptance in hand, and a solver is stored. -/
def accepted : Pool DisputeState DisputeTask :=
  Pool.one { tradeId := "trade", pendingOpen := true, storedAdmin := some "carl" }
    (.inserts "daemon" (some "not paid"))

/-- Thread `i` delivers an `admin-took-dispute`, start to end; no trade key is at hand. -/
def delivers (i : Nat) (admin : String) : List (Label DisputeTask DisputeOracle DisputeAct) :=
  [.spawn i (.checksTrade admin), .step i {}, .step i { minted := "local" }, .step i {},
    .step i { reached := false }]

/-- Thread `i` is a pass that restores the record from the stored solver, up to its write. -/
def restoring (i : Nat) : List (Label DisputeTask DisputeOracle DisputeAct) :=
  [.spawn i .lists, .step i { row := some .active }, .step i {}, .step i {}, .step i {},
    .step i { minted := "local" }]

/-- A pass restores the record, a solver comes before our insert and another between it and the
end of our call. -/
def bothSides : List (Label DisputeTask DisputeOracle DisputeAct) :=
  restoring 3 ++ delivers 1 "anna" ++ [.step 0 {}] ++ delivers 2 "bela" ++
    [.step 3 {}, .step 3 { reached := false }, .step 0 {}, .step 0 {}]

/-- What is left of a late acceptance after a pass has restored the record: whether all have
finished, the solvers of the messages handled, and the record. -/
def restoredFirst (stored : DisputeState) :
    Option (Bool × List String × Option (String × Bool × DisputeStatus)) :=
  (run (disputeProg fun _ => none).next (Pool.one stored (.recordsLate (some "daemon")))
    (restoring 1 ++ [.step 1 {}, .step 1 { reached := false }, .step 0 {}, .step 0 {}])).map
      fun c => (c.finished 2, c.shared.took,
        c.shared.record.map fun d => (d.id, d.initiatedByMe, d.status))

end MostroApp.Disputes
