import MostroApp.Api.Push

set_option autoImplicit false

/-! # What one reconcile leaves

A reconcile whose calls are all accepted leaves nothing to plan (`plan_after_accepted`): key by
key, the row it leaves is one no rule of the plan applies to. Whatever the server answers, rows
stay under their own key, what is held is registered, and a grace clock is an old one or was
started by this reconcile.
-/

namespace MostroApp.Push

open Rows PushRegistration

/-! ## Clocks -/

theorem toInt_saturatingAdd_le {a b : Int64} (hb : 0 ≤ b.toInt) :
    (saturatingAdd a b).toInt ≤ a.toInt + b.toInt := by
  have ha := Int64.le_toInt a
  have hmin : Int64.minValue.toInt = -2 ^ 63 := by decide
  have hmax : Int64.maxValue.toInt = 2 ^ 63 - 1 := by decide
  unfold saturatingAdd Int64.ofIntClamp
  rw [dif_pos (by omega)]
  split
  · rw [Int64.toInt_ofIntLE]
  · omega

/-- A difference of clocks past a bound is a true difference. -/
theorem toInt_sub_of_lt {now since b : Int64} (hnow : 0 < now) (hb : 0 ≤ b.toInt)
    (h : b < now - since) : b.toInt < now.toInt - since.toInt := by
  have hnow' : 0 < now.toInt := Int64.lt_iff_toInt_lt.mp hnow
  have hlt := Int64.toInt_lt now
  have hge := Int64.le_toInt since
  have hlt' := Int64.toInt_lt since
  have hsub := Int64.lt_iff_toInt_lt.mp h
  rw [Int64.toInt_sub, Int.bmod_def] at hsub
  split at hsub <;> omega

/-- A refusal that still suppresses is not dropped from the map. -/
theorem keeps_active {refusedAt now : Int64} (hnow : 0 < now)
    (h : refusalActive refusedAt now = true) : now - refusedAt < 2 * NODE_REFUSAL_SECS := by
  have hnow' : 0 < now.toInt := Int64.lt_iff_toInt_lt.mp hnow
  have hwindow : NODE_REFUSAL_SECS.toInt = 86400 := by decide
  have htwo : (2 * NODE_REFUSAL_SECS).toInt = 172800 := by decide
  have hactive : now.toInt < (saturatingAdd refusedAt NODE_REFUSAL_SECS).toInt :=
    Int64.lt_iff_toInt_lt.mp (by simpa [refusalActive] using h)
  have hle : (saturatingAdd refusedAt NODE_REFUSAL_SECS).toInt ≤ _ :=
    toInt_saturatingAdd_le (by omega)
  have hlt := Int64.toInt_lt refusedAt
  rw [Int64.lt_iff_toInt_lt, Int64.toInt_sub, Int.bmod_def]
  split <;> omega

/-! ## The fixpoint -/

/-- Whether a wanted key is registered by the plan. -/
def registers (reg : Option PushRegistration) (tokenHash : String) (refusals : Refusals)
    (now : Int64) (node : String) : Bool :=
  !(refusals.lookup node).any (fun refusedAt => refusalActive refusedAt now) &&
    (due reg node tokenHash now && !reg.any fun r => r.backingOff now)

variable {reg : Option PushRegistration} {tokenHash token k node : String}
  {refusals : Refusals} {now : Int64} {server : Server} {platform : PushPlatform} {held : Bool}

theorem planWanted_eq : planWanted reg tokenHash refusals now k node =
    (if reg.any fun r => r.unwantedSince.isSome then [.noteWanted k] else []) ++
      if registers reg tokenHash refusals now node then [.register k node] else [] := by
  unfold planWanted registers
  congr 1
  cases (refusals.lookup node).any fun refusedAt => refusalActive refusedAt now <;> simp

/-- The row without a grace clock. -/
def clear (reg : Option PushRegistration) : Option PushRegistration :=
  reg.map fun r => { r with unwantedSince := none }

theorem registers_clear : registers (clear reg) tokenHash refusals now node =
    registers reg tokenHash refusals now node := by
  cases reg <;> rfl

/-- A wanted key after its actions: the clock is cleared, and what is to be registered is. -/
theorem seen_planWanted :
    (planWanted reg tokenHash refusals now k node).foldl
        (applySeen server token tokenHash platform now) (reg, held) =
      if registers reg tokenHash refusals now node then
        registerSeen server token tokenHash platform now k node (clear reg, held)
      else (clear reg, held) := by
  rw [planWanted_eq, List.foldl_append]
  have hnote : (if reg.any fun r => r.unwantedSince.isSome then [Action.noteWanted k]
      else []).foldl (applySeen server token tokenHash platform now) (reg, held) =
        (clear reg, held) := by
    cases reg with
    | none => rfl
    | some r =>
        cases hsince : r.unwantedSince with
        | none =>
            rw [if_neg (by simp [hsince])]
            show (some r, held) = (some { r with unwantedSince := none }, held)
            rw [← hsince]
        | some since =>
            rw [if_pos (by simp [hsince])]
            rfl
  rw [hnote]
  split <;> rfl

theorem due_accepted {r : PushRegistration} (hhash : tokenHash ≠ "") (hnow : 0 < now) :
    due (some (r.noteAccepted node tokenHash now)) node tokenHash now = false := by
  have hfresh : (0 : Int64) < REFRESH_SECS := by decide
  have hsame : ¬now < now := Int64.lt_irrefl
  simp only [due, isRegistered_noteAccepted r node hhash hnow]
  simp [noteAccepted, hfresh, hsame]

/-- A wanted key whose registration, if planned, is accepted has nothing left to do. -/
theorem planWanted_settled {refusals' : Refusals} (hhash : tokenHash ≠ "") (hnow : 0 < now)
    (hcall : registers reg tokenHash refusals now node = true →
      server (.register k token platform node) = .accepted)
    (hrefusals : (refusals.lookup node).any (fun refusedAt => refusalActive refusedAt now) = true →
      (refusals'.lookup node).any (fun refusedAt => refusalActive refusedAt now) = true) :
    planWanted ((planWanted reg tokenHash refusals now k node).foldl
      (applySeen server token tokenHash platform now) (reg, held)).1
        tokenHash refusals' now k node = [] := by
  rw [seen_planWanted, planWanted_eq]
  cases hreg : registers reg tokenHash refusals now node with
  | true =>
      rw [if_pos rfl]
      unfold registerSeen
      rw [hcall hreg]
      have hclock : ((clear reg).getD (pending k node)).unwantedSince = none := by
        cases reg <;> rfl
      have hdone : registers (some (((clear reg).getD (pending k node)).noteAccepted node
          tokenHash now)) tokenHash refusals' now node = false := by
        unfold registers
        rw [due_accepted hhash hnow, Bool.false_and, Bool.and_false]
      simp only [hdone]
      simp [noteAccepted, hclock]
  | false =>
      rw [if_neg Bool.false_ne_true]
      have hclock : ((clear reg).any fun r => r.unwantedSince.isSome) = false := by
        cases reg <;> rfl
      have hdone : registers (clear reg) tokenHash refusals' now node = false := by
        rw [registers_clear]
        unfold registers at hreg ⊢
        cases hactive : (refusals.lookup node).any fun refusedAt => refusalActive refusedAt now with
        | true => simp [hrefusals hactive]
        | false =>
            rw [hactive] at hreg
            simp only [Bool.not_false, Bool.true_and] at hreg
            rw [hreg, Bool.and_false]
      simp only [hclock, hdone]
      rfl

/-- The same for a row that is not wanted. -/
theorem planStale_settled {r : PushRegistration}
    (hcall : .unregister r.tradePubkey ∈ planStale now r →
      server (.unregister r.tradePubkey) = .accepted) :
    ((((planStale now r).foldl (applySeen server token tokenHash platform now)
      (some r, held)).1).map (planStale now)).getD [] = [] := by
  rcases planStale_cases now r with hp | ⟨hp, -⟩ | ⟨hp, hreg⟩ | ⟨hp, -⟩ <;> rw [hp]
  · exact hp
  · rfl
  · have hgrace : ¬GRACE_SECS < now - now := by
      rw [Int64.sub_self]
      decide
    have hreg' : ({ r with unwantedSince := some now } : PushRegistration).isRegistered = true :=
      hreg
    show planStale now { r with unwantedSince := some now } = []
    unfold planStale
    rw [hreg', if_neg (by simp)]
    exact if_neg hgrace
  · have haccepted := hcall (hp ▸ List.mem_singleton_self _)
    simp [applySeen, unregisterSeen, haccepted]

/-! ## What every action keeps -/

/-- The row, if there is one, is under its own key. -/
def OwnKey (k : String) (s : Seen) : Prop := ∀ r, s.1 = some r → r.tradePubkey = k

/-- The grace clock of a key. -/
def Seen.clock (s : Seen) : Option Int64 := s.1.bind fun r => r.unwantedSince

/-- What the server holds is registered. -/
def Seen.Good (s : Seen) : Prop := s.2 = true → s.1.any isRegistered = true

variable {outcome : ServerOutcome} {s : Seen} {a : Action}

theorem failRow_eq (outcome : ServerOutcome) (now : Int64) (row : Option PushRegistration) :
    failRow outcome now row = row ∨
      ∃ retryAfter, failRow outcome now row = row.map fun r => r.noteFailed now retryAfter := by
  unfold failRow
  cases outcome.failure with
  | none => exact Or.inl rfl
  | some m => exact Or.inr ⟨m.1, rfl⟩

theorem ownKey_failRow {row : Option PushRegistration} {b b' : Bool} (h : OwnKey k (row, b)) :
    OwnKey k (failRow outcome now row, b') := by
  rcases failRow_eq outcome now row with hf | ⟨retryAfter, hf⟩ <;> rw [hf]
  · exact h
  · intro r hr
    obtain ⟨r₀, h₀, rfl⟩ := Option.map_eq_some_iff.mp hr
    exact h r₀ h₀

theorem clock_failRow (row : Option PushRegistration) (b : Bool) :
    Seen.clock (failRow outcome now row, b) = row.bind fun r => r.unwantedSince := by
  rcases failRow_eq outcome now row with hf | ⟨retryAfter, hf⟩ <;> rw [hf]
  · rfl
  · cases row <;> rfl

theorem registered_failRow (row : Option PushRegistration) :
    (failRow outcome now row).any isRegistered = row.any isRegistered := by
  rcases failRow_eq outcome now row with hf | ⟨retryAfter, hf⟩ <;> rw [hf]
  cases row <;> rfl

/-- What an unregistration leaves: nothing, or the row with a failed attempt on it. -/
theorem unregisterSeen_eq (server : Server) (now : Int64) (k : String) (s : Seen) :
    unregisterSeen server now k s = (none, false) ∨
      ∃ outcome, unregisterSeen server now k s = (failRow outcome now s.1, s.2) := by
  unfold unregisterSeen
  cases server (.unregister k) with
  | accepted => exact Or.inl rfl
  | refused | rateLimited | badRequest | failed => exact Or.inr ⟨_, rfl⟩

/-- What a registration leaves: an accepted row, what there was, or a failed attempt on the row or
on a placeholder. -/
theorem registerSeen_eq (server : Server) (token tokenHash : String) (platform : PushPlatform)
    (now : Int64) (k node : String) (s : Seen) :
    registerSeen server token tokenHash platform now k node s =
        (some ((s.1.getD (pending k node)).noteAccepted node tokenHash now), true) ∨
      registerSeen server token tokenHash platform now k node s = s ∨
      ∃ outcome, registerSeen server token tokenHash platform now k node s =
        (failRow outcome now (some (s.1.getD (pending k node))), s.2) := by
  unfold registerSeen
  cases server (.register k token platform node) with
  | accepted => exact Or.inl rfl
  | refused => exact Or.inr (Or.inl rfl)
  | rateLimited | badRequest | failed => exact Or.inr (Or.inr ⟨_, rfl⟩)

theorem ownKey_getD (h : OwnKey k s) : (s.1.getD (pending k node)).tradePubkey = k := by
  cases hr : s.1 with
  | none => rfl
  | some r => exact h r hr

theorem ownKey_unregister (h : OwnKey k s) : OwnKey k (unregisterSeen server now k s) := by
  rcases unregisterSeen_eq server now k s with he | ⟨outcome, he⟩ <;> rw [he]
  · exact nofun
  · exact ownKey_failRow h

theorem ownKey_apply (ha : a.key = k) (h : OwnKey k s) :
    OwnKey k (applySeen server token tokenHash platform now s a) := by
  subst ha
  cases a with
  | register k node =>
      have hrow : (s.1.getD (pending k node)).tradePubkey = k := ownKey_getD h
      rcases registerSeen_eq server token tokenHash platform now k node s with
        he | he | ⟨outcome, he⟩ <;> rw [applySeen, he]
      · exact fun r hr => Option.some.inj hr ▸ hrow
      · exact h
      · exact ownKey_failRow (b := false) fun r hr => Option.some.inj hr ▸ hrow
  | unregister k => exact ownKey_unregister h
  | noteUnwanted k | noteWanted k =>
      intro r hr
      obtain ⟨r₀, h₀, rfl⟩ := Option.map_eq_some_iff.mp hr
      exact h r₀ h₀
  | forget k => exact nofun

/-- No action but the one that starts the clock sets it, and a registration keeps it. -/
theorem clock_register (k node : String) :
    (registerSeen server token tokenHash platform now k node s).clock = s.clock := by
  rcases registerSeen_eq server token tokenHash platform now k node s with
    he | he | ⟨outcome, he⟩ <;> rw [he]
  · unfold Seen.clock
    cases s.1 <;> rfl
  · rw [clock_failRow]
    unfold Seen.clock
    cases s.1 <;> rfl

theorem clock_unregister {since : Int64} (h : (unregisterSeen server now k s).clock = some since) :
    s.clock = some since := by
  rcases unregisterSeen_eq server now k s with he | ⟨outcome, he⟩ <;> rw [he] at h
  · cases h
  · exact (clock_failRow _ _).symm.trans h

theorem good_unregister (h : s.Good) : (unregisterSeen server now k s).Good := by
  rcases unregisterSeen_eq server now k s with he | ⟨outcome, he⟩ <;> rw [he]
  · exact nofun
  · exact fun hheld => (registered_failRow _).trans (h hheld)

theorem good_apply (hhash : tokenHash ≠ "") (hnow : 0 < now) (h : s.Good)
    (hforget : ∀ k, a = .forget k → s.1.any isRegistered = false) :
    (applySeen server token tokenHash platform now s a).Good := by
  cases a with
  | register k node =>
      rcases registerSeen_eq server token tokenHash platform now k node s with
        he | he | ⟨outcome, he⟩ <;> rw [applySeen, he]
      · exact fun _ => isRegistered_noteAccepted _ node hhash hnow
      · exact h
      · intro hheld
        rw [registered_failRow]
        have hreg := h hheld
        cases hr : s.1 with
        | none => exact absurd hreg (by simp [hr])
        | some r => simpa [hr] using hreg
  | unregister k => exact good_unregister h
  | noteUnwanted k | noteWanted k =>
      intro hheld
      have hreg := h hheld
      unfold applySeen
      cases hr : s.1 with
      | none => exact absurd hreg (by simp [hr])
      | some r =>
          have hreg : r.isRegistered = true := by simpa [hr] using hreg
          exact hreg
  | forget k =>
      intro hheld
      exact absurd (h hheld) (by simp [hforget k rfl])

/-! ## One reconcile -/

variable {hash : String → String} {state : PushState} {wanted : Wanted}
  {registrations : Registrations}

theorem key_planFor (hkeyed : Keyed registrations)
    (h : a ∈ planFor wanted registrations tokenHash refusals now k) : a.key = k := by
  rw [← filter_plan hkeyed] at h
  simpa using (List.mem_filter.mp h).2

/-- What a reconcile shows of a key has what it showed before, through the actions of the key or
the one step that lets go of it. -/
theorem seen_cases (hkeyed : Keyed state.registrations) (held : String → Bool) (k : String) :
    (∃ token platform, state.active = true ∧ state.token = some token ∧
        (reconcileCore hash server state wanted now).seen held k =
          (planFor wanted state.registrations (hash token) state.refusals now k).foldl
            (applySeen server token (hash token) platform now)
            (state.registrations.lookup k, held k)) ∨
      state.active = false ∧
        ((reconcileCore hash server state wanted now).seen held k =
            (state.registrations.lookup k, held k) ∧ state.registrations.lookup k = none ∨
          (reconcileCore hash server state wanted now).seen held k =
            dropSeen server now k (state.registrations.lookup k, held k)) := by
  cases hact : state.active with
  | true =>
      obtain ⟨token, platform, ht, hp, he⟩ := PushState.active_iff.mp hact
      exact Or.inl ⟨token, platform, rfl, ht, seen_reconcile ht hp he hkeyed held k⟩
  | false =>
      refine Or.inr ⟨rfl, ?_⟩
      rw [seen_drop hact held k]
      cases hr : state.registrations.lookup k with
      | none => exact Or.inl ⟨rfl, rfl⟩
      | some r => exact Or.inr rfl

theorem dropSeen_eq (server : Server) (now : Int64) (k : String) (s : Seen) :
    (s.1.any isRegistered = true ∧ dropSeen server now k s = unregisterSeen server now k s) ∨
      s.1.any isRegistered = false ∧ dropSeen server now k s = (none, s.2) := by
  unfold dropSeen
  cases hreg : s.1.any isRegistered with
  | true => exact Or.inl ⟨rfl, if_pos rfl⟩
  | false => exact Or.inr ⟨rfl, if_neg Bool.false_ne_true⟩

/-- Rows stay under their own key. -/
theorem keyed_reconcile (hkeyed : Keyed state.registrations) :
    Keyed (reconcileCore hash server state wanted now).state.registrations := by
  intro k
  show OwnKey k ((reconcileCore hash server state wanted now).seen (fun _ => false) k)
  have hown : OwnKey k (state.registrations.lookup k, false) := hkeyed k
  rcases seen_cases hkeyed (fun _ => false) k with
    ⟨token, platform, -, -, he⟩ | ⟨-, ⟨he, -⟩ | he⟩ <;> rw [he]
  · exact List.foldlRecOn (motive := OwnKey k) _ _ hown
      fun s hs a ha => ownKey_apply (key_planFor hkeyed ha) hs
  · exact hown
  · rcases dropSeen_eq server now k (state.registrations.lookup k, false) with
      ⟨-, hd⟩ | ⟨-, hd⟩ <;> rw [hd]
    · exact ownKey_unregister hown
    · exact nofun

/-- What is held before a reconcile and after it is registered then. -/
theorem good_reconcile (hhash : ∀ t, hash t ≠ "") (hnow : 0 < now)
    (hkeyed : Keyed state.registrations) {held : String → Bool}
    (h : Seen.Good (state.registrations.lookup k, held k)) :
    ((reconcileCore hash server state wanted now).seen held k).Good := by
  rcases seen_cases hkeyed held k with ⟨token, platform, -, -, he⟩ | ⟨-, ⟨he, -⟩ | he⟩ <;> rw [he]
  · unfold planFor
    cases hw : wanted.lookup k with
    | some node =>
        -- A wanted key is never forgotten.
        refine List.foldlRecOn (motive := Seen.Good) _ _ h fun s hs a ha => ?_
        refine good_apply (hhash token) hnow hs fun k' hf => ?_
        subst hf
        rcases mem_planWanted ha with hf | hf <;> cases hf
    | none =>
        cases hr : state.registrations.lookup k with
        | none =>
            rw [hr] at h
            exact h
        | some r =>
            rw [hr] at h
            have step : ∀ a, (∀ k', a = .forget k' → r.isRegistered = false) →
                (applySeen server token (hash token) platform now (some r, held k) a).Good :=
              fun a => good_apply (hhash token) hnow h
            show Seen.Good ((planStale now r).foldl _ (some r, held k))
            rcases planStale_cases now r with hp | ⟨hp, hreg⟩ | ⟨hp, -⟩ | ⟨hp, -⟩ <;> rw [hp]
            · exact h
            · exact step (.forget r.tradePubkey) fun _ _ => hreg
            · exact step (.noteUnwanted r.tradePubkey) fun _ hf => nomatch hf
            · exact step (.unregister r.tradePubkey) fun _ hf => nomatch hf
  · exact h
  · rcases dropSeen_eq server now k (state.registrations.lookup k, held k) with
      ⟨-, hd⟩ | ⟨hreg, hd⟩ <;> rw [hd]
    · exact good_unregister h
    · exact fun hheld => absurd (h hheld) (by simp [hreg])

/-- A clock after a reconcile was there before, or was started by it; a reconcile by the plan
finds the key unwanted then. -/
theorem clock_reconcile (hkeyed : Keyed state.registrations) {since : Int64}
    (h : ((reconcileCore hash server state wanted now).state.registrations.lookup k).bind
      (fun r => r.unwantedSince) = some since) :
    (state.active = true → wanted.lookup k = none) ∧
      ((state.registrations.lookup k).bind (fun r => r.unwantedSince) = some since ∨
        state.active = true ∧ since = now) := by
  have h : ((reconcileCore hash server state wanted now).seen (fun _ => false) k).clock =
    some since := h
  rcases seen_cases hkeyed (fun _ => false) k with
    ⟨token, platform, hact, -, he⟩ | ⟨hoff, ⟨he, -⟩ | he⟩ <;> rw [he] at h
  · unfold planFor at h
    cases hw : wanted.lookup k with
    | some node =>
        -- The clock of a wanted key is cleared.
        rw [hw] at h
        simp only [seen_planWanted] at h
        have hclear : Seen.clock (clear (state.registrations.lookup k), false) = none := by
          cases state.registrations.lookup k <;> rfl
        split at h
        · rw [clock_register, hclear] at h
          cases h
        · rw [hclear] at h
          cases h
    | none =>
        refine ⟨fun _ => rfl, ?_⟩
        rw [hw] at h
        cases hr : state.registrations.lookup k with
        | none =>
            rw [hr] at h
            cases h
        | some r =>
            rw [hr] at h
            have h : Seen.clock ((planStale now r).foldl _ (some r, false)) = some since := h
            rcases planStale_cases now r with hp | ⟨hp, -⟩ | ⟨hp, -⟩ | ⟨hp, -⟩ <;> rw [hp] at h
            · exact Or.inl h
            · cases h
            · exact Or.inr ⟨hact, (Option.some.inj h).symm⟩
            · exact Or.inl (clock_unregister h)
  · exact ⟨fun hact => absurd (hoff.symm.trans hact) nofun, Or.inl h⟩
  · refine ⟨fun hact => absurd (hoff.symm.trans hact) nofun, Or.inl ?_⟩
    rcases dropSeen_eq server now k (state.registrations.lookup k, false) with
      ⟨-, hd⟩ | ⟨-, hd⟩ <;> rw [hd] at h
    · exact clock_unregister h
    · cases h

theorem mem_plan (hkeyed : Keyed registrations)
    (h : a ∈ planFor wanted registrations tokenHash refusals now k) :
    a ∈ plan wanted registrations tokenHash refusals now := by
  rw [← filter_plan hkeyed] at h
  exact (List.mem_filter.mp h).1

/-- **The fixpoint**: after a reconcile whose calls were all accepted nothing is planned. -/
theorem plan_after_accepted (hhash : ∀ t, hash t ≠ "") (hnow : 0 < now)
    (hkeyed : Keyed state.registrations) (ht : state.token = some token)
    (hp : state.platform = some platform) (he : state.enabled = true)
    (hall : ∀ e ∈ (reconcileCore hash server state wanted now).calls, e.2 = .accepted) :
    plan wanted (reconcileCore hash server state wanted now).state.registrations (hash token)
      (reconcileCore hash server state wanted now).state.refusals now = [] := by
  refine plan_eq_nil (keyed_reconcile hkeyed) fun k => ?_
  have hrow : (reconcileCore hash server state wanted now).state.registrations.lookup k = _ :=
    congrArg Prod.fst (seen_reconcile ht hp he hkeyed (fun _ => false) k)
  have haccepted : ∀ a call,
      a ∈ planFor wanted state.registrations (hash token) state.refusals now k →
      a.call token platform = some call → server call = .accepted := fun a call ha hcall =>
    hall _ (mem_calls ht hp he hcall (mem_plan hkeyed ha))
  unfold planFor at haccepted hrow ⊢
  rw [hrow, refusals_reconcile ht hp he hall]
  cases hw : wanted.lookup k with
  | some node =>
      simp only [hw] at haccepted ⊢
      refine planWanted_settled (hhash token) hnow (fun hreg => ?_) fun hactive => ?_
      · refine haccepted (.register k node) _ ?_ rfl
        rw [planWanted_eq, if_pos hreg]
        exact List.mem_append_right _ (List.mem_singleton_self _)
      · rw [lookup_retain]
        cases hat : state.refusals.lookup node with
        | none => exact absurd hactive (by simp [hat])
        | some refusedAt =>
            have hactive : refusalActive refusedAt now = true := by simpa [hat] using hactive
            simp [keeps_active hnow hactive, hactive]
  | none =>
      simp only [hw] at haccepted ⊢
      cases hr : state.registrations.lookup k with
      | none => rfl
      | some r =>
          simp only [hr] at haccepted ⊢
          exact planStale_settled fun hmem => haccepted _ _ hmem rfl

theorem mem_planFor (hkeyed : Keyed registrations)
    (h : a ∈ plan wanted registrations tokenHash refusals now) :
    a ∈ planFor wanted registrations tokenHash refusals now a.key := by
  rw [← filter_plan hkeyed]
  exact List.mem_filter.mpr ⟨h, by simp⟩

/-- An action of the plan is on a wanted key, or on the row of one that is not wanted. -/
theorem mem_plan_cases (hkeyed : Keyed registrations)
    (h : a ∈ plan wanted registrations tokenHash refusals now) :
    (∃ node, wanted.lookup a.key = some node ∧ (a = .noteWanted a.key ∨ a = .register a.key node)) ∨
      wanted.lookup a.key = none ∧
        ∃ r, registrations.lookup a.key = some r ∧ a ∈ planStale now r := by
  have h := mem_planFor hkeyed h
  unfold planFor at h
  cases hw : wanted.lookup a.key with
  | some node =>
      rw [hw] at h
      exact Or.inl ⟨node, rfl, mem_planWanted h⟩
  | none =>
      rw [hw] at h
      cases hr : registrations.lookup a.key with
      | none => simp [hr] at h
      | some r =>
          rw [hr] at h
          exact Or.inr ⟨rfl, r, rfl, h⟩

/-- A row that is not wanted is forgotten, put on the clock, or unregistered past its grace. -/
theorem mem_planStale {r : PushRegistration} (h : a ∈ planStale now r) :
    a = .forget r.tradePubkey ∨ a = .noteUnwanted r.tradePubkey ∨
      a = .unregister r.tradePubkey ∧
        ∃ since, r.unwantedSince = some since ∧ GRACE_SECS < now - since := by
  rcases planStale_cases now r with hp | ⟨hp, -⟩ | ⟨hp, -⟩ | ⟨hp, hgrace⟩ <;> rw [hp] at h
  · cases h
  · exact Or.inl (List.mem_singleton.mp h)
  · exact Or.inr (Or.inl (List.mem_singleton.mp h))
  · exact Or.inr (Or.inr ⟨List.mem_singleton.mp h, hgrace⟩)

/-- A key that is registered by the plan is wanted. -/
theorem wanted_of_register (hkeyed : Keyed registrations)
    (h : .register k node ∈ plan wanted registrations tokenHash refusals now) :
    wanted.lookup k ≠ none := by
  rcases mem_plan_cases hkeyed h with ⟨node', hw, -⟩ | ⟨-, r, -, hstale⟩
  · exact fun hnone => nomatch hnone.symm.trans hw
  · rcases mem_planStale hstale with hf | hf | ⟨hf, -⟩ <;> cases hf

/-- A key that is unregistered by the plan is not wanted and past its grace. -/
theorem stale_of_unregister (hkeyed : Keyed registrations)
    (h : .unregister k ∈ plan wanted registrations tokenHash refusals now) :
    wanted.lookup k = none ∧ ∃ since, GRACE_SECS < now - since ∧
      (registrations.lookup k).bind (fun r => r.unwantedSince) = some since := by
  rcases mem_plan_cases hkeyed h with ⟨node, -, hf | hf⟩ | ⟨hw, r, hr, hstale⟩
  · cases hf
  · cases hf
  · have hr : registrations.lookup k = some r := hr
    rcases mem_planStale hstale with hf | hf | ⟨-, since, hs, hgrace⟩
    · cases hf
    · cases hf
    · exact ⟨hw, since, hgrace, by rw [hr]; exact hs⟩

/-- A key that is forgotten by the plan is not wanted. -/
theorem stale_of_forget (hkeyed : Keyed registrations)
    (h : .forget k ∈ plan wanted registrations tokenHash refusals now) :
    wanted.lookup k = none := by
  rcases mem_plan_cases hkeyed h with ⟨node, -, hf | hf⟩ | ⟨hw, -⟩
  · cases hf
  · cases hf
  · exact hw

end MostroApp.Push
