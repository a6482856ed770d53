import MostroApp.Api.PushOutcomes

set_option autoImplicit false

/-! # Runs of reconciles

The maps are saved from one reconcile to the next, and everything else is new each time: the
settings, the wanted set, the clock and what the server answers. A key is only unregistered by the
plan when a reconcile found it unwanted long enough before, and none since found it wanted; and a
key with an accepted registration that no accepted unregistration follows is in the map as
registered.
-/

namespace MostroApp.Push

open Rows PushRegistration

/-- What a reconcile of a run has besides the saved maps. -/
structure Pass where
  enabled : Bool
  token : Option String
  platform : Option PushPlatform
  wanted : Wanted
  now : Int64
  server : Server

/-- The maps as persisted. -/
structure Saved where
  registrations : Registrations
  refusals : Refusals

/-- `load_state`. -/
def Saved.load (s : Saved) (p : Pass) : PushState where
  enabled := p.enabled
  token := p.token.filter fun t => t != ""
  platform := p.platform
  registrations := s.registrations
  refusals := s.refusals

/-- `reconcile_with` between load and save. -/
def Saved.reconcile (hash : String → String) (s : Saved) (p : Pass) : Core :=
  let state := s.load p
  let wanted := if state.enabled && state.token.isSome then p.wanted else ∅
  reconcileCore hash p.server state wanted p.now

def Core.save (c : Core) : Saved := ⟨c.state.registrations, c.state.refusals⟩

/-- The maps after the passes. -/
def Saved.after (hash : String → String) (s : Saved) (ps : List Pass) : Saved :=
  ps.foldl (fun s p => (s.reconcile hash p).save) s

/-- The calls of the passes, in order, with their outcomes. -/
def Saved.calls (hash : String → String) : Saved → List Pass → List (Call × ServerOutcome)
  | _, [] => []
  | s, p :: ps => (s.reconcile hash p).calls ++ Saved.calls hash (s.reconcile hash p).save ps

/-- The pass goes by the plan: push is enabled, and there is a device token. -/
def Pass.active (p : Pass) : Bool :=
  p.enabled && (p.token.filter fun t => t != "").isSome && p.platform.isSome

/-- The pass looked at the wanted set and found the key outside it. -/
def Pass.FoundUnwanted (p : Pass) (k : String) : Prop :=
  p.active = true ∧ p.wanted.lookup k = none

/-- None of the passes found the key wanted. -/
def NoneWanted (ps : List Pass) (k : String) : Prop :=
  ∀ p ∈ ps, p.active = true → p.wanted.lookup k = none

/-- One of the passes found the key unwanted at that clock, and none since found it wanted. -/
def UnwantedSince (ps : List Pass) (k : String) (since : Int64) : Prop :=
  ∃ before p later, ps = before ++ p :: later ∧ p.FoundUnwanted k ∧ p.now = since ∧
    NoneWanted later k

/-- An accepted registration of the key that no accepted unregistration follows. -/
def Held (k : String) (calls : List (Call × ServerOutcome)) : Prop :=
  ∃ before token platform node later,
    calls = before ++ (.register k token platform node, .accepted) :: later ∧
      (.unregister k, .accepted) ∉ later

variable {hash : String → String} {s : Saved} {p : Pass} {ps : List Pass} {k : String}

/-! ## The clocks of a run -/

theorem Saved.reconcile_active (hact : p.active = true) :
    ∃ token platform, (s.load p).token = some token ∧ (s.load p).platform = some platform ∧
      (s.load p).enabled = true ∧
      s.reconcile hash p = reconcileCore hash p.server (s.load p) p.wanted p.now := by
  have hact : (s.load p).active = true := hact
  obtain ⟨token, platform, ht, hp, he⟩ := PushState.active_iff.mp hact
  refine ⟨token, platform, ht, hp, he, ?_⟩
  unfold Saved.reconcile
  simp only [ht, he]
  rfl

theorem Saved.keyed_reconcile (hkeyed : Keyed s.registrations) :
    Keyed (s.reconcile hash p).save.registrations :=
  @Push.keyed_reconcile p.now p.server hash (s.load p) _ hkeyed

/-- A clock after a pass: the pass did not find the key wanted, and the clock was there before or
is the pass's own. -/
theorem Saved.clock_reconcile (hkeyed : Keyed s.registrations) {since : Int64}
    (h : ((s.reconcile hash p).save.registrations.lookup k).bind
      (fun r => r.unwantedSince) = some since) :
    (p.active = true → p.wanted.lookup k = none) ∧
      ((s.registrations.lookup k).bind (fun r => r.unwantedSince) = some since ∨
        p.active = true ∧ since = p.now) := by
  have hkeyed : Keyed (s.load p).registrations := hkeyed
  obtain ⟨hwanted, hclock⟩ := Push.clock_reconcile hkeyed h
  refine ⟨fun hact => ?_, hclock⟩
  obtain ⟨token, platform, ht, -, he, -⟩ := @Saved.reconcile_active hash s p hact
  have hnone := hwanted hact
  rwa [ht, he] at hnone

theorem Saved.keyed_after (hkeyed : Keyed s.registrations) (ps : List Pass) :
    Keyed (s.after hash ps).registrations :=
  List.foldlRecOn (motive := fun s : Saved => Keyed s.registrations) _ _ hkeyed
    fun _ hs _ _ => Saved.keyed_reconcile hs

/-- **The clocks of a run**: a clock after the passes was started by one of them, or was there at
the start, and none since found the key wanted. -/
theorem Saved.clock_after (hkeyed : Keyed s.registrations) {since : Int64}
    (h : ((s.after hash ps).registrations.lookup k).bind (fun r => r.unwantedSince) =
      some since) :
    UnwantedSince ps k since ∨
      (s.registrations.lookup k).bind (fun r => r.unwantedSince) = some since ∧
        NoneWanted ps k := by
  induction ps generalizing s with
  | nil => exact Or.inr ⟨h, fun p hp => nomatch hp⟩
  | cons p ps ih =>
      rcases ih (Saved.keyed_reconcile hkeyed) h with ⟨before, q, later, rfl, hq⟩ | ⟨hs, hnone⟩
      · exact Or.inl ⟨p :: before, q, later, rfl, hq⟩
      · obtain ⟨hp, hclock⟩ := Saved.clock_reconcile hkeyed hs
        rcases hclock with hold | ⟨hact, rfl⟩
        · refine Or.inr ⟨hold, fun q hq => ?_⟩
          rcases List.mem_cons.mp hq with rfl | hq
          · exact hp
          · exact hnone q hq
        · exact Or.inl ⟨[], p, ps, rfl, ⟨hact, hp hact⟩, rfl, hnone⟩

/-! ## What is held along a run -/

theorem heldAfter_append (held : Bool) (l m : List (Call × ServerOutcome)) :
    heldAfter k held (l ++ m) = heldAfter k (heldAfter k held l) m :=
  List.foldl_append

/-- What is held at the start of a run, by its calls or before them, is registered at its end. -/
theorem Saved.good_after (hhash : ∀ t, hash t ≠ "") (hnow : ∀ p ∈ ps, 0 < p.now)
    (hkeyed : Keyed s.registrations) {held : Bool}
    (h : Seen.Good (s.registrations.lookup k, held)) :
    Seen.Good ((s.after hash ps).registrations.lookup k,
      heldAfter k held (s.calls hash ps)) := by
  induction ps generalizing s held with
  | nil => exact h
  | cons p ps ih =>
      have hpass : Seen.Good ((s.reconcile hash p).save.registrations.lookup k,
          heldAfter k held (s.reconcile hash p).calls) :=
        @good_reconcile k p.now p.server hash (s.load p) _ hhash (hnow p List.mem_cons_self) hkeyed
          (fun _ => held) h
      have hrest := ih (fun q hq => hnow q (List.mem_cons_of_mem p hq))
        (Saved.keyed_reconcile hkeyed) hpass
      rwa [← heldAfter_append] at hrest

/-- Without an accepted unregistration a held key stays held. -/
theorem heldAfter_of_not_mem {l : List (Call × ServerOutcome)}
    (h : (.unregister k, .accepted) ∉ l) : heldAfter k true l = true := by
  induction l with
  | nil => rfl
  | cons e l ih =>
      rw [List.mem_cons, not_or] at h
      have hstep : holdStep k true e = true := by
        obtain ⟨call, outcome⟩ := e
        cases call with
        | register k' token platform node => cases outcome <;> simp [holdStep]
        | unregister k' =>
            have hne : outcome = .accepted → ¬k' = k := fun ho hk => h.1 (by rw [ho, hk])
            cases outcome <;> simp_all [holdStep]
      show heldAfter k (holdStep k true e) l = true
      rw [hstep]
      exact ih h.2

theorem Held.heldAfter {calls : List (Call × ServerOutcome)} (h : Held k calls) (held : Bool) :
    heldAfter k held calls = true := by
  obtain ⟨before, token, platform, node, later, rfl, hlater⟩ := h
  rw [heldAfter_append]
  show Push.heldAfter k (Push.heldAfter k held before || k = k) later = true
  rw [decide_eq_true rfl, Bool.or_true]
  exact heldAfter_of_not_mem hlater

/-! ## The planner -/

/-- **The push planner.** A reconcile whose calls are all accepted leaves nothing to plan at its
time; no plan registers a key and lets go of it; a pass by the plan unregisters a key only when a
pass found it unwanted more than the grace before (or the row had that clock at the start) and none
since found it wanted; and a key with an accepted registration that no accepted unregistration
follows is in the map, as registered. -/
theorem planner_settles_and_remembers (hash : String → String) (hhash : ∀ t, hash t ≠ "") :
    (∀ (server : Server) (state : PushState) (wanted : Wanted) (now : Int64) (token : String)
        (platform : PushPlatform),
      state.enabled = true → state.token = some token → state.platform = some platform →
      token ≠ "" → 0 < now → Keyed state.registrations →
      (∀ e ∈ (reconcileCore hash server state wanted now).calls, e.2 = .accepted) →
      plan wanted (reconcileCore hash server state wanted now).state.registrations (hash token)
        (reconcileCore hash server state wanted now).state.refusals now = []) ∧
    (∀ (wanted : Wanted) (registrations : Registrations) (tokenHash : String)
        (refusals : Refusals) (now : Int64) (k node : String),
      Keyed registrations →
      .register k node ∈ plan wanted registrations tokenHash refusals now →
      .unregister k ∉ plan wanted registrations tokenHash refusals now ∧
        .forget k ∉ plan wanted registrations tokenHash refusals now) ∧
    (∀ (s : Saved) (ps : List Pass) (p : Pass) (k : String) (outcome : ServerOutcome),
      Keyed s.registrations → 0 < p.now → p.active = true →
      (.unregister k, outcome) ∈ ((s.after hash ps).reconcile hash p).calls →
      p.wanted.lookup k = none ∧ ∃ since, GRACE_SECS.toInt < p.now.toInt - since.toInt ∧
        (UnwantedSince ps k since ∨
          (s.registrations.lookup k).bind (fun r => r.unwantedSince) = some since ∧
            NoneWanted ps k)) ∧
    ∀ (s : Saved) (ps : List Pass) (k : String),
      Keyed s.registrations → (∀ p ∈ ps, 0 < p.now) → Held k (s.calls hash ps) →
      ∃ r, (s.after hash ps).registrations.lookup k = some r ∧ r.isRegistered = true ∧
        r.tradePubkey = k := by
  refine ⟨?_, ?_, ?_, ?_⟩
  · intro server state wanted now token platform he ht hp _ hnow hkeyed hall
    exact plan_after_accepted hhash hnow hkeyed ht hp he hall
  · intro wanted registrations tokenHash refusals now k node hkeyed hreg
    have hwanted := wanted_of_register hkeyed hreg
    exact ⟨fun h => hwanted (stale_of_unregister hkeyed h).1,
      fun h => hwanted (stale_of_forget hkeyed h)⟩
  · intro s ps p k outcome hkeyed hnow hact hcall
    have hkeyed' : Keyed (s.after hash ps).registrations := Saved.keyed_after hkeyed ps
    obtain ⟨token, platform, ht, hp, he, hcore⟩ :=
      @Saved.reconcile_active hash (s.after hash ps) p hact
    rw [hcore, calls_reconcile ht hp he] at hcall
    obtain ⟨call, hmem, hpair⟩ := List.mem_map.mp hcall
    obtain ⟨a, ha, hacall⟩ := List.mem_filterMap.mp hmem
    obtain rfl : call = .unregister k := congrArg Prod.fst hpair
    have hunregister : a = .unregister k := by
      cases a with
      | unregister k' => rw [Call.unregister.inj (Option.some.inj hacall)]
      | register | noteUnwanted | noteWanted | forget => simp [Action.call] at hacall
    subst hunregister
    obtain ⟨hw, since, hgrace, hclock⟩ := stale_of_unregister hkeyed' ha
    exact ⟨hw, since, toInt_sub_of_lt hnow (by decide) hgrace, Saved.clock_after hkeyed hclock⟩
  · intro s ps k hkeyed hnow hheld
    have hstart : Seen.Good (s.registrations.lookup k, false) := nofun
    have hreg := Saved.good_after hhash hnow hkeyed hstart (hheld.heldAfter false)
    obtain ⟨r, hr, hreg⟩ := (Option.any_eq_true _ _).mp hreg
    exact ⟨r, hr, hreg, Saved.keyed_after hkeyed ps k r hr⟩

/-- The digest of the device token of the passes below. -/
def exampleHash (_ : String) : String :=
  "73fff793651a92729a8553521d5f1c55c9cb417046f1dc0f82b22fc4930b82b3"

def examplePass (wanted : Wanted) (now : Int64) : Pass where
  enabled := true
  token := some "device-token"
  platform := some .android
  wanted := wanted
  now := now
  server := fun _ => .accepted

def exampleWanted : Wanted := AList.singleton "key" "node"

/-- A key that is registered, leaves the wanted set and is unregistered past its grace. -/
theorem key_let_go_past_its_grace :
    plan exampleWanted
        ((Saved.mk ∅ ∅).reconcile exampleHash (examplePass exampleWanted 1000)).state.registrations
        (exampleHash "device-token")
        ((Saved.mk ∅ ∅).reconcile exampleHash (examplePass exampleWanted 1000)).state.refusals
        1000 = [] ∧
      .unregister "key" ∉ plan exampleWanted ∅ (exampleHash "device-token") ∅ 1000 ∧
      (∃ since, GRACE_SECS.toInt < 90000 - since.toInt ∧
        UnwantedSince [examplePass exampleWanted 1000, examplePass ∅ 2000] "key" since) ∧
      ∃ r, ((Saved.mk ∅ ∅).after exampleHash
        [examplePass exampleWanted 1000, examplePass ∅ 2000]).registrations.lookup "key" = some r ∧
        r.isRegistered = true := by
  obtain ⟨hfix, hconflict, hgrace, hheld⟩ :=
    planner_settles_and_remembers exampleHash fun _ => by
      unfold exampleHash
      decide
  have hempty : Keyed (∅ : Registrations) := fun k r h => nomatch h
  refine ⟨?_, ?_, ?_, ?_⟩
  · exact hfix (fun _ => .accepted) ((Saved.mk ∅ ∅).load (examplePass exampleWanted 1000))
      exampleWanted 1000 "device-token" .android rfl rfl rfl (by decide) (by decide) hempty
      (by decide)
  · exact (hconflict exampleWanted ∅ (exampleHash "device-token") ∅ 1000 "key" "node" hempty
      (by decide)).1
  · obtain ⟨-, since, hlt, hsince⟩ := hgrace ⟨∅, ∅⟩
      [examplePass exampleWanted 1000, examplePass ∅ 2000] (examplePass ∅ 90000) "key" .accepted
      hempty (by decide) rfl (by decide)
    refine ⟨since, hlt, hsince.resolve_right fun h => ?_⟩
    exact nomatch h.1
  · obtain ⟨r, hr, hreg, -⟩ := hheld ⟨∅, ∅⟩
      [examplePass exampleWanted 1000, examplePass ∅ 2000] "key" hempty
      (by
        intro p hp
        rcases List.mem_cons.mp hp with rfl | hp
        · decide
        · rw [List.mem_singleton.mp hp]
          decide)
      ⟨[], "device-token", .android, "node", [], by decide, by simp⟩
    exact ⟨r, hr, hreg⟩

end MostroApp.Push
