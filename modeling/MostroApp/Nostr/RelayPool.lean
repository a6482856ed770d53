import MostroApp.Lib.Interleaving
import Mathlib.Data.Finset.Insert
import Mathlib.Data.Finset.Erase
import Mathlib.Data.List.Nodup

set_option autoImplicit false

/-! # The relay registry (`nostr/relay_pool.rs`)

The list of relays and the blacklist of a pool, under any number of `add_relay`, `remove_relay`
and `sync_discovered` calls. Each call looks at the list, waits for the SDK and then changes list
and blacklist in steps of their own. The list never runs empty (`relays_never_empty`); the rest
holds in every run in which what a call looked at is still so when it acts on it
(`registry_right`).
-/

namespace MostroApp.Relays

open Interleaving Transition

/-! ## Relays -/

inductive RelayStatus where
  | connected
  | disconnected
  | connecting
  | error
  deriving DecidableEq, Repr

inductive RelaySource where
  | default
  | mostroDiscovered
  | userAdded
  deriving DecidableEq, Repr

structure RelayInfo where
  url : String
  isActive : Bool
  isDefault : Bool
  source : RelaySource
  isBlacklisted : Bool
  status : RelayStatus
  lastConnectedAt : Option Int
  lastError : Option String
  deriving DecidableEq, Repr

/-- A relay as `add_relay_internal` lists it. -/
def relayInfo (source : RelaySource) (url : String) : RelayInfo where
  url := url
  isActive := true
  isDefault := source = .default
  source := source
  isBlacklisted := false
  status := .connecting
  lastConnectedAt := none
  lastError := none

/-! ## The registry -/

/-- The relay list and the blacklist. Beside them, for the statements: the relays the user removed
and has not added since, and those of them that were not a node's when they were removed. -/
structure Registry where
  relays : List RelayInfo
  blacklist : Finset String := ∅
  removed : Finset String := ∅
  spared : Finset String := ∅
  deriving DecidableEq

namespace Registry

def urls (s : Registry) : List String := s.relays.map (·.url)

/-- The registry of a pool the SDK took all relays of. -/
def new (relayUrls : List String) : Registry := { relays := relayUrls.map (relayInfo .default) }

/-- The flags of a persisted row, on the first entry of its URL. -/
def restoreRow (row : RelayInfo) : List RelayInfo → List RelayInfo
  | [] => []
  | r :: rs =>
      if r.url = row.url then { r with source := row.source, isDefault := row.isDefault } :: rs
      else r :: restoreRow row rs

def restorePersisted (persisted : List RelayInfo) (s : Registry) : Registry :=
  { s with
    relays := (persisted.filter fun r => !r.isBlacklisted).foldl
      (fun relays row => restoreRow row relays) s.relays
    blacklist := ((persisted.filter fun r => r.isBlacklisted).map (·.url)).toFinset }

/-- An explicit add lifts the relay off the blacklist. -/
def lift (url : String) (s : Registry) : Registry :=
  { s with
    blacklist := s.blacklist.erase url
    removed := s.removed.erase url
    spared := s.spared.erase url }

/-- The list after a removal of the first entry of a URL, which is `r`. -/
def remove (url : String) (r : RelayInfo) (s : Registry) : Registry :=
  { s with
    relays := s.relays.eraseP (·.url = url)
    removed := insert url s.removed
    spared := if r.source = .mostroDiscovered then s.spared else insert url s.spared }

def activeCount (s : Registry) : Nat := s.relays.countP (·.isActive)

end Registry

/-- `plan_relay_sync`. -/
def planRelaySync (current : List RelayInfo) (blacklist : Finset String) (announced : List String) :
    List String :=
  announced.foldl
    (fun planned url =>
      if current.any (·.url = url) = true ∨ url ∈ blacklist ∨ url ∈ planned then planned
      else planned ++ [url])
    []

/-! ## The calls -/

/-- On whose behalf a relay is added: the user's, or an announcement's, with the URLs it still has
to add and those it has added. -/
inductive Caller where
  | user
  | sync (rest added : List String)
  deriving DecidableEq, Repr

def Caller.source : Caller → RelaySource
  | .user => .userAdded
  | .sync .. => .mostroDiscovered

/-- The relay a call adds is pushed to the list. -/
def Registry.push (url : String) (k : Caller) (s : Registry) : Registry :=
  { s with
    relays := s.relays ++ [relayInfo k.source url]
    removed := if k = .user then s.removed.erase url else s.removed
    spared := if k = .user then s.spared.erase url else s.spared }

/-- What a call returns. -/
inductive Answer where
  | added (info : RelayInfo)
  | removed
  | synced (added : List String)
  | failed (message : String)
  deriving DecidableEq, Repr

/-- What a call does next; one that `answers` is about to return. -/
inductive RelayCall where
  | adds (url : String)
  | lifts (url : String)
  | registers (url : String) (k : Caller)
  | pushes (url : String) (k : Caller)
  | removes (url : String)
  | blacklists (url : String)
  | disconnects (url : String)
  | syncs (announced : List String)
  | answers (a : Answer)
  deriving DecidableEq, Repr

/-- The next URL of an announcement, or its end. -/
def syncNext (added : List String) : List String → RelayCall
  | [] => .answers (.synced added)
  | url :: rest => .registers url (.sync rest added)

/-- The caller after its relay was added, or not. -/
def Caller.after (url : String) (result : Except String RelayInfo) : Caller → RelayCall
  | .user =>
      match result with
      | .ok info => .answers (.added info)
      | .error message => .answers (.failed message)
  | .sync rest added =>
      match result with
      | .ok _ => syncNext (added ++ [url]) rest
      | .error _ => syncNext added rest

/-- One step of a call; `sdk` is what the SDK makes of a request to it. -/
def RelayCall.step (sdk : Except String Unit) : RelayCall → Registry → Registry × Option RelayCall
  | .adds url, s =>
      if s.relays.any (·.url = url) then (s, some (.answers (.failed "RelayAlreadyExists")))
      else (s, some (.lifts url))
  | .lifts url, s => (s.lift url, some (.registers url .user))
  -- a connection that does not start is no error
  | .registers url k, s =>
      match sdk with
      | .ok () => (s, some (.pushes url k))
      | .error e => (s, some (k.after url (.error ("add relay failed: " ++ e))))
  | .pushes url k, s => (s.push url k, some (k.after url (.ok (relayInfo k.source url))))
  | .removes url, s =>
      if s.activeCount ≤ 1 then (s, some (.answers (.failed "LastRelay")))
      else
        match s.relays.find? (·.url = url) with
        | none => (s, some (.answers (.failed "RelayNotFound")))
        | some r =>
            (s.remove url r,
              some (if r.source = .mostroDiscovered then .blacklists url else .disconnects url))
  | .blacklists url, s =>
      ({ s with blacklist := insert url s.blacklist }, some (.disconnects url))
  | .disconnects _, s =>
      match sdk with
      | .ok () => (s, some (.answers .removed))
      | .error e => (s, some (.answers (.failed ("remove relay failed: " ++ e))))
  | .syncs announced, s => (s, some (syncNext [] (planRelaySync s.relays s.blacklist announced)))
  | .answers _, s => (s, none)

def RelayCall.starts : RelayCall → Bool
  | .adds _ | .removes _ | .syncs _ => true
  | _ => false

/-- Any number of calls, and nothing else. -/
def relayProg : Prog Registry RelayCall (Except String Unit) Empty where
  enter := RelayCall.starts
  tstep w p s := some (p.step w s)
  act a _ := nomatch a

/-! ## Calls that act on what is still so -/

/-- A relay is pushed when it is still neither listed nor blacklisted, and `o` is not a removal
that has still to blacklist it; an announced one was not removed while it was no node's. -/
def RelayCall.Timely (s : Registry) (o : Option RelayCall) : RelayCall → Prop
  | .pushes url k =>
      url ∉ s.urls ∧ url ∉ s.blacklist ∧ o ≠ some (.blacklists url) ∧
        (k = .user ∨ url ∉ s.spared)
  | _ => True

/-- The call about to step is timely beside `o`. -/
def TimelyBeside (c : Pool Registry RelayCall) (o : Option RelayCall) :
    Label RelayCall (Except String Unit) Empty → Prop
  | .step i _ => ∀ p ∈ c.threads i, p.Timely c.shared o
  | _ => True

/-- The call about to step is timely beside every call. -/
def Timely (c : Pool Registry RelayCall) (l : Label RelayCall (Except String Unit) Empty) : Prop :=
  ∀ j, TimelyBeside c (c.threads j) l

/-! ## What a step does -/

variable {p : RelayCall} {s t : Registry} {q : Option RelayCall} {sdk : Except String Unit}
  {url : String}

/-- The steps that write the registry, and the ones that do not. -/
inductive RelayCall.Effect (s : Registry) : RelayCall → Registry → Option RelayCall → Prop where
  | reads {p : RelayCall} {q : Option RelayCall} (hp : ∀ url, p ≠ .blacklists url)
      (hq : ∀ url, q ≠ some (.blacklists url)) : Effect s p s q
  | lifts (url : String) : Effect s (.lifts url) (s.lift url) (some (.registers url .user))
  | pushes (url : String) (k : Caller) {q : Option RelayCall}
      (hq : ∀ url, q ≠ some (.blacklists url)) :
      Effect s (.pushes url k) (s.push url k) q
  | removes (url : String) (r : RelayInfo) (hr : s.relays.find? (·.url = url) = some r)
      (hcount : 1 < s.activeCount) :
      Effect s (.removes url) (s.remove url r)
        (some (if r.source = .mostroDiscovered then .blacklists url else .disconnects url))
  | blacklists (url : String) :
      Effect s (.blacklists url) { s with blacklist := insert url s.blacklist }
        (some (.disconnects url))

theorem syncNext_ne (added rest : List String) : syncNext added rest ≠ .blacklists url := by
  cases rest <;> exact fun h => nomatch h

theorem Caller.after_ne (k : Caller) (u : String) (result : Except String RelayInfo) :
    k.after u result ≠ .blacklists url := by
  cases k with
  | user => cases result <;> exact fun h => nomatch h
  | sync rest added => cases result <;> exact syncNext_ne _ _

theorem RelayCall.step_effect (sdk : Except String Unit) (p : RelayCall) (s : Registry) :
    p.Effect s (p.step sdk s).1 (p.step sdk s).2 := by
  cases p with
  | adds url =>
      simp only [RelayCall.step]
      split
      all_goals exact .reads (fun _ h => nomatch h) (fun _ h => nomatch h)
  | lifts url => exact .lifts url
  | registers url k =>
      cases sdk with
      | ok => exact .reads (fun _ h => nomatch h) (fun _ h => nomatch h)
      | error e =>
          exact .reads (fun _ h => nomatch h) (fun _ h => k.after_ne url _ (Option.some.inj h))
  | pushes url k => exact .pushes url k fun _ h => k.after_ne url _ (Option.some.inj h)
  | removes url =>
      simp only [RelayCall.step]
      split
      · exact .reads (fun _ h => nomatch h) (fun _ h => nomatch h)
      · next hcount =>
        cases hr : s.relays.find? (·.url = url) with
        | none => exact .reads (fun _ h => nomatch h) (fun _ h => nomatch h)
        | some r => exact .removes url r hr (Nat.lt_of_not_le hcount)
  | blacklists url => exact .blacklists url
  | disconnects url =>
      cases sdk <;> exact .reads (fun _ h => nomatch h) (fun _ h => nomatch h)
  | syncs announced =>
      exact .reads (fun _ h => nomatch h) (fun _ h => syncNext_ne _ _ (Option.some.inj h))
  | answers a => exact .reads (fun _ h => nomatch h) (fun _ h => nomatch h)

/-! ## The list -/

theorem Registry.urls_push (url : String) (k : Caller) (s : Registry) :
    (s.push url k).urls = s.urls ++ [url] := List.map_append

/-- A removal cuts the list at the entry it found. -/
theorem Registry.remove_split {r : RelayInfo} (hr : s.relays.find? (·.url = url) = some r) :
    ∃ l₁ l₂, s.relays = l₁ ++ r :: l₂ ∧ (s.remove url r).relays = l₁ ++ l₂ ∧ r.url = url := by
  obtain ⟨hurl, l₁, l₂, heq, hbefore⟩ := List.find?_eq_some_iff_append.mp hr
  refine ⟨l₁, l₂, heq, ?_, by simpa using hurl⟩
  show s.relays.eraseP _ = _
  rw [heq, List.eraseP_append_right _ fun b hb => by simpa using hbefore b hb]
  exact congrArg (l₁ ++ ·) (List.eraseP_cons_of_pos hurl)

theorem Registry.urls_remove {r : RelayInfo} (hr : s.relays.find? (·.url = url) = some r)
    (hs : s.urls.Nodup) :
    (s.remove url r).urls.Nodup ∧ url ∉ (s.remove url r).urls ∧
      ∀ u ∈ (s.remove url r).urls, u ∈ s.urls := by
  obtain ⟨l₁, l₂, heq, hrest, rfl⟩ := Registry.remove_split hr
  unfold Registry.urls at hs ⊢
  rw [heq, List.map_append, List.map_cons, List.nodup_middle] at hs
  rw [hrest, heq, List.map_append, List.map_append, List.map_cons]
  obtain ⟨hnot, hnodup⟩ := List.nodup_cons.mp hs
  refine ⟨hnodup, hnot, fun u hu => ?_⟩
  rcases List.mem_append.mp hu with hu | hu
  · exact List.mem_append_left _ hu
  · exact List.mem_append_right _ (List.mem_cons_of_mem _ hu)

theorem Registry.spared_push {u : String} {k : Caller} (h : u ∈ s.spared) (hne : u ≠ url) :
    u ∈ (s.push url k).spared := by
  unfold Registry.push
  dsimp only
  split
  · exact Finset.mem_erase.mpr ⟨hne, h⟩
  · exact h

theorem Registry.spared_remove {u : String} {r : RelayInfo} (h : u ∈ s.spared) :
    u ∈ (s.remove url r).spared := by
  unfold Registry.remove
  dsimp only
  split
  · exact h
  · exact Finset.mem_insert_of_mem h

/-- A relay that was no node's is spared. -/
theorem Registry.spared_removed {r : RelayInfo} (h : r.source ≠ .mostroDiscovered) :
    url ∈ (s.remove url r).spared := by
  unfold Registry.remove
  rw [if_neg h]
  exact Finset.mem_insert_self url _

/-- Some relay of the list is active. -/
def Registry.Active (s : Registry) : Prop := 0 < s.activeCount

theorem RelayCall.Effect.active (h : p.Effect s t q) (hs : s.Active) : t.Active := by
  cases h with
  | reads | lifts | blacklists => exact hs
  | pushes url k hq =>
      show 0 < (s.relays ++ [relayInfo k.source url]).countP _
      rw [List.countP_append]
      exact Nat.add_pos_left hs _
  | removes url r hr hcount =>
      obtain ⟨l₁, l₂, heq, hrest, -⟩ := Registry.remove_split hr
      unfold Registry.activeCount at hcount
      unfold Registry.Active Registry.activeCount
      rw [heq, List.countP_append, List.countP_cons] at hcount
      rw [hrest, List.countP_append]
      split at hcount <;> omega

/-- No label of any run takes the last active relay away. -/
theorem active_next {c c' : Pool Registry RelayCall}
    {l : Label RelayCall (Except String Unit) Empty} (hc : c.shared.Active)
    (hn : relayProg.next c l = some c') : c'.shared.Active := by
  cases l with
  | spawn i p =>
      obtain ⟨-, -, rfl⟩ := Prog.next_spawn.mp hn
      exact hc
  | step i w =>
      obtain ⟨p, s, q, -, hs, rfl⟩ := Prog.next_step.mp hn
      have h := (p.step_effect w c.shared).active hc
      rwa [Option.some.inj hs] at h
  | env a => cases a

/-! ## The invariant -/

/-- The registry is in order, a removal about to blacklist its URL finds it unlisted, and each
removed URL is blacklisted, about to be, or was no node's. -/
structure RelayInv (c : Pool Registry RelayCall) : Prop where
  active : c.shared.Active
  distinct : c.shared.urls.Nodup
  unlisted : ∀ u ∈ c.shared.blacklist, u ∉ c.shared.urls
  gone : ∀ u ∈ c.shared.removed, u ∉ c.shared.urls
  pending : ∀ i u, c.threads i = some (.blacklists u) → u ∉ c.shared.urls
  kept : ∀ u ∈ c.shared.removed,
    u ∈ c.shared.blacklist ∨ u ∈ c.shared.spared ∨ ∃ i, c.threads i = some (.blacklists u)

variable {c c' : Pool Registry RelayCall} {i : Nat}

/-- A removal that has still to blacklist its URL, after another call's step. -/
theorem pending_other (hp : c.threads i = some p) (hne : ∀ u, p ≠ .blacklists u) {u : String}
    (h : ∃ j, c.threads j = some (.blacklists u)) :
    ∃ j, Function.update c.threads i q j = some (.blacklists u) := by
  obtain ⟨j, hj⟩ := h
  have hji : j ≠ i := by
    rintro rfl
    exact hne u (Option.some.inj (hp.symm.trans hj))
  exact ⟨j, (Function.update_of_ne hji ..).trans hj⟩

/-- What waits to be blacklisted after a step that is not a removal's did before. -/
theorem pending_old {j : Nat} {u : String}
    (h : Function.update c.threads i q j = some (.blacklists u))
    (hq : ∀ u, q ≠ some (.blacklists u)) : c.threads j = some (.blacklists u) := by
  rcases threads_update h with ⟨-, hnew⟩ | ⟨-, hold⟩
  · exact absurd hnew (hq u)
  · exact hold

/-- A step that leaves the registry alone. -/
theorem RelayInv.reads (hc : RelayInv c) (hp : c.threads i = some p)
    (hne : ∀ u, p ≠ .blacklists u) (hq : ∀ u, q ≠ some (.blacklists u)) :
    RelayInv ⟨c.shared, Function.update c.threads i q⟩ where
  active := hc.active
  distinct := hc.distinct
  unlisted := hc.unlisted
  gone := hc.gone
  pending j u hj := hc.pending j u (pending_old hj hq)
  kept u hu := (hc.kept u hu).imp_right fun h => h.imp_right (pending_other hp hne)

theorem RelayInv.lifts (hc : RelayInv c) (hp : c.threads i = some (.lifts url)) :
    RelayInv ⟨c.shared.lift url,
      Function.update c.threads i (some (.registers url .user))⟩ where
  active := hc.active
  distinct := hc.distinct
  unlisted u hu := hc.unlisted u (Finset.mem_of_mem_erase hu)
  gone u hu := hc.gone u (Finset.mem_of_mem_erase hu)
  pending j u hj := hc.pending j u (pending_old hj fun _ h => nomatch h)
  kept u hu := by
    obtain ⟨hne, hu⟩ := Finset.mem_erase.mp hu
    rcases hc.kept u hu with hblack | hspared | hwaits
    · exact Or.inl (Finset.mem_erase.mpr ⟨hne, hblack⟩)
    · exact Or.inr (Or.inl (Finset.mem_erase.mpr ⟨hne, hspared⟩))
    · exact Or.inr (Or.inr (pending_other hp (fun _ h => nomatch h) hwaits))

/-- A removed URL that is not the pushed one, or is spared from an announcement. -/
theorem RelayInv.pushed_ne (hc : RelayInv c) {k : Caller}
    (ht : ∀ j, (RelayCall.pushes url k).Timely c.shared (c.threads j)) {u : String}
    (hu : u ∈ (c.shared.push url k).removed) : u ∈ c.shared.removed ∧ u ≠ url := by
  cases k with
  | user => exact (Finset.mem_erase.mp hu).symm
  | sync rest added =>
      refine ⟨hu, ?_⟩
      rintro rfl
      -- Each way a removed URL is kept track of is one an announcement has to mind.
      obtain ⟨-, hblack, -, huser | hspared⟩ := ht 0
      · cases huser
      · rcases hc.kept u hu with h | h | ⟨j, hj⟩
        · exact hblack h
        · exact hspared h
        · exact (ht j).2.2.1 hj

theorem RelayInv.pushes (hc : RelayInv c) {k : Caller} (hp : c.threads i = some (.pushes url k))
    (ht : ∀ j, (RelayCall.pushes url k).Timely c.shared (c.threads j))
    (hq : ∀ u, q ≠ some (.blacklists u)) (hactive : (c.shared.push url k).Active) :
    RelayInv ⟨c.shared.push url k, Function.update c.threads i q⟩ := by
  have fresh : ∀ u, u ∉ c.shared.urls → u ≠ url → u ∉ (c.shared.push url k).urls := by
    intro u hu hne
    rw [Registry.urls_push, List.mem_append, List.mem_singleton, not_or]
    exact ⟨hu, hne⟩
  constructor
  · exact hactive
  · show (c.shared.push url k).urls.Nodup
    rw [Registry.urls_push, List.nodup_append_comm, List.singleton_append, List.nodup_cons]
    exact ⟨(ht 0).1, hc.distinct⟩
  · intro u hu
    refine fresh u (hc.unlisted u hu) ?_
    rintro rfl
    exact (ht 0).2.1 hu
  · intro u hu
    obtain ⟨hold, hne⟩ := hc.pushed_ne ht hu
    exact fresh u (hc.gone u hold) hne
  · intro j u hj
    have hold := pending_old hj hq
    refine fresh u (hc.pending j u hold) ?_
    rintro rfl
    exact (ht j).2.2.1 hold
  · intro u hu
    obtain ⟨hold, hne⟩ := hc.pushed_ne ht hu
    exact (hc.kept u hold).imp_right fun h =>
      h.imp (Registry.spared_push · hne) (pending_other hp fun _ h => nomatch h)

theorem RelayInv.removes (hc : RelayInv c) {r : RelayInfo}
    (hp : c.threads i = some (.removes url))
    (hr : c.shared.relays.find? (·.url = url) = some r)
    (hactive : (c.shared.remove url r).Active) :
    RelayInv ⟨c.shared.remove url r, Function.update c.threads i
      (some (if r.source = .mostroDiscovered then .blacklists url else .disconnects url))⟩ := by
  obtain ⟨hnodup, hgone, hsub⟩ := Registry.urls_remove hr hc.distinct
  have other := fun u => pending_other (u := u)
    (q := some (if r.source = .mostroDiscovered then .blacklists url else .disconnects url)) hp
    (fun _ h => nomatch h)
  constructor
  · exact hactive
  · exact hnodup
  · exact fun u hu hmem => hc.unlisted u hu (hsub u hmem)
  · intro u hu
    rcases Finset.mem_insert.mp hu with rfl | hu
    · exact hgone
    · exact fun hmem => hc.gone u hu (hsub u hmem)
  · intro j u hj
    rcases threads_update hj with ⟨-, hnew⟩ | ⟨-, hold⟩
    · -- The removal itself is the call that has to blacklist its URL.
      split at hnew
      · obtain rfl := RelayCall.blacklists.inj (Option.some.inj hnew)
        exact hgone
      · cases hnew
    · exact fun hmem => hc.pending j u hold (hsub u hmem)
  · intro u hu
    rcases Finset.mem_insert.mp hu with rfl | hu
    · by_cases hnode : r.source = .mostroDiscovered
      · have hwaits : (if r.source = .mostroDiscovered then RelayCall.blacklists u
            else .disconnects u) = .blacklists u := if_pos hnode
        exact Or.inr (Or.inr ⟨i, (Function.update_self ..).trans (congrArg some hwaits)⟩)
      · exact Or.inr (Or.inl (Registry.spared_removed hnode))
    · exact (hc.kept u hu).imp_right fun h => h.imp Registry.spared_remove (other u)

theorem RelayInv.blacklists (hc : RelayInv c) (hp : c.threads i = some (.blacklists url)) :
    RelayInv ⟨{ c.shared with blacklist := insert url c.shared.blacklist },
      Function.update c.threads i (some (.disconnects url))⟩ where
  active := hc.active
  distinct := hc.distinct
  unlisted u hu := by
    rcases Finset.mem_insert.mp hu with rfl | hu
    · exact hc.pending i u hp
    · exact hc.unlisted u hu
  gone := hc.gone
  pending j u hj := hc.pending j u (pending_old hj fun _ h => nomatch h)
  kept u hu := by
    rcases hc.kept u hu with hblack | hspared | ⟨j, hj⟩
    · exact Or.inl (Finset.mem_insert_of_mem hblack)
    · exact Or.inr (Or.inl hspared)
    · by_cases hji : j = i
      · subst hji
        obtain rfl := RelayCall.blacklists.inj (Option.some.inj (hp.symm.trans hj))
        exact Or.inl (Finset.mem_insert_self _ _)
      · exact Or.inr (Or.inr ⟨j, (Function.update_of_ne hji ..).trans hj⟩)

/-- A timely step keeps the invariant. -/
theorem RelayInv.next {l : Label RelayCall (Except String Unit) Empty} (hc : RelayInv c)
    (ht : Timely c l) (hn : relayProg.next c l = some c') : RelayInv c' := by
  cases l with
  | spawn i p =>
      obtain ⟨hstart, hfree, rfl⟩ := Prog.next_spawn.mp hn
      have hne : ∀ u, some p ≠ some (.blacklists u) := by
        rintro u h
        obtain rfl := Option.some.inj h
        cases hstart
      refine ⟨hc.active, hc.distinct, hc.unlisted, hc.gone,
        fun j u hj => hc.pending j u (pending_old hj hne), fun u hu => ?_⟩
      refine (hc.kept u hu).imp_right fun h => h.imp_right fun ⟨j, hj⟩ => ?_
      have hji : j ≠ i := by
        rintro rfl
        exact nomatch hfree.symm.trans hj
      exact ⟨j, (Function.update_of_ne hji ..).trans hj⟩
  | step i w =>
      obtain ⟨p, s, q, hp, hs, rfl⟩ := Prog.next_step.mp hn
      have heffect : p.Effect c.shared s q := by
        have h := p.step_effect w c.shared
        rwa [Option.some.inj hs] at h
      have hactive := heffect.active hc.active
      cases heffect with
      | reads hp' hq => exact hc.reads hp hp' hq
      | lifts url => exact hc.lifts hp
      | pushes url k hq => exact hc.pushes hp (fun j => ht j _ hp) hq hactive
      | removes url r hr _ => exact hc.removes hp hr hactive
      | blacklists url => exact hc.blacklists hp
  | env a => cases a

/-! ## Every interleaving -/

/-- What holds of the registry at every moment. -/
structure RegistryRight (s : Registry) : Prop where
  /-- The list holds at most one entry of a URL. -/
  distinct : s.urls.Nodup
  nonempty : s.relays ≠ []
  /-- No blacklisted URL is listed. -/
  unlisted : ∀ u ∈ s.blacklist, u ∉ s.urls
  /-- No URL is listed that the user removed and has not added since. -/
  gone : ∀ u ∈ s.removed, u ∉ s.urls

theorem Registry.Active.nonempty (h : s.Active) : s.relays ≠ [] := by
  rintro hnil
  unfold Registry.Active Registry.activeCount at h
  rw [hnil] at h
  exact absurd h (Nat.lt_irrefl 0)

/-- Restored flags leave what does not depend on them. -/
theorem Registry.map_restorePersisted {α : Type} {f : RelayInfo → α}
    (hf : ∀ r source isDefault, f { r with source := source, isDefault := isDefault } = f r)
    (persisted : List RelayInfo) (s : Registry) :
    (s.restorePersisted persisted).relays.map f = s.relays.map f := by
  have row : ∀ (row : RelayInfo) (l : List RelayInfo), (restoreRow row l).map f = l.map f := by
    intro row l
    induction l with
    | nil => rfl
    | cons r l ih =>
        unfold restoreRow
        split
        · rw [List.map_cons, List.map_cons, hf]
        · rw [List.map_cons, List.map_cons, ih]
  refine List.foldlRecOn
    (motive := fun relays : List RelayInfo => relays.map f = s.relays.map f) _ _ rfl ?_
  exact fun relays hrelays r _ => (row r relays).trans hrelays

variable {relayUrls : List String} {persisted : List RelayInfo}

theorem Registry.urls_start (relayUrls : List String) (persisted : List RelayInfo) :
    ((Registry.new relayUrls).restorePersisted persisted).urls = relayUrls := by
  refine (map_restorePersisted (fun _ _ _ => rfl) persisted _).trans ?_
  unfold Registry.new
  rw [List.map_map]
  exact List.map_id relayUrls

theorem Registry.active_start (hne : relayUrls ≠ []) (persisted : List RelayInfo) :
    ((Registry.new relayUrls).restorePersisted persisted).Active := by
  have hflags : ((Registry.new relayUrls).restorePersisted persisted).relays.map (·.isActive) =
      (Registry.new relayUrls).relays.map (·.isActive) :=
    map_restorePersisted (fun _ _ _ => rfl) persisted _
  have hcount : ∀ s : Registry, s.activeCount = (s.relays.map (·.isActive)).countP id :=
    fun s => by rw [List.countP_map]; rfl
  obtain ⟨url, rest, rfl⟩ := List.exists_cons_of_ne_nil hne
  show 0 < Registry.activeCount _
  rw [hcount, hflags, Registry.new, List.map_cons, List.map_cons, List.countP_cons]
  exact Nat.succ_pos _

/-- **The list is never empty**, whatever the calls do. -/
theorem relays_never_empty {ls : List (Label RelayCall (Except String Unit) Empty)}
    (hne : relayUrls ≠ [])
    (hr : run relayProg.next
      (Pool.idle ((Registry.new relayUrls).restorePersisted persisted)) ls = some c) :
    c.shared.relays ≠ [] := by
  exact (run_inv (fun _ _ _ hc _ hn => active_next hc hn) (Registry.active_start hne persisted)
    (along_true _ _) hr).nonempty

/-- **The registry is right at every moment** of a run whose calls are timely. -/
theorem registry_right {ls : List (Label RelayCall (Except String Unit) Empty)}
    (hne : relayUrls ≠ []) (hdistinct : relayUrls.Nodup)
    (hkept : ∀ r ∈ persisted, r.isBlacklisted = true → r.url ∉ relayUrls)
    (hC : Along relayProg.next Timely
      (Pool.idle ((Registry.new relayUrls).restorePersisted persisted)) ls)
    (hr : run relayProg.next
      (Pool.idle ((Registry.new relayUrls).restorePersisted persisted)) ls = some c) :
    RegistryRight c.shared := by
  have hinv : RelayInv (Pool.idle ((Registry.new relayUrls).restorePersisted persisted)) := by
    refine ⟨Registry.active_start hne persisted, ?_, fun u hu hmem => ?_,
      fun u hu => absurd hu (Finset.notMem_empty u), fun i u hi => (nomatch hi),
      fun u hu => absurd hu (Finset.notMem_empty u)⟩
    · exact (Registry.urls_start relayUrls persisted).symm ▸ hdistinct
    · have hmem : u ∈ relayUrls := Registry.urls_start relayUrls persisted ▸ hmem
      obtain ⟨r, hrow, rfl⟩ := List.mem_map.mp (List.mem_toFinset.mp hu)
      obtain ⟨hrow, hblack⟩ := List.mem_filter.mp hrow
      exact hkept r hrow hblack hmem
  have hend := run_inv (fun _ _ _ hc ht hn => RelayInv.next hc ht hn) hinv hC hr
  exact ⟨hend.distinct, hend.active.nonempty, hend.unlisted, hend.gone⟩

instance (s : Registry) (o : Option RelayCall) : ∀ p : RelayCall, Decidable (p.Timely s o)
  | .pushes .. => inferInstanceAs (Decidable (_ ∧ _ ∧ _ ∧ (_ ∨ _)))
  | .adds _ | .lifts _ | .registers .. | .removes _ | .blacklists _ | .disconnects _ | .syncs _
  | .answers _ => isTrue trivial

instance (c : Pool Registry RelayCall) (o : Option RelayCall) :
    ∀ l : Label RelayCall (Except String Unit) Empty, Decidable (TimelyBeside c o l)
  | .step i _ => inferInstanceAs (Decidable (∀ p ∈ c.threads i, p.Timely c.shared o))
  | .spawn .. | .env _ => isTrue trivial

/-- One call from its start, as far as the SDK answers. -/
def called (i : Nat) (p : RelayCall) (answers : List (Except String Unit)) :
    List (Label RelayCall (Except String Unit) Empty) :=
  .spawn i p :: answers.map (.step i)

/-- The URLs listed, blacklisted and removed after a run of a pool started with `relayUrls`. -/
def registryAfter (relayUrls : List String)
    (ls : List (Label RelayCall (Except String Unit) Empty)) :
    Option (List String × Finset String × Finset String) :=
  (run relayProg.next (Pool.idle ((Registry.new relayUrls).restorePersisted [])) ls).map fun c =>
    (c.shared.urls, c.shared.blacklist, c.shared.removed)

/-- A relay is announced, removed, announced again and added back. -/
def addedBack : List (Label RelayCall (Except String Unit) Empty) :=
  called 0 (.syncs ["wss://b"]) [.ok (), .ok (), .ok (), .ok ()] ++
    called 0 (.removes "wss://b") [.ok (), .ok (), .ok (), .ok ()] ++
    called 0 (.syncs ["wss://b"]) [.ok (), .ok ()] ++
    called 0 (.adds "wss://b") [.ok (), .ok (), .ok (), .ok (), .ok ()]

theorem added_back_is_listed :
    registryAfter ["wss://a"] addedBack = some (["wss://a", "wss://b"], ∅, ∅) ∧
      ∃ c, run relayProg.next (Pool.idle ((Registry.new ["wss://a"]).restorePersisted []))
        addedBack = some c ∧ RegistryRight c.shared := by
  refine ⟨by decide, ?_⟩
  have hC : Along relayProg.next Timely
      (Pool.idle ((Registry.new ["wss://a"]).restorePersisted [])) addedBack := by
    refine along_of_below (K := fun c l o => TimelyBeside c o l) 1 (fun c l h => ?_)
      (below_idle 1 _) (by decide) (by decide)
    cases l with
    | step i w =>
        intro p hp
        have h := h 0 Nat.one_pos p hp
        cases p with
        | pushes url k => exact ⟨h.1, h.2.1, (fun h => nomatch h), h.2.2.2⟩
        | adds | lifts | registers | removes | blacklists | disconnects | syncs | answers =>
            trivial
    | spawn | env => trivial
  have hsome : (run relayProg.next (Pool.idle ((Registry.new ["wss://a"]).restorePersisted []))
      addedBack).isSome = true := by decide
  obtain ⟨c, hr⟩ := Option.isSome_iff_exists.mp hsome
  have hkept : ∀ r ∈ ([] : List RelayInfo), r.isBlacklisted = true → r.url ∉ ["wss://a"] :=
    fun _ h => nomatch h
  exact ⟨c, hr, registry_right (by decide) (by decide) hkept hC hr⟩

/-- Both calls look at the list before either pushes. -/
def addedTwice : List (Label RelayCall (Except String Unit) Empty) :=
  [.spawn 0 (.adds "wss://b"), .spawn 1 (.adds "wss://b"), .step 0 (.ok ()), .step 1 (.ok ()),
    .step 0 (.ok ()), .step 0 (.ok ()), .step 0 (.ok ()),
    .step 1 (.ok ()), .step 1 (.ok ()), .step 1 (.ok ())]

/-- A relay list is applied between the two changes of a removal. -/
def announcedAmidRemoval : List (Label RelayCall (Except String Unit) Empty) :=
  called 0 (.syncs ["wss://b"]) [.ok (), .ok (), .ok (), .ok ()] ++
    [.spawn 0 (.removes "wss://b"), .step 0 (.ok ()),
      .spawn 1 (.syncs ["wss://b"]), .step 1 (.ok ()),
      .step 0 (.ok ()), .step 1 (.ok ()), .step 1 (.ok ())]

/-- A default relay is removed, and a relay list with it is applied. -/
def defaultAnnounced : List (Label RelayCall (Except String Unit) Empty) :=
  called 0 (.removes "wss://b") [.ok (), .ok (), .ok ()] ++
    called 0 (.syncs ["wss://b"]) [.ok (), .ok (), .ok (), .ok ()]

/-- **A URL is listed twice, a blacklisted one is listed, and a removed one comes back.** -/
theorem stale_checks_break_registry :
    registryAfter ["wss://a"] addedTwice = some (["wss://a", "wss://b", "wss://b"], ∅, ∅) ∧
      registryAfter ["wss://a"] announcedAmidRemoval =
        some (["wss://a", "wss://b"], {"wss://b"}, {"wss://b"}) ∧
      registryAfter ["wss://a", "wss://b"] defaultAnnounced =
        some (["wss://a", "wss://b"], ∅, {"wss://b"}) := by
  refine ⟨?_, ?_, ?_⟩ <;> decide

end MostroApp.Relays
