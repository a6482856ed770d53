import MostroApp.Lib.Interleaving
import Mathlib.Data.List.AList

set_option autoImplicit false

/-! # The long-lived relay subscriptions (`nostr/live_subs.rs`)

The intent is kept apart from the relays' own tables: a map from subscription id to filter, and a
repair that issues on one relay what the relay does not hold. The lock is held through an open, a
replace and a close, and through each subscription of a repair, so each of these is one step; what a
relay answers is up to it. Between two steps relays come and go and close subscriptions.

Assumed of the SDK: a relay that holds an id refuses a subscribe under it and keeps the old filter,
a failed one leaves no entry, an unsubscribe always removes the id, and entries survive a reconnect.
-/

namespace MostroApp.Live

open Interleaving Transition

variable {φ : Type}

/-! ## The registry and the relays -/

/-- What happens to an id, with every subscribe call made under it. -/
inductive Event where
  | opened (id : String)
  | closed (id : String)
  | issued (url id : String)
  deriving DecidableEq, Repr

/-- The recorded intent, what each relay holds, which relays are connected, the repairs spent on
what they closed (`ClosedRepairs`), and what has happened, the latest first. -/
structure LiveSubs (φ : Type) where
  desired : AList fun _ : String => φ := ∅
  held : String → AList fun _ : String => φ := fun _ => ∅
  connected : String → Bool := fun _ => false
  attempts : String → String → Nat := fun _ _ => 0
  log : List Event := []

namespace LiveSubs

/-- `Relay::subscription`: what the relay holds under the id. -/
def holds (s : LiveSubs φ) (url id : String) : Option φ := (s.held url).lookup id

/-- `Relay::subscribe` under `id`, and whether the relay took it. -/
def subscribe (url id : String) (filter : φ) (accepts : Bool) (s : LiveSubs φ) :
    LiveSubs φ × Bool :=
  if s.holds url id = none ∧ accepts = true then
    ({ s with
        held := Function.update s.held url ((s.held url).insert id filter)
        log := .issued url id :: s.log }, true)
  else ({ s with log := .issued url id :: s.log }, false)

/-- `Client::unsubscribe`. Only relays of the pool hold anything. -/
def unsubscribe (id : String) (s : LiveSubs φ) : LiveSubs φ :=
  { s with held := fun url => (s.held url).erase id }

/-- `Relay::unsubscribe`. -/
def unsubscribeFrom (url id : String) (s : LiveSubs φ) : LiveSubs φ :=
  { s with held := Function.update s.held url ((s.held url).erase id) }

/-- `issue`: one REQ to every relay of the pool, and whether one of them took it. -/
def issue (id : String) (filter : φ) (accepts : String → Bool) :
    List String → LiveSubs φ → LiveSubs φ × Bool
  | [], s => (s, false)
  | url :: relays, s =>
      let took := s.subscribe url id filter (accepts url)
      let live := took.1.issue id filter accepts relays
      (live.1, took.2 || live.2)

def «open» (relays : List String) (id : String) (filter : φ) (accepts : String → Bool)
    (s : LiveSubs φ) : LiveSubs φ :=
  let issued := { s with log := .opened id :: s.log }.issue id filter accepts relays
  if issued.2 then { issued.1 with desired := issued.1.desired.insert id filter } else issued.1

def replace (relays : List String) (id : String) (filter : φ) (accepts : String → Bool)
    (s : LiveSubs φ) : LiveSubs φ :=
  (({ s with
      log := .opened id :: s.log
      desired := s.desired.insert id filter }.unsubscribe id).issue id filter accepts relays).1

def close (id : String) (s : LiveSubs φ) : LiveSubs φ :=
  { s with log := .closed id :: s.log, desired := s.desired.erase id }.unsubscribe id

/-- `missing_on`: the recorded ids a relay lacks, or holds under another filter. -/
def missingOn [DecidableEq φ] (url : String) (s : LiveSubs φ) : List String :=
  s.desired.keys.filter fun id => s.holds url id ≠ s.desired.lookup id

/-- One subscription of a repair, of a relay that is connected. -/
def reissue [DecidableEq φ] (url id : String) (filter : φ) (accepts : Bool) (s : LiveSubs φ) :
    LiveSubs φ :=
  if s.holds url id = some filter then s
  else ((s.unsubscribeFrom url id).subscribe url id filter accepts).1

/-- `reset_relay`. -/
def resetRelay (url : String) (s : LiveSubs φ) : LiveSubs φ :=
  { s with attempts := Function.update s.attempts url fun _ => 0 }

/-- One more repair of `id` on `url`. -/
def countAttempt (url id : String) (s : LiveSubs φ) : LiveSubs φ :=
  let ofRelay := Function.update (s.attempts url) id (s.attempts url id + 1)
  { s with attempts := Function.update s.attempts url ofRelay }

/-- `next_delay`, as whether there is one. Counts the attempt. -/
def nextDelay (url id : String) (s : LiveSubs φ) : LiveSubs φ × Bool :=
  if s.attempts url id < 3 then (s.countAttempt url id, true) else (s, false)

end LiveSubs

/-! ## Its users -/

/-- Where a call stands: `repairs` has relays to go through, `reissues` is in the middle of one,
with these candidates left. `reports` is the status monitor's, of a relay that connected. -/
inductive LiveTask (φ : Type) where
  | opens (id : String) (filter : φ)
  | replaces (id : String) (filter : φ)
  | closes (id : String)
  | reports (url : String)
  | onClosed (url id : String)
  | repairs (urls : List String)
  | reissues (url : String) (candidates rest : List String)
  deriving DecidableEq, Repr

/-- Which relays accept a subscribe that nothing else refuses, and the order in which a repair goes
through what is missing. -/
structure Answer where
  accepts : String → Bool := fun _ => true
  order : List String := []

inductive RelayMove where
  | connects (url : String)
  | disconnects (url : String)
  | closes (url id : String)
  deriving DecidableEq, Repr

variable (relays : List String)

def LiveTask.step [DecidableEq φ] (w : Answer) :
    LiveTask φ → LiveSubs φ → Option (LiveSubs φ × Option (LiveTask φ))
  | .opens id filter, s => some (s.open relays id filter w.accepts, none)
  | .replaces id filter, s => some (s.replace relays id filter w.accepts, none)
  | .closes id, s => some (s.close id, none)
  | .reports url, s => some (s.resetRelay url, some (.repairs [url]))
  | .onClosed url id, s =>
      if s.desired.lookup id = none then some (s, none)
      else
        some ((s.nextDelay url id).1,
          if (s.nextDelay url id).2 then some (.repairs [url]) else none)
  | .repairs [], s => some (s, none)
  | .repairs (url :: rest), s =>
      if url ∉ relays ∨ s.desired.keys = [] ∨ s.connected url = false then
        some (s, some (.repairs rest))
      else if w.order.Perm (s.missingOn url) then some (s, some (.reissues url w.order rest))
      else none
  | .reissues _ [] rest, s => some (s, some (.repairs rest))
  | .reissues url (id :: candidates) rest, s =>
      match s.desired.lookup id with
      | none => some (s, some (.reissues url candidates rest))
      | some filter =>
          if s.connected url = false then some (s, some (.repairs rest))
          else some (s.reissue url id filter (w.accepts url), some (.reissues url candidates rest))

/-- A relay that closes a subscription drops it from its table. -/
def RelayMove.act : RelayMove → LiveSubs φ → LiveSubs φ
  | .connects url, s => { s with connected := Function.update s.connected url true }
  | .disconnects url, s => { s with connected := Function.update s.connected url false }
  | .closes url id, s => s.unsubscribeFrom url id

/-- Any number of calls, on a pool of `relays`. -/
def liveProg [DecidableEq φ] : Prog (LiveSubs φ) (LiveTask φ) Answer RelayMove where
  enter
    | .reissues .. => false
    | _ => true
  tstep := LiveTask.step relays
  act a s := some (a.act s)

/-! ## What is to be shown -/

def Event.about (id : String) : Event → Bool
  | .opened x | .closed x => x = id
  | .issued _ _ => false

/-- The last opening or closing of the id was an opening. -/
def Wanted (id : String) (log : List Event) : Prop := log.find? (Event.about id) = some (.opened id)

/-- No subscribe call under an id that was closed and not opened since. -/
def Unresurrected : List Event → Prop
  | [] => True
  | .issued _ id :: log => Wanted id log ∧ Unresurrected log
  | _ :: log => Unresurrected log

/-- The subscribe call the task's step makes to the relay, if it makes one, succeeds: it is not
refused for an id the relay holds, and the relay takes it. -/
def LiveTask.Succeeds (url : String) (w : Answer) (s : LiveSubs φ) : LiveTask φ → Prop
  | .opens id _ => s.holds url id = none ∧ w.accepts url = true
  | .replaces _ _ => w.accepts url = true
  | .reissues u (id :: _) _ =>
      u = url → s.desired.lookup id ≠ none → s.holds url id ≠ s.desired.lookup id →
        w.accepts url = true
  | _ => True

/-- The relay stays connected and closes nothing, and every subscribe call made to it succeeds. -/
def Undisturbed (url : String) (c : Pool (LiveSubs φ) (LiveTask φ)) :
    Label (LiveTask φ) Answer RelayMove → Prop
  | .spawn _ _ | .env (.connects _) => True
  | .env (.disconnects u) | .env (.closes u _) => u ≠ url
  | .step i w => ∀ p ∈ c.threads i, p.Succeeds url w c.shared

/-! ## The tables after one call -/

variable {relays} {s t : LiveSubs φ} {url id x : String} {filter : φ} {ok : Bool}
  {accepts : String → Bool}

namespace LiveSubs

@[simp] theorem subscribe_desired : (s.subscribe url id filter ok).1.desired = s.desired := by
  unfold subscribe; split <;> rfl

@[simp] theorem subscribe_connected :
    (s.subscribe url id filter ok).1.connected = s.connected := by
  unfold subscribe; split <;> rfl

@[simp] theorem subscribe_log :
    (s.subscribe url id filter ok).1.log = .issued url id :: s.log := by
  unfold subscribe; split <;> rfl

theorem subscribe_holds (u x : String) :
    (s.subscribe url id filter ok).1.holds u x =
      if u = url ∧ x = id ∧ s.holds url id = none ∧ ok = true then some filter
      else s.holds u x := by
  unfold subscribe
  split
  · next htook =>
    by_cases hu : u = url
    · subst hu
      by_cases hx : x = id
      · subst hx
        rw [if_pos ⟨rfl, rfl, htook⟩]
        simp [holds]
      · rw [if_neg fun h => hx h.2.1]
        simp [holds, AList.lookup_insert_ne hx]
    · rw [if_neg fun h => hu h.1]
      simp [holds, Function.update_of_ne hu]
  · next hnot =>
    rw [if_neg fun h => hnot h.2.2]
    rfl

theorem subscribe_took :
    (s.subscribe url id filter ok).2 = true ↔ s.holds url id = none ∧ ok = true := by
  unfold subscribe
  split
  · next htook => exact ⟨fun _ => htook, fun _ => rfl⟩
  · next hnot => exact ⟨nofun, fun h => absurd h hnot⟩

@[simp] theorem issue_desired (relays : List String) :
    (s.issue id filter accepts relays).1.desired = s.desired := by
  induction relays generalizing s with
  | nil => rfl
  | cons url relays ih => exact ih.trans subscribe_desired

@[simp] theorem issue_connected (relays : List String) :
    (s.issue id filter accepts relays).1.connected = s.connected := by
  induction relays generalizing s with
  | nil => rfl
  | cons url relays ih => exact ih.trans subscribe_connected

theorem issue_log (relays : List String) :
    (s.issue id filter accepts relays).1.log =
      (relays.map fun url => Event.issued url id).reverse ++ s.log := by
  induction relays generalizing s with
  | nil => rfl
  | cons url relays ih =>
      refine ih.trans ?_
      rw [subscribe_log, List.map_cons, List.reverse_cons, List.append_assoc]
      rfl

/-- A relay holds what it held, or what it has just taken. -/
theorem issue_holds (relays : List String) (u x : String) :
    (s.issue id filter accepts relays).1.holds u x = s.holds u x ∨
      x = id ∧ (s.issue id filter accepts relays).2 = true ∧ s.holds u x = none ∧
        (s.issue id filter accepts relays).1.holds u x = some filter := by
  induction relays generalizing s with
  | nil => exact Or.inl rfl
  | cons url relays ih =>
      have hhead := @subscribe_holds φ s url id filter (accepts url) u x
      have htook := @subscribe_took φ s url id filter (accepts url)
      rcases ih (s := (s.subscribe url id filter (accepts url)).1) with
        hsame | ⟨hx, hlive, hnone, hf⟩
      · by_cases hnew : u = url ∧ x = id ∧ s.holds url id = none ∧ accepts url = true
        · rw [if_pos hnew] at hhead
          obtain ⟨rfl, rfl, hcan⟩ := hnew
          exact Or.inr ⟨rfl, by simp [issue, htook.mpr hcan], hcan.1, hsame.trans hhead⟩
        · rw [if_neg hnew] at hhead
          exact Or.inl (hsame.trans hhead)
      · refine Or.inr ⟨hx, by simp [issue, hlive], ?_, hf⟩
        rw [hnone] at hhead
        split at hhead
        · cases hhead
        · exact hhead.symm

/-- A relay of the pool that holds nothing under the id and accepts takes the REQ. -/
theorem issue_accepts {relays : List String} (hurl : url ∈ relays) (hnone : s.holds url id = none)
    (hok : accepts url = true) :
    (s.issue id filter accepts relays).2 = true ∧
      (s.issue id filter accepts relays).1.holds url id = some filter := by
  induction relays generalizing s with
  | nil => cases hurl
  | cons u relays ih =>
      have hhead := @subscribe_holds φ s u id filter (accepts u) url id
      have htook := @subscribe_took φ s u id filter (accepts u)
      by_cases hu : url = u
      · subst hu
        rw [if_pos ⟨rfl, rfl, hnone, hok⟩] at hhead
        refine ⟨by simp [issue, htook.mpr ⟨hnone, hok⟩], ?_⟩
        rcases (s.subscribe url id filter (accepts url)).1.issue_holds relays url id with
          hsame | ⟨-, -, hgone, -⟩
        · exact hsame.trans hhead
        · exact absurd (hgone.symm.trans hhead).symm (Option.some_ne_none filter)
      · rw [if_neg fun h => hu h.1] at hhead
        obtain ⟨hlive, hf⟩ := ih ((List.mem_cons.mp hurl).resolve_left hu) (hhead.trans hnone)
        exact ⟨by simp [issue, hlive], hf⟩

@[simp] theorem unsubscribe_holds (u x : String) :
    (s.unsubscribe id).holds u x = if x = id then none else s.holds u x := by
  by_cases hx : x = id
  · subst hx
    simp [unsubscribe, holds]
  · simp [unsubscribe, holds, hx, AList.lookup_erase_ne hx]

@[simp] theorem unsubscribeFrom_holds (u x : String) :
    (s.unsubscribeFrom url id).holds u x = if u = url ∧ x = id then none else s.holds u x := by
  by_cases hu : u = url
  · subst hu
    by_cases hx : x = id
    · subst hx
      simp [unsubscribeFrom, holds]
    · simp [unsubscribeFrom, holds, hx, AList.lookup_erase_ne hx]
  · simp [unsubscribeFrom, holds, hu]

end LiveSubs

/-! ## The log -/

theorem wanted_issued {log : List Event} : Wanted x (.issued url id :: log) ↔ Wanted x log := by
  simp [Wanted, Event.about]

theorem wanted_opened {log : List Event} :
    Wanted x (.opened id :: log) ↔ x = id ∨ Wanted x log := by
  by_cases hx : id = x
  · subst hx
    simp [Wanted, Event.about]
  · simp [Wanted, Event.about, hx, Ne.symm hx]

theorem wanted_closed {log : List Event} (hx : x ≠ id) (h : Wanted x log) :
    Wanted x (.closed id :: log) := by
  simpa [Wanted, Event.about, Ne.symm hx] using h

/-- Subscribe calls under a wanted id resurrect nothing, and change nobody's being wanted. -/
theorem issued_append {log : List Event} (urls : List String) (h : Unresurrected log)
    (hid : Wanted id log) :
    Unresurrected ((urls.map fun url => Event.issued url id).reverse ++ log) ∧
      ∀ x, Wanted x log → Wanted x ((urls.map fun url => Event.issued url id).reverse ++ log) := by
  induction urls generalizing log with
  | nil => exact ⟨h, fun _ hx => hx⟩
  | cons url urls ih =>
      rw [List.map_cons, List.reverse_cons, List.append_assoc]
      have hun : Unresurrected (.issued url id :: log) := ⟨hid, h⟩
      obtain ⟨hun, hkeep⟩ := ih hun (wanted_issued.mpr hid)
      exact ⟨hun, fun x hx => hkeep x (wanted_issued.mpr hx)⟩

/-! ## The invariant -/

/-- No relay holds what is not recorded; what is recorded is wanted; and nothing was resurrected. -/
structure LiveOk (s : LiveSubs φ) : Prop where
  held : ∀ url id, s.desired.lookup id = none → s.holds url id = none
  wanted : ∀ id, s.desired.lookup id ≠ none → Wanted id s.log
  issued : Unresurrected s.log

theorem liveOk_empty : LiveOk ({} : LiveSubs φ) where
  held := fun _ _ _ => rfl
  wanted := fun _ h => absurd rfl h
  issued := trivial

/-- The invariant after subscribe calls under a recorded id. -/
theorem LiveOk.issue (hs : LiveOk s) (relays : List String) (hid : s.desired.lookup id ≠ none) :
    LiveOk (s.issue id filter accepts relays).1 := by
  obtain ⟨hun, hkeep⟩ := issued_append relays hs.issued (hs.wanted id hid)
  refine ⟨fun u x hx => ?_, fun x hx => ?_, ?_⟩
  · rw [LiveSubs.issue_desired] at hx
    rcases @LiveSubs.issue_holds φ s id filter accepts relays u x with hsame | ⟨rfl, -⟩
    · exact hsame.trans (hs.held u x hx)
    · exact absurd hx hid
  · rw [LiveSubs.issue_desired] at hx
    rw [LiveSubs.issue_log]
    exact hkeep x (hs.wanted x hx)
  · rw [LiveSubs.issue_log]
    exact hun

theorem LiveOk.replaced (hs : LiveOk s) (relays : List String) :
    LiveOk (s.replace relays id filter accepts) := by
  have hstart : LiveOk (({ s with
      log := .opened id :: s.log
      desired := s.desired.insert id filter } : LiveSubs φ).unsubscribe id) := by
    refine ⟨fun u x hx => ?_, fun x hx => wanted_opened.mpr ?_, hs.issued⟩
    · rw [LiveSubs.unsubscribe_holds]
      split
      · rfl
      · next hne => exact hs.held u x (by simpa [LiveSubs.unsubscribe, hne] using hx)
    · by_cases hne : x = id
      · exact Or.inl hne
      · exact Or.inr (hs.wanted x (by simpa [LiveSubs.unsubscribe, hne] using hx))
  exact hstart.issue relays (by simp [LiveSubs.unsubscribe])

theorem LiveOk.opened (hs : LiveOk s) (relays : List String) :
    LiveOk (s.open relays id filter accepts) := by
  obtain ⟨hun, hkeep⟩ := issued_append relays
    (show Unresurrected (.opened id :: s.log) from hs.issued) (wanted_opened.mpr (Or.inl rfl))
  let s₀ : LiveSubs φ := { s with log := .opened id :: s.log }
  have hheld := @LiveSubs.issue_holds φ s₀ id filter accepts relays
  have hlog := @LiveSubs.issue_log φ s₀ id filter accepts relays
  have hdesired := @LiveSubs.issue_desired φ s₀ id filter accepts relays
  show LiveOk (if (s₀.issue id filter accepts relays).2 then _ else _)
  have hwanted : ∀ x, x = id ∨ s.desired.lookup x ≠ none →
      Wanted x (s₀.issue id filter accepts relays).1.log := fun x hx =>
    hlog ▸ hkeep x (wanted_opened.mpr (hx.imp_right (hs.wanted x)))
  split
  · refine ⟨fun u x hx => ?_, fun x hx => ?_, ?_⟩
    · have hne : x ≠ id := by
        rintro rfl
        simp at hx
      have hx : s.desired.lookup x = none := by simpa [hdesired, hne] using hx
      exact ((hheld u x).resolve_right fun h => hne h.1).trans (hs.held u x hx)
    · by_cases hne : x = id
      · exact hwanted x (Or.inl hne)
      · exact hwanted x (Or.inr (by simpa [hdesired, hne] using hx))
    · exact hlog ▸ hun
  · next hdead =>
    refine ⟨fun u x hx => ?_, fun x hx => hwanted x (Or.inr (hdesired ▸ hx)), hlog ▸ hun⟩
    exact ((hheld u x).resolve_right fun h => hdead h.2.1).trans (hs.held u x (hdesired ▸ hx))

theorem LiveOk.closed (hs : LiveOk s) : LiveOk (s.close id) := by
  refine ⟨fun u x hx => ?_, fun x hx => ?_, hs.issued⟩
  · unfold LiveSubs.close
    rw [LiveSubs.unsubscribe_holds]
    split
    · rfl
    · next hne =>
      exact hs.held u x (by simpa [LiveSubs.close, LiveSubs.unsubscribe, hne] using hx)
  · by_cases hne : x = id
    · subst hne
      simp [LiveSubs.close, LiveSubs.unsubscribe] at hx
    · exact wanted_closed hne
        (hs.wanted x (by simpa [LiveSubs.close, LiveSubs.unsubscribe, hne] using hx))

theorem LiveOk.unsubscribedFrom (hs : LiveOk s) : LiveOk (s.unsubscribeFrom url id) where
  held := by
    intro u x hx
    rw [LiveSubs.unsubscribeFrom_holds]
    split
    · rfl
    · exact hs.held u x hx
  wanted := hs.wanted
  issued := hs.issued

theorem LiveOk.delayed (hs : LiveOk s) : LiveOk (s.nextDelay url id).1 := by
  unfold LiveSubs.nextDelay
  split
  · exact ⟨hs.held, hs.wanted, hs.issued⟩
  · exact hs

theorem LiveOk.act (hs : LiveOk s) (a : RelayMove) : LiveOk (a.act s) := by
  cases a with
  | connects url => exact ⟨hs.held, hs.wanted, hs.issued⟩
  | disconnects url => exact ⟨hs.held, hs.wanted, hs.issued⟩
  | closes url id => exact hs.unsubscribedFrom

/-! ## What a relay holds of one id -/

/-- The relay holds exactly what is recorded of the id. -/
def Agrees (url : String) (s : LiveSubs φ) (id : String) : Prop :=
  s.holds url id = s.desired.lookup id

theorem Agrees.opened (h : Agrees url s x) (hurl : url ∈ relays) (hnone : s.holds url id = none)
    (hok : accepts url = true) : Agrees url (s.open relays id filter accepts) x := by
  let s₀ : LiveSubs φ := { s with log := .opened id :: s.log }
  obtain ⟨hlive, hf⟩ := @LiveSubs.issue_accepts φ s₀ url id filter accepts relays hurl hnone hok
  have hheld := @LiveSubs.issue_holds φ s₀ id filter accepts relays url x
  have hdesired := @LiveSubs.issue_desired φ s₀ id filter accepts relays
  show Agrees url (if (s₀.issue id filter accepts relays).2 then _ else _) x
  rw [if_pos hlive]
  by_cases hx : x = id
  · subst hx
    exact hf.trans (by simp)
  · calc (s₀.issue id filter accepts relays).1.holds url x
        = s.holds url x := hheld.resolve_right fun h => hx h.1
      _ = s.desired.lookup x := h
      _ = ((s₀.issue id filter accepts relays).1.desired.insert id filter).lookup x := by
          rw [AList.lookup_insert_ne hx, hdesired]

theorem Agrees.replaced (h : Agrees url s x) (hurl : url ∈ relays) (hok : accepts url = true) :
    Agrees url (s.replace relays id filter accepts) x := by
  let s₀ : LiveSubs φ := ({ s with
    log := .opened id :: s.log
    desired := s.desired.insert id filter } : LiveSubs φ).unsubscribe id
  have hgone : ∀ x, s₀.holds url x = if x = id then none else s.holds url x :=
    fun x => LiveSubs.unsubscribe_holds url x
  obtain ⟨-, hf⟩ := @LiveSubs.issue_accepts φ s₀ url id filter accepts relays hurl
    ((hgone id).trans (if_pos rfl)) hok
  have hheld := @LiveSubs.issue_holds φ s₀ id filter accepts relays url x
  have hdesired := @LiveSubs.issue_desired φ s₀ id filter accepts relays
  show (s₀.issue id filter accepts relays).1.holds url x =
    (s₀.issue id filter accepts relays).1.desired.lookup x
  rw [hdesired]
  by_cases hx : x = id
  · subst hx
    exact hf.trans (AList.lookup_insert s.desired).symm
  · calc (s₀.issue id filter accepts relays).1.holds url x
        = s₀.holds url x := hheld.resolve_right fun h => hx h.1
      _ = s.holds url x := (hgone x).trans (if_neg hx)
      _ = s.desired.lookup x := h
      _ = s₀.desired.lookup x := (AList.lookup_insert_ne hx).symm

theorem Agrees.closed (h : Agrees url s x) : Agrees url (s.close id) x := by
  have hgone : (s.close id).holds url x = if x = id then none else s.holds url x :=
    LiveSubs.unsubscribe_holds url x
  show (s.close id).holds url x = (s.desired.erase id).lookup x
  by_cases hx : x = id
  · subst hx
    rw [hgone, if_pos rfl, AList.lookup_erase]
  · rw [hgone, if_neg hx, AList.lookup_erase_ne hx]
    exact h

variable [DecidableEq φ]

theorem LiveOk.reissued (hs : LiveOk s) (hid : s.desired.lookup id ≠ none) :
    LiveOk (s.reissue url id filter ok) := by
  unfold LiveSubs.reissue
  split
  · exact hs
  · exact @LiveOk.issue φ _ id filter (fun _ => ok) hs.unsubscribedFrom [url] hid

variable {p : LiveTask φ} {q : Option (LiveTask φ)} {w : Answer}

theorem reissue_desired (s : LiveSubs φ) (u id : String) (filter : φ) (ok : Bool) :
    (s.reissue u id filter ok).desired = s.desired := by
  unfold LiveSubs.reissue
  split
  · rfl
  · exact LiveSubs.subscribe_desired

theorem Agrees.reissued {u : String} (h : Agrees url s x)
    (hwant : s.desired.lookup id = some filter) :
    Agrees url (s.reissue u id filter ok) x := by
  have hdesired := reissue_desired s u id filter ok
  unfold LiveSubs.reissue at hdesired ⊢
  split
  · exact h
  · next hother =>
    -- the relay did not hold the recorded filter, so this is another relay or another id
    have hne : ¬ (url = u ∧ x = id) := by
      rintro ⟨rfl, rfl⟩
      exact hother (h.trans hwant)
    rw [if_neg hother] at hdesired
    unfold Agrees
    rw [hdesired, LiveSubs.subscribe_holds, if_neg fun hnew => hne ⟨hnew.1, hnew.2.1⟩,
      LiveSubs.unsubscribeFrom_holds, if_neg hne]
    exact h

theorem agrees_reissue (hwant : s.desired.lookup id = some filter)
    (hok : s.holds url id ≠ some filter → ok = true) :
    Agrees url (s.reissue url id filter ok) id := by
  have hdesired := reissue_desired s url id filter ok
  unfold LiveSubs.reissue at hdesired ⊢
  split
  · next hheld => exact hheld.trans hwant.symm
  · next hother =>
    have hgone : (s.unsubscribeFrom url id).holds url id = none := by
      rw [LiveSubs.unsubscribeFrom_holds, if_pos ⟨rfl, rfl⟩]
    rw [if_neg hother] at hdesired
    unfold Agrees
    rw [hdesired, LiveSubs.subscribe_holds, if_pos ⟨rfl, rfl, hgone, hok hother⟩]
    exact hwant.symm

/-! ## One step -/

/-- What a task's step does to the registry and the relays. -/
inductive LiveTask.Does (relays : List String) (w : Answer) (s : LiveSubs φ) :
    LiveTask φ → LiveSubs φ → Prop where
  | nothing (p : LiveTask φ) : Does relays w s p s
  | opens (id : String) (filter : φ) :
      Does relays w s (.opens id filter) (s.open relays id filter w.accepts)
  | replaces (id : String) (filter : φ) :
      Does relays w s (.replaces id filter) (s.replace relays id filter w.accepts)
  | closes (id : String) : Does relays w s (.closes id) (s.close id)
  | reports (url : String) : Does relays w s (.reports url) (s.resetRelay url)
  | delays (url id : String) : Does relays w s (.onClosed url id) (s.nextDelay url id).1
  | reissues (url id : String) (candidates rest : List String) (filter : φ) :
      s.desired.lookup id = some filter →
      Does relays w s (.reissues url (id :: candidates) rest)
        (s.reissue url id filter (w.accepts url))

theorem LiveTask.step_does (h : p.step relays w s = some (t, q)) : p.Does relays w s t := by
  cases p with
  | opens id filter => cases h; exact .opens id filter
  | replaces id filter => cases h; exact .replaces id filter
  | closes id => cases h; exact .closes id
  | reports url => cases h; exact .reports url
  | onClosed url id =>
      simp only [LiveTask.step] at h
      split at h
      · cases h; exact .nothing _
      · cases h; exact .delays url id
  | repairs urls =>
      cases urls with
      | nil => cases h; exact .nothing _
      | cons url rest =>
          simp only [LiveTask.step] at h
          split at h
          · cases h; exact .nothing _
          · split at h
            · cases h; exact .nothing _
            · cases h
  | reissues url candidates rest =>
      cases candidates with
      | nil => cases h; exact .nothing _
      | cons id candidates =>
          simp only [LiveTask.step] at h
          split at h
          · cases h; exact .nothing _
          · next filter hwant =>
            split at h
            · cases h; exact .nothing _
            · cases h; exact .reissues url id candidates rest filter hwant

theorem LiveOk.step (hs : LiveOk s) (h : p.step relays w s = some (t, q)) : LiveOk t := by
  cases LiveTask.step_does h with
  | nothing => exact hs
  | opens => exact hs.opened relays
  | replaces => exact hs.replaced relays
  | closes => exact hs.closed
  | reports => exact ⟨hs.held, hs.wanted, hs.issued⟩
  | delays => exact hs.delayed
  | reissues url id _ _ filter hwant => exact hs.reissued (by rw [hwant]; nofun)

theorem liveOk_outline :
    Outline (liveProg (φ := φ) relays) (fun _ _ => True) LiveOk (fun _ _ => True) where
  spawn := fun _ _ _ _ _ _ _ => trivial
  step_shared := fun c _ _ _ _ _ hc _ _ hs => hc.shared.step hs
  step_self := fun _ _ _ _ _ _ _ _ _ _ => trivial
  step_other := fun _ _ _ _ _ _ _ _ _ _ _ _ _ _ => trivial
  env_shared := by
    intro c a s hc _ hs
    cases hs
    exact hc.shared.act a
  env_threads := fun _ _ _ _ _ _ _ _ _ => trivial

theorem step_connected (h : p.step relays w s = some (t, q)) : t.connected = s.connected := by
  cases LiveTask.step_does h with
  | nothing | closes | reports => rfl
  | opens id filter =>
      dsimp only [LiveSubs.open]
      split
      · exact LiveSubs.issue_connected relays
      · exact LiveSubs.issue_connected relays
  | replaces => exact LiveSubs.issue_connected relays
  | delays =>
      unfold LiveSubs.nextDelay
      split <;> rfl
  | reissues =>
      unfold LiveSubs.reissue
      split
      · rfl
      · exact LiveSubs.subscribe_connected

theorem Agrees.step (hs : Agrees url s x) (hurl : url ∈ relays) (hok : p.Succeeds url w s)
    (h : p.step relays w s = some (t, q)) : Agrees url t x := by
  cases LiveTask.step_does h with
  | nothing | reports => exact hs
  | opens => exact hs.opened hurl hok.1 hok.2
  | replaces => exact hs.replaced hurl hok
  | closes => exact hs.closed
  | delays =>
      unfold LiveSubs.nextDelay
      split <;> exact hs
  | reissues u id _ _ filter hwant => exact hs.reissued hwant

/-! ## A repair that nothing disturbs -/

/-- The repair of one relay by the `i`-th thread: it has gone through all that the relay may still
lack, or is going through it. -/
structure Repairing (url : String) (i : Nat) (rest : List String)
    (c : Pool (LiveSubs φ) (LiveTask φ)) : Prop where
  ok : LiveOk c.shared
  connected : c.shared.connected url = true
  agrees : (∀ x, Agrees url c.shared x) ∨
    ∃ candidates, c.threads i = some (.reissues url candidates rest) ∧
      ∀ x, x ∉ candidates → Agrees url c.shared x

/-- One step of the repair itself. -/
theorem repair_step {candidates rest : List String} (hs : LiveOk s) (hurl : url ∈ relays)
    (hconn : s.connected url = true)
    (hok : (LiveTask.reissues url candidates rest).Succeeds url w s)
    (h : (LiveTask.reissues url candidates rest).step relays w s = some (t, q))
    (hrest : ∀ x, x ∉ candidates → Agrees url s x) :
    (∀ x, Agrees url t x) ∨ ∃ left, q = some (.reissues url left rest) ∧
      ∀ x, x ∉ left → Agrees url t x := by
  cases candidates with
  | nil =>
      cases h
      exact Or.inl fun x => hrest x (List.not_mem_nil)
  | cons id candidates =>
      have hother : ∀ x, x ≠ id → x ∉ candidates → Agrees url t x := fun x hx hmem =>
        (hrest x fun hin => (List.mem_cons.mp hin).elim hx hmem).step hurl hok h
      simp only [LiveTask.step] at h
      split at h
      · next hclosed =>
        cases h
        refine Or.inr ⟨candidates, rfl, fun x hmem => ?_⟩
        by_cases hx : x = id
        · subst hx
          exact (hs.held url x hclosed).trans hclosed.symm
        · exact hother x hx hmem
      · next filter hwant =>
        split at h
        · next hoff => exact absurd (hconn.symm.trans hoff) nofun
        · cases h
          refine Or.inr ⟨candidates, rfl, fun x hmem => ?_⟩
          by_cases hx : x = id
          · subst hx
            refine agrees_reissue hwant fun hne => hok rfl ?_ ?_
            · rw [hwant]; nofun
            · rw [hwant]; exact hne
          · exact hother x hx hmem

theorem Repairing.next {i : Nat} {rest : List String} {c c' : Pool (LiveSubs φ) (LiveTask φ)}
    {l : Label (LiveTask φ) Answer RelayMove} (hc : Repairing url i rest c) (hurl : url ∈ relays)
    (hC : Undisturbed url c l) (hn : (liveProg relays).next c l = some c') :
    Repairing url i rest c' := by
  cases l with
  | spawn j p =>
      obtain ⟨-, hfree, rfl⟩ := Prog.next_spawn.mp hn
      refine ⟨hc.ok, hc.connected, hc.agrees.imp_right ?_⟩
      rintro ⟨candidates, hi, hrest⟩
      have hne : i ≠ j := by
        rintro rfl
        exact absurd (hi.symm.trans hfree) nofun
      exact ⟨candidates, (Function.update_of_ne hne ..).trans hi, hrest⟩
  | step j w =>
      obtain ⟨p, s, q, hp, hs, rfl⟩ := Prog.next_step.mp hn
      have hok : p.Succeeds url w c.shared := hC p hp
      have hs : p.step relays w c.shared = some (s, q) := hs
      refine ⟨hc.ok.step hs, (congrFun (step_connected hs) url).trans hc.connected, ?_⟩
      rcases hc.agrees with hall | ⟨candidates, hi, hrest⟩
      · exact Or.inl fun x => (hall x).step hurl hok hs
      · by_cases hj : j = i
        · subst hj
          obtain rfl := Option.some.inj (hi.symm.trans hp)
          rcases repair_step hc.ok hurl hc.connected hok hs hrest with hall | ⟨left, rfl, hleft⟩
          · exact Or.inl hall
          · exact Or.inr ⟨left, Function.update_self .., hleft⟩
        · exact Or.inr ⟨candidates, (Function.update_of_ne (Ne.symm hj) ..).trans hi,
            fun x hx => (hrest x hx).step hurl hok hs⟩
  | env a =>
      obtain ⟨s, hs, rfl⟩ := Prog.next_env.mp hn
      cases hs
      cases a with
      | connects u =>
          refine ⟨hc.ok.act (.connects u), ?_, hc.agrees⟩
          by_cases hu : url = u
          · subst hu
            exact Function.update_self ..
          · exact (Function.update_of_ne hu ..).trans hc.connected
      | disconnects u =>
          have hu : u ≠ url := hC
          exact ⟨hc.ok.act (.disconnects u),
            (Function.update_of_ne hu.symm ..).trans hc.connected, hc.agrees⟩
      | closes u id =>
          have hu : u ≠ url := hC
          have hsame : ∀ x, Agrees url c.shared x →
              Agrees url (c.shared.unsubscribeFrom u id) x := by
            intro x hx
            unfold Agrees
            rw [LiveSubs.unsubscribeFrom_holds, if_neg fun h => hu h.1.symm]
            exact hx
          refine ⟨hc.ok.act (.closes u id), hc.connected,
            hc.agrees.imp (fun h x => hsame x (h x)) ?_⟩
          rintro ⟨candidates, hi, hrest⟩
          exact ⟨candidates, hi, fun x hx => hsame x (hrest x hx)⟩

/-- The repair of a connected relay begins: it looks at what the relay lacks. -/
theorem repairing_begins {i : Nat} {rest : List String} {c c' : Pool (LiveSubs φ) (LiveTask φ)}
    (hc : LiveOk c.shared) (hurl : url ∈ relays) (hconn : c.shared.connected url = true)
    (hi : c.threads i = some (.repairs (url :: rest)))
    (hn : (liveProg relays).next c (.step i w) = some c') : Repairing url i rest c' := by
  obtain ⟨p, s, q, hp, hs, rfl⟩ := Prog.next_step.mp hn
  obtain rfl := Option.some.inj (hi.symm.trans hp)
  have hs : (LiveTask.repairs (url :: rest)).step relays w c.shared = some (s, q) := hs
  simp only [LiveTask.step] at hs
  split at hs
  · next hnothing =>
    cases hs
    refine ⟨hc, hconn, Or.inl fun x => ?_⟩
    have hempty : c.shared.desired.keys = [] := by
      rcases hnothing with hpool | hempty | hoff
      · exact absurd hurl hpool
      · exact hempty
      · exact absurd (hconn.symm.trans hoff) nofun
    have hnone : c.shared.desired.lookup x = none := by
      rw [AList.lookup_eq_none, AList.mem_keys, hempty]
      exact List.not_mem_nil
    exact (hc.held url x hnone).trans hnone.symm
  · split at hs
    · next hperm =>
      cases hs
      refine ⟨hc, hconn, Or.inr ⟨w.order, Function.update_self .., fun x hx => ?_⟩⟩
      by_contra hne
      refine hx (hperm.mem_iff.mpr (List.mem_filter.mpr ⟨?_, by simpa [Agrees] using hne⟩))
      by_contra hkey
      have hnone : c.shared.desired.lookup x = none :=
        AList.lookup_eq_none.mpr fun hmem => hkey (AList.mem_keys.mp hmem)
      exact hne ((hc.held url x hnone).trans hnone.symm)
    · cases hs

/-! ## The two promises -/

/-- **Nothing closed comes back, and a repair that nothing disturbs completes its relay.** In every
state reached, each subscribe call was for an id whose last opening or closing was an opening; and
once a repair is through with a relay of the pool that has stayed connected since the repair looked
at it, took every subscribe made to it and closed nothing, the relay holds what is recorded. -/
theorem subscriptions_converge {ls : List (Label (LiveTask φ) Answer RelayMove)}
    {c : Pool (LiveSubs φ) (LiveTask φ)}
    (hr : run (liveProg relays).next (Pool.idle {}) ls = some c) :
    Unresurrected c.shared.log ∧
      ∀ url i rest w ms c', url ∈ relays → c.threads i = some (.repairs (url :: rest)) →
        c.shared.connected url = true →
        Along (liveProg relays).next (Undisturbed url) c (.step i w :: ms) →
        run (liveProg relays).next c (.step i w :: ms) = some c' →
        (∀ candidates, c'.threads i ≠ some (.reissues url candidates rest)) →
        ∀ id, Agrees url c'.shared id := by
  have hok : LiveOk c.shared :=
    (liveOk_outline.run_inv (poolInv_idle liveOk_empty) (along_true _ _) hr).shared
  refine ⟨hok.issued, fun url i rest w ms c' hurl hi hconn hC hr' hend id => ?_⟩
  obtain ⟨c₁, hfirst, hrest⟩ := run_cons_eq_some.mp hr'
  have hstart := repairing_begins hok hurl hconn hi hfirst
  have hfinal : Repairing url i rest c' :=
    run_inv (fun _ _ _ hc hC hn => hc.next hurl hC hn) hstart (hC.2 c₁ hfirst) hrest
  rcases hfinal.agrees with hall | ⟨candidates, hmid, -⟩
  · exact hall id
  · exact absurd hmid (hend candidates)

/-! ## A repair that is through, and an open in the middle of one -/

instance (url : String) (w : Answer) (s : LiveSubs φ) :
    ∀ p : LiveTask φ, Decidable (p.Succeeds url w s)
  | .opens _ _ => inferInstanceAs (Decidable (_ ∧ _))
  | .replaces _ _ => inferInstanceAs (Decidable (_ = _))
  | .reissues _ (_ :: _) _ => inferInstanceAs (Decidable (_ → _ → _ → _))
  | .closes _ | .reports _ | .onClosed _ _ | .repairs _ | .reissues _ [] _ =>
      inferInstanceAs (Decidable True)

instance (url : String) (c : Pool (LiveSubs φ) (LiveTask φ)) :
    ∀ l, Decidable (Undisturbed url c l)
  | .spawn _ _ | .env (.connects _) => inferInstanceAs (Decidable True)
  | .env (.disconnects _) | .env (.closes _ _) => inferInstanceAs (Decidable (_ ≠ _))
  | .step _ _ => inferInstanceAs (Decidable (∀ p ∈ _, _))

/-- A subscription that could be issued nowhere, a relay that connects, and its repair. -/
def beforeRepair : List (Label (LiveTask String) Answer RelayMove) :=
  [.spawn 0 (.replaces "dm" "f"), .step 0 { accepts := fun _ => false }, .env (.connects "a"),
    .spawn 0 (.repairs ["a"])]

theorem repaired_in_peace :
    ∃ c c', run (liveProg ["a", "b"]).next (Pool.idle {}) beforeRepair = some c ∧
      run (liveProg ["a", "b"]).next c
        [.step 0 { order := ["dm"] }, .step 0 {}, .step 0 {}, .step 0 {}] = some c' ∧
      c'.shared.holds "a" "dm" = some "f" ∧ Unresurrected c.shared.log ∧
      ∀ id, Agrees "a" c'.shared id := by
  have both := @subscriptions_converge String ["a", "b"] _ beforeRepair _ rfl
  refine ⟨_, _, rfl, rfl, rfl, both.1, ?_⟩
  exact both.2 "a" 0 [] { order := ["dm"] } [.step 0 {}, .step 0 {}, .step 0 {}] _ (by decide) rfl
    (by decide) (by decide) rfl nofun

/-- In the middle of a relay's repair. -/
def LiveTask.repairing : LiveTask φ → Bool
  | .reissues .. => true
  | _ => false

/-- The relay stays connected, and every subscribe call a repair makes to it succeeds. -/
def RepairTaken (url : String) (c : Pool (LiveSubs φ) (LiveTask φ)) :
    Label (LiveTask φ) Answer RelayMove → Prop
  | .env (.disconnects u) => u ≠ url
  | .step i w => ∀ p ∈ c.threads i, p.repairing = true → p.Succeeds url w c.shared
  | .spawn _ _ | .env (.connects _) | .env (.closes _ _) => True

instance (url : String) (c : Pool (LiveSubs φ) (LiveTask φ)) :
    ∀ l, Decidable (RepairTaken url c l)
  | .env (.disconnects _) => inferInstanceAs (Decidable (_ ≠ _))
  | .step _ _ => inferInstanceAs (Decidable (∀ p ∈ _, _ → _))
  | .spawn _ _ | .env (.connects _) | .env (.closes _ _) => inferInstanceAs (Decidable True)

/-- An open between a repair's look at the relay and its end, which another relay took. -/
def openedMeanwhile : List (Label (LiveTask String) Answer RelayMove) :=
  [.step 0 { order := ["dm"] }, .spawn 1 (.opens "t" "g"), .step 1 { accepts := (· = "b") },
    .step 0 {}, .step 0 {}, .step 0 {}]

/-- **An open that the relay refuses while it is repaired** is not among what the repair goes
through: nothing is under way any more, every call of the repair succeeded, and the relay lacks the
subscription until it connects again. -/
theorem opened_meanwhile_lacks :
    ∃ c c', run (liveProg ["a", "b"]).next (Pool.idle {}) beforeRepair = some c ∧
      run (liveProg ["a", "b"]).next c openedMeanwhile = some c' ∧
      Along (liveProg ["a", "b"]).next (RepairTaken "a") c openedMeanwhile ∧
      c'.shared.connected "a" = true ∧ c'.finished 2 = true ∧
      c'.shared.desired.lookup "t" = some "g" ∧ c'.shared.holds "a" "t" = none := by
  exact ⟨_, _, rfl, rfl, by decide, by decide, by decide, by decide, by decide⟩

end MostroApp.Live
