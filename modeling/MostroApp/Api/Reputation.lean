import MostroApp.Lib.Interleaving

set_option autoImplicit false

/-! # Rating the counterparty (`api/reputation.rs`)

A call brings the durable marker of an earlier session into memory, takes the trade's slot there,
and sends the rating; when that fails it gives the slot back, and when it succeeds it writes the
marker. The slot is held from before the rating is sent until the marker is written or the rating
has failed, and a marker is read before every try for the slot, so that a trade is rated once
(`rated_at_most_once`).

How often a rating was sent, how calls ended, and whether they began after a trade was rated is
bookkeeping.
-/

namespace MostroApp.Reputation

open Interleaving Transition

/-! ## The store -/

structure RatingInfo where
  tradeId : String
  score : Nat
  isMine : Bool
  createdAt : Int
deriving DecidableEq

/-- Both sides of a trade's rating; a trade with neither has no entry. -/
structure TradeRatings where
  mine : Option RatingInfo := none
  peer : Option RatingInfo := none
deriving DecidableEq

inductive Ended where
  | ok
  | invalidScore
  | privacyModeEnabled
  | alreadyRated
  | dispatchFailed
deriving DecidableEq

/-- A submission over: its trade, whether it began when that was rated, and how it ended. -/
structure Outcome where
  tradeId : String
  late : Bool
  ended : Ended
deriving DecidableEq

structure RatingState where
  ratings : String → TradeRatings := fun _ => {}
  privacyMode : Bool := false
  /-- The durable marker of the trade's row. -/
  ratedAt : String → Option Int := fun _ => none
  /-- How often a rating of the trade was sent. -/
  published : String → Nat := fun _ => 0
  outcomes : List Outcome := []

namespace RatingState

/-- Our side of a trade's rating. -/
def mine (s : RatingState) (t : String) : Option RatingInfo := (s.ratings t).mine

def setMine (t : String) (info : Option RatingInfo) (s : RatingState) : RatingState :=
  let rated : TradeRatings := { mine := info, peer := (s.ratings t).peer }
  { s with ratings := Function.update s.ratings t rated }

/-- `insert_peer`. -/
def insertPeer (info : RatingInfo) (s : RatingState) : RatingState :=
  let rated : TradeRatings := { mine := s.mine info.tradeId, peer := some info }
  { s with ratings := Function.update s.ratings info.tradeId rated }

/-- `hydrate_mine`: a rating that is there stays. -/
def hydrateMine (info : RatingInfo) (s : RatingState) : RatingState :=
  if s.mine info.tradeId = none then s.setMine info.tradeId (some info) else s

/-- `mark_trade_rated`. -/
def markTradeRated (t : String) (ratedAt : Int) (s : RatingState) : RatingState :=
  { s with ratedAt := Function.update s.ratedAt t (some ratedAt) }

def publish (t : String) (s : RatingState) : RatingState :=
  { s with published := Function.update s.published t (s.published t + 1) }

def finish (t : String) (late : Bool) (ended : Ended) (s : RatingState) : RatingState :=
  { s with outcomes := s.outcomes ++ [⟨t, late, ended⟩] }

/-- The process starts anew: what was in memory is gone. -/
def restarted (s : RatingState) : RatingState :=
  { s with ratings := fun _ => {}, privacyMode := false }

end RatingState

/-! ## Calls -/

/-- A rating to submit, and whether the trade was rated when the call began. -/
structure Submission where
  score : Nat
  late : Bool
deriving DecidableEq

/-- Where a call stands. One that has no submission only hydrates. -/
inductive RatingTask where
  | starts (t : String) (score : Nat)
  | looks (t : String) (sub : Option Submission)
  | reads (t : String) (sub : Option Submission)
  | fills (t : String) (marker : Option Int) (sub : Option Submission)
  | reserves (t : String) (sub : Submission)
  | sends (t : String) (sub : Submission)
  | marks (t : String) (sub : Submission)
  | rollsBack (t : String) (sub : Submission)
deriving DecidableEq

/-- What comes of sending a rating. -/
inductive Sent where
  | published
  | failed
  | noTradeKey
deriving DecidableEq

/-- What a step cannot know: the clock, and what comes of sending. -/
structure Answer where
  now : Int := 0
  sent : Sent := .failed
deriving DecidableEq

/-- Where a call goes on when it has hydrated. -/
def hydrated (t : String) (sub : Option Submission) : Option RatingTask := sub.map (.reserves t)

/-- `submit_rating` and `hydrate_mine_from_db`, one access to the store, the row or the relays per
step. -/
def RatingTask.step (a : Answer) :
    RatingTask → RatingState → Option (RatingState × Option RatingTask)
  | .starts t score, s =>
      let late := decide (s.published t ≠ 0)
      if score < 1 ∨ 5 < score then some (s.finish t late .invalidScore, none)
      else if s.privacyMode then some (s.finish t late .privacyModeEnabled, none)
      else some (s, some (.looks t (some ⟨score, late⟩)))
  | .looks t sub, s => some (s, if (s.mine t).isSome then hydrated t sub else some (.reads t sub))
  | .reads t sub, s =>
      some (s, if (s.ratedAt t).isSome then some (.fills t (s.ratedAt t) sub) else hydrated t sub)
  | .fills t marker sub, s =>
      some (s.hydrateMine ⟨t, 0, true, marker.getD 0⟩, hydrated t sub)
  | .reserves t sub, s =>
      if (s.mine t).isSome then some (s.finish t sub.late .alreadyRated, none)
      else some (s.setMine t (some ⟨t, sub.score, true, a.now⟩), some (.sends t sub))
  | .sends t sub, s =>
      match a.sent with
      | .published => some (s.publish t, some (.marks t sub))
      | .failed => some (s, some (.rollsBack t sub))
      | .noTradeKey => some (s.finish t sub.late .ok, none)
  | .marks t sub, s => some ((s.markTradeRated t a.now).finish t sub.late .ok, none)
  | .rollsBack t sub, s =>
      some ((s.setMine t none).finish t sub.late .dispatchFailed, none)

/-- What others do: the privacy mode is set, a peer's rating comes in. -/
inductive RatingEnv where
  | setPrivacyMode (enabled : Bool)
  | ratingReceived (t : String) (score : Nat) (now : Int)
deriving DecidableEq

def RatingEnv.act : RatingEnv → RatingState → Option RatingState
  | .setPrivacyMode enabled, s => some { s with privacyMode := enabled }
  | .ratingReceived t score now, s =>
      if score < 1 ∨ 5 < score ∨ s.privacyMode = true then some s
      else some (s.insertPeer ⟨t, score, false, now⟩)

/-- Any number of submissions, and of calls that only hydrate. -/
def ratingProg : Prog RatingState RatingTask Answer RatingEnv where
  enter
    | .starts _ _ => true
    | .looks _ none => true
    | _ => false
  tstep := RatingTask.step
  act := RatingEnv.act

abbrev RatingPool := Pool RatingState RatingTask

/-- A move of the calls, or a restart. -/
inductive RatingLabel where
  | move (l : Label RatingTask Answer RatingEnv)
  | restart

/-- A restart ends the calls. -/
def next (c : RatingPool) : RatingLabel → Option RatingPool
  | .move l => ratingProg.next c l
  | .restart => some (Pool.idle c.shared.restarted)

/-- No restart comes between a rating that was sent and its marker. -/
def MarkersWritten (c : RatingPool) : RatingLabel → Prop
  | .move _ => True
  | .restart => ∀ i t sub, c.threads i ≠ some (.marks t sub)

/-! ## What holds along a run -/

namespace RatingState

variable {s : RatingState} {t t' : String} {info : Option RatingInfo} {late : Bool} {ended : Ended}

@[simp] theorem mine_setMine : (s.setMine t info).mine t = info := by
  simp [setMine, mine]

theorem mine_setMine_ne (h : t' ≠ t) : (s.setMine t info).mine t' = s.mine t' := by
  simp [setMine, mine, Function.update_of_ne h]

@[simp] theorem published_setMine : (s.setMine t info).published = s.published := rfl

@[simp] theorem ratedAt_setMine : (s.setMine t info).ratedAt = s.ratedAt := rfl

@[simp] theorem outcomes_setMine : (s.setMine t info).outcomes = s.outcomes := rfl

@[simp] theorem mine_insertPeer (info : RatingInfo) : (s.insertPeer info).mine = s.mine := by
  funext t
  by_cases h : t = info.tradeId
  · subst h
    simp [insertPeer, mine]
  · simp [insertPeer, mine, Function.update_of_ne h]

@[simp] theorem mine_finish : (s.finish t late ended).mine = s.mine := rfl

@[simp] theorem mine_publish : (s.publish t).mine = s.mine := rfl

@[simp] theorem published_publish : (s.publish t).published t = s.published t + 1 := by
  simp [publish]

theorem published_publish_ne (h : t' ≠ t) : (s.publish t).published t' = s.published t' := by
  simp [publish, Function.update_of_ne h]

/-- Hydrating fills the slot, and leaves one that is filled. -/
theorem mine_hydrateMine (info : RatingInfo) :
    (s.hydrateMine info).mine info.tradeId ≠ none ∧
      ∀ t, s.mine t ≠ none → (s.hydrateMine info).mine t ≠ none := by
  unfold hydrateMine
  by_cases h : s.mine info.tradeId = none
  · rw [if_pos h]
    refine ⟨by simp, fun t ht => ?_⟩
    have hne : t ≠ info.tradeId := fun heq => ht (heq ▸ h)
    rwa [mine_setMine_ne hne]
  · rw [if_neg h]
    exact ⟨h, fun _ => id⟩

end RatingState

/-- A submission that is refused for what it is, or for the trade being rated. -/
def Ended.Refused (ended : Ended) : Prop := ended ≠ .ok ∧ ended ≠ .dispatchFailed

/-- A trade is rated once; one that is rated has its slot filled in this session, or its marker
written; and what began after it was rated was refused. -/
structure StoreInv (s : RatingState) : Prop where
  once : ∀ t, s.published t ≤ 1
  marked : ∀ t, s.ratedAt t ≠ none → s.published t ≠ 0
  kept : ∀ t, s.published t ≠ 0 → s.mine t ≠ none ∨ s.ratedAt t ≠ none
  refused : ∀ o ∈ s.outcomes, o.late = true → o.ended.Refused

/-- The trade a call is about. -/
def RatingTask.trade : RatingTask → String
  | .starts t _ | .looks t _ | .reads t _ | .fills t _ _ | .reserves t _ | .sends t _
  | .marks t _ | .rollsBack t _ => t

/-- The trade whose slot the call has taken. -/
def RatingTask.holds : RatingTask → Option String
  | .sends t _ | .marks t _ | .rollsBack t _ => some t
  | _ => none

/-- What began late began after the trade was rated. -/
def Submission.Sound (sub : Submission) (t : String) (s : RatingState) : Prop :=
  sub.late = true → s.published t ≠ 0

/-- What holds where a call stands. -/
def RatingTask.Sound : RatingTask → RatingState → Prop
  | .starts _ _, _ => True
  | .looks t sub, s | .reads t sub, s => ∀ x ∈ sub, x.Sound t s
  -- the marker that was read tells of a rating
  | .fills t _ sub, s => s.published t ≠ 0 ∧ ∀ x ∈ sub, x.Sound t s
  -- a slot that is free here is that of a trade not rated
  | .reserves t sub, s => sub.Sound t s ∧ (s.published t ≠ 0 → s.mine t ≠ none)
  | .sends t sub, s | .rollsBack t sub, s =>
      s.published t = 0 ∧ s.mine t ≠ none ∧ sub.late = false
  | .marks t sub, s => s.published t ≠ 0 ∧ s.mine t ≠ none ∧ sub.late = false

variable {s s' : RatingState} {p r : RatingTask} {q : Option RatingTask} {a : Answer} {t : String}
  {c c' : RatingPool}

/-- Our side of the ratings is as it was. -/
structure SameMine (s s' : RatingState) : Prop where
  mine : s'.mine = s.mine
  ratedAt : s'.ratedAt = s.ratedAt
  published : s'.published = s.published
  outcomes : s'.outcomes = s.outcomes

/-- Others leave our side of the ratings alone. -/
theorem RatingEnv.same (e : RatingEnv) (hs : e.act s = some s') : SameMine s s' := by
  cases e with
  | setPrivacyMode enabled =>
      cases hs
      exact ⟨rfl, rfl, rfl, rfl⟩
  | ratingReceived t score now =>
      simp only [RatingEnv.act] at hs
      split at hs <;> cases hs
      · exact ⟨rfl, rfl, rfl, rfl⟩
      · exact ⟨RatingState.mine_insertPeer _, rfl, rfl, rfl⟩

/-- What a call that has the slot knows. -/
theorem RatingTask.Sound.holder (h : p.Sound s) (ht : p.holds = some t) :
    p.trade = t ∧ s.mine t ≠ none := by
  cases p with
  | sends t' sub | marks t' sub | rollsBack t' sub =>
      obtain rfl := Option.some.inj ht
      exact ⟨rfl, h.2.1⟩
  | _ => cases ht

/-- The trade is as rated as it was, and its slot stays filled. -/
structure Steady (t : String) (s s' : RatingState) : Prop where
  published : s'.published t = s.published t
  mine : s.mine t ≠ none → s'.mine t ≠ none

theorem Steady.refl (t : String) (s : RatingState) : Steady t s s := ⟨rfl, id⟩

theorem SameMine.steady (h : SameMine s s') (t : String) : Steady t s s' :=
  ⟨congrFun h.published t, h.mine ▸ id⟩

theorem RatingTask.Sound.steady (h : p.Sound s) (hs : Steady p.trade s s') : p.Sound s' := by
  have hsub : ∀ x : Submission, x.Sound p.trade s → x.Sound p.trade s' := by
    intro x hx hlate
    rw [hs.published]
    exact hx hlate
  cases p with
  | starts t score => trivial
  | looks t sub => exact fun x hx => hsub x (h x hx)
  | reads t sub => exact fun x hx => hsub x (h x hx)
  | fills t marker sub => exact ⟨hs.published ▸ h.1, fun x hx => hsub x (h.2 x hx)⟩
  | reserves t sub => exact ⟨hsub sub h.1, fun hpub => hs.mine (h.2 (hs.published ▸ hpub))⟩
  | sends t sub => exact ⟨hs.published.trans h.1, hs.mine h.2.1, h.2.2⟩
  | rollsBack t sub => exact ⟨hs.published.trans h.1, hs.mine h.2.1, h.2.2⟩
  | marks t sub => exact ⟨hs.published ▸ h.1, hs.mine h.2.1, h.2.2⟩

/-- What a step does, by where the call stands. -/
inductive RatingTask.Steps (a : Answer) (s : RatingState) :
    RatingTask → RatingState → Option RatingTask → Prop
  | refuses (t : String) (score : Nat) (late : Bool) (ended : Ended) (hended : ended.Refused)
      (hnew : ended ≠ .alreadyRated) : Steps a s (.starts t score) (s.finish t late ended) none
  | begins (t : String) (score : Nat) :
      Steps a s (.starts t score) s (some (.looks t (some ⟨score, decide (s.published t ≠ 0)⟩)))
  | looks (t : String) (sub : Option Submission) (q : Option RatingTask)
      (hq : q = if (s.mine t).isSome then hydrated t sub else some (.reads t sub)) :
      Steps a s (.looks t sub) s q
  | reads (t : String) (sub : Option Submission) (q : Option RatingTask)
      (hq : q = if (s.ratedAt t).isSome then some (.fills t (s.ratedAt t) sub)
        else hydrated t sub) : Steps a s (.reads t sub) s q
  | fills (t : String) (marker : Option Int) (sub : Option Submission) (q : Option RatingTask)
      (hq : q = hydrated t sub) :
      Steps a s (.fills t marker sub) (s.hydrateMine ⟨t, 0, true, marker.getD 0⟩) q
  | repeats (t : String) (sub : Submission) (hmine : s.mine t ≠ none) :
      Steps a s (.reserves t sub) (s.finish t sub.late .alreadyRated) none
  | reserves (t : String) (sub : Submission) (hmine : s.mine t = none) :
      Steps a s (.reserves t sub) (s.setMine t (some ⟨t, sub.score, true, a.now⟩))
        (some (.sends t sub))
  | publishes (t : String) (sub : Submission) :
      Steps a s (.sends t sub) (s.publish t) (some (.marks t sub))
  | fails (t : String) (sub : Submission) : Steps a s (.sends t sub) s (some (.rollsBack t sub))
  | keeps (t : String) (sub : Submission) :
      Steps a s (.sends t sub) (s.finish t sub.late .ok) none
  | marks (t : String) (sub : Submission) :
      Steps a s (.marks t sub) ((s.markTradeRated t a.now).finish t sub.late .ok) none
  | rollsBack (t : String) (sub : Submission) :
      Steps a s (.rollsBack t sub) ((s.setMine t none).finish t sub.late .dispatchFailed) none

/-- **The steps of a call are these.** -/
theorem RatingTask.step_cases (h : p.step a s = some (s', q)) : p.Steps a s s' q := by
  cases p with
  | starts t score =>
      simp only [RatingTask.step] at h
      split at h
      · cases h
        exact .refuses t score _ _ ⟨nofun, nofun⟩ nofun
      · split at h <;> cases h
        · exact .refuses t score _ _ ⟨nofun, nofun⟩ nofun
        · exact .begins t score
  | looks t sub =>
      cases h
      exact .looks t sub _ rfl
  | reads t sub =>
      cases h
      exact .reads t sub _ rfl
  | fills t marker sub =>
      cases h
      exact .fills t marker sub _ rfl
  | reserves t sub =>
      simp only [RatingTask.step] at h
      split at h
      · next hmine =>
        cases h
        exact .repeats t sub (Option.isSome_iff_ne_none.mp hmine)
      · next hmine =>
        cases h
        exact .reserves t sub (Option.not_isSome_iff_eq_none.mp hmine)
  | sends t sub =>
      simp only [RatingTask.step] at h
      split at h <;> cases h
      · exact .publishes t sub
      · exact .fails t sub
      · exact .keeps t sub
  | marks t sub =>
      cases h
      exact .marks t sub
  | rollsBack t sub =>
      cases h
      exact .rollsBack t sub

/-- What a step does to the trades: all stay as they were, or the holder of an unrated trade rates
it or gives its slot up. -/
theorem RatingTask.step_trades (hp : p.Sound s) (h : p.step a s = some (s', q)) :
    (∀ t, Steady t s s') ∨
      p.holds = some p.trade ∧ s.published p.trade = 0 ∧
        (s'.published p.trade ≠ 0 → s'.mine p.trade ≠ none) ∧
        ∀ t ≠ p.trade, Steady t s s' := by
  cases RatingTask.step_cases h with
  | refuses | repeats | keeps | marks => exact Or.inl fun t' => ⟨rfl, id⟩
  | begins | looks | reads | fails => exact Or.inl fun t' => Steady.refl t' s
  | fills t marker sub =>
      refine Or.inl fun t' => ⟨?_, (RatingState.mine_hydrateMine _).2 t'⟩
      unfold RatingState.hydrateMine
      split <;> rfl
  | reserves t sub =>
      refine Or.inl fun t' => ⟨rfl, fun hmine => ?_⟩
      by_cases ht : t' = t
      · subst ht
        simp
      · rwa [RatingState.mine_setMine_ne ht]
  | publishes t sub =>
      refine Or.inr ⟨rfl, hp.1, fun _ => hp.2.1, fun t' ht => ⟨?_, id⟩⟩
      exact RatingState.published_publish_ne ht
  | rollsBack t sub =>
      refine Or.inr ⟨rfl, hp.1, fun hpub => absurd hp.1 hpub, fun t' ht => ⟨rfl, fun hmine => ?_⟩⟩
      have hne : t' ≠ t := ht
      rwa [RatingState.mine_finish, RatingState.mine_setMine_ne hne]

/-- A step of one call leaves what holds where another stands. -/
theorem RatingTask.Sound.other (hr : r.Sound s) (hp : p.Sound s) (h : p.step a s = some (s', q))
    (hapart : ∀ t, p.holds = some t → r.holds ≠ some t) : r.Sound s' := by
  rcases RatingTask.step_trades hp h with hsteady | ⟨hholds, hpub, hmine, hsteady⟩
  · exact hr.steady (hsteady r.trade)
  · by_cases ht : r.trade = p.trade
    · have hsub : ∀ x : Submission, x.Sound p.trade s → x.Sound p.trade s' :=
        fun x hx hlate => absurd hpub (hx hlate)
      have hnot := hapart _ hholds
      rw [← ht] at hpub hsub hmine hnot
      cases r with
      | starts t score => trivial
      | looks t sub => exact fun x hx => hsub x (hr x hx)
      | reads t sub => exact fun x hx => hsub x (hr x hx)
      | fills t marker sub => exact absurd hpub hr.1
      | reserves t sub => exact ⟨hsub sub hr.1, hmine⟩
      | sends t sub | rollsBack t sub | marks t sub => exact absurd rfl hnot
    · exact hr.steady (hsteady r.trade ht)

/-! ## Steps -/

theorem StoreInv.same (h : StoreInv s) (hs : SameMine s s') : StoreInv s' := by
  refine ⟨?_, ?_, ?_, ?_⟩
  · rw [hs.published]
    exact h.once
  · rw [hs.ratedAt, hs.published]
    exact h.marked
  · rw [hs.mine, hs.ratedAt, hs.published]
    exact h.kept
  · rw [hs.outcomes]
    exact h.refused

theorem StoreInv.finish (h : StoreInv s) {late : Bool} {ended : Ended}
    (hended : late = true → ended.Refused) : StoreInv (s.finish t late ended) := by
  refine ⟨h.once, h.marked, h.kept, fun o ho hlate => ?_⟩
  rcases List.mem_append.mp ho with ho | ho
  · exact h.refused o ho hlate
  · obtain rfl := List.mem_singleton.mp ho
    exact hended hlate

/-- A slot may be filled, and that of a trade not rated be given up. -/
theorem StoreInv.setMine (h : StoreInv s) {info : Option RatingInfo}
    (hinfo : info = none → s.published t = 0) : StoreInv (s.setMine t info) := by
  refine ⟨h.once, h.marked, fun t' hpub => ?_, h.refused⟩
  by_cases ht : t' = t
  · subst ht
    rw [RatingState.mine_setMine]
    exact Or.inl fun hnone => hpub (hinfo hnone)
  · rw [RatingState.mine_setMine_ne ht]
    exact h.kept t' hpub

theorem StoreInv.publish (h : StoreInv s) (hpub : s.published t = 0) (hmine : s.mine t ≠ none) :
    StoreInv (s.publish t) := by
  refine ⟨fun t' => ?_, fun t' hmark => ?_, fun t' hpub' => ?_, h.refused⟩
  · by_cases ht : t' = t
    · subst ht
      have hone : (s.publish t').published t' = 1 :=
        RatingState.published_publish.trans (congrArg (· + 1) hpub)
      exact Nat.le_of_eq hone
    · rw [RatingState.published_publish_ne ht]
      exact h.once t'
  · by_cases ht : t' = t
    · subst ht
      rw [RatingState.published_publish]
      omega
    · rw [RatingState.published_publish_ne ht]
      exact h.marked t' hmark
  · by_cases ht : t' = t
    · exact Or.inl (ht ▸ hmine)
    · exact h.kept t' (RatingState.published_publish_ne ht ▸ hpub')

theorem StoreInv.markTradeRated (h : StoreInv s) (now : Int) (hpub : s.published t ≠ 0)
    (hmine : s.mine t ≠ none) : StoreInv (s.markTradeRated t now) := by
  refine ⟨h.once, fun t' hmark => ?_, fun t' hpub' => ?_, h.refused⟩
  · by_cases ht : t' = t
    · exact ht ▸ hpub
    · refine h.marked t' fun hnone => hmark ?_
      simpa [RatingState.markTradeRated, Function.update_of_ne ht] using hnone
  · by_cases ht : t' = t
    · exact Or.inl (ht ▸ hmine)
    · refine (h.kept t' hpub').imp id fun hmark => ?_
      simpa [RatingState.markTradeRated, Function.update_of_ne ht] using hmark

/-- **Each step keeps the store.** -/
theorem StoreInv.step (h : StoreInv s) (hp : p.Sound s) (hs : p.step a s = some (s', q)) :
    StoreInv s' := by
  have hearly : ∀ {sub : Submission}, sub.late = false → sub.late = true → Ended.ok.Refused := by
    intro sub hsub hlate
    rw [hsub] at hlate
    cases hlate
  cases RatingTask.step_cases hs with
  | refuses t score late ended hended => exact h.finish fun _ => hended
  | begins | looks | reads | fails => exact h
  | fills t marker sub =>
      unfold RatingState.hydrateMine
      split
      · exact h.setMine nofun
      · exact h
  | repeats t sub => exact h.finish fun _ => ⟨nofun, nofun⟩
  | reserves t sub => exact h.setMine nofun
  | publishes t sub => exact h.publish hp.1 hp.2.1
  | keeps t sub => exact h.finish (hearly hp.2.2)
  | marks t sub => exact (h.markTradeRated a.now hp.1 hp.2.1).finish (hearly hp.2.2)
  | rollsBack t sub =>
      refine StoreInv.finish (h.setMine fun _ => hp.1) fun hlate => ?_
      rw [hp.2.2] at hlate
      cases hlate

/-- **Where a call goes on, what holds there does.** -/
theorem RatingTask.Sound.step (h : StoreInv s) (hp : p.Sound s)
    (hs : p.step a s = some (s', some r)) : r.Sound s' := by
  have hyd : ∀ {s : RatingState} {t : String} {sub : Option Submission},
      (∀ x ∈ sub, x.Sound t s) → (s.published t ≠ 0 → s.mine t ≠ none) →
        hydrated t sub = some r → r.Sound s := by
    intro s t sub hsub hfilled hr
    obtain ⟨x, hx, rfl⟩ := Option.map_eq_some_iff.mp hr
    exact ⟨hsub x hx, hfilled⟩
  cases RatingTask.step_cases hs with
  | begins t score =>
      intro x hx hlate
      obtain rfl := Option.some.inj hx
      exact of_decide_eq_true hlate
  | looks t sub q hq =>
      have hr := hq.symm
      split at hr
      · next hmine => exact hyd hp (fun _ => Option.isSome_iff_ne_none.mp hmine) hr
      · cases hr
        exact hp
  | reads t sub q hq =>
      have hr := hq.symm
      split at hr
      · next hmark =>
        cases hr
        exact ⟨h.marked t (Option.isSome_iff_ne_none.mp hmark), hp⟩
      · next hmark =>
        refine hyd hp (fun hpub => (h.kept t hpub).resolve_right fun hne => ?_) hr
        exact hmark (Option.isSome_iff_ne_none.mpr hne)
  | fills t marker sub q hq =>
      have hsteady := RatingState.mine_hydrateMine (s := s) ⟨t, 0, true, marker.getD 0⟩
      refine hyd (fun x hx hlate => ?_) (fun _ => hsteady.1) hq.symm
      have hpub : (s.hydrateMine ⟨t, 0, true, marker.getD 0⟩).published t = s.published t := by
        unfold RatingState.hydrateMine
        split <;> rfl
      rw [hpub]
      exact hp.2 x hx hlate
  | reserves t sub hmine =>
      have hpub : s.published t = 0 := by
        by_contra hpub
        exact hp.2 hpub hmine
      refine ⟨hpub, by simp, ?_⟩
      by_contra hlate
      exact hp.1 (Bool.not_eq_false _ ▸ hlate) hpub
  | publishes t sub =>
      refine ⟨?_, hp.2⟩
      rw [RatingState.published_publish]
      omega
  | fails t sub => exact hp

theorem hydrated_holds {sub : Option Submission} (h : hydrated t sub = some r) :
    r.holds = none := by
  obtain ⟨x, -, rfl⟩ := Option.map_eq_some_iff.mp h
  rfl

/-- A call takes a slot only if no other call has it. -/
theorem step_holds (hp : p.Sound s) (hs : p.step a s = some (s', some r)) (ht : r.holds = some t) :
    p.holds = some t ∨ s.mine t = none := by
  cases RatingTask.step_cases hs with
  | reserves t' sub hmine =>
      obtain rfl := Option.some.inj ht
      exact Or.inr hmine
  | publishes | fails => exact Or.inl ht
  | begins => cases ht
  | looks t' sub q hq | reads t' sub q hq =>
      split at hq
      all_goals
        first
        | rw [hydrated_holds hq.symm] at ht; cases ht
        | cases hq; cases ht
  | fills t' marker sub q hq =>
      rw [hydrated_holds hq.symm] at ht
      cases ht

/-- What holds of the store and where the calls stand is kept while no two calls have one slot. -/
theorem ratingOutline : Outline ratingProg (fun c _ => c.Apart RatingTask.holds) StoreInv
    RatingTask.Sound where
  spawn c i p _ _ hp _ := by
    cases p with
    | starts t score => trivial
    | looks t sub =>
        cases sub with
        | none => exact nofun
        | some sub => cases hp
    | _ => cases hp
  step_shared c i w p s q hc _ hp hs := hc.shared.step (hc.threads i p hp) hs
  step_self c i w p s p' hc _ hp hs := RatingTask.Sound.step hc.shared (hc.threads i p hp) hs
  step_other c i w p s q j r hc hapart hp hs hj hr :=
    (hc.threads j r hr).other (hc.threads i p hp) hs fun t ht =>
      hapart i j p r t hj.symm hp hr ht
  env_shared c e s hc _ hs := hc.shared.same (e.same hs)
  env_threads c e s i p hc _ hs hp := (hc.threads i p hp).steady ((e.same hs).steady p.trade)

/-- A trade that is rated by a step has its marker to be written, and markers stay. -/
theorem step_marker (hs : p.step a s = some (s', q)) (t : String) :
    (s'.published t = s.published t ∨ ∃ sub, q = some (.marks t sub)) ∧
      (s.ratedAt t ≠ none → s'.ratedAt t ≠ none) ∧
      ∀ sub, p = .marks t sub → s'.ratedAt t ≠ none := by
  cases RatingTask.step_cases hs with
  | refuses | begins | looks | reads | repeats | reserves | fails | keeps | rollsBack =>
      exact ⟨Or.inl rfl, id, nofun⟩
  | fills t' marker sub =>
      unfold RatingState.hydrateMine
      split <;> exact ⟨Or.inl rfl, id, nofun⟩
  | publishes t' sub =>
      refine ⟨?_, id, nofun⟩
      by_cases ht : t = t'
      · exact Or.inr ⟨sub, by rw [ht]⟩
      · exact Or.inl (RatingState.published_publish_ne ht)
  | marks t' sub =>
      have hmark : (s.markTradeRated t' a.now).ratedAt t' ≠ none := by
        simp [RatingState.markTradeRated]
      refine ⟨Or.inl rfl, fun hold => ?_, fun sub' heq => ?_⟩
      · by_cases ht : t = t'
        · exact ht ▸ hmark
        · show (Function.update s.ratedAt t' _) t ≠ none
          rwa [Function.update_of_ne ht]
      · obtain ⟨rfl, -⟩ := RatingTask.marks.inj heq
        exact hmark

/-- A rating of the trade was sent, or a submission for it ended well: in this session or, which a
restart forgets when nothing was sent for want of a trade key, in an earlier one. -/
def RatingState.Rated (t : String) (s : RatingState) : Prop :=
  s.published t ≠ 0 ∨ ∃ o ∈ s.outcomes, o.tradeId = t ∧ o.ended = .ok

theorem RatingState.Rated.finish (h : s.Rated t) (t' : String) (late : Bool) (ended : Ended) :
    (s.finish t' late ended).Rated t :=
  h.imp id fun ⟨o, ho, hot⟩ => ⟨o, List.mem_append_left _ ho, hot⟩

theorem RatingState.rated_finish_ok (t : String) (late : Bool) (s : RatingState) :
    (s.finish t late .ok).Rated t :=
  Or.inr ⟨_, List.mem_append_right _ List.mem_cons_self, rfl, rfl⟩

theorem holds_ne {t' : String} (h : p.holds = some t') (ht : t ≠ t') : p.holds ≠ some t :=
  fun heq => ht (Option.some.inj (heq.symm.trans h))

/-- A trade whose slot a step leaves filled is rated, or had it filled, by who goes on if by the
call that steps. -/
theorem step_slot (hp : p.Sound s) (hs : p.step a s = some (s', q)) (t : String) :
    (s.Rated t → s'.Rated t) ∧
      (s'.mine t ≠ none → s'.Rated t ∨ (∃ r, q = some r ∧ r.holds = some t) ∨
        s.mine t ≠ none ∧ p.holds ≠ some t) := by
  cases RatingTask.step_cases hs with
  | refuses | repeats => exact ⟨fun h => h.finish .., fun h => Or.inr (Or.inr ⟨h, nofun⟩)⟩
  | begins | looks | reads => exact ⟨id, fun h => Or.inr (Or.inr ⟨h, nofun⟩)⟩
  | fills t' marker sub =>
      unfold RatingState.hydrateMine
      split
      · refine ⟨id, fun h => ?_⟩
        by_cases ht : t = t'
        · subst ht
          exact Or.inl (Or.inl hp.1)
        · rw [RatingState.mine_setMine_ne ht] at h
          exact Or.inr (Or.inr ⟨h, nofun⟩)
      · exact ⟨id, fun h => Or.inr (Or.inr ⟨h, nofun⟩)⟩
  | reserves t' sub =>
      refine ⟨id, fun h => ?_⟩
      by_cases ht : t = t'
      · exact Or.inr (Or.inl ⟨_, rfl, ht ▸ rfl⟩)
      · rw [RatingState.mine_setMine_ne ht] at h
        exact Or.inr (Or.inr ⟨h, nofun⟩)
  | publishes t' sub =>
      by_cases ht : t = t'
      · subst ht
        have hrated : (s.publish t).Rated t := by
          left
          rw [RatingState.published_publish]
          omega
        exact ⟨fun _ => hrated, fun _ => Or.inl hrated⟩
      · refine ⟨fun h => ?_, fun h => Or.inr (Or.inr ⟨h, holds_ne rfl ht⟩)⟩
        exact h.imp (fun h => by rwa [RatingState.published_publish_ne ht]) id
  | fails t' sub =>
      refine ⟨id, fun h => ?_⟩
      by_cases ht : t = t'
      · exact Or.inr (Or.inl ⟨_, rfl, ht ▸ rfl⟩)
      · exact Or.inr (Or.inr ⟨h, holds_ne rfl ht⟩)
  | keeps t' sub =>
      refine ⟨fun h => h.finish .., fun h => ?_⟩
      by_cases ht : t = t'
      · subst ht
        exact Or.inl (RatingState.rated_finish_ok ..)
      · exact Or.inr (Or.inr ⟨h, holds_ne rfl ht⟩)
  | marks t' sub =>
      refine ⟨fun h => RatingState.Rated.finish h .., fun h => ?_⟩
      by_cases ht : t = t'
      · subst ht
        exact Or.inl (RatingState.rated_finish_ok ..)
      · exact Or.inr (Or.inr ⟨h, holds_ne rfl ht⟩)
  | rollsBack t' sub =>
      refine ⟨fun h => RatingState.Rated.finish h .., fun h => ?_⟩
      rw [RatingState.mine_finish] at h
      by_cases ht : t = t'
      · subst ht
        exact absurd RatingState.mine_setMine h
      · rw [RatingState.mine_setMine_ne ht] at h
        exact Or.inr (Or.inr ⟨h, holds_ne rfl ht⟩)

/-! ## Runs -/

/-- A call has sent a rating of the trade and has the marker to write. -/
def Marking (t : String) (p : RatingTask) : Prop := ∃ sub, p = .marks t sub

/-- The call has the trade's slot. -/
def Holding (t : String) (p : RatingTask) : Prop := p.holds = some t

/-- What holds of a pool: no two calls have one slot, a trade that is rated has its marker, or a
call about to write it, and a slot that is filled is that of a rated trade, or some call's. -/
structure RatingInv (c : RatingPool) : Prop where
  pool : PoolInv StoreInv RatingTask.Sound c
  apart : c.Apart RatingTask.holds
  written : ∀ t, c.shared.published t ≠ 0 → c.shared.ratedAt t ≠ none ∨ c.Any (Marking t)
  filled : ∀ t, c.shared.mine t ≠ none → c.shared.Rated t ∨ c.Any (Holding t)

theorem ratingInv_idle (h : StoreInv s) (hw : ∀ t, s.published t ≠ 0 → s.ratedAt t ≠ none)
    (hfree : ∀ t, s.mine t = none) : RatingInv (Pool.idle s) :=
  ⟨poolInv_idle h, apart_idle s, fun t ht => Or.inl (hw t ht), fun t ht => absurd (hfree t) ht⟩

theorem RatingInv.move (h : RatingInv c) {l : Label RatingTask Answer RatingEnv}
    (hn : ratingProg.next c l = some c') : RatingInv c' := by
  refine ⟨ratingOutline.keep c l c' h.pool h.apart hn, ?_, ?_, ?_⟩
  · cases l with
    | spawn i p =>
        obtain ⟨hp, hi, rfl⟩ := Prog.next_spawn.mp hn
        refine h.apart.update i c.shared fun r t hr ht => ?_
        obtain rfl := Option.some.inj hr
        cases p with
        | starts t' score | looks t' sub => cases ht
        | _ => cases hp
    | step i w =>
        obtain ⟨p, s, q, hp, hs, rfl⟩ := Prog.next_step.mp hn
        refine h.apart.update i s fun r t hr ht => ?_
        subst hr
        refine (step_holds (h.pool.threads i p hp) hs ht).imp (fun hheld => ⟨p, hp, hheld⟩)
          fun hfree j r' _ hr' hheld => ?_
        exact ((h.pool.threads j r' hr').holder hheld).2 hfree
    | env e =>
        obtain ⟨s, hs, rfl⟩ := Prog.next_env.mp hn
        exact fun i j p r t hij hp hr => h.apart i j p r t hij hp hr
  · cases l with
    | spawn i p =>
        obtain ⟨-, hi, rfl⟩ := Prog.next_spawn.mp hn
        exact fun t ht => (h.written t ht).imp id fun hany => hany.spawn hi
    | step i w =>
        obtain ⟨p, s, q, hp, hs, rfl⟩ := Prog.next_step.mp hn
        intro t ht
        obtain ⟨hpub, hstays, hwrites⟩ := step_marker hs t
        rcases hpub with hpub | ⟨sub, rfl⟩
        · rcases h.written t (hpub ▸ ht) with hmark | hany
          · exact Or.inl (hstays hmark)
          · rcases hany.split hp with ⟨sub, rfl⟩ | hother
            · exact Or.inl (hwrites sub rfl)
            · exact Or.inr (hother.any s q)
        · exact Or.inr (Pool.any_self i s ⟨sub, rfl⟩)
    | env e =>
        obtain ⟨s, hs, rfl⟩ := Prog.next_env.mp hn
        have hsame := e.same hs
        intro t ht
        show s.ratedAt t ≠ none ∨ _
        rw [hsame.ratedAt]
        have ht : s.published t ≠ 0 := ht
        exact h.written t (hsame.published ▸ ht)
  · cases l with
    | spawn i p =>
        obtain ⟨-, hi, rfl⟩ := Prog.next_spawn.mp hn
        exact fun t ht => (h.filled t ht).imp id fun hany => hany.spawn hi
    | step i w =>
        obtain ⟨p, s, q, hp, hs, rfl⟩ := Prog.next_step.mp hn
        intro t ht
        obtain ⟨hrated, hslot⟩ := step_slot (h.pool.threads i p hp) hs t
        rcases hslot ht with hnow | ⟨r, rfl, hr⟩ | ⟨hold, hnot⟩
        · exact Or.inl hnow
        · exact Or.inr (Pool.any_self i s hr)
        · refine (h.filled t hold).imp hrated fun hany => ?_
          exact ((hany.split hp).resolve_left hnot).any s q
    | env e =>
        obtain ⟨s, hs, rfl⟩ := Prog.next_env.mp hn
        have hsame := e.same hs
        intro t ht
        have ht : s.mine t ≠ none := ht
        refine (h.filled t (hsame.mine ▸ ht)).imp (fun hrated => ?_) id
        show s.published t ≠ 0 ∨ ∃ o ∈ s.outcomes, _
        rw [hsame.published, hsame.outcomes]
        exact hrated

/-- After a restart what is rated has its marker. -/
theorem RatingInv.restarted (h : RatingInv c) (hw : MarkersWritten c .restart) :
    RatingInv (Pool.idle c.shared.restarted) := by
  have hwritten : ∀ t, c.shared.published t ≠ 0 → c.shared.ratedAt t ≠ none := by
    intro t ht
    refine (h.written t ht).resolve_right ?_
    rintro ⟨i, p, hp, sub, rfl⟩
    exact hw i t sub hp
  refine ratingInv_idle ⟨h.pool.shared.once, h.pool.shared.marked, fun t ht => ?_,
    h.pool.shared.refused⟩ hwritten fun _ => rfl
  exact Or.inr (hwritten t ht)

theorem RatingInv.next {l : RatingLabel} (h : RatingInv c) (hl : MarkersWritten c l)
    (hn : Reputation.next c l = some c') : RatingInv c' := by
  cases l with
  | move l => exact h.move hn
  | restart =>
      cases hn
      exact h.restarted hl

theorem ratingInv_of_run {ls : List RatingLabel}
    (hrun : run Reputation.next (Pool.idle {}) ls = some c)
    (hls : Along Reputation.next MarkersWritten (Pool.idle {}) ls) : RatingInv c := by
  have hstart : RatingInv (Pool.idle {}) :=
    ratingInv_idle ⟨fun _ => Nat.zero_le 1, fun _ h => absurd rfl h, fun _ h => absurd rfl h,
      nofun⟩ (fun _ h => absurd rfl h) fun _ => rfl
  exact run_inv (fun _ _ _ h hl hn => h.next hl hn) hstart hls hrun

/-! ## A call on its own -/

/-- Where a call stands that nobody is in the way of, and that no marker holds back. -/
def Unhindered (p : RatingTask) (s : RatingState) : Prop :=
  match p with
  | .starts t _ | .looks t _ | .reads t _ | .reserves t _ => s.mine t = none ∧ s.ratedAt t = none
  | .fills .. => False
  | .sends .. | .marks .. | .rollsBack .. => True

/-- An unhindered call stays so, and does not end as refused for the trade being rated. -/
theorem Unhindered.step (h : Unhindered p s) (hs : p.step a s = some (s', q)) :
    (∀ r ∈ q, Unhindered r s') ∧
      ∃ new, s'.outcomes = s.outcomes ++ new ∧ ∀ o ∈ new, o.ended ≠ .alreadyRated := by
  have hsame : ∃ new, s.outcomes = s.outcomes ++ new ∧ ∀ o ∈ new, o.ended ≠ .alreadyRated :=
    ⟨[], (List.append_nil _).symm, nofun⟩
  have hone : ∀ {t : String} {late : Bool} {ended : Ended}, ended ≠ .alreadyRated →
      ∀ o ∈ [(⟨t, late, ended⟩ : Outcome)], o.ended ≠ .alreadyRated := by
    intro t late ended hended o ho
    obtain rfl := List.mem_singleton.mp ho
    exact hended
  cases RatingTask.step_cases hs with
  | refuses t score late ended hended hnew => exact ⟨nofun, _, rfl, hone hnew⟩
  | begins t score => exact ⟨fun r hr => Option.some.inj hr ▸ h, hsame⟩
  | looks t sub q hq =>
      rw [h.1] at hq
      subst hq
      exact ⟨fun r hr => Option.some.inj hr ▸ h, hsame⟩
  | reads t sub q hq =>
      rw [h.2] at hq
      subst hq
      refine ⟨fun r hr => ?_, hsame⟩
      obtain ⟨x, -, rfl⟩ := Option.map_eq_some_iff.mp hr
      exact h
  | fills t marker sub => exact h.elim
  | repeats t sub hmine => exact absurd h.1 hmine
  | reserves t sub | publishes t sub | fails t sub =>
      exact ⟨fun r hr => Option.some.inj hr ▸ trivial, hsame⟩
  | keeps t sub | marks t sub | rollsBack t sub => exact ⟨nofun, _, rfl, hone nofun⟩

theorem Unhindered.env {e : RatingEnv} (h : Unhindered p s) (hs : e.act s = some s') :
    Unhindered p s' := by
  have hsame := e.same hs
  cases p with
  | starts t score => exact ⟨hsame.mine ▸ h.1, hsame.ratedAt ▸ h.2⟩
  | looks t sub | reads t sub | reserves t sub => exact ⟨hsame.mine ▸ h.1, hsame.ratedAt ▸ h.2⟩
  | fills t marker sub => exact h
  | sends t sub | marks t sub | rollsBack t sub => trivial

/-- The move is not another call's than `j`'s. -/
def Alone (j : Nat) : Label RatingTask Answer RatingEnv → Prop
  | .step i _ => i = j
  | .env _ => True
  | .spawn .. => False

/-- While no other call moves, an unhindered one is not refused for the trade being rated. -/
theorem not_alreadyRated_alone {j : Nat} {ls : List (Label RatingTask Answer RatingEnv)}
    (h : ∀ p, c.threads j = some p → Unhindered p c.shared) (hls : ∀ l ∈ ls, Alone j l)
    (hrun : run Reputation.next c (ls.map .move) = some c') :
    ∃ new, c'.shared.outcomes = c.shared.outcomes ++ new ∧
      ∀ o ∈ new, o.ended ≠ .alreadyRated := by
  induction ls generalizing c with
  | nil =>
      cases hrun
      exact ⟨[], (List.append_nil _).symm, nofun⟩
  | cons l ls ih =>
      obtain ⟨c₁, hl, hrun⟩ := run_cons_eq_some.mp hrun
      have hrest := fun h => ih h (fun l' hl' => hls l' (List.mem_cons_of_mem l hl')) hrun
      have halone := hls l List.mem_cons_self
      cases l with
      | spawn i p => exact halone.elim
      | step i w =>
          obtain rfl : i = j := halone
          obtain ⟨p, s, q, hp, hs, rfl⟩ := Prog.next_step.mp hl
          obtain ⟨hgoes, new, hnew, hfine⟩ := (h p hp).step hs
          obtain ⟨later, hlater, hfine'⟩ := hrest fun r hr => hgoes r (by simpa using hr)
          refine ⟨new ++ later, ?_, fun o ho => ?_⟩
          · rw [hlater, ← List.append_assoc, ← hnew]
          · exact (List.mem_append.mp ho).elim (hfine o) (hfine' o)
      | env e =>
          obtain ⟨s, hs, rfl⟩ := Prog.next_env.mp hl
          obtain ⟨new, hnew, hfine⟩ := hrest fun r hr => (h r hr).env hs
          exact ⟨new, (e.same hs).outcomes ▸ hnew, hfine⟩

/-- **A trade is rated at most once.** In every run in which no restart comes between a rating and
its marker, each trade's rating is sent at most once, and every submission that began after it was
sent was refused; and when no call is in flight and every submission for a trade, in earlier
sessions too, has failed, a new one with no other call moving is not refused for the trade being
rated. -/
theorem rated_at_most_once (ls : List RatingLabel) (c : RatingPool)
    (hrun : run Reputation.next (Pool.idle {}) ls = some c)
    (hls : Along Reputation.next MarkersWritten (Pool.idle {}) ls) :
    (∀ t, c.shared.published t ≤ 1) ∧
      (∀ o ∈ c.shared.outcomes, o.late = true → o.ended.Refused) ∧
      ∀ t j score (ms : List (Label RatingTask Answer RatingEnv)) c', (∀ i, c.threads i = none) →
        ¬ c.shared.Rated t → (∀ l ∈ ms, Alone j l) →
        run Reputation.next c (.move (.spawn j (.starts t score)) :: ms.map .move) = some c' →
        ∃ new, c'.shared.outcomes = c.shared.outcomes ++ new ∧
          ∀ o ∈ new, o.ended ≠ .alreadyRated := by
  have hinv := ratingInv_of_run hrun hls
  refine ⟨hinv.pool.shared.once, hinv.pool.shared.refused, ?_⟩
  intro t j score ms c' hidle hrated hms hrun'
  obtain ⟨c₁, hspawn, hrun'⟩ := run_cons_eq_some.mp hrun'
  obtain ⟨-, -, rfl⟩ := Prog.next_spawn.mp hspawn
  refine not_alreadyRated_alone
    (c := ⟨c.shared, Function.update c.threads j (some (.starts t score))⟩)
    (fun p hp => ?_) hms hrun'
  obtain rfl : RatingTask.starts t score = p := by simpa using hp
  refine ⟨?_, ?_⟩
  · -- a slot that is filled is a rated trade's, or a call's
    by_contra hmine
    exact (hinv.filled t hmine).elim hrated (Pool.not_any_idle hidle)
  · by_contra hmark
    exact hrated (Or.inl (hinv.pool.shared.marked t hmark))

/-! Runs with one restart -/

theorem run_moves (c : RatingPool) (ls : List (Label RatingTask Answer RatingEnv)) :
    run Reputation.next c (ls.map .move) = run ratingProg.next c ls := by
  induction ls generalizing c with
  | nil => rfl
  | cons l ls ih =>
      rw [List.map_cons, run_cons, run_cons]
      exact congrArg _ (funext ih)

theorem along_moves (c : RatingPool) (ls : List (Label RatingTask Answer RatingEnv)) :
    Along Reputation.next MarkersWritten c (ls.map .move) := by
  induction ls generalizing c with
  | nil => trivial
  | cons l ls ih => exact ⟨trivial, fun c' _ => ih c'⟩

/-- A restart when every call is over comes between no rating and its marker. -/
theorem along_restart {ls ms : List (Label RatingTask Answer RatingEnv)}
    (hdone : ∀ c', run ratingProg.next c ls = some c' → ∀ i, c'.threads i = none) :
    Along Reputation.next MarkersWritten c (ls.map .move ++ .restart :: ms.map .move) := by
  refine (along_moves c ls).append fun c' hrun => ⟨fun i t sub hi => ?_, fun c'' _ => ?_⟩
  · rw [run_moves] at hrun
    rw [hdone c' hrun i] at hi
    cases hi
  · exact along_moves c'' ms

/-- A submission that fails, and one that does not. -/
def failThenRate : List (Label RatingTask Answer RatingEnv) :=
  [.spawn 0 (.starts "t" 5), .step 0 {}, .step 0 {}, .step 0 {}, .step 0 {}, .step 0 {},
    .step 0 {}, .spawn 0 (.starts "t" 4), .step 0 {}, .step 0 {}, .step 0 {}, .step 0 {},
    .step 0 { sent := .published }, .step 0 { now := 7 }]

/-- A submission that comes upon the marker. -/
def rateAgain : List (Label RatingTask Answer RatingEnv) :=
  [.spawn 0 (.starts "t" 5), .step 0 {}, .step 0 {}, .step 0 {}, .step 0 {}, .step 0 {}]

/-- What a run leaves: how the calls ended, and how often the trade's rating was sent. -/
def ratedAfter (ls : List RatingLabel) : Option (List Outcome × Nat) :=
  (run Reputation.next (Pool.idle {}) ls).map fun c => (c.shared.outcomes, c.shared.published "t")

/-- **Rated before the restart**, and refused after it. -/
theorem rated_then_restarted :
    ∃ c, run Reputation.next (Pool.idle {})
        (failThenRate.map .move ++ .restart :: rateAgain.map .move) = some c ∧
      c.shared.outcomes = [⟨"t", false, .dispatchFailed⟩, ⟨"t", false, .ok⟩,
        ⟨"t", true, .alreadyRated⟩] ∧
      c.shared.published "t" = 1 ∧
      (∀ t, c.shared.published t ≤ 1) ∧
      ∀ o ∈ c.shared.outcomes, o.late = true → o.ended.Refused := by
  have hafter : ratedAfter (failThenRate.map .move ++ .restart :: rateAgain.map .move) =
      some ([⟨"t", false, .dispatchFailed⟩, ⟨"t", false, .ok⟩, ⟨"t", true, .alreadyRated⟩], 1) := by
    decide
  obtain ⟨c, hrun, hc⟩ := Option.map_eq_some_iff.mp hafter
  obtain ⟨hends, hpub⟩ := Prod.mk.inj hc
  have hdone : ∀ c', run ratingProg.next (Pool.idle {}) failThenRate = some c' →
      ∀ i, c'.threads i = none := by
    intro c' hrun
    have hover :
        (run ratingProg.next (Pool.idle {}) failThenRate).all (Pool.finished 1) = true := by decide
    rw [hrun] at hover
    exact ((below_idle 1 _).run (by decide) hrun).all_done hover
  obtain ⟨honce, hrefused, -⟩ := rated_at_most_once _ c hrun (along_restart hdone)
  exact ⟨c, hrun, hends, hpub, honce, hrefused⟩

end MostroApp.Reputation
