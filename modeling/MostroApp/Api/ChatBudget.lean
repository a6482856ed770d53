import MostroApp.Api.DedupWindows
import MostroApp.Lib.TokenBucket
import MostroApp.Nostr.Envelope
import Mathlib.Algebra.Order.Field.Rat
import Mathlib.Tactic.NormNum

set_option autoImplicit false

/-! # The chat's rate budget and its flood breaker

A chat listener meters what arrives on the live channel by a token bucket, before any decryption,
and gives the conversation up after too many rejections in a row. The bucket is the one of
`Lib/TokenBucket.lean` over the rationals. The listener loop is followed with the outcome of every
event it handles (`runChatSubscription`); `chat_budget_right` says what the budget lets through and
when the breaker trips.
-/

namespace MostroApp.ChatBudget

open Dedup Metering
open Envelope (privateDirectMessage)

/-! ## The bucket -/

def rateCapacity : ℚ := 60

def ratePerSec : ℚ := 1 / 2

def floodTripRejections : Nat := 180

/-- Refilled continuously, drained one token per event. -/
abbrev TokenBucket := Bucket ℚ

def TokenBucket.new (now : ℚ) : TokenBucket := ⟨rateCapacity, now⟩

/-- Take one token at time `now`; `false` when the budget is exhausted. -/
def TokenBucket.tryTake (now : ℚ) (b : TokenBucket) : TokenBucket × Bool :=
  -- `duration_since` saturates at zero.
  let elapsed := max (now - b.last) 0
  let tokens := min (b.tokens + elapsed * ratePerSec) rateCapacity
  if 1 ≤ tokens then (⟨tokens - 1, now⟩, true) else (⟨tokens, now⟩, false)

/-- The arrivals the bucket accepts. -/
def TokenBucket.accepted : TokenBucket → List ℚ → List ℚ
  | _, [] => []
  | b, now :: ts =>
      if (tryTake now b).2 then now :: accepted (tryTake now b).1 ts
      else accepted (tryTake now b).1 ts

/-! ## The receive state -/

/-- The part of `ChatRxState` that decides whether an event is decrypted; the channel and the cursor
have no say in it. -/
structure ChatRxState where
  outerSeen : BoundedIdSet
  bucket : TokenBucket
  consecutiveRejected : Nat
  /-- A relay has reported the end of the stored events. -/
  live : Bool
  flooded : Bool

def ChatRxState.new (now : ℚ) : ChatRxState :=
  ⟨.new outerLruCap, .new now, 0, false, false⟩

/-- Count one rejected event; trips the flood breaker on sustained abuse. -/
def ChatRxState.reject (s : ChatRxState) : ChatRxState :=
  let s := { s with consecutiveRejected := s.consecutiveRejected + 1 }
  if floodTripRejections ≤ s.consecutiveRejected then { s with flooded := true } else s

/-- Live-stream budget check, no-op during stored catch-up. -/
def ChatRxState.budgetOk (now : ℚ) (s : ChatRxState) : ChatRxState × Bool :=
  if s.live = false then (s, true)
  else
    let r := TokenBucket.tryTake now s.bucket
    let s := { s with bucket := r.1 }
    if r.2 then (s, true) else (s.reject, false)

/-! ## One event -/

structure OuterEvent where
  id : String
  kind : Nat
  pubkey : String
  deriving DecidableEq

/-- What became of an event: other traffic, a second delivery, over the budget, not valid for us,
or valid. -/
inductive Outcome where
  | ignored
  | duplicate
  | refused
  | failed
  | valid
  deriving DecidableEq

/-- The checks of an incoming envelope up to its validation; `unwraps` is the answer of
`mostro_unwrap` for it. What follows a valid event leaves this state alone. -/
def handleChatEvent (signPubkey : String) (e : OuterEvent) (now : ℚ) (unwraps : Bool)
    (s : ChatRxState) : ChatRxState × Outcome :=
  if e.kind ≠ privateDirectMessage then (s, .ignored)
  else if e.pubkey ≠ signPubkey then (s, .ignored)
  else
    let seen := s.outerSeen.insert e.id
    let s := { s with outerSeen := seen.1 }
    if seen.2 = false then (s, .duplicate)
    else
      let budget := s.budgetOk now
      if budget.2 = false then (budget.1, .refused)
      else if unwraps = false then (budget.1.reject, .failed)
      else ({ budget.1 with consecutiveRejected := 0 }, .valid)

/-! ## The listener loop -/

/-- What the loop of a subscription meets next. -/
inductive Notification where
  /-- An event of some subscription, looked at at `now`. -/
  | event (subscriptionId : String) (e : OuterEvent) (now : ℚ) (unwraps : Bool)
  | endOfStoredEvents (subscriptionId : String)
  /-- Any other relay message. -/
  | message
  /-- The stream of notifications ends. -/
  | shutdown
  /-- The chat is not current any more when the loop looks. -/
  | released

/-- One event of the subscription as the loop handled it. -/
structure Handled where
  now : ℚ
  live : Bool
  outcome : Outcome
  deriving DecidableEq

/-- The loop, with the events it handled; it stops when the conversation is flooded. -/
def runChatSubscription (subId signPubkey : String) :
    List Notification → ChatRxState → ChatRxState × List Handled
  | [], s => (s, [])
  | .event subscriptionId e now unwraps :: ns, s =>
      if subscriptionId = subId then
        let r := handleChatEvent signPubkey e now unwraps s
        let h : Handled := ⟨now, s.live, r.2⟩
        if r.1.flooded then (r.1, [h])
        else
          let rest := runChatSubscription subId signPubkey ns r.1
          (rest.1, h :: rest.2)
      else if s.flooded then (s, [])
      else runChatSubscription subId signPubkey ns s
  | .endOfStoredEvents subscriptionId :: ns, s =>
      if subscriptionId = subId then
        runChatSubscription subId signPubkey ns { s with live := true }
      else runChatSubscription subId signPubkey ns s
  | .message :: ns, s => runChatSubscription subId signPubkey ns s
  | .shutdown :: _, s => (s, [])
  | .released :: _, s => (s, [])

/-! ## What an outcome does to the state -/

def Outcome.rejected : Outcome → Bool
  | .refused | .failed => true
  | _ => false

/-- The event came as far as the budget. -/
def Outcome.metered : Outcome → Bool
  | .ignored | .duplicate => false
  | _ => true

/-- The rejections in a row after one more outcome. -/
def Outcome.streak (n : Nat) (o : Outcome) : Nat :=
  if o = .valid then 0 else if o.rejected then n + 1 else n

/-- An event with outcome `o`, handled at `now`, took the state from `s` to `s'`. -/
structure Handles (now : ℚ) (o : Outcome) (s s' : ChatRxState) : Prop where
  live : s'.live = s.live
  streak : s'.consecutiveRejected = o.streak s.consecutiveRejected
  tripped : s.flooded = false → (s'.flooded = true ↔
    o.rejected = true ∧ floodTripRejections ≤ s'.consecutiveRejected)
  taken : s.live = true → o.metered = true →
    TokenBucket.tryTake now s.bucket = (s'.bucket, decide (o ≠ .refused))
  untouched : ¬ (s.live = true ∧ o.metered = true) → s'.bucket = s.bucket ∧ o ≠ .refused

section OneEvent

variable {s : ChatRxState} {now : ℚ}

theorem reject_eq (s : ChatRxState) :
    s.reject = { s with
      consecutiveRejected := s.consecutiveRejected + 1
      flooded := s.flooded || decide (floodTripRejections ≤ s.consecutiveRejected + 1) } := by
  unfold ChatRxState.reject
  by_cases htrip : floodTripRejections ≤ s.consecutiveRejected + 1
  · simp [htrip]
  · simp [htrip]

/-- A rejection with the bucket `b` behind it. -/
theorem handles_reject {o : Outcome} {seen : BoundedIdSet} {b : TokenBucket}
    (ho : o.rejected = true)
    (hlive : s.live = true → TokenBucket.tryTake now s.bucket = (b, decide (o ≠ .refused)))
    (hstored : s.live = false → b = s.bucket ∧ o ≠ .refused) :
    Handles now o s ({ s with outerSeen := seen, bucket := b } : ChatRxState).reject := by
  have hmetered : o.metered = true := by cases o <;> first | rfl | cases ho
  rw [reject_eq]
  refine ⟨rfl, ?_, fun hdry => ?_, fun h _ => hlive h, fun h => hstored ?_⟩
  · cases o <;> first | rfl | cases ho
  · simp [hdry, ho]
  · exact Bool.eq_false_iff.mpr fun h' => h ⟨h', hmetered⟩

/-- The budget of a listener that is not live, or whose bucket has a token. -/
theorem budgetOk_cases (now : ℚ) (s : ChatRxState) :
    (s.live = false ∧ s.budgetOk now = (s, true)) ∨
    (s.live = true ∧ ∃ b, TokenBucket.tryTake now s.bucket = (b, true) ∧
      s.budgetOk now = ({ s with bucket := b }, true)) ∨
    (s.live = true ∧ ∃ b, TokenBucket.tryTake now s.bucket = (b, false) ∧
      s.budgetOk now = (({ s with bucket := b } : ChatRxState).reject, false)) := by
  unfold ChatRxState.budgetOk
  cases hlive : s.live with
  | false => exact Or.inl ⟨rfl, if_pos rfl⟩
  | true =>
      rw [if_neg Bool.true_eq_false.mp]
      rcases htake : TokenBucket.tryTake now s.bucket with ⟨b, ok⟩
      cases ok with
      | true => exact Or.inr (Or.inl ⟨rfl, b, rfl, rfl⟩)
      | false => exact Or.inr (Or.inr ⟨rfl, b, rfl, rfl⟩)

/-- **What one event does.** -/
theorem handleChatEvent_spec (signPubkey : String) (e : OuterEvent) (now : ℚ) (unwraps : Bool)
    (s : ChatRxState) :
    Handles now (handleChatEvent signPubkey e now unwraps s).2 s
      (handleChatEvent signPubkey e now unwraps s).1 := by
  have hquiet : ∀ (o : Outcome) (seen : BoundedIdSet), o.metered = false →
      Handles now o s { s with outerSeen := seen } := by
    intro o seen ho
    refine ⟨rfl, ?_, fun h => ?_, fun _ h => ?_, fun _ => ⟨rfl, ?_⟩⟩
    · cases o <;> first | rfl | cases ho
    · cases o <;> first | (simp [h, Outcome.rejected]; done) | cases ho
    · rw [ho] at h
      cases h
    · rintro rfl
      cases ho
  unfold handleChatEvent
  by_cases hkind : e.kind ≠ privateDirectMessage
  · rw [if_pos hkind]
    exact hquiet .ignored s.outerSeen rfl
  rw [if_neg hkind]
  by_cases hauthor : e.pubkey ≠ signPubkey
  · rw [if_pos hauthor]
    exact hquiet .ignored s.outerSeen rfl
  rw [if_neg hauthor]
  dsimp only
  by_cases hseen : (s.outerSeen.insert e.id).2 = false
  · rw [if_pos hseen]
    exact hquiet .duplicate _ rfl
  rw [if_neg hseen]
  -- The event is new: the budget decides first, then its validation.
  rcases budgetOk_cases now { s with outerSeen := (s.outerSeen.insert e.id).1 } with
    ⟨hlive, hok⟩ | ⟨hlive, b, htake, hok⟩ | ⟨hlive, b, htake, hok⟩
  · have hidle : s.live ≠ true := Bool.eq_false_iff.mp hlive
    rw [hok]
    cases unwraps with
    | false => exact handles_reject rfl (fun h => absurd h hidle) fun _ => ⟨rfl, nofun⟩
    | true =>
        refine ⟨rfl, rfl, fun h => ?_, fun h => absurd h hidle, fun _ => ⟨rfl, nofun⟩⟩
        simp [h, Outcome.rejected]
  · have hmet : s.live ≠ false := ne_false_of_eq_true hlive
    rw [hok]
    cases unwraps with
    | false => exact handles_reject rfl (fun _ => htake) fun h => absurd h hmet
    | true =>
        refine ⟨rfl, rfl, fun h => ?_, fun _ _ => htake, fun h => absurd ⟨hlive, rfl⟩ h⟩
        simp [h, Outcome.rejected]
  · have hmet : s.live ≠ false := ne_false_of_eq_true hlive
    rw [hok]
    exact handles_reject rfl (fun _ => htake) fun h => absurd h hmet

end OneEvent

/-! ## The whole loop -/

/-- The instants of the subscription's events, up to the end of its stream. -/
def arrivals (subId : String) : List Notification → List ℚ
  | [] => []
  | .event subscriptionId _ now _ :: ns =>
      if subscriptionId = subId then now :: arrivals subId ns else arrivals subId ns
  | .endOfStoredEvents _ :: ns => arrivals subId ns
  | .message :: ns => arrivals subId ns
  | .shutdown :: _ => []
  | .released :: _ => []

/-- **The induction over the loop.** What holds of no event, survives a listener turning live, and
comes with each event, last or not, holds of every run. -/
theorem run_rule {subId signPubkey : String}
    {P : List ℚ → ChatRxState → ChatRxState → List Handled → Prop}
    (none : ∀ s, s.flooded = false → P [] s s [])
    (live : ∀ ts s s' tr, P ts { s with live := true } s' tr → P ts s s' tr)
    (last : ∀ ts s s₁ now o, s.flooded = false → Handles now o s s₁ → s₁.flooded = true →
      P (now :: ts) s s₁ [⟨now, s.live, o⟩])
    (next : ∀ ts s s₁ s' now o tr, s.flooded = false → Handles now o s s₁ →
      s₁.flooded = false → P ts s₁ s' tr → P (now :: ts) s s' (⟨now, s.live, o⟩ :: tr))
    (ns : List Notification) {s : ChatRxState} (hs : s.flooded = false) :
    P (arrivals subId ns) s (runChatSubscription subId signPubkey ns s).1
      (runChatSubscription subId signPubkey ns s).2 := by
  induction ns generalizing s with
  | nil => exact none s hs
  | cons n ns ih =>
      cases n with
      | event subscriptionId e now unwraps =>
          have hstep := handleChatEvent_spec signPubkey e now unwraps s
          unfold runChatSubscription arrivals
          by_cases hours : subscriptionId = subId
          · rw [if_pos hours, if_pos hours]
            cases htrip : (handleChatEvent signPubkey e now unwraps s).1.flooded with
            | true => simpa only [htrip, if_true] using last _ s _ now _ hs hstep htrip
            | false =>
                simpa only [htrip, Bool.false_eq_true, if_false] using
                  next _ s _ _ now _ _ hs hstep htrip (ih htrip)
          · simpa only [if_neg hours, hs, Bool.false_eq_true, if_false] using ih hs
      | endOfStoredEvents subscriptionId =>
          unfold runChatSubscription arrivals
          by_cases hours : subscriptionId = subId
          · rw [if_pos hours]
            exact live _ s _ _ (ih hs)
          · rw [if_neg hours]
            exact ih hs
      | message => exact ih hs
      | shutdown => exact none s hs
      | released => exact none s hs

section Runs

variable (subId signPubkey : String) (ns : List Notification) {s : ChatRxState}

/-- The loop handles the events in the order they come, and all of them unless it is flooded. -/
theorem run_handles (hs : s.flooded = false) :
    (runChatSubscription subId signPubkey ns s).2.map Handled.now <+: arrivals subId ns ∧
      ((runChatSubscription subId signPubkey ns s).1.flooded = false →
        (runChatSubscription subId signPubkey ns s).2.map Handled.now = arrivals subId ns) := by
  refine run_rule (P := fun ts _ s' tr => tr.map Handled.now <+: ts ∧
    (s'.flooded = false → tr.map Handled.now = ts)) ?_ ?_ ?_ ?_ ns hs
  · exact fun s _ => ⟨List.prefix_refl _, fun _ => rfl⟩
  · exact fun _ _ _ _ h => h
  · intro ts s s₁ now o _ _ htrip
    refine ⟨⟨ts, rfl⟩, fun h => ?_⟩
    rw [htrip] at h
    cases h
  · rintro ts s s₁ s' now o tr - - - ⟨hpre, hall⟩
    exact ⟨(List.prefix_cons_inj now).mpr hpre, fun h => congrArg (now :: ·) (hall h)⟩

end Runs

/-! ## The budget over a run -/

/-- The event came to the bucket of a live listener. -/
def Handled.metered (h : Handled) : Bool := h.live && h.outcome.metered

/-- The instants of the metered events. -/
def metered (tr : List Handled) : List ℚ := (tr.filter Handled.metered).map Handled.now

/-- The instants at which the budget let one through to the decryption. -/
def admitted (tr : List Handled) : List ℚ :=
  ((tr.filter Handled.metered).filter fun h => h.outcome ≠ .refused).map Handled.now

theorem metered_sublist (tr : List Handled) : (metered tr).Sublist (tr.map Handled.now) :=
  List.filter_sublist.map _

theorem not_refused_of_admitted_eq {tr : List Handled} (h : admitted tr = metered tr) :
    ∀ x ∈ tr, x.metered = true → x.outcome ≠ .refused := by
  intro x hx hmetered
  have hlen := congrArg List.length h
  unfold admitted metered at hlen
  rw [List.length_map, List.length_map, List.length_filter_eq_length_iff] at hlen
  exact of_decide_eq_true (hlen x (List.mem_filter.mpr ⟨hx, hmetered⟩))

/-- The bucket before an event decides on it as the events after it see the bucket behind it. -/
theorem admitted_cons {now : ℚ} {o : Outcome} {s s₁ : ChatRxState} {tr : List Handled}
    (h : Handles now o s s₁) (htr : admitted tr = s₁.bucket.accepted (metered tr)) :
    admitted (⟨now, s.live, o⟩ :: tr) =
      s.bucket.accepted (metered (⟨now, s.live, o⟩ :: tr)) := by
  cases hmetered : Handled.metered ⟨now, s.live, o⟩ with
  | false =>
      have hsame := (h.untouched fun hm => by simp [Handled.metered, hm] at hmetered).1
      rw [hsame] at htr
      unfold admitted metered at htr ⊢
      rw [List.filter_cons_of_neg (by simp [hmetered])]
      exact htr
  | true =>
      obtain ⟨hlive, hm⟩ := Bool.and_eq_true_iff.mp hmetered
      have htake := h.taken hlive hm
      have hcons : metered (⟨now, s.live, o⟩ :: tr) = now :: metered tr := by
        unfold metered
        rw [List.filter_cons_of_pos hmetered]
        rfl
      rw [hcons, TokenBucket.accepted, htake]
      unfold admitted at htr ⊢
      rw [List.filter_cons_of_pos hmetered, List.filter_cons]
      by_cases ho : o = .refused
      · simpa [ho] using htr
      · simpa [ho] using htr

section Runs

variable (subId signPubkey : String) (ns : List Notification) {s : ChatRxState}

/-- **The bucket of a run** decides on the metered events, in their order. -/
theorem run_admits (hs : s.flooded = false) :
    admitted (runChatSubscription subId signPubkey ns s).2 =
      s.bucket.accepted (metered (runChatSubscription subId signPubkey ns s).2) := by
  refine run_rule (P := fun _ s _ tr => admitted tr = s.bucket.accepted (metered tr))
    ?_ ?_ ?_ ?_ ns hs
  · exact fun _ _ => rfl
  · exact fun _ _ _ _ h => h
  · exact fun _ _ _ _ _ _ h _ => admitted_cons h rfl
  · exact fun _ _ _ _ _ _ _ _ h _ htr => admitted_cons h htr

/-- Only a live listener refuses for the budget's sake. -/
theorem run_refused (hs : s.flooded = false) :
    ∀ x ∈ (runChatSubscription subId signPubkey ns s).2,
      x.outcome = .refused → x.metered = true := by
  have hone : ∀ (now : ℚ) (o : Outcome) (s s₁ : ChatRxState), Handles now o s s₁ →
      o = .refused → Handled.metered ⟨now, s.live, o⟩ = true := by
    intro now o s s₁ h ho
    by_contra hm
    refine (h.untouched fun hlive => hm ?_).2 ho
    simp [Handled.metered, hlive]
  refine run_rule (P := fun _ _ _ tr => ∀ x ∈ tr, x.outcome = .refused → x.metered = true)
    ?_ ?_ ?_ ?_ ns hs
  · exact fun _ _ => nofun
  · exact fun _ _ _ _ h => h
  · intro _ s s₁ now o _ h _ x hx
    rw [List.mem_singleton] at hx
    exact hx ▸ hone now o s s₁ h
  · intro _ s s₁ _ now o _ _ h _ htr x hx
    rcases List.mem_cons.mp hx with rfl | hx
    · exact hone now o s s₁ h
    · exact htr x hx

end Runs

/-! ## The breaker over a run -/

/-- The last of the outcomes completes a run of rejections with no valid event in between. -/
def Completes (os : List Outcome) : Prop :=
  ∃ seg, seg <:+ os ∧ Outcome.valid ∉ seg ∧ floodTripRejections ≤ seg.countP Outcome.rejected

theorem foldl_streak_of_not_valid {seg : List Outcome} (h : Outcome.valid ∉ seg) (n : Nat) :
    seg.foldl Outcome.streak n = n + seg.countP Outcome.rejected := by
  induction seg generalizing n with
  | nil => rfl
  | cons o seg ih =>
      have ho : o ≠ .valid := fun ho => h (ho ▸ List.mem_cons_self)
      have hseg : Outcome.valid ∉ seg := fun hmem => h (List.mem_cons_of_mem o hmem)
      rw [List.foldl_cons, ih hseg, Outcome.streak, if_neg ho]
      cases hrej : o.rejected with
      | true => rw [if_pos rfl, List.countP_cons_of_pos hrej]; omega
      | false => rw [if_neg Bool.false_ne_true, List.countP_cons_of_neg (by simp [hrej])]

/-- The counter is the number of rejections since the last valid event. -/
theorem streak_segment (os : List Outcome) :
    ∃ seg, seg <:+ os ∧ Outcome.valid ∉ seg ∧
      seg.countP Outcome.rejected = os.foldl Outcome.streak 0 := by
  induction os using List.reverseRecOn with
  | nil => exact ⟨[], List.suffix_refl _, List.not_mem_nil, rfl⟩
  | append_singleton os o ih =>
      rw [List.foldl_append, List.foldl_cons, List.foldl_nil]
      by_cases ho : o = .valid
      · exact ⟨[], List.nil_suffix, List.not_mem_nil, by rw [Outcome.streak, if_pos ho]; rfl⟩
      · obtain ⟨seg, ⟨front, hfront⟩, hvalid, hcount⟩ := ih
        refine ⟨seg ++ [o], ⟨front, by rw [← List.append_assoc, hfront]⟩, ?_, ?_⟩
        · rw [List.mem_append, List.mem_singleton]
          exact fun hmem => hmem.elim hvalid fun h => ho h.symm
        · rw [List.countP_append, List.countP_singleton, hcount, Outcome.streak, if_neg ho]
          split <;> rfl

theorem completes_iff (os : List Outcome) :
    Completes os ↔ floodTripRejections ≤ os.foldl Outcome.streak 0 := by
  constructor
  · rintro ⟨seg, ⟨front, rfl⟩, hvalid, hcount⟩
    rw [List.foldl_append, foldl_streak_of_not_valid hvalid]
    omega
  · intro h
    obtain ⟨seg, hseg, hvalid, hcount⟩ := streak_segment os
    exact ⟨seg, hseg, hvalid, hcount ▸ h⟩

/-- Short of the threshold, an event floods the listener exactly when it reaches it. -/
theorem Handles.flooded_iff {now : ℚ} {o : Outcome} {s s₁ : ChatRxState}
    (h : Handles now o s s₁) (hs : s.flooded = false)
    (hshort : s.consecutiveRejected < floodTripRejections) :
    s₁.flooded = true ↔ floodTripRejections ≤ s₁.consecutiveRejected := by
  rw [h.tripped hs]
  refine ⟨And.right, fun hreach => ⟨?_, hreach⟩⟩
  by_contra hrej
  -- An event that is not rejected leaves the counter or resets it.
  rw [h.streak, Outcome.streak, if_neg hrej] at hreach
  split at hreach
  · exact absurd hreach (by decide)
  · omega

/-- **The breaker over a run**, from any count short of the threshold. -/
theorem run_trips (subId signPubkey : String) (ns : List Notification) {s : ChatRxState}
    (hs : s.flooded = false) (hshort : s.consecutiveRejected < floodTripRejections) :
    let r := runChatSubscription subId signPubkey ns s
    (r.1.flooded = true ↔ floodTripRejections ≤
      (r.2.map Handled.outcome).foldl Outcome.streak s.consecutiveRejected) ∧
    ∀ os, os <+: r.2.map Handled.outcome → os ≠ r.2.map Handled.outcome →
      os.foldl Outcome.streak s.consecutiveRejected < floodTripRejections := by
  refine run_rule (P := fun _ s s' tr => s.consecutiveRejected < floodTripRejections →
    (s'.flooded = true ↔ floodTripRejections ≤
      (tr.map Handled.outcome).foldl Outcome.streak s.consecutiveRejected) ∧
    ∀ os, os <+: tr.map Handled.outcome → os ≠ tr.map Handled.outcome →
      os.foldl Outcome.streak s.consecutiveRejected < floodTripRejections)
    ?_ ?_ ?_ ?_ ns hs hshort
  · intro s hs hshort
    refine ⟨iff_of_false (by simp [hs]) (Nat.not_le.mpr hshort), fun os hos hne => ?_⟩
    exact absurd (List.prefix_nil.mp hos) hne
  · exact fun _ _ _ _ h => h
  · intro _ s s₁ now o hs h htrip hshort
    refine ⟨iff_of_true htrip ?_, fun os hos hne => ?_⟩
    · rw [List.map_singleton, List.foldl_cons, List.foldl_nil, ← h.streak]
      exact (h.flooded_iff hs hshort).mp htrip
    · cases os with
      | nil => exact hshort
      | cons x os =>
          obtain ⟨rfl, hnil⟩ := List.cons_prefix_cons.mp hos
          exact absurd (by rw [List.prefix_nil.mp hnil]; rfl) hne
  · intro _ s s₁ s' now o tr hs h hdry ih hshort
    have hnext : s₁.consecutiveRejected < floodTripRejections := by
      by_contra hreach
      rw [(h.flooded_iff hs hshort).mpr (Nat.not_lt.mp hreach)] at hdry
      cases hdry
    obtain ⟨hiff, hbefore⟩ := ih hnext
    rw [List.map_cons, List.foldl_cons, ← h.streak]
    refine ⟨hiff, fun os hos hne => ?_⟩
    cases os with
    | nil => exact hshort
    | cons x os =>
        obtain ⟨rfl, htail⟩ := List.cons_prefix_cons.mp hos
        rw [List.foldl_cons, ← h.streak]
        exact hbefore os htail fun heq => hne (by rw [heq])

/-! ## The budget and the breaker -/

theorem accepted_eq_taken (b : TokenBucket) (ts : List ℚ) :
    b.accepted ts = Bucket.taken rateCapacity ratePerSec b ts := by
  induction ts generalizing b with
  | nil => rfl
  | cons now ts ih =>
      rw [TokenBucket.accepted, Bucket.taken, ih]
      rfl

theorem rateCapacity_nonneg : 0 ≤ rateCapacity := by norm_num [rateCapacity]

theorem ratePerSec_nonneg : 0 ≤ ratePerSec := by norm_num [ratePerSec]

/-- A fresh bucket lets no window have more than the budget, and a sender within it through. -/
theorem accepted_right (t₀ : ℚ) {ts : List ℚ} (hts : ts.Pairwise (· ≤ ·)) :
    Conforming rateCapacity ratePerSec ((TokenBucket.new t₀).accepted ts) ∧
      (Conforming rateCapacity ratePerSec ts → (TokenBucket.new t₀).accepted ts = ts) := by
  rw [accepted_eq_taken]
  exact ⟨taken_conforming rateCapacity_nonneg ratePerSec_nonneg rateCapacity_nonneg hts,
    full_taken ratePerSec_nonneg rfl hts⟩

/-- **The rate budget bounds the work, and the breaker trips when it is due.** A bucket fed any
arrivals in order accepts in no window of `T` seconds more than its capacity and `T` times its rate,
and refuses nothing of a sender who keeps to that. Of every sequence of notifications, the listener
handles the events in order until it is flooded: what it admits to decryption on the live channel
keeps to the bound, nothing is refused where what comes does, and it is flooded exactly by the
first event that completes the rejections in a row. -/
theorem chat_budget_right (subId signPubkey : String) (t₀ : ℚ) (ns : List Notification)
    (hns : (arrivals subId ns).Pairwise (· ≤ ·)) :
    (∀ ts : List ℚ, ts.Pairwise (· ≤ ·) →
      Conforming rateCapacity ratePerSec ((TokenBucket.new t₀).accepted ts) ∧
      (Conforming rateCapacity ratePerSec ts → (TokenBucket.new t₀).accepted ts = ts)) ∧
    let r := runChatSubscription subId signPubkey ns (.new t₀)
    r.2.map Handled.now <+: arrivals subId ns ∧
    (r.1.flooded = false → r.2.map Handled.now = arrivals subId ns) ∧
    Conforming rateCapacity ratePerSec (admitted r.2) ∧
    (Conforming rateCapacity ratePerSec (metered r.2) → ∀ x ∈ r.2, x.outcome ≠ .refused) ∧
    (r.1.flooded = true ↔ Completes (r.2.map Handled.outcome)) ∧
    ∀ os, os <+: r.2.map Handled.outcome → os ≠ r.2.map Handled.outcome → ¬ Completes os := by
  have hdry : (ChatRxState.new t₀).flooded = false := rfl
  have hshort : (ChatRxState.new t₀).consecutiveRejected < floodTripRejections :=
    show 0 < floodTripRejections by decide
  obtain ⟨hpre, hall⟩ := run_handles subId signPubkey ns hdry
  have hadmits := run_admits subId signPubkey ns hdry
  obtain ⟨htrips, hbefore⟩ := run_trips subId signPubkey ns hdry hshort
  have hsorted : (metered (runChatSubscription subId signPubkey ns (.new t₀)).2).Pairwise
      (· ≤ ·) := hns.sublist ((metered_sublist _).trans hpre.sublist)
  obtain ⟨hbound, hfree⟩ := accepted_right t₀ hsorted
  refine ⟨fun ts hts => accepted_right t₀ hts, hpre, hall, ?_, fun hconf x hx href => ?_, ?_,
    fun os hos hne hc => ?_⟩
  · rw [hadmits]
    exact hbound
  · have hmetered := run_refused subId signPubkey ns hdry x hx href
    exact not_refused_of_admitted_eq (hadmits.trans (hfree hconf)) x hx hmetered href
  · rw [completes_iff]
    exact htrips
  · exact absurd ((completes_iff os).mp hc) (Nat.not_le.mpr (hbefore os hos hne))

/-- The listener turns live between two events of the peer, the second of them not valid. -/
theorem chat_budget_right_two :
    let ns : List Notification := [.event "chat" ⟨"a", 14, "peer"⟩ 0 true,
      .endOfStoredEvents "chat", .event "chat" ⟨"b", 14, "peer"⟩ (1 / 2) false]
    (arrivals "chat" ns).Pairwise (· ≤ ·) ∧
      Conforming rateCapacity ratePerSec
        (admitted (runChatSubscription "chat" "peer" ns (.new 0)).2) := by
  have hns : (arrivals "chat" [.event "chat" ⟨"a", 14, "peer"⟩ 0 true,
      .endOfStoredEvents "chat", .event "chat" ⟨"b", 14, "peer"⟩ (1 / 2) false]).Pairwise
      (· ≤ ·) := by
    simp [arrivals]
  exact ⟨hns, (chat_budget_right "chat" "peer" 0 _ hns).2.2.2.1⟩

end MostroApp.ChatBudget
