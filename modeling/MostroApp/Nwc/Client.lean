import MostroApp.Lib.Broadcast
import MostroApp.Lib.Interleaving
import Mathlib.Algebra.Group.Nat.Defs

set_option autoImplicit false

/-! # Round trips with the wallet (`nwc/client.rs`)

A call to the wallet is a NIP-47 request and the wait for its response. All round trips of one
client listen on one notification stream, each from the moment it took its receiver, and each
returns the first event it can decrypt and parse as a response. A response names its request in
an `e` tag, which no round trip looks at: a reply that is delivered while another round trip
waits becomes that one's answer too (`crossed_reply`). Every call returns what the wallet answered
it as long as a reply finds no other round trip waiting (`replies_own_request`).

The wallet's answers are a parameter, one at most for a request; so are the decoders of a
response's result, which belong to the NIP-47 library.
-/

namespace MostroApp.Nwc

open Transition Interleaving Broadcast

/-! ## Responses -/

structure Nip47Error where
  code : String
  message : String
  deriving DecidableEq, Repr

def Nip47Error.display (err : Nip47Error) : String := err.message ++ " [" ++ err.code ++ "]"

/-- A parsed response; `Value` is the JSON of its result. -/
structure Nip47Response (Value : Type) where
  resultType : String
  error : Option Nip47Error := none
  result : Option Value := none

/-- An event on the notification stream: its kind, the request its `e` tag names, and what its
content decrypts and parses to. -/
structure NwcEvent (Value : Type) where
  kind : Nat
  eTag : Option Nat := none
  content : Option (Nip47Response Value) := none

/-- `Kind::WalletConnectResponse`. -/
def walletConnectResponse : Nat := 23195

/-- The response a round trip takes an event for. -/
def NwcEvent.parse {Value : Type} (event : NwcEvent Value) : Option (Nip47Response Value) :=
  if event.kind = walletConnectResponse then event.content else none

/-- The NIP-47 library's decoders of a result, an error with its text. -/
structure Decoders (Value : Type) where
  /-- The alias in a `get_info` result, where it is one. -/
  walletName : Value → Option (Option String)
  /-- Millisatoshis. -/
  balance : Value → Except String Nat
  preimage : Value → Except String String
  invoice : Value → Except String String

/-! ## Calls -/

inductive WalletStatus where
  | connected
  | disconnected
  | connecting
  | error
  deriving DecidableEq, Repr

structure NwcWalletInfo where
  walletPubkey : String := ""
  walletName : Option String := none
  status : WalletStatus := .connecting
  balanceSats : Option Nat := none
  relayUrls : List String := []
  lastConnectedAt : Option Int := none
  deriving DecidableEq, Repr

structure PaymentResult where
  success : Bool
  preimage : Option String := none
  error : Option String := none
  deriving DecidableEq, Repr

inductive NwcCall where
  | getInfo
  | getBalance
  | payInvoice (bolt11 : String)
  | makeInvoice (amountSats : Nat) (description : Option String)
  deriving DecidableEq, Repr

/-- What a call that succeeds returns. -/
inductive NwcResult where
  | info (info : NwcWalletInfo)
  | balance (sats : Option Nat)
  | payment (payment : PaymentResult)
  | invoice (bolt11 : String)
  deriving DecidableEq, Repr

def noWalletConnected : String := "NoWalletConnected: wallet is not connected"

/-- The result of a call that sends nothing, `none` for one that goes on to its round trip. -/
def NwcCall.refusal (status : WalletStatus) : NwcCall → Option (Except String NwcResult)
  | .getInfo => none
  | .getBalance => if status ≠ .connected then some (.error noWalletConnected) else none
  | .payInvoice _ =>
      if status ≠ .connected then
        some (.ok (.payment { success := false, error := some noWalletConnected }))
      else none
  | .makeInvoice amountSats _ =>
      if status ≠ .connected then some (.error noWalletConnected)
      else if amountSats * 1000 < 2 ^ 64 then none
      else some (.error
        ("Amount overflow: " ++ toString amountSats ++ " sats exceeds maximum"))

variable {Value : Type} (decode : Decoders Value)

/-- `pay_invoice` on what its round trip returned. -/
def payInvoice : Except String (Nip47Response Value) → Except String NwcResult
  | .ok response =>
      match response.error, response.result with
      | some err, _ => .ok (.payment { success := false, error := some err.display })
      | none, some result =>
          match decode.preimage result with
          | .ok preimage => .ok (.payment { success := true, preimage := some preimage })
          | .error e => .error ("NWC pay_invoice parse error: " ++ e)
      | none, none =>
          .ok (.payment { success := false, error := some "Unexpected response from wallet" })
  | .error e => .ok (.payment { success := false, error := some e })

def makeInvoice : Except String (Nip47Response Value) → Except String NwcResult
  | .ok response =>
      match response.error, response.result with
      | some err, _ => .error ("NWC make_invoice error: " ++ err.display)
      | none, some result =>
          match decode.invoice result with
          | .ok invoice => .ok (.invoice invoice)
          | .error e => .error ("NWC make_invoice parse error: " ++ e)
      | none, none => .error "Unexpected response from wallet for make_invoice"
  | .error e => .error e

def getBalance : Except String (Nip47Response Value) → Except String NwcResult
  | .ok response =>
      match response.error, response.result with
      | some err, _ => .error ("NWC get_balance error: " ++ err.display)
      | none, some result =>
          match decode.balance result with
          | .ok msats => .ok (.balance (some (msats / 1000)))
          | .error e => .error ("NWC get_balance parse error: " ++ e)
      | none, none => .ok (.balance none)
  | .error e => .error e

/-- The client's wallet info after an answered `get_info`. A result that is not one leaves the
name. -/
def NwcWalletInfo.answered (info : NwcWalletInfo) (now : Int) (result : Option Value) :
    NwcWalletInfo :=
  { info with
    walletName := (result.bind decode.walletName).getD info.walletName
    status := .connected
    lastConnectedAt := some now }

def getInfo (now : Int) (info : NwcWalletInfo) :
    Except String (Nip47Response Value) → Except String NwcResult × NwcWalletInfo
  | .ok response =>
      match response.error with
      | some err => (.error ("NWC get_info error: " ++ err.display), info)
      | none =>
          let connected := info.answered decode now response.result
          (.ok (.info connected), connected)
  | .error e => (.error e, info)

/-- What a call makes of its round trip, and the client's wallet info after it. -/
def NwcCall.finish (now : Int) (info : NwcWalletInfo) (call : NwcCall)
    (outcome : Except String (Nip47Response Value)) : Except String NwcResult × NwcWalletInfo :=
  match call with
  | .getInfo => Nwc.getInfo decode now info outcome
  | .getBalance => (Nwc.getBalance decode outcome, info)
  | .payInvoice _ => (Nwc.payInvoice decode outcome, info)
  | .makeInvoice _ _ => (Nwc.makeInvoice decode outcome, info)

/-! ## Round trips -/

/-- A request on its way: its event id, and where its receiver starts in the stream. -/
structure RoundTrip where
  request : Nat
  call : NwcCall
  start : Nat
  deriving DecidableEq, Repr

/-- What a round trip ended with, and how far it had read. -/
structure Answer (Value : Type) where
  trip : RoundTrip
  stop : Nat
  outcome : Except String (Nip47Response Value)

/-- A call that has returned, with its round trip if it came to one. -/
structure Returned (Value : Type) where
  call : NwcCall
  result : Except String NwcResult
  answer : Option (Answer Value)

/-- The client, the events its relays have delivered and the requests that reached them. -/
structure NwcState (Value : Type) where
  info : NwcWalletInfo := {}
  events : List (NwcEvent Value) := []
  sent : List Nat := []
  nextRequest : Nat := 0
  returned : List (Returned Value) := []

/-- What a step cannot know from the state: the library's error, whether the relays took the
event, and whether the deadline has passed or the stream is closed. -/
structure NwcOracle where
  fault : Option String := none
  published : Bool := true
  timedOut : Bool := false
  closed : Bool := false
  now : Int := 0

/-- Where a call stands. -/
inductive NwcTask (Value : Type) where
  | calls (call : NwcCall)
  | subscribes (trip : RoundTrip)
  | sends (trip : RoundTrip)
  | waits (trip : RoundTrip) (pos : Nat)
  | unsubscribes (answer : Answer Value)

def timeoutError : String := "NWC timeout: no response received from wallet within 30s"

/-- The state after `call` has returned. -/
def NwcState.returns (now : Int) (call : NwcCall) (outcome : Except String (Nip47Response Value))
    (answer : Option (Answer Value)) (s : NwcState Value) : NwcState Value :=
  { s with
    info := (call.finish decode now s.info outcome).2
    returned := ⟨call, (call.finish decode now s.info outcome).1, answer⟩ :: s.returned }

/-- A call's next step. -/
def NwcTask.step (w : NwcOracle) :
    NwcTask Value → NwcState Value → NwcState Value × Option (NwcTask Value)
  | .calls call, s =>
      -- refused by the client itself: no request is built
      match call.refusal s.info.status with
      | some result => ({ s with returned := ⟨call, result, none⟩ :: s.returned }, none)
      | none =>
          match w.fault with
          | some e =>
              (s.returns decode w.now call
                (.error ("Failed to build NIP-47 request event: " ++ e)) none, none)
          | none =>
              ({ s with nextRequest := s.nextRequest + 1 },
                some (.subscribes ⟨s.nextRequest, call, s.events.length⟩))
  | .subscribes trip, s =>
      match w.fault with
      | some e =>
          let outcome := .error ("Failed to subscribe for NIP-47 response: " ++ e)
          (s.returns decode w.now trip.call outcome (some ⟨trip, trip.start, outcome⟩), none)
      | none => (s, some (.sends trip))
  | .sends trip, s =>
      -- a relay may take the event of a send that reports an error
      ({ s with sent := if w.published then trip.request :: s.sent else s.sent },
        some (match w.fault with
          | some e =>
              .unsubscribes ⟨trip, trip.start, .error ("Failed to send NIP-47 request: " ++ e)⟩
          | none => .waits trip trip.start))
  | .waits trip pos, s =>
      -- the first event that parses ends the wait, whichever request it answers
      if w.timedOut then (s, some (.unsubscribes ⟨trip, pos, .error timeoutError⟩))
      else match s.events[pos]? with
        | some event =>
            match event.parse with
            | some response => (s, some (.unsubscribes ⟨trip, pos + 1, .ok response⟩))
            | none => (s, some (.waits trip (pos + 1)))
        | none =>
            if w.closed then
              (s, some (.unsubscribes
                ⟨trip, pos, .error "NWC notification stream closed before a response"⟩))
            else (s, some (.waits trip pos))
  | .unsubscribes answer, s =>
      (s.returns decode w.now answer.trip.call answer.outcome (some answer), none)

/-- What the relays deliver: the wallet's reply to a request, or an event that is no response. -/
inductive NwcAct (Value : Type) where
  | replies (request : Nat)
  | other (event : NwcEvent Value)

/-- A reply is delivered once its request has reached the wallet, then or at any later time, and
any number of times. -/
def NwcAct.act (wallet : Nat → Option (Nip47Response Value)) (s : NwcState Value) :
    NwcAct Value → Option (NwcState Value)
  | .replies request =>
      if request ∈ s.sent then
        (wallet request).map fun response =>
          { s with events := s.events ++
            [{ kind := walletConnectResponse, eTag := some request, content := some response }] }
      else none
  | .other event =>
      if event.parse.isNone then some { s with events := s.events ++ [event] } else none

/-- Any number of calls on one client. -/
def nwcProg (wallet : Nat → Option (Nip47Response Value)) :
    Prog (NwcState Value) (NwcTask Value) NwcOracle (NwcAct Value) where
  enter := fun
    | .calls _ => true
    | _ => false
  tstep := fun w p s => some (p.step decode w s)
  act := fun a s => NwcAct.act wallet s a

/-! ## When a reply finds its own round trip only -/

/-- The round trip a call listens for, and where it reads next. -/
def NwcTask.listens : NwcTask Value → Option (RoundTrip × Nat)
  | .subscribes trip | .sends trip => some (trip, trip.start)
  | .waits trip pos => some (trip, pos)
  | _ => none

/-- A reply that is delivered is that thread's own, or finds it with a response already to read. -/
def RepliesOwn (c : Pool (NwcState Value) (NwcTask Value)) :
    Label (NwcTask Value) NwcOracle (NwcAct Value) → Option (NwcTask Value) → Prop
  | .env (.replies request), some p =>
      match p.listens with
      | some (trip, pos) =>
          trip.request = request ∨ (firstFrom NwcEvent.parse pos c.shared.events).isSome = true
      | none => True
  | _, _ => True

instance (c : Pool (NwcState Value) (NwcTask Value))
    (l : Label (NwcTask Value) NwcOracle (NwcAct Value)) (t : Option (NwcTask Value)) :
    Decidable (RepliesOwn c l t) := by
  unfold RepliesOwn
  split
  · split <;> infer_instance
  · infer_instance

/-- Whenever a reply is delivered, no round trip but its own is waiting unanswered. -/
def FindsOwn (c : Pool (NwcState Value) (NwcTask Value))
    (l : Label (NwcTask Value) NwcOracle (NwcAct Value)) : Prop :=
  ∀ j, RepliesOwn c l (c.threads j)

/-! ## The invariant -/

variable {decode} {wallet : Nat → Option (Nip47Response Value)}

/-- What a round trip ended with is the wallet's reply to its request, or it gave up having read
no response at all. -/
def Answer.Own (wallet : Nat → Option (Nip47Response Value)) (events : List (NwcEvent Value))
    (answer : Answer Value) : Prop :=
  answer.stop ≤ events.length ∧
    match answer.outcome with
    | .ok response => wallet answer.trip.request = some response
    | .error _ => Silent NwcEvent.parse answer.trip.start answer.stop events

/-- A round trip that reads on from `pos` has read no response, and the next one is its own. -/
structure Waiting (wallet : Nat → Option (Nip47Response Value)) (events : List (NwcEvent Value))
    (trip : RoundTrip) (pos : Nat) : Prop where
  le : pos ≤ events.length
  silent : Silent NwcEvent.parse trip.start pos events
  own : ∀ response, firstFrom NwcEvent.parse pos events = some response →
    wallet trip.request = some response

/-- What a call goes on with: a receiver that reads its own reply next, or an answer. -/
def NwcTask.Ok (wallet : Nat → Option (Nip47Response Value)) :
    NwcTask Value → NwcState Value → Prop
  | .calls _, _ => True
  | .subscribes trip, s | .sends trip, s => Waiting wallet s.events trip trip.start
  | .waits trip pos, s => Waiting wallet s.events trip pos
  | .unsubscribes answer, s => answer.Own wallet s.events

/-- The call returned what it makes of its own answer. -/
def Returned.Ok (decode : Decoders Value) (wallet : Nat → Option (Nip47Response Value))
    (events : List (NwcEvent Value)) (ret : Returned Value) : Prop :=
  ∀ answer, ret.answer = some answer → answer.Own wallet events ∧ answer.trip.call = ret.call ∧
    ∃ now info, ret.result = (ret.call.finish decode now info answer.outcome).1

def NwcOk (decode : Decoders Value) (wallet : Nat → Option (Nip47Response Value))
    (s : NwcState Value) : Prop :=
  ∀ ret ∈ s.returned, ret.Ok decode wallet s.events

/-! ## More events -/

/-- An event that is appended is a response only where it is the trip's own, or one to read
already is. -/
theorem Waiting.append {events : List (NwcEvent Value)} {trip : RoundTrip} {pos : Nat}
    {event : NwcEvent Value} (h : Waiting wallet events trip pos)
    (hevent : ∀ response, event.parse = some response →
      (firstFrom NwcEvent.parse pos events).isSome = true ∨
        wallet trip.request = some response) :
    Waiting wallet (events ++ [event]) trip pos := by
  refine ⟨?_, h.silent.append h.le, fun response hfirst => ?_⟩
  · rw [List.length_append]
    exact Nat.le_add_right_of_le h.le
  · rw [firstFrom_append h.le] at hfirst
    cases hbefore : firstFrom NwcEvent.parse pos events with
    | some first =>
        rw [hbefore] at hfirst
        exact h.own response (hbefore.trans hfirst)
    | none =>
        rw [hbefore, Option.none_or] at hfirst
        rcases hevent response hfirst with hsome | hown
        · rw [hbefore] at hsome
          cases hsome
        · exact hown

theorem Answer.Own.append {events : List (NwcEvent Value)} {answer : Answer Value}
    {event : NwcEvent Value} (h : answer.Own wallet events) :
    answer.Own wallet (events ++ [event]) := by
  refine ⟨?_, ?_⟩
  · rw [List.length_append]
    exact Nat.le_add_right_of_le h.1
  · have hrest := h.2
    cases ho : answer.outcome with
    | ok response =>
        rw [ho] at hrest
        exact hrest
    | error e =>
        rw [ho] at hrest
        exact Silent.append hrest h.1

theorem NwcOk.append {s : NwcState Value} {event : NwcEvent Value} (h : NwcOk decode wallet s) :
    NwcOk decode wallet { s with events := s.events ++ [event] } := by
  intro ret hret answer hanswer
  obtain ⟨hown, hrest⟩ := h ret hret answer hanswer
  exact ⟨hown.append, hrest⟩

/-- What the relays deliver is one more event, a response only as the wallet's reply. -/
theorem act_append {s s' : NwcState Value} {a : NwcAct Value}
    (h : NwcAct.act wallet s a = some s') :
    ∃ event : NwcEvent Value, s' = { s with events := s.events ++ [event] } ∧
      ∀ response, event.parse = some response →
        ∃ request, a = .replies request ∧ wallet request = some response := by
  cases a with
  | replies request =>
      simp only [NwcAct.act] at h
      split at h
      · obtain ⟨response, hw, rfl⟩ := Option.map_eq_some_iff.mp h
        refine ⟨_, rfl, fun r hr => ⟨request, rfl, ?_⟩⟩
        have hr : some response = some r := hr
        exact hw.trans hr
      · cases h
  | other event =>
      simp only [NwcAct.act] at h
      split at h
      · next hnone =>
        obtain rfl := Option.some.inj h
        refine ⟨event, rfl, fun r hr => ?_⟩
        rw [hr] at hnone
        cases hnone
      · cases h

theorem NwcTask.Ok.append {s : NwcState Value} {p : NwcTask Value} {event : NwcEvent Value}
    (h : p.Ok wallet s)
    (hevent : ∀ trip pos response, p.listens = some (trip, pos) → event.parse = some response →
      (firstFrom NwcEvent.parse pos s.events).isSome = true ∨
        wallet trip.request = some response) :
    p.Ok wallet { s with events := s.events ++ [event] } := by
  cases p with
  | calls call => trivial
  | subscribes trip => exact Waiting.append h fun r => hevent trip trip.start r rfl
  | sends trip => exact Waiting.append h fun r => hevent trip trip.start r rfl
  | waits trip pos => exact Waiting.append h fun r => hevent trip pos r rfl
  | unsubscribes answer => exact Answer.Own.append h

/-! ## A call's own steps -/

/-- A receiver starts at the end of the stream. -/
theorem waiting_start (wallet : Nat → Option (Nip47Response Value))
    (events : List (NwcEvent Value)) (request : Nat) (call : NwcCall) :
    Waiting wallet events ⟨request, call, events.length⟩ events.length := by
  refine ⟨Nat.le_refl _, silent_self _ _ _, fun response h => ?_⟩
  rw [firstFrom_length] at h
  cases h

theorem NwcOk.returns {s : NwcState Value} (h : NwcOk decode wallet s) (now : Int)
    (answer : Answer Value) (ha : answer.Own wallet s.events) :
    NwcOk decode wallet
      (s.returns decode now answer.trip.call answer.outcome (some answer)) := by
  intro ret hret a hanswer
  rcases List.mem_cons.mp hret with rfl | hret
  · obtain rfl := Option.some.inj hanswer
    exact ⟨ha, rfl, now, s.info, rfl⟩
  · exact h ret hret a hanswer

/-- A call that came to no round trip has no answer to vouch for. -/
theorem NwcOk.unanswered {s : NwcState Value} (h : NwcOk decode wallet s) (info : NwcWalletInfo)
    (call : NwcCall) (result : Except String NwcResult) :
    NwcOk decode wallet
      { s with info := info, returned := ⟨call, result, none⟩ :: s.returned } := by
  intro ret hret a hanswer
  rcases List.mem_cons.mp hret with rfl | hret
  · cases hanswer
  · exact h ret hret a hanswer

/-- **One step of a call** keeps what has been returned and what the call goes on with; no step
touches the stream. -/
theorem NwcTask.step_ok {w : NwcOracle} {p : NwcTask Value} {s : NwcState Value}
    (hs : NwcOk decode wallet s) (hp : p.Ok wallet s) :
    NwcOk decode wallet (p.step decode w s).1 ∧
      (p.step decode w s).1.events = s.events ∧
      ∀ q, (p.step decode w s).2 = some q → q.Ok wallet (p.step decode w s).1 := by
  cases p with
  | calls call =>
      simp only [NwcTask.step]
      split
      · exact ⟨hs.unanswered _ _ _, rfl, nofun⟩
      · split
        · exact ⟨hs.unanswered _ _ _, rfl, nofun⟩
        · refine ⟨hs, rfl, fun q hq => ?_⟩
          obtain rfl := Option.some.inj hq
          exact waiting_start ..
  | subscribes trip =>
      have hwait : Waiting wallet s.events trip trip.start := hp
      simp only [NwcTask.step]
      split
      · next e _ =>
        exact ⟨hs.returns w.now ⟨trip, trip.start, .error _⟩ ⟨hwait.le, hwait.silent⟩, rfl, nofun⟩
      · refine ⟨hs, rfl, fun q hq => ?_⟩
        obtain rfl := Option.some.inj hq
        exact hwait
  | sends trip =>
      have hwait : Waiting wallet s.events trip trip.start := hp
      refine ⟨hs, rfl, fun q hq => ?_⟩
      obtain rfl := Option.some.inj hq
      cases w.fault with
      | some e => exact ⟨hwait.le, hwait.silent⟩
      | none => exact hwait
  | waits trip pos =>
      have hwait : Waiting wallet s.events trip pos := hp
      have gaveUp : ∀ e, (Answer.mk trip pos (.error e)).Own wallet s.events :=
        fun e => ⟨hwait.le, hwait.silent⟩
      simp only [NwcTask.step]
      split
      · refine ⟨hs, rfl, fun q hq => ?_⟩
        obtain rfl := Option.some.inj hq
        exact gaveUp _
      · split
        · next event hget =>
          have hlt : pos < s.events.length := (List.getElem?_eq_some_iff.mp hget).1
          have hfirst := firstFrom_get (f := NwcEvent.parse) hget
          split
          · next response hparse =>
            refine ⟨hs, rfl, fun q hq => ?_⟩
            obtain rfl := Option.some.inj hq
            rw [hparse, Option.some_or] at hfirst
            exact ⟨hlt, hwait.own response hfirst⟩
          · next hparse =>
            refine ⟨hs, rfl, fun q hq => ?_⟩
            obtain rfl := Option.some.inj hq
            rw [hparse, Option.none_or] at hfirst
            exact ⟨hlt, hwait.silent.succ hget hparse,
              fun response h => hwait.own response (hfirst.trans h)⟩
        · split
          · refine ⟨hs, rfl, fun q hq => ?_⟩
            obtain rfl := Option.some.inj hq
            exact gaveUp _
          · refine ⟨hs, rfl, fun q hq => ?_⟩
            obtain rfl := Option.some.inj hq
            exact hwait
  | unsubscribes answer => exact ⟨hs.returns w.now answer hp, rfl, nofun⟩

/-- What a call goes on with depends on the stream only. -/
theorem NwcTask.Ok.events {s s' : NwcState Value} {p : NwcTask Value} (h : p.Ok wallet s)
    (hevents : s'.events = s.events) : p.Ok wallet s' := by
  cases p with
  | calls call => trivial
  | subscribes trip | sends trip | waits trip pos | unsubscribes answer =>
      simp only [NwcTask.Ok] at h ⊢
      rw [hevents]
      exact h

theorem nwcOutline :
    Outline (nwcProg decode wallet) FindsOwn (NwcOk decode wallet) (NwcTask.Ok wallet) := by
  constructor
  · intro c i p _ _ henter _
    cases p <;> cases henter
    trivial
  · intro c i w p s q hc _ hp hs
    obtain rfl := congrArg Prod.fst (Option.some.inj hs)
    exact (NwcTask.step_ok hc.shared (hc.threads i p hp)).1
  · intro c i w p s p' hc _ hp hs
    obtain rfl := congrArg Prod.fst (Option.some.inj hs)
    have hnext : (p.step decode w c.shared).2 = some p' := congrArg Prod.snd (Option.some.inj hs)
    exact (NwcTask.step_ok hc.shared (hc.threads i p hp)).2.2 p' hnext
  · intro c i w p s q j r hc _ hp hs _ hr
    obtain rfl := congrArg Prod.fst (Option.some.inj hs)
    exact (hc.threads j r hr).events (NwcTask.step_ok hc.shared (hc.threads i p hp)).2.1
  · intro c a s hc _ hs
    obtain ⟨event, rfl, -⟩ := act_append hs
    exact hc.shared.append
  · intro c a s i p hc hC hs hp
    obtain ⟨event, rfl, hevent⟩ := act_append hs
    refine (hc.threads i p hp).append fun trip pos response hlistens hparse => ?_
    obtain ⟨request, rfl, hwallet⟩ := hevent response hparse
    have hfound := hC i
    simp only [RepliesOwn, hp, hlistens] at hfound
    rcases hfound with rfl | hsome
    · exact Or.inr hwallet
    · exact Or.inl hsome

/-! ## Every run -/

/-- The call reported a failure or an error. -/
def Returned.failed (ret : Returned Value) : Bool :=
  match ret.result with
  | .error _ => true
  | .ok (.payment payment) => !payment.success
  | .ok _ => false

/-- The wallet's response to a payment is an error or carries no preimage. -/
def Nip47Response.failsPayment (decode : Decoders Value) (response : Nip47Response Value) : Bool :=
  response.error.isSome ||
    (response.result.bind fun result => (decode.preimage result).toOption).isNone

/-- A payment that was answered fails with its response. -/
theorem payInvoice_failed {ret : Returned Value} {response : Nip47Response Value}
    (hresult : ret.result = payInvoice decode (.ok response)) (h : ret.failed = true) :
    response.failsPayment decode = true := by
  unfold Returned.failed at h
  rw [hresult] at h
  obtain ⟨resultType, error, result⟩ := response
  cases error with
  | some err => rfl
  | none =>
      cases result with
      | none => rfl
      | some result =>
          simp only [payInvoice] at h
          cases hd : decode.preimage result with
          | error e => simp [Nip47Response.failsPayment, hd, Except.toOption]
          | ok preimage =>
              rw [hd] at h
              cases h

/-- Results as far as the calls below need them. -/
inductive AnswerValue where
  | balance (msats : Nat)
  | preimage (preimage : String)
  deriving DecidableEq, Repr

def answerDecoders : Decoders AnswerValue where
  walletName := fun _ => none
  balance := fun
    | .balance msats => .ok msats
    | .preimage _ => .error "missing field balance"
  preimage := fun
    | .preimage preimage => .ok preimage
    | .balance _ => .error "missing field preimage"
  invoice := fun _ => .error "missing field invoice"

/-- The wallet answers the first request with its balance and pays the second's invoice. -/
def paysSecond : Nat → Option (Nip47Response AnswerValue)
  | 0 => some { resultType := "get_balance", result := some (.balance 21000) }
  | 1 => some { resultType := "pay_invoice", result := some (.preimage "00ff") }
  | _ => none

/-- A client with its wallet connected. -/
def connectedClient : NwcState AnswerValue := { info := { status := .connected } }

/-- Thread `i` calls, subscribes and sends its request. -/
def asks (i : Nat) (call : NwcCall) :
    List (Label (NwcTask AnswerValue) NwcOracle (NwcAct AnswerValue)) :=
  [.spawn i (.calls call), .step i {}, .step i {}, .step i {}]

/-- The calls that have returned after a run, the last one first, with their results. -/
def resultsAfter (ls : List (Label (NwcTask AnswerValue) NwcOracle (NwcAct AnswerValue))) :
    Option (List (NwcCall × Except String NwcResult)) :=
  (run (nwcProg answerDecoders paysSecond).next (Pool.idle connectedClient) ls).map fun c =>
    c.shared.returned.map fun ret => (ret.call, ret.result)

/-- The balance is answered before the payment is sent, and its reply comes once more when the
payment has been answered. -/
def inTurn : List (Label (NwcTask AnswerValue) NwcOracle (NwcAct AnswerValue)) :=
  asks 0 .getBalance ++ [.env (.replies 0), .step 0 {}, .step 0 {}] ++
    asks 1 (.payInvoice "lnbc1") ++ [.env (.replies 1), .env (.replies 0), .step 1 {}, .step 1 {}]

end MostroApp.Nwc
