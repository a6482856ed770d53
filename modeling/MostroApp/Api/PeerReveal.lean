import MostroApp.Lib.Interleaving
import MostroApp.Mostro.Session
import MostroApp.Api.OrderState

set_option autoImplicit false

/-! # Peer reveals beside the other users of the session map (`api/orders.rs`)

`apply_peer_reveal` derives a shared key from one trade key of the order, takes a copy of the
order's session (creating one if there is none), and later writes the copy back with the peer
and the key. Every other operation is one step under the map's lock. The file takes any
interleaving of reveals, of any key index, with those operations, for any number of orders.

A session's shared key belongs to its own trade key, and its admin key stays, as long as a
reveal writes back only copies of its own index that have the admin key the map has by then.
-/

namespace MostroApp.Sessions

open Interleaving Transition

/-! ## The map and its users -/

/-- The map, and for every order the key index whose reveal its session holds. -/
structure SessionState where
  sessions : SessionMap := fun _ => none
  revealedFor : String → Option Nat := fun _ => none

/-- The map after a call that worked, with what is revealed now; a refused call changes
nothing. -/
def SessionState.after (s : SessionState) (order : String) (revealed : Option Nat) :
    Except String SessionMap → SessionState
  | .ok m => ⟨m, Function.update s.revealedFor order revealed⟩
  | .error _ => s

/-- What a reveal learns: the order's info from its row or the book, and the time. -/
structure RevealOracle where
  info : Option OrderInfo := none
  now : Int := 0

/-- What a reveal does next. -/
inductive RevealTask where
  | reads (order peer : String) (index : Nat) (role : TradeRole)
  | creates (order peer key : String) (index : Nat) (role : TradeRole)
  | writes (order peer key : String) (index : Nat) (session : Session)
  deriving DecidableEq, Repr

/-- One step of `apply_peer_reveal`; `derive` is the shared key of a trade-key index and a
peer. -/
def RevealTask.step (derive : Nat → String → Option String) (w : RevealOracle) :
    RevealTask → SessionState → SessionState × Option RevealTask
  | .reads order peer index role, s =>
      match derive index peer, s.sessions order with
      | none, _ => (s, none)
      | some key, some session => (s, some (.writes order peer key index session))
      | some key, none => (s, some (.creates order peer key index role))
  | .creates order peer key index role, s =>
      match w.info with
      | none => (s, none)
      | some info =>
          match createSession order role index info w.now s.sessions with
          | .ok m => (s.after order none (.ok m),
              some (.writes order peer key index (bareSession order role index info w.now)))
          | .error _ => (s, none)
  -- the whole session goes back as it was read, whatever the map holds by now
  | .writes order peer key index session, s =>
      (s.after order (some index) (updateSession order
        { session with peerPubkey := some peer, sharedKey := some key } s.sessions), none)

def RevealTask.starts : RevealTask → Bool
  | .reads .. => true
  | _ => false

/-- The operations that are one step. -/
inductive SessionCall where
  | install (order : String) (role : TradeRole) (index : Nat) (info : OrderInfo) (now : Int)
  | create (order : String) (role : TradeRole) (index : Nat) (info : OrderInfo) (now : Int)
  | createWithPeer (order : String) (role : TradeRole) (index : Nat) (info : OrderInfo)
      (peer : String) (now : Int)
  | setAdmin (order key : String)
  | remove (order : String)
  deriving DecidableEq, Repr

/-- `create_session_with_peer` is given the key derived from its own index. -/
def SessionCall.act (derive : Nat → String → Option String) (s : SessionState) :
    SessionCall → SessionState
  | .install order role index info now =>
      s.after order
        (if (s.sessions order).any (·.tradeKeyIndex = index) then s.revealedFor order else none)
        (installSession order role index info now s.sessions)
  | .create order role index info now =>
      s.after order none (createSession order role index info now s.sessions)
  | .createWithPeer order role index info peer now =>
      match derive index peer with
      | none => s
      | some key => s.after order (some index)
          (createSessionWithPeer order role index info peer key now s.sessions)
  | .setAdmin order key =>
      s.after order (s.revealedFor order) (setAdminSharedKey order key s.sessions)
  | .remove order => s.after order none (.ok (removeSession order s.sessions))

/-- Reveals of any trade keys beside the other calls. -/
def sessionProg (derive : Nat → String → Option String) :
    Prog SessionState RevealTask RevealOracle SessionCall where
  enter := RevealTask.starts
  tstep w p s := some (p.step derive w s)
  act a s := some (SessionCall.act derive s a)

/-! ## The claim, and the reveals that keep it -/

variable {derive : Nat → String → Option String}

/-- Every session with a shared key and a peer has the key of its own index and that peer. -/
def Keyed (derive : Nat → String → Option String) (m : SessionMap) : Prop :=
  ∀ order x, m order = some x → ∀ key peer, x.sharedKey = some key → x.peerPubkey = some peer →
    derive x.tradeKeyIndex peer = some key

/-- The calls that may end the admin key of the session `x`: its removal, its replacement by
another index, and a new admin key. -/
def EndsAdmin (order : String) (x : Session) : SessionCall → Prop
  | .remove o => o = order
  | .install o _ index _ _ => o = order ∧ index ≠ x.tradeKeyIndex
  | .setAdmin o _ => o = order
  | _ => False

/-- What a step keeps. -/
structure KeysKept (derive : Nat → String → Option String)
    (c : Pool SessionState RevealTask) (l : Label RevealTask RevealOracle SessionCall)
    (c' : Pool SessionState RevealTask) : Prop where
  keyed : Keyed derive c'.shared.sessions
  revealed : ∀ order role index info now, l = .env (.install order role index info now) →
    c.shared.revealedFor order = some index →
      ∃ x, c.shared.sessions order = some x ∧ x.sharedKey.isSome ∧
        c'.shared.sessions order = some x
  admin : ∀ order x key, c.shared.sessions order = some x → x.adminSharedKey = some key →
    (∃ a, l = .env a ∧ EndsAdmin order x a) ∨
      ∃ y, c'.shared.sessions order = some y ∧ y.adminSharedKey = some key

/-- A reveal writes back a copy of its own index, with the admin key the map has. -/
def WritesOwn (c : Pool SessionState RevealTask) : Label RevealTask RevealOracle SessionCall → Prop
  | .step i _ =>
      match c.threads i with
      | some (.writes order _ _ index session) => ∀ x ∈ c.shared.sessions order,
          session.tradeKeyIndex = index ∧
            ∀ key ∈ x.adminSharedKey, session.adminSharedKey = some key
      | _ => True
  | _ => True

instance (c : Pool SessionState RevealTask) : ∀ l, Decidable (WritesOwn c l)
  | .step i w => by
      unfold WritesOwn
      dsimp only
      split <;> infer_instance
  | .spawn .. | .env _ => inferInstanceAs (Decidable True)

/-! ## The proof outline -/

/-- The sessions are keyed, and a session said to hold a reveal does, with its index. -/
structure SessionsOk (derive : Nat → String → Option String) (s : SessionState) : Prop where
  keyed : Keyed derive s.sessions
  revealed : ∀ order index, s.revealedFor order = some index →
    ∃ x, s.sessions order = some x ∧ x.tradeKeyIndex = index ∧ x.sharedKey.isSome

/-- The key a reveal carries is derived from its index. -/
def RevealTask.derived (derive : Nat → String → Option String) : RevealTask → Prop
  | .reads .. => True
  | .creates _ peer key index _ | .writes _ peer key index _ => derive index peer = some key

/-- One session is put in place: keyed, and of the index said to be revealed. -/
theorem SessionsOk.put {s : SessionState} (hs : SessionsOk derive s) {order : String} {x : Session}
    {revealed : Option Nat}
    (hkey : ∀ key peer, x.sharedKey = some key → x.peerPubkey = some peer →
      derive x.tradeKeyIndex peer = some key)
    (hrev : ∀ index, revealed = some index → x.tradeKeyIndex = index ∧ x.sharedKey.isSome) :
    SessionsOk derive
      (s.after order revealed (.ok (Function.update s.sessions order (some x)))) := by
  refine ⟨fun o y hy => ?_, fun o index hindex => ?_⟩
  · have hy : Function.update s.sessions order (some x) o = some y := hy
    by_cases ho : o = order
    · rw [ho, Function.update_self] at hy
      obtain rfl := Option.some.inj hy
      exact hkey
    · rw [Function.update_of_ne ho] at hy
      exact hs.keyed o y hy
  · have hindex : Function.update s.revealedFor order revealed o = some index := hindex
    by_cases ho : o = order
    · rw [ho, Function.update_self] at hindex
      exact ⟨x, ho ▸ Function.update_self .., hrev index hindex⟩
    · rw [Function.update_of_ne ho] at hindex
      obtain ⟨y, hy, hrest⟩ := hs.revealed o index hindex
      exact ⟨y, (Function.update_of_ne ho ..).trans hy, hrest⟩

/-- A bare session has no key. -/
theorem SessionsOk.putBare {s : SessionState} (hs : SessionsOk derive s) (order : String)
    (role : TradeRole) (index : Nat) (info : OrderInfo) (now : Int) :
    SessionsOk derive (s.after order none
      (.ok (Function.update s.sessions order (some (bareSession order role index info now))))) :=
  hs.put (fun _ _ h => absurd h nofun) fun _ h => absurd h nofun

/-- A call that is one step. -/
theorem SessionsOk.act {s : SessionState} (hs : SessionsOk derive s) (a : SessionCall) :
    SessionsOk derive (SessionCall.act derive s a) := by
  cases a with
  | install order role index info now =>
      simp only [SessionCall.act]
      cases hr : installSession order role index info now s.sessions with
      | error e => exact hs
      | ok m =>
          rcases installSession_ok hr with ⟨rfl, x, hx, hidx⟩ | ⟨hne, rfl⟩
          · have hany : (s.sessions order).any (·.tradeKeyIndex = index) = true := by
              simp [hx, hidx]
            rw [if_pos hany]
            show SessionsOk derive ⟨s.sessions, Function.update s.revealedFor order _⟩
            rw [Function.update_eq_self]
            exact hs
          · have hany : ¬ (s.sessions order).any (·.tradeKeyIndex = index) = true := by
              intro h
              obtain ⟨x, hx, hidx⟩ := (Option.any_eq_true _ _).mp h
              exact hne x hx (of_decide_eq_true hidx)
            rw [if_neg hany]
            exact hs.putBare order role index info now
  | create order role index info now =>
      simp only [SessionCall.act]
      cases hr : createSession order role index info now s.sessions with
      | error e => exact hs
      | ok m =>
          obtain ⟨-, rfl⟩ := insertNew_ok hr
          exact hs.putBare order role index info now
  | createWithPeer order role index info peer now =>
      simp only [SessionCall.act]
      cases hd : derive index peer with
      | none => exact hs
      | some key =>
          dsimp only
          cases hr : createSessionWithPeer order role index info peer key now s.sessions with
          | error e => exact hs
          | ok m =>
              obtain ⟨-, rfl⟩ := insertNew_ok hr
              refine hs.put (fun k p hk hp => ?_) fun i hi => ⟨Option.some.inj hi, rfl⟩
              obtain rfl := Option.some.inj hk
              obtain rfl := Option.some.inj hp
              exact hd
  | setAdmin order key =>
      simp only [SessionCall.act]
      cases hr : setAdminSharedKey order key s.sessions with
      | error e => exact hs
      | ok m =>
          obtain ⟨x, hx, rfl⟩ := setAdminSharedKey_ok hr
          refine hs.put (hs.keyed order x hx) fun i hi => ?_
          obtain ⟨y, hy, hidx, hkey⟩ := hs.revealed order i hi
          obtain rfl := Option.some.inj (hx.symm.trans hy)
          exact ⟨hidx, hkey⟩
  | remove order =>
      refine ⟨fun o y hy => ?_, fun o index hindex => ?_⟩
      · have hy : Function.update s.sessions order none o = some y := hy
        by_cases ho : o = order
        · rw [ho, Function.update_self] at hy
          cases hy
        · rw [Function.update_of_ne ho] at hy
          exact hs.keyed o y hy
      · have hindex : Function.update s.revealedFor order none o = some index := hindex
        by_cases ho : o = order
        · rw [ho, Function.update_self] at hindex
          cases hindex
        · rw [Function.update_of_ne ho] at hindex
          obtain ⟨y, hy, hrest⟩ := hs.revealed o index hindex
          exact ⟨y, (Function.update_of_ne ho ..).trans hy, hrest⟩

/-- A reveal's write of a copy of its own index. -/
theorem SessionsOk.write {s : SessionState} (hs : SessionsOk derive s) {order peer key : String}
    {index : Nat} {session : Session} (hd : derive index peer = some key)
    (hown : ∀ x, s.sessions order = some x → session.tradeKeyIndex = index) :
    SessionsOk derive (s.after order (some index) (updateSession order
      { session with peerPubkey := some peer, sharedKey := some key } s.sessions)) := by
  cases hr : updateSession order { session with peerPubkey := some peer, sharedKey := some key }
      s.sessions with
  | error e => exact hs
  | ok m =>
      obtain ⟨-, ⟨x, hx⟩, rfl⟩ := updateSession_ok hr
      have hidx := hown x hx
      refine hs.put (fun k p hk hp => ?_) fun i hi => ?_
      · obtain rfl := Option.some.inj hk
        obtain rfl := Option.some.inj hp
        show derive session.tradeKeyIndex peer = some key
        rw [hidx]
        exact hd
      · obtain rfl := Option.some.inj hi
        exact ⟨hidx, rfl⟩

theorem sessionOutline :
    Outline (sessionProg derive) WritesOwn (SessionsOk derive)
      (fun p _ => p.derived derive) := by
  constructor
  · intro c i p _ _ henter _
    cases p <;> trivial
  · intro c i w p s q hc hC hp hs
    obtain rfl := congrArg Prod.fst (Option.some.inj hs)
    have hd := hc.threads i p hp
    cases p with
    | reads order peer index role =>
        simp only [RevealTask.step]
        split <;> exact hc.shared
    | creates order peer key index role =>
        simp only [RevealTask.step]
        split
        · exact hc.shared
        next info _ =>
          split
          · next m hm =>
            obtain ⟨-, rfl⟩ := insertNew_ok hm
            exact hc.shared.putBare order role index info w.now
          · exact hc.shared
    | writes order peer key index session =>
        refine hc.shared.write hd fun x hx => ?_
        simp only [WritesOwn, hp] at hC
        exact (hC x hx).1
  · intro c i w p s p' hc hC hp hs
    have heq : (p.step derive w c.shared).2 = some p' := congrArg Prod.snd (Option.some.inj hs)
    have hd := hc.threads i p hp
    cases p with
    | reads order peer index role =>
        simp only [RevealTask.step] at heq
        split at heq
        · cases heq
        · next hkey _ => exact Option.some.inj heq ▸ hkey
        · next hkey _ => exact Option.some.inj heq ▸ hkey
    | creates order peer key index role =>
        simp only [RevealTask.step] at heq
        split at heq
        · cases heq
        · split at heq
          · exact Option.some.inj heq ▸ hd
          · cases heq
    | writes order peer key index session => cases heq
  · exact fun c i w p s q j r hc _ _ _ _ hr => hc.threads j r hr
  · intro c a s hc _ hs
    exact Option.some.inj hs ▸ hc.shared.act a
  · exact fun c a s i p hc _ _ hp => hc.threads i p hp

/-! ## The admin key -/

/-- A call leaves the admin key of a session it may not end. -/
theorem SessionCall.act_admin {s : SessionState} {a : SessionCall} {order key : String}
    {x : Session}
    (hx : s.sessions order = some x) (hkey : x.adminSharedKey = some key)
    (ha : ¬ EndsAdmin order x a) :
    ∃ y, (SessionCall.act derive s a).sessions order = some y ∧ y.adminSharedKey = some key := by
  -- a call on another order, or a refused one, leaves the session itself
  have other : ∀ {o : String} {y : Option Session}, o ≠ order →
      Function.update s.sessions o y order = some x :=
    fun ho => (Function.update_of_ne (Ne.symm ho) ..).trans hx
  have inserted : ∀ {o : String} {info : OrderInfo} {y : Session} {r : Option Nat},
      ∃ z, (s.after o r (insertNew o info y s.sessions)).sessions order = some z ∧
        z.adminSharedKey = some key := by
    intro o info y r
    cases hr : insertNew o info y s.sessions with
    | error e => exact ⟨x, hx, hkey⟩
    | ok m =>
        obtain ⟨hnone, rfl⟩ := insertNew_ok hr
        have ho : o ≠ order := by
          rintro rfl
          exact absurd (hx.symm.trans hnone) nofun
        exact ⟨x, other ho, hkey⟩
  cases a with
  | install o role index info now =>
      simp only [SessionCall.act]
      cases hr : installSession o role index info now s.sessions with
      | error e => exact ⟨x, hx, hkey⟩
      | ok m =>
          rcases installSession_ok hr with ⟨rfl, -⟩ | ⟨hne, rfl⟩
          · exact ⟨x, hx, hkey⟩
          · have ho : o ≠ order := by
              rintro rfl
              exact ha ⟨rfl, (hne x hx).symm⟩
            exact ⟨x, other ho, hkey⟩
  | create o role index info now => exact inserted
  | createWithPeer o role index info peer now =>
      simp only [SessionCall.act]
      split
      · exact ⟨x, hx, hkey⟩
      · exact inserted
  | setAdmin o k =>
      simp only [SessionCall.act]
      cases hr : setAdminSharedKey o k s.sessions with
      | error e => exact ⟨x, hx, hkey⟩
      | ok m =>
          obtain ⟨y, -, rfl⟩ := setAdminSharedKey_ok hr
          exact ⟨x, other ha, hkey⟩
  | remove o => exact ⟨x, other ha, hkey⟩

/-- A reveal's step leaves the admin key where its copy has it. -/
theorem RevealTask.step_admin {w : RevealOracle} {p : RevealTask} {s : SessionState}
    {order key : String} {x : Session} (hx : s.sessions order = some x)
    (hkey : x.adminSharedKey = some key)
    (hown : ∀ peer k index session, p = .writes order peer k index session →
      session.adminSharedKey = some key) :
    ∃ y, (p.step derive w s).1.sessions order = some y ∧ y.adminSharedKey = some key := by
  cases p with
  | reads o peer index role =>
      simp only [RevealTask.step]
      split <;> exact ⟨x, hx, hkey⟩
  | creates o peer k index role =>
      simp only [RevealTask.step]
      split
      · exact ⟨x, hx, hkey⟩
      · split
        · next m hm =>
          obtain ⟨hnone, rfl⟩ := insertNew_ok hm
          have ho : order ≠ o := by
            rintro rfl
            exact absurd (hx.symm.trans hnone) nofun
          exact ⟨x, (Function.update_of_ne ho ..).trans hx, hkey⟩
        · exact ⟨x, hx, hkey⟩
  | writes o peer k index session =>
      simp only [RevealTask.step]
      cases hr : updateSession o { session with peerPubkey := some peer, sharedKey := some k }
          s.sessions with
      | error e => exact ⟨x, hx, hkey⟩
      | ok m =>
          obtain ⟨-, -, rfl⟩ := updateSession_ok hr
          by_cases ho : order = o
          · subst ho
            exact ⟨_, Function.update_self .., hown peer k index session rfl⟩
          · exact ⟨x, (Function.update_of_ne ho ..).trans hx, hkey⟩

/-! ## Every interleaving -/

/-- **A session's chat key belongs to its trade key**, a revealed key survives the install of its
own index, and an admin key goes only with its session: in every step of every run in which
reveals write back copies of their own. The map may start with any keyed sessions. -/
theorem chat_keys_kept {s : SessionState} {ls : List (Label RevealTask RevealOracle SessionCall)}
    (hs : SessionsOk derive s)
    (hC : Along (sessionProg derive).next WritesOwn (Pool.idle s) ls) :
    Along (sessionProg derive).next
      (fun c l => ∀ c', (sessionProg derive).next c l = some c' → KeysKept derive c l c')
      (Pool.idle s) ls := by
  refine sessionOutline.along (fun c l hc hown c' hn => ?_) (poolInv_idle hs) hC
  refine ⟨(sessionOutline.keep c l c' hc hown hn).shared.keyed, ?_, ?_⟩
  · rintro order role index info now rfl hrev
    obtain ⟨s', hs', rfl⟩ := Prog.next_env.mp hn
    obtain rfl := Option.some.inj hs'
    obtain ⟨x, hx, hidx, hkey⟩ := hc.shared.revealed order index hrev
    refine ⟨x, hx, hkey, ?_⟩
    simp only [SessionCall.act]
    cases hr : installSession order role index info now c.shared.sessions with
    | error e => exact hx
    | ok m =>
        rcases installSession_ok hr with ⟨rfl, -⟩ | ⟨hne, -⟩
        · exact hx
        · exact absurd hidx (hne x hx)
  · intro order x key hx hkey
    cases l with
    | spawn i p =>
        obtain ⟨-, -, rfl⟩ := Prog.next_spawn.mp hn
        exact Or.inr ⟨x, hx, hkey⟩
    | step i w =>
        obtain ⟨p, s', q, hp, hstep, rfl⟩ := Prog.next_step.mp hn
        obtain rfl : (p.step derive w c.shared).1 = s' := congrArg Prod.fst (Option.some.inj hstep)
        refine Or.inr (RevealTask.step_admin hx hkey ?_)
        rintro peer k index session rfl
        simp only [WritesOwn, hp] at hown
        exact (hown x hx).2 key hkey
    | env a =>
        obtain ⟨s', hs', rfl⟩ := Prog.next_env.mp hn
        obtain rfl := Option.some.inj hs'
        by_cases ha : EndsAdmin order x a
        · exact Or.inl ⟨a, rfl, ha⟩
        · exact Or.inr (SessionCall.act_admin hx hkey ha)

/-! ## Reveals of the right and of another index -/

/-- Two trade keys and their shared keys with the peer. -/
def twoKeys (index : Nat) (_peer : String) : Option String :=
  if index = 3 then some "three" else if index = 5 then some "five" else none

/-- An order a session is for. -/
def anOrder : OrderInfo := { id := "order", kind := .buy, status := .active }

/-- A confirmed take of key `index` installs its session. -/
def installed (index : Nat) : Label RevealTask RevealOracle SessionCall :=
  .env (.install "order" .buyer index anOrder 0)

/-- Thread `i` reveals the peer on key `index`, start to end. -/
def revealed (i index : Nat) : List (Label RevealTask RevealOracle SessionCall) :=
  [.spawn i (.reads "order" "peer" index .buyer), .step i {}, .step i {}]

/-- The order's index, shared key and admin key after a run from the empty map. -/
def keysAfter (ls : List (Label RevealTask RevealOracle SessionCall)) :
    Option (Option (Nat × Option String × Option String)) :=
  (run (sessionProg twoKeys).next (Pool.idle {}) ls).map fun c =>
    (c.shared.sessions "order").map fun x => (x.tradeKeyIndex, x.sharedKey, x.adminSharedKey)

theorem sessionsOk_empty (derive : Nat → String → Option String) : SessionsOk derive {} :=
  ⟨fun _ _ h => absurd h nofun, fun _ _ h => absurd h nofun⟩

/-- A take, its reveal, an admin and a second install; then a retake on another key. -/
def takenAndRetaken : List (Label RevealTask RevealOracle SessionCall) :=
  installed 3 :: revealed 0 3 ++ [.env (.setAdmin "order" "admin"), installed 3] ++
    revealed 1 3 ++ installed 5 :: revealed 2 5

theorem taken_and_retaken_kept :
    Along (sessionProg twoKeys).next
        (fun c l => ∀ c', (sessionProg twoKeys).next c l = some c' → KeysKept twoKeys c l c')
        (Pool.idle {}) takenAndRetaken ∧
      keysAfter (takenAndRetaken.take 8) = some (some (3, some "three", some "admin")) ∧
      keysAfter takenAndRetaken = some (some (5, some "five", none)) :=
  ⟨chat_keys_kept (sessionsOk_empty twoKeys) (by decide), by decide, by decide⟩

/-- **A reveal on key 5 that finds the session of key 3** puts the key of one index into the
session of the other, and the install of key 5 then drops it; and a reveal that read the session
before an admin key was set drops that. -/
theorem reveal_overwrites_session :
    keysAfter (installed 3 :: revealed 0 5) = some (some (3, some "five", none)) ∧
      keysAfter (installed 3 :: revealed 0 5 ++ [installed 5]) = some (some (5, none, none)) ∧
      keysAfter [installed 3, .spawn 0 (.reads "order" "peer" 3 .buyer), .step 0 {},
        .env (.setAdmin "order" "admin")] = some (some (3, none, some "admin")) ∧
      keysAfter [installed 3, .spawn 0 (.reads "order" "peer" 3 .buyer), .step 0 {},
        .env (.setAdmin "order" "admin"), .step 0 {}] = some (some (3, some "three", none)) := by
  refine ⟨?_, ?_, ?_, ?_⟩ <;> decide

/-! ## The session of one order's record -/

/-- **The record of one order installs its session as the map does.** -/
theorem installSession_record {s : Orders.OrderState} {m : SessionMap} {role : TradeRole}
    {index : Nat} {order : OrderInfo} {now : Int} (hid : s.orderId = order.id)
    (hm : m s.orderId = s.session) :
    ∃ m', installSession s.orderId role index order now m = .ok m' ∧
      m' s.orderId = (s.installSession role index order now).session := by
  unfold installSession
  rw [if_neg (not_not.mpr hid), hm]
  by_cases hany : s.session.any (·.tradeKeyIndex = index) = true
  · refine ⟨m, if_pos hany, ?_⟩
    rw [Orders.OrderState.installSession_session, if_pos hany, hm]
  · refine ⟨_, if_neg hany, ?_⟩
    rw [Orders.OrderState.installSession_session, if_neg hany, Function.update_self]
    rfl

end MostroApp.Sessions
