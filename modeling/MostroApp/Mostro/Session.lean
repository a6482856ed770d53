import MostroApp.Types
import Mathlib.Logic.Function.Basic

set_option autoImplicit false

/-! # The session map (`mostro/session.rs`)

A session holds the chat keys of one generation of an order. The map has at most one per order;
every operation here takes its write lock once, so each is one step.
-/

namespace MostroApp.Sessions

/-- The map's content. -/
abbrev SessionMap := String → Option Session

/-- A session before its chat keys are known. -/
def bareSession (orderId : String) (role : TradeRole) (tradeKeyIndex : Nat) (order : OrderInfo)
    (now : Int) : Session :=
  { orderId := orderId
    role := role
    tradeKeyIndex := tradeKeyIndex
    sharedKey := none
    adminSharedKey := none
    peerPubkey := none
    order := order
    createdAt := now }

def mismatch (orderId : String) (order : OrderInfo) : String :=
  s!"order_id mismatch: param='{orderId}' vs order.id='{order.id}'"

/-- Insert under a key that has no session yet. -/
def insertNew (orderId : String) (order : OrderInfo) (session : Session) (m : SessionMap) :
    Except String SessionMap :=
  if orderId ≠ order.id then .error (mismatch orderId order)
  else if (m orderId).isSome then .error s!"SessionAlreadyExists: {orderId}"
  else .ok (Function.update m orderId (some session))

/-- Create a session for a trade. -/
def createSession (orderId : String) (role : TradeRole) (tradeKeyIndex : Nat) (order : OrderInfo)
    (now : Int) (m : SessionMap) : Except String SessionMap :=
  insertNew orderId order (bareSession orderId role tradeKeyIndex order now) m

/-- Create a session already bound to its peer. -/
def createSessionWithPeer (orderId : String) (role : TradeRole) (tradeKeyIndex : Nat)
    (order : OrderInfo) (peerPubkey sharedKey : String) (now : Int) (m : SessionMap) :
    Except String SessionMap :=
  insertNew orderId order
    { bareSession orderId role tradeKeyIndex order now with
      sharedKey := some sharedKey, peerPubkey := some peerPubkey } m

/-- Create or replace the session for a trade; one of the same key index is left untouched. -/
def installSession (orderId : String) (role : TradeRole) (tradeKeyIndex : Nat)
    (order : OrderInfo) (now : Int) (m : SessionMap) : Except String SessionMap :=
  if orderId ≠ order.id then .error (mismatch orderId order)
  else if (m orderId).any (·.tradeKeyIndex = tradeKeyIndex) then .ok m
  else .ok (Function.update m orderId (some (bareSession orderId role tradeKeyIndex order now)))

/-- Put `session` in the place of the order's. -/
def updateSession (orderId : String) (session : Session) (m : SessionMap) :
    Except String SessionMap :=
  if session.orderId ≠ orderId then
    .error s!"SessionOrderIdMismatch: param='{orderId}' vs session.order_id='{session.orderId}'"
  else if (m orderId).isNone then .error "SessionNotFound"
  else .ok (Function.update m orderId (some session))

def removeSession (orderId : String) (m : SessionMap) : SessionMap :=
  Function.update m orderId none

/-- Store the shared key with the admin of the order's dispute. -/
def setAdminSharedKey (orderId key : String) (m : SessionMap) : Except String SessionMap :=
  match m orderId with
  | none => .error s!"SessionNotFound: {orderId}"
  | some session =>
      .ok (Function.update m orderId (some { session with adminSharedKey := some key }))

variable {orderId : String} {role : TradeRole} {tradeKeyIndex : Nat} {order : OrderInfo}
  {now : Int} {session : Session} {m m' : SessionMap}

/-! ## What a successful call does -/

theorem insertNew_ok (h : insertNew orderId order session m = .ok m') :
    m orderId = none ∧ m' = Function.update m orderId (some session) := by
  unfold insertNew at h
  split at h
  · cases h
  · split at h
    · cases h
    next hnone =>
      exact ⟨by simpa using hnone, (Except.ok.inj h).symm⟩

/-- An install keeps the session of its own index, and replaces any other with a bare one. -/
theorem installSession_ok (h : installSession orderId role tradeKeyIndex order now m = .ok m') :
    (m' = m ∧ ∃ x, m orderId = some x ∧ x.tradeKeyIndex = tradeKeyIndex) ∨
      ((∀ x, m orderId = some x → x.tradeKeyIndex ≠ tradeKeyIndex) ∧
        m' = Function.update m orderId
          (some (bareSession orderId role tradeKeyIndex order now))) := by
  unfold installSession at h
  split at h
  · cases h
  · split at h
    · next hany =>
      obtain ⟨x, hx, hidx⟩ := (Option.any_eq_true _ _).mp hany
      exact Or.inl ⟨(Except.ok.inj h).symm, x, hx, of_decide_eq_true hidx⟩
    · next hany =>
      refine Or.inr ⟨fun x hx hidx => ?_, (Except.ok.inj h).symm⟩
      simp [hx, hidx] at hany

theorem updateSession_ok (h : updateSession orderId session m = .ok m') :
    session.orderId = orderId ∧ (∃ x, m orderId = some x) ∧
      m' = Function.update m orderId (some session) := by
  unfold updateSession at h
  split at h
  · cases h
  next hid =>
    split at h
    · cases h
    next hsome =>
      exact ⟨not_not.mp hid, Option.ne_none_iff_exists'.mp (by simpa using hsome),
        (Except.ok.inj h).symm⟩

theorem setAdminSharedKey_ok {key : String} (h : setAdminSharedKey orderId key m = .ok m') :
    ∃ x, m orderId = some x ∧
      m' = Function.update m orderId (some { x with adminSharedKey := some key }) := by
  unfold setAdminSharedKey at h
  split at h
  · cases h
  next x hx => exact ⟨x, hx, (Except.ok.inj h).symm⟩

end MostroApp.Sessions
