import MostroApp.Lib.Json
import MostroApp.Types

set_option autoImplicit false

/-! # Field-level mutations on a persisted trade's JSON document (`db/trade_json.rs`)

What the IndexedDB backend does to a document, beside the paths and values the SQLite backend
hands to `json_set` for the same update. On a document of the shape serde writes, the two are the
same, but for a rating that is no JSON number (`apply_eq_setAll`).
-/

namespace MostroApp.Db

open Json

/-! ## What a document belongs to -/

/-- The order id a trade document belongs to. -/
def orderIdOf (trade : Json) : Option String :=
  ((trade.get "order").bind fun order => order.get "id").bind asStr

/-- `started_at`, or `0` for a document without one. -/
def startedAtOf (trade : Json) : Int := ((trade.get "started_at").bind asInt).getD 0

/-- The part of the shape of a stored trade that the backends rely on. -/
structure Shaped (d : Json) (id : String) (startedAt : Int) : Prop where
  id : d.get "id" = some (.str id)
  startedAt : d.get "started_at" = some (.num startedAt)
  order : ∃ fields, d.get "order" = some (.obj fields)

theorem Shaped.startedAtOf {d : Json} {id : String} {startedAt : Int}
    (h : Shaped d id startedAt) : startedAtOf d = startedAt := by
  simp [Db.startedAtOf, h.startedAt, asInt]

/-! ## Values as serde writes them -/

/-- An `f64` by its value. -/
inductive F64 where
  | finite (q : ℚ)
  | infinite (negative : Bool)
  | nan
deriving DecidableEq

/-- `serde_json::Number::from_f64`, or null. -/
def F64.serde : F64 → Json
  | .finite q => .num q
  | _ => .null

/-- `json(?)` of the number's text: SQLite reads `NaN` as null and writes an infinity as `9e999`. -/
def F64.sqlite : F64 → Json
  | .finite q => .num q
  | .infinite negative => .num (if negative then -(9 * 10 ^ 999) else 9 * 10 ^ 999)
  | .nan => .null

def statusJson : OrderStatus → Json
  | .pending => .str "Pending"
  | .waitingBuyerInvoice => .str "WaitingBuyerInvoice"
  | .waitingPayment => .str "WaitingPayment"
  | .active => .str "Active"
  | .fiatSent => .str "FiatSent"
  | .settledHoldInvoice => .str "SettledHoldInvoice"
  | .success => .str "Success"
  | .canceled => .str "Canceled"
  | .expired => .str "Expired"
  | .cooperativelyCanceled => .str "CooperativelyCanceled"
  | .canceledByAdmin => .str "CanceledByAdmin"
  | .settledByAdmin => .str "SettledByAdmin"
  | .completedByAdmin => .str "CompletedByAdmin"
  | .dispute => .str "Dispute"
  | .inProgress => .str "InProgress"
  | .waitingTakerBond => .str "WaitingTakerBond"
  | .waitingMakerBond => .str "WaitingMakerBond"

def cancelStateJson : CooperativeCancelState → Json
  | .requestedByMe => .str "RequestedByMe"
  | .requestedByPeer => .str "RequestedByPeer"
  | .accepted => .str "Accepted"

def optionJson {α : Type} (f : α → Json) (a : Option α) : Json := (a.map f).getD .null

def bondJson (b : BondInfo) : Json :=
  .obj
    [("role", .str (match b.role with | .maker => "Maker" | .taker => "Taker")),
      ("amount_sats", .num b.amountSats),
      ("invoice", optionJson .str b.invoice),
      ("state", .str (match b.state with
        | .requested => "Requested"
        | .locked => "Locked"
        | .released => "Released"
        | .slashed => "Slashed")),
      ("requested_at", .num b.requestedAt),
      ("expires_at", optionJson (fun t : Int => .num t) b.expiresAt),
      ("locked_at", optionJson (fun t : Int => .num t) b.lockedAt)]

/-! ## The mutations -/

/-- The updates of a stored trade, with their arguments. -/
inductive TradePatch where
  | renameOrderId (newId : String)
  | applyFields (status : Option OrderStatus) (holdInvoice : Option String)
      (amountSats : Option Nat)
  | setPeerReputation (rating : F64) (reviews days : Nat)
  | setBond (bond : BondInfo)
  | markRated (ratedAt : Int)
  | setCooperativeCancelState (state : CooperativeCancelState)
  | setCounterparty (pubkey : String)

/-- `*field(trade, path)? = value`. -/
def assignField (path : List String) (value : Json) (trade : Json) : Except String Json :=
  (assign path value trade).mapError fun segment =>
    "trade document: `" ++ segment ++ "` is not inside an object"

/-- The assignment, when there is a value. -/
def assignSome {α : Type} (path : List String) (f : α → Json) (a : Option α) (trade : Json) :
    Except String Json :=
  match a with
  | some a => assignField path (f a) trade
  | none => .ok trade

/-- The functions of `trade_json.rs`. -/
def TradePatch.apply : TradePatch → Json → Except String Json
  | .renameOrderId newId, trade => assignField ["order", "id"] (.str newId) trade
  | .applyFields status holdInvoice amountSats, trade => do
      let trade ← assignSome ["order", "status"] statusJson status trade
      let trade ← assignSome ["hold_invoice"] .str holdInvoice trade
      assignSome ["order", "amount_sats"] (fun sats : Nat => .num sats) amountSats trade
  | .setPeerReputation rating reviews days, trade => do
      let trade ← assignField ["peer_rating"] rating.serde trade
      let trade ← assignField ["peer_reviews"] (.num reviews) trade
      assignField ["peer_days"] (.num days) trade
  | .setBond bond, trade => assignField ["bond"] (bondJson bond) trade
  | .markRated ratedAt, trade => assignField ["rated_at"] (.num ratedAt) trade
  | .setCooperativeCancelState state, trade =>
      assignField ["cooperative_cancel_state"] (cancelStateJson state) trade
  | .setCounterparty pubkey, trade =>
      if pubkey = "" then
        .error "set_counterparty: refusing to clear the counterparty of a trade"
      else assignField ["counterparty_pubkey"] (.str pubkey) trade

/-- The paths and values of the SQLite backend's `json_set`, for the same update. -/
def TradePatch.sets (orderId : String) :
    TradePatch → Except String (List (List String × Json))
  | .renameOrderId newId => .ok [(["order", "id"], .str newId)]
  | .applyFields status holdInvoice amountSats =>
      .ok ((status.map fun s => (["order", "status"], statusJson s)).toList ++
        (holdInvoice.map fun invoice => (["hold_invoice"], .str invoice)).toList ++
        (amountSats.map fun sats => (["order", "amount_sats"], .num sats)).toList)
  | .setPeerReputation rating reviews days =>
      .ok [(["peer_rating"], rating.sqlite), (["peer_reviews"], .num reviews),
        (["peer_days"], .num days)]
  | .setBond bond => .ok [(["bond"], bondJson bond)]
  | .markRated ratedAt => .ok [(["rated_at"], .num ratedAt)]
  | .setCooperativeCancelState state => .ok [(["cooperative_cancel_state"], cancelStateJson state)]
  | .setCounterparty pubkey =>
      if pubkey = "" then
        .error ("update_trade_counterparty: refusing to clear counterparty for order " ++ orderId)
      else .ok [(["counterparty_pubkey"], .str pubkey)]

/-- The update stores a rating that is infinite. -/
def TradePatch.infinite : TradePatch → Bool
  | .setPeerReputation (.infinite _) _ _ => true
  | _ => false

/-! ## The two mutations agree -/

/-- A path of the updates: a field of the trade or of its order that the backends do not go by. -/
def updatable : List String → Bool
  | [k] => k ≠ "id" && k ≠ "started_at" && k ≠ "order"
  | [k, _] => k = "order"
  | _ => false

variable {d : Json} {id : String} {startedAt : Int} {path : List String} {v : Json}

theorem Shaped.enters (h : Shaped d id startedAt) (hp : updatable path = true) :
    Enters path d := by
  obtain ⟨outer, rfl, -⟩ := get_obj h.id
  match path, hp with
  | [k], _ => exact fun _ _ => trivial
  | [k, k'], hp =>
      obtain rfl : k = "order" := by simpa [updatable] using hp
      intro child hchild
      obtain ⟨fields, horder⟩ := h.order
      obtain rfl : child = .obj fields := Option.some.inj (hchild.symm.trans horder)
      exact fun _ _ => trivial

theorem Shaped.set (h : Shaped d id startedAt) (hp : updatable path = true) (v : Json) :
    Shaped (Json.set path v d) id startedAt := by
  match path, hp with
  | [k], hp =>
      obtain ⟨⟨hid, hstart⟩, horder⟩ : ((k ≠ "id" ∧ k ≠ "started_at") ∧ k ≠ "order") := by
        simpa [updatable] using hp
      refine ⟨?_, ?_, ?_⟩
      · exact (get_set_ne hid.symm [] v d).trans h.id
      · exact (get_set_ne hstart.symm [] v d).trans h.startedAt
      · obtain ⟨fields, hfields⟩ := h.order
        exact ⟨fields, (get_set_ne horder.symm [] v d).trans hfields⟩
  | [k, k'], hp =>
      obtain rfl : k = "order" := by simpa [updatable] using hp
      refine ⟨?_, ?_, ?_⟩
      · exact (get_set_ne (by decide) [k'] v d).trans h.id
      · exact (get_set_ne (by decide) [k'] v d).trans h.startedAt
      · obtain ⟨fields, hfields⟩ := h.order
        exact ⟨_, get_set_child hfields⟩

theorem Shaped.setAll (h : Shaped d id startedAt) {sets : List (List String × Json)}
    (hsets : ∀ s ∈ sets, updatable s.1 = true) : Shaped (Json.setAll sets d) id startedAt :=
  List.foldlRecOn (motive := fun d => Shaped d id startedAt) sets _ h
    fun _ hd s hs => hd.set (hsets s hs) s.2

/-- Every path the updates set is one of these. -/
theorem TradePatch.sets_updatable {p : TradePatch} {orderId : String}
    {sets : List (List String × Json)} (h : p.sets orderId = .ok sets) :
    ∀ s ∈ sets, updatable s.1 = true := by
  cases p with
  | renameOrderId | setPeerReputation | setBond | markRated | setCooperativeCancelState =>
      obtain rfl := Except.ok.inj h
      simp [updatable]
  | applyFields status holdInvoice amountSats =>
      obtain rfl := Except.ok.inj h
      cases status <;> cases holdInvoice <;> cases amountSats <;> simp [updatable]
  | setCounterparty pubkey =>
      simp only [TradePatch.sets] at h
      split at h
      · cases h
      · obtain rfl := Except.ok.inj h
        simp [updatable]

theorem assignField_eq (h : Shaped d id startedAt) (hp : updatable path = true) (v : Json) :
    assignField path v d = .ok (Json.set path v d) := by
  unfold assignField
  rw [assign_eq_set (h.enters hp)]
  rfl

theorem assignSome_eq {α : Type} (h : Shaped d id startedAt) (hp : updatable path = true)
    (f : α → Json) (a : Option α) :
    assignSome path f a d = .ok (Json.setAll (a.map fun x => (path, f x)).toList d) := by
  cases a with
  | some x => exact assignField_eq h hp (f x)
  | none => rfl

theorem applyFields_eq (h : Shaped d id startedAt) (status : Option OrderStatus)
    (holdInvoice : Option String) (amountSats : Option Nat) :
    TradePatch.apply (.applyFields status holdInvoice amountSats) d =
      .ok (Json.setAll ((status.map fun s => (["order", "status"], statusJson s)).toList ++
        (holdInvoice.map fun invoice => (["hold_invoice"], .str invoice)).toList ++
        (amountSats.map fun sats => (["order", "amount_sats"], .num sats)).toList) d) := by
  have hstatus : ∀ s ∈ (status.map fun s => (["order", "status"], statusJson s)).toList,
      updatable s.1 = true := by cases status <;> simp [updatable]
  have hinvoice : ∀ s ∈ (holdInvoice.map fun line => (["hold_invoice"], Json.str line)).toList,
      updatable s.1 = true := by cases holdInvoice <;> simp [updatable]
  have h₁ := h.setAll hstatus
  have h₂ := h₁.setAll hinvoice
  have e₁ := assignSome_eq h (by decide : updatable ["order", "status"] = true) statusJson status
  have e₂ := assignSome_eq h₁ (by decide : updatable ["hold_invoice"] = true) .str holdInvoice
  have e₃ := assignSome_eq h₂ (by decide : updatable ["order", "amount_sats"] = true)
    (fun sats : Nat => .num sats) amountSats
  -- Each assignment meets a document that has kept its shape.
  show (assignSome ["order", "status"] statusJson status d >>= fun trade =>
    assignSome ["hold_invoice"] .str holdInvoice trade >>= fun trade =>
      assignSome ["order", "amount_sats"] (fun sats : Nat => .num sats) amountSats trade) = _
  rw [e₁]
  show (assignSome ["hold_invoice"] .str holdInvoice _ >>= fun trade =>
    assignSome ["order", "amount_sats"] (fun sats : Nat => .num sats) amountSats trade) = _
  rw [e₂]
  refine e₃.trans ?_
  unfold Json.setAll
  rw [List.foldl_append, List.foldl_append]

theorem setPeerReputation_eq (h : Shaped d id startedAt) (rating : F64) (reviews days : Nat) :
    TradePatch.apply (.setPeerReputation rating reviews days) d =
      .ok (Json.setAll [(["peer_rating"], rating.serde), (["peer_reviews"], .num reviews),
        (["peer_days"], .num days)] d) := by
  have hrating : updatable ["peer_rating"] = true := by decide
  have hreviews : updatable ["peer_reviews"] = true := by decide
  have h₁ := h.set hrating rating.serde
  have h₂ := h₁.set hreviews (.num reviews)
  have e₁ := assignField_eq h hrating rating.serde
  have e₂ := assignField_eq h₁ hreviews (.num reviews)
  show (assignField ["peer_rating"] rating.serde d >>= fun trade =>
    assignField ["peer_reviews"] (.num reviews) trade >>= fun trade =>
      assignField ["peer_days"] (.num days) trade) = _
  rw [e₁]
  show (assignField ["peer_reviews"] (.num reviews) _ >>= fun trade =>
    assignField ["peer_days"] (.num days) trade) = _
  rw [e₂]
  exact assignField_eq h₂ (by decide) _

/-- **The two backends' mutations agree** on a stored document, unless they store an infinity. -/
theorem TradePatch.apply_eq_setAll {p : TradePatch} {orderId : String}
    {sets : List (List String × Json)} (hs : p.sets orderId = .ok sets)
    (hp : p.infinite = false) (h : Shaped d id startedAt) :
    p.apply d = .ok (Json.setAll sets d) := by
  cases p with
  | renameOrderId | setBond | markRated | setCooperativeCancelState =>
      obtain rfl := Except.ok.inj hs
      exact assignField_eq h (by decide) _
  | applyFields status holdInvoice amountSats =>
      obtain rfl := Except.ok.inj hs
      exact applyFields_eq h status holdInvoice amountSats
  | setPeerReputation rating reviews days =>
      obtain rfl := Except.ok.inj hs
      -- A NaN is null on both sides.
      have hrating : rating.serde = rating.sqlite := by
        cases rating with
        | finite | nan => rfl
        | infinite => cases hp
      rw [← hrating]
      exact setPeerReputation_eq h rating reviews days
  | setCounterparty pubkey =>
      simp only [TradePatch.sets] at hs
      simp only [TradePatch.apply]
      split at hs
      · cases hs
      · next hkey =>
        obtain rfl := Except.ok.inj hs
        rw [if_neg hkey]
        exact assignField_eq h (by decide) _

/-- The two refuse the same updates. -/
theorem TradePatch.apply_error {p : TradePatch} {orderId message : String}
    (h : p.sets orderId = .error message) (d : Json) : ∃ m, p.apply d = .error m := by
  cases p with
  | renameOrderId | applyFields | setPeerReputation | setBond | markRated
  | setCooperativeCancelState => cases h
  | setCounterparty pubkey =>
      simp only [TradePatch.sets] at h
      simp only [TradePatch.apply]
      split at h
      · next hkey => exact ⟨_, if_pos hkey⟩
      · cases h

/-- Of an infinite rating the two make different documents. -/
theorem TradePatch.apply_infinite {p : TradePatch} {orderId : String}
    {sets : List (List String × Json)} (hs : p.sets orderId = .ok sets) (hp : p.infinite = true)
    (h : Shaped d id startedAt) :
    ∃ d', p.apply d = .ok d' ∧ Shaped d' id startedAt ∧ d' ≠ Json.setAll sets d := by
  cases p with
  | renameOrderId | applyFields | setBond | markRated | setCooperativeCancelState
  | setCounterparty => cases hp
  | setPeerReputation rating reviews days =>
      cases rating with
      | finite | nan => cases hp
      | infinite negative =>
          obtain rfl := Except.ok.inj hs
          refine ⟨_, setPeerReputation_eq h (.infinite negative) reviews days, ?_, fun heq => ?_⟩
          · exact h.setAll (by simp [updatable])
          · -- The rating is null in one document and a number in the other.
            obtain ⟨fields, rfl, -⟩ := get_obj h.id
            have hget : ∀ r : Json, (Json.setAll [(["peer_rating"], r),
                (["peer_reviews"], .num reviews), (["peer_days"], .num days)]
                  (.obj fields)).get "peer_rating" = some r := fun r => by
              refine (get_set_ne (by decide) [] _ _).trans ?_
              refine (get_set_ne (by decide) [] _ _).trans ?_
              exact (congrArg (Json.get "peer_rating") (set_singleton "peer_rating" r fields)).trans
                (lookup_setKey "peer_rating" r fields)
            have hrating := (hget _).symm.trans ((congrArg (Json.get "peer_rating") heq).trans
              (hget _))
            cases hrating

end MostroApp.Db
