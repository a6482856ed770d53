import Mathlib.Algebra.Group.Int.Defs
import Mathlib.Algebra.Group.Nat.Defs
import Mathlib.Data.Finset.Lattice.Lemmas
import Mathlib.Data.List.Sort

set_option autoImplicit false

/-! # Payout claims on slashed bonds (`mostro/bond_claims.rs`)

The counterparty of a slashed bond may claim a share of it. The daemon asks for an invoice in a
cadence, the user sends one, the daemon acknowledges it and pays. A claim is kept per node and
order, whatever becomes of the trade; the file has its phases, what a request and a rejected
submission make of it, its store, and the nodes whose claim traffic must stay audible.
-/

namespace MostroApp.BondClaims

/-! ## Claims -/

/-- Where a payout claim stands. -/
inductive BondClaimPhase where
  | pending
  | submitted
  | acknowledged
  | completed
  | expired
  deriving DecidableEq, Repr

/-- A phase nothing follows. -/
def BondClaimPhase.isTerminal : BondClaimPhase → Bool
  | .completed | .expired => true
  | _ => false

/-- The daemon's verdicts on a submission. -/
def BondClaimPhase.isVerdict : BondClaimPhase → Bool
  | .acknowledged | .completed => true
  | _ => false

/-- The share of a slashed bond this user may claim, as stored. -/
structure BondClaim where
  orderId : String
  nodePubkey : String
  tradeIndex : Option Nat := none
  amountSats : Nat
  slashedAt : Int
  deadlineAt : Int
  phase : BondClaimPhase
  submittedInvoice : Option String := none
  fiatCode : String := ""
  fiatAmount : Option Int := none
  paymentMethod : String := ""
  updatedAt : Int
  deriving DecidableEq, Repr

/-- The storage key. A node's key is hex, so the pair is the source's `node:order`. -/
def BondClaim.storageId (c : BondClaim) : String × String := (c.nodePubkey, c.orderId)

/-- What an `add-bond-invoice` carries, reduced to what the claim keeps. -/
structure PayoutRequest where
  orderId : String
  nodePubkey : String
  tradeIndex : Option Nat := none
  amountSats : Nat
  slashedAt : Int
  fiatCode : String := ""
  fiatAmount : Option Int := none
  paymentMethod : String := ""
  deriving DecidableEq, Repr

/-- Why the user should hear about a claim after an `add-bond-invoice`. -/
inductive ClaimNotice where
  | new
  | reprompt
  deriving DecidableEq, Repr

/-! ## Requests and verdicts -/

/-- The claim window when the node advertises none. -/
def defaultClaimWindowDays : Nat := 15

/-- An `i64` sum that saturates. -/
def saturate (n : Int) : Int := max (-2 ^ 63) (min n (2 ^ 63 - 1))

/-- The deadline frozen into a claim at first receipt. -/
def claimDeadline (slashedAt : Int) (windowDays : Option Nat) : Int :=
  saturate (slashedAt + (windowDays.getD defaultClaimWindowDays : Int) * 86400)

/-- The claim a request makes when there is none to go on with. -/
def PayoutRequest.fresh (request : PayoutRequest) (deadlineAt now : Int) : BondClaim :=
  { orderId := request.orderId
    nodePubkey := request.nodePubkey
    tradeIndex := request.tradeIndex
    amountSats := request.amountSats
    slashedAt := request.slashedAt
    deadlineAt := deadlineAt
    phase := if now > deadlineAt then .expired else .pending
    submittedInvoice := none
    fiatCode := request.fiatCode
    fiatAmount := request.fiatAmount
    paymentMethod := request.paymentMethod
    updatedAt := now }

/-- The claim to persist after a request, `none` when nothing changes, and what to tell the
user. -/
def upsertClaim (stored : Option BondClaim) (request : PayoutRequest) (windowDays : Option Nat)
    (now : Int) : Option BondClaim × Option ClaimNotice :=
  let started := request.fresh (claimDeadline request.slashedAt windowDays) now
  let news := (some started, if started.phase = .pending then some ClaimNotice.new else none)
  match stored with
  | none => news
  | some stored =>
      if stored.slashedAt ≠ request.slashedAt then news
      else match stored.phase with
        | .pending | .submitted | .completed => (none, none)
        | .acknowledged =>
            (some { stored with
              phase := .pending
              submittedInvoice := none
              tradeIndex := stored.tradeIndex.orElse fun _ => request.tradeIndex
              updatedAt := now }, some .reprompt)
        | .expired =>
            if now > stored.deadlineAt then (none, none)
            else (some { stored with phase := .pending, updatedAt := now }, some .new)

/-- The phase a rejected submission leaves, or the marker of the error it is reported with. -/
def resolveSubmissionRejection (claim : BondClaim) (now : Int) : Except String BondClaimPhase :=
  if claim.phase.isVerdict then .ok claim.phase
  else if now > claim.deadlineAt then .ok .expired
  else .error "BondClaimRejected"

/-- The order of the phases in `advance_claim_phase`. -/
def BondClaimPhase.rank : BondClaimPhase → Nat
  | .pending => 0
  | .submitted => 1
  | .acknowledged => 2
  | .completed => 3
  | .expired => 4

/-- The claim to persist after `bond-invoice-accepted` or `bond-payout-completed`. -/
def BondClaim.advance (claim : BondClaim) (phase : BondClaimPhase) (now : Int) :
    Option BondClaim :=
  if claim.phase = phase ∨ claim.phase = .completed ∨
      (claim.phase.rank > phase.rank ∧ claim.phase ≠ .expired) then none
  else some { claim with phase := phase, updatedAt := now }

/-- What a request persists is the claim of its own node and order. -/
theorem upsertClaim_storageId {stored : Option BondClaim} {request : PayoutRequest}
    {windowDays : Option Nat} {now : Int} {claim : BondClaim}
    (hs : ∀ c ∈ stored, c.storageId = (request.nodePubkey, request.orderId))
    (h : (upsertClaim stored request windowDays now).1 = some claim) :
    claim.storageId = (request.nodePubkey, request.orderId) := by
  unfold upsertClaim at h
  cases stored with
  | none => exact Option.some.inj h ▸ rfl
  | some c =>
      have hc := hs c rfl
      dsimp only at h
      split at h
      · exact Option.some.inj h ▸ rfl
      · split at h
        · cases h
        · cases h
        · cases h
        · exact Option.some.inj h ▸ hc
        · split at h
          · cases h
          · exact Option.some.inj h ▸ hc

theorem advance_storageId {claim next : BondClaim} {phase : BondClaimPhase} {now : Int}
    (h : claim.advance phase now = some next) : next.storageId = claim.storageId := by
  unfold BondClaim.advance at h
  split at h
  · cases h
  · exact Option.some.inj h ▸ rfl

/-! ## The store -/

theorem nodup_no_claims : (([] : List BondClaim).map BondClaim.storageId).Nodup :=
  List.nodup_nil

/-- The stored claims in the order they were last written, one for each node and order. -/
structure ClaimStore where
  rows : List BondClaim := []
  keyed : (rows.map BondClaim.storageId).Nodup := by exact nodup_no_claims
  deriving DecidableEq

/-- `get_bond_claim`. -/
def ClaimStore.get (s : ClaimStore) (nodePubkey orderId : String) : Option BondClaim :=
  s.rows.find? fun c => c.storageId = (nodePubkey, orderId)

/-- `save_bond_claim`: the claim of the same node and order is replaced. -/
def ClaimStore.save (s : ClaimStore) (claim : BondClaim) : ClaimStore where
  rows := s.rows.filter (fun c => c.storageId ≠ claim.storageId) ++ [claim]
  keyed := by
    rw [List.map_append, List.map_singleton]
    refine (List.filter_sublist.map _).nodup s.keyed |>.append (List.nodup_singleton _) ?_
    simp only [List.disjoint_singleton, List.mem_map, List.mem_filter, not_exists, not_and]
    exact fun c hc => of_decide_eq_true hc.2

/-- `list_bond_claims`: most recently changed first. -/
def ClaimStore.list (s : ClaimStore) : List BondClaim :=
  s.rows.insertionSort fun a b => b.updatedAt ≤ a.updatedAt

/-- The claim for the order the user can still act on, or else the one changed last, whichever
node issued it. -/
def ClaimStore.claimForOrder (s : ClaimStore) (orderId : String) : Option BondClaim :=
  let forOrder := s.list.filter fun c => c.orderId = orderId
  (forOrder.find? fun c => !c.phase.isTerminal).or forOrder.head?

variable {s : ClaimStore} {c claim : BondClaim} {node order : String}

@[simp] theorem mem_list : c ∈ s.list ↔ c ∈ s.rows := List.mem_insertionSort _

theorem mem_save : c ∈ (s.save claim).rows ↔
    (c ∈ s.rows ∧ c.storageId ≠ claim.storageId) ∨ c = claim := by
  simp [ClaimStore.save]

/-- A stored claim is what its key finds. -/
theorem get_eq_some : s.get node order = some c ↔ c ∈ s.rows ∧ c.storageId = (node, order) := by
  unfold ClaimStore.get
  constructor
  · intro h
    exact ⟨List.mem_of_find?_eq_some h, by simpa using List.find?_some h⟩
  · rintro ⟨hc, hid⟩
    cases hf : s.rows.find? fun c => c.storageId = (node, order) with
    | none => exact absurd (List.find?_eq_none.mp hf c hc) (by simp [hid])
    | some d =>
        have hd : d ∈ s.rows := List.mem_of_find?_eq_some hf
        have hdid : d.storageId = (node, order) := by simpa using List.find?_some hf
        exact congrArg some (List.inj_on_of_nodup_map s.keyed hd hc (hdid.trans hid.symm))

theorem get_eq_none : s.get node order = none ↔ ∀ c ∈ s.rows, c.storageId ≠ (node, order) := by
  simp [ClaimStore.get]

theorem get_storageId (h : s.get node order = some c) : c.storageId = (node, order) :=
  (get_eq_some.mp h).2

theorem get_save_self : (s.save claim).get claim.nodePubkey claim.orderId = some claim :=
  get_eq_some.mpr ⟨mem_save.mpr (Or.inr rfl), rfl⟩

/-- A write leaves the claims of other nodes and orders alone. -/
theorem get_save_of_ne (h : claim.storageId ≠ (node, order)) :
    (s.save claim).get node order = s.get node order := by
  ext d
  rw [get_eq_some, get_eq_some, mem_save]
  constructor
  · rintro ⟨⟨hd, -⟩ | rfl, hid⟩
    · exact ⟨hd, hid⟩
    · exact absurd hid h
  · rintro ⟨hd, hid⟩
    exact ⟨Or.inl ⟨hd, fun he => h (he ▸ hid)⟩, hid⟩

/-- What is found for an order is a stored claim of it. -/
theorem claimForOrder_mem (h : s.claimForOrder order = some c) :
    c ∈ s.rows ∧ c.orderId = order := by
  have hc : c ∈ s.list.filter fun c => c.orderId = order := by
    unfold ClaimStore.claimForOrder at h
    rcases Option.or_eq_some_iff.mp h with h | ⟨-, h⟩
    · exact List.mem_of_find?_eq_some h
    · exact List.mem_of_mem_head? h
  simpa using hc

/-- An order with a stored claim is found to have one. -/
theorem claimForOrder_ne_none (hc : c ∈ s.rows) (ho : c.orderId = order) :
    s.claimForOrder order ≠ none := by
  have hmem : c ∈ s.list.filter fun c => c.orderId = order := by simp [hc, ho]
  unfold ClaimStore.claimForOrder
  intro hnone
  obtain ⟨-, hhead⟩ := Option.or_eq_none_iff.mp hnone
  rw [List.head?_eq_none_iff.mp hhead] at hmem
  cases hmem

theorem claimForOrder_get (h : s.claimForOrder order = some c) :
    s.get c.nodePubkey order = some c := by
  obtain ⟨hc, rfl⟩ := claimForOrder_mem h
  exact get_eq_some.mpr ⟨hc, rfl⟩

/-! ## Nodes with open claims -/

/-- Every node with a claim that is not completed or expired. -/
def claimNodesOf (claims : List BondClaim) : Finset String :=
  ((claims.filter fun c => !c.phase.isTerminal).map BondClaim.nodePubkey).toFinset

/-- The nodes with an open claim, and those the user left with the date until which they stay
heard. -/
structure ClaimNodes where
  claimNodes : Finset String := ∅
  retained : List (String × Int) := []
  deriving DecidableEq

/-- Keep `node` heard until `until`, never shortening an existing entry. -/
def retainNode (node : String) (til : Int) (retained : List (String × Int)) :
    List (String × Int) :=
  let node := node.toLower
  match retained.find? (·.1 = node) with
  | none => (node, til) :: retained
  | some e => (node, max e.2 til) :: retained.filter (·.1 ≠ node)

/-- The entries that are not past their date. -/
def pruneRetained (now : Int) (retained : List (String × Int)) : List (String × Int) :=
  retained.filter fun e => now ≤ e.2

/-- `claim_node_pubkeys`: the nodes whose claim traffic the kind-14 filter must include. -/
def ClaimNodes.claimNodePubkeys (nodes : ClaimNodes) (now : Int) : Finset String :=
  nodes.claimNodes ∪ ((pruneRetained now nodes.retained).map Prod.fst).toFinset

/-- Whether the node may speak to this client about claims. -/
def ClaimNodes.isClaimNode (nodes : ClaimNodes) (pubkeyHex : String) (now : Int) : Bool :=
  pubkeyHex ∈ nodes.claimNodes ∨ (nodes.retained.find? (·.1 = pubkeyHex)).any (now ≤ ·.2)

theorem mem_claimNodesOf {claims : List BondClaim} :
    node ∈ claimNodesOf claims ↔
      ∃ c ∈ claims, c.phase.isTerminal = false ∧ c.nodePubkey = node := by
  simp [claimNodesOf, and_assoc]

/-- A listing has the nodes of the rows, in whatever order it gives them. -/
theorem claimNodesOf_list (s : ClaimStore) : claimNodesOf s.list = claimNodesOf s.rows := by
  ext node
  simp [mem_claimNodesOf]

theorem isClaimNode_of_mem {nodes : ClaimNodes} {now : Int} (h : node ∈ nodes.claimNodes) :
    nodes.isClaimNode node now = true := by
  simp [ClaimNodes.isClaimNode, h]

theorem mem_claimNodePubkeys_of_mem {nodes : ClaimNodes} {now : Int} (h : node ∈ nodes.claimNodes) :
    node ∈ nodes.claimNodePubkeys now :=
  Finset.mem_union_left _ h

end MostroApp.BondClaims
