import MostroApp.Lib.Interleaving
import MostroApp.Mostro.BondClaims

set_option autoImplicit false

/-! # The claim-node set beside the claim store (`api/bond.rs`)

Every write of a claim is followed by a refresh: list the claims, replace the set of nodes with
an open one, merge and prune the nodes the user left, and issue the kind-14 filter again when
the nodes changed between the start and the end. No lock spans these steps, so a refresh may
put an older listing over a newer one.

The set is the store's once no call is under way, as long as a listing the store has left
behind is put in place only while another call will still put a current one.
-/

namespace MostroApp.BondClaims

open Interleaving Transition

/-! ## The calls -/

/-- The store of claims, the sets in memory, the setting that keeps the nodes the user left, and
the claim nodes the kind-14 filter was last issued with. -/
structure NodeState where
  store : ClaimStore := {}
  nodes : ClaimNodes := {}
  setting : List (String × Int) := []
  authors : Finset String := ∅
  deriving DecidableEq

/-- What a call does next: `before` is what `claim_node_pubkeys` gave at the refresh's start. -/
inductive NodeTask where
  | saves (claim : BondClaim)
  | looks
  | lists (before : Finset String)
  | sets (before : Finset String) (listing : List BondClaim)
  | readsSetting (before : Finset String)
  | merges (before : Finset String) (stored : List (String × Int))
  | persists (before : Finset String)
  | compares (before : Finset String)
  | reissues
  deriving DecidableEq

/-- `resubscribe_global_dm_filter`: the filter's lock makes reading the set and replacing the
subscription one step. -/
def NodeState.reissue (now : Int) (s : NodeState) : NodeState :=
  { s with authors := s.nodes.claimNodePubkeys now }

/-- `set_claim_nodes`. -/
def NodeState.setClaimNodes (nodes : Finset String) (s : NodeState) : NodeState :=
  { s with nodes := { s.nodes with claimNodes := nodes } }

def NodeState.setRetained (retained : List (String × Int)) (s : NodeState) : NodeState :=
  { s with nodes := { s.nodes with retained := retained } }

/-- One step of `persist_claim` or `refresh_claim_nodes` at the time `now`. -/
def NodeTask.step (now : Int) : NodeTask → NodeState → NodeState × Option NodeTask
  | .saves claim, s => ({ s with store := s.store.save claim }, some .looks)
  | .looks, s => (s, some (.lists (s.nodes.claimNodePubkeys now)))
  | .lists before, s => (s, some (.sets before s.store.list))
  -- a claim saved since the listing is not in it
  | .sets before listing, s =>
      (s.setClaimNodes (claimNodesOf listing), some (.readsSetting before))
  | .readsSetting before, s => (s, some (.merges before s.setting))
  | .merges before stored, s =>
      -- the longest retention of each node wins
      let merged := stored.foldl (fun r e => retainNode e.1 e.2 r) s.nodes.retained
      let pruned := pruneRetained now merged
      let changed := pruned.length ≠ merged.length ∨ pruned.length ≠ stored.length
      (s.setRetained pruned, some (if changed then .persists before else .compares before))
  | .persists before, s => ({ s with setting := s.nodes.retained }, some (.compares before))
  | .compares before, s =>
      (s, if before = s.nodes.claimNodePubkeys now then none else some .reissues)
  | .reissues, s => (s.reissue now, none)

/-- `persist_claim` starts at its write, `refresh_claim_nodes` at its first look. -/
def NodeTask.starts : NodeTask → Bool
  | .saves _ | .looks => true
  | _ => false

/-- What else moves these sets: the user leaves a node, or the filter is issued again. -/
inductive NodeAction where
  | retain (node : String) (til now : Int)
  | persistRetained
  | reissue (now : Int)
  deriving DecidableEq, Repr

def NodeAction.act (s : NodeState) : NodeAction → NodeState
  | .retain node til now => s.setRetained (pruneRetained now (retainNode node til s.nodes.retained))
  | .persistRetained => { s with setting := s.nodes.retained }
  | .reissue now => s.reissue now

/-- Any number of calls. -/
def nodeProg : Prog NodeState NodeTask Int NodeAction where
  enter := NodeTask.starts
  tstep now p s := some (p.step now s)
  act a s := some (NodeAction.act s a)

/-! ## Calls that do not put back an old set -/

/-- The call has yet to list the claims, or to put a listing with the store's nodes in place. -/
def NodeTask.current (s : ClaimStore) : NodeTask → Prop
  | .saves _ | .looks | .lists _ => True
  | .sets _ listing => claimNodesOf listing = claimNodesOf s.rows
  | _ => False

/-- A listing the store has left behind replaces the set only while another call will still put
a current one in place; a node is added to the set by a call that did not find it there at its
start, or is in the filter. -/
structure PutsCurrent (c : Pool NodeState NodeTask) (l : Label NodeTask Int NodeAction) :
    Prop where
  set : ∀ i w before listing, l = .step i w → c.threads i = some (.sets before listing) →
    claimNodesOf listing = claimNodesOf c.shared.store.rows ∨
      c.AnyBut i (NodeTask.current c.shared.store)
  filter : ∀ i w before listing, l = .step i w → c.threads i = some (.sets before listing) →
    ∀ node ∈ claimNodesOf listing, node ∉ c.shared.nodes.claimNodes →
      node ∉ before ∨ node ∈ c.shared.authors

/-! ## The invariant -/

/-- The call will find that `node` joined and issue the filter again. -/
def NodeTask.tells (node : String) : NodeTask → Prop
  | .saves _ | .looks => False
  | .lists before | .sets before _ | .readsSetting before | .merges before _
  | .persists before | .compares before => node ∉ before
  | .reissues => True

/-- The set is the store's or a call will make it so; the filter has its nodes or a call will
issue it again. -/
structure NodesKept (c : Pool NodeState NodeTask) : Prop where
  set : c.shared.nodes.claimNodes = claimNodesOf c.shared.store.rows ∨
    c.Any (NodeTask.current c.shared.store)
  filter : ∀ node ∈ c.shared.nodes.claimNodes, node ∈ c.shared.authors ∨
    c.Any (NodeTask.tells node)

variable {c : Pool NodeState NodeTask} {i : Nat} {now : Int} {p : NodeTask}

/-- A step that moves neither the store nor the set, of a call that had nothing to put in
place. -/
theorem NodesKept.set_frame (hc : NodesKept c) (hp : c.threads i = some p) {s : NodeState}
    (q : Option NodeTask) (hstore : s.store = c.shared.store)
    (hset : s.nodes.claimNodes = c.shared.nodes.claimNodes)
    (hno : ¬ p.current c.shared.store) :
    s.nodes.claimNodes = claimNodesOf s.store.rows ∨
      Pool.Any ⟨s, Function.update c.threads i q⟩ (NodeTask.current s.store) := by
  rw [hstore, hset]
  rcases hc.set with h | h
  · exact Or.inl h
  · exact Or.inr (((h.split hp).resolve_left hno).any s q)

/-- A step that moves neither the set nor the filter, and keeps what its call will tell. -/
theorem NodesKept.filter_frame (hc : NodesKept c) (hp : c.threads i = some p) {s : NodeState}
    {q : NodeTask} (hauth : s.authors = c.shared.authors)
    (hset : s.nodes.claimNodes = c.shared.nodes.claimNodes)
    (htell : ∀ node ∈ c.shared.nodes.claimNodes, p.tells node → q.tells node) :
    ∀ node ∈ s.nodes.claimNodes, node ∈ s.authors ∨
      Pool.Any ⟨s, Function.update c.threads i (some q)⟩ (NodeTask.tells node) := by
  intro node hnode
  rw [hset] at hnode
  rw [hauth]
  rcases hc.filter node hnode with h | h
  · exact Or.inl h
  · rcases h.split hp with h | h
    · exact Or.inr (Pool.any_self i s (htell node hnode h))
    · exact Or.inr (h.any s (some q))

/-- One step of a call. -/
theorem NodesKept.step (hc : NodesKept c) (hC : PutsCurrent c (.step i now))
    (hp : c.threads i = some p) :
    NodesKept ⟨(p.step now c.shared).1, Function.update c.threads i (p.step now c.shared).2⟩ := by
  cases p with
  | saves claim =>
      exact ⟨Or.inr (Pool.any_self i _ trivial), hc.filter_frame hp rfl rfl fun _ _ => id⟩
  | looks =>
      refine ⟨Or.inr (Pool.any_self i _ trivial), hc.filter_frame hp rfl rfl fun _ _ h => ?_⟩
      exact absurd h id
  | lists before =>
      refine ⟨Or.inr (Pool.any_self i _ ?_), hc.filter_frame hp rfl rfl fun _ _ => id⟩
      exact claimNodesOf_list c.shared.store
  | sets before listing =>
      refine ⟨?_, fun node hnode => ?_⟩
      · rcases hC.set i now before listing rfl hp with h | h
        · exact Or.inl h
        · exact Or.inr (h.any _ _)
      · by_cases hold : node ∈ c.shared.nodes.claimNodes
        · rcases hc.filter node hold with h | h
          · exact Or.inl h
          · rcases h.split hp with h | h
            · exact Or.inr (Pool.any_self i _ h)
            · exact Or.inr (h.any _ _)
        · rcases hC.filter i now before listing rfl hp node hnode hold with h | h
          · exact Or.inr (Pool.any_self i _ h)
          · exact Or.inl h
  | readsSetting before =>
      exact ⟨hc.set_frame hp _ rfl rfl id, hc.filter_frame hp rfl rfl fun _ _ => id⟩
  | merges before stored =>
      refine ⟨hc.set_frame hp _ rfl rfl id, hc.filter_frame hp rfl rfl fun _ _ h => ?_⟩
      split <;> exact h
  | persists before =>
      exact ⟨hc.set_frame hp _ rfl rfl id, hc.filter_frame hp rfl rfl fun _ _ => id⟩
  | compares before =>
      refine ⟨hc.set_frame hp _ rfl rfl id, fun node hnode => ?_⟩
      rcases hc.filter node hnode with h | h
      · exact Or.inl h
      · rcases h.split hp with h | h
        · -- the node is in the set and was not seen at the start, so the two looks differ
          have hne : before ≠ c.shared.nodes.claimNodePubkeys now := by
            rintro rfl
            exact h (mem_claimNodePubkeys_of_mem hnode)
          simp only [NodeTask.step, if_neg hne]
          exact Or.inr (Pool.any_self i _ trivial)
        · exact Or.inr (h.any _ _)
  | reissues =>
      refine ⟨hc.set_frame hp _ rfl rfl id, fun node hnode => Or.inl ?_⟩
      exact mem_claimNodePubkeys_of_mem hnode

theorem nodesKept_next {c' : Pool NodeState NodeTask} {l : Label NodeTask Int NodeAction}
    (hc : NodesKept c) (hC : PutsCurrent c l) (hn : nodeProg.next c l = some c') :
    NodesKept c' := by
  cases l with
  | spawn i p =>
      obtain ⟨-, hi, rfl⟩ := Prog.next_spawn.mp hn
      refine ⟨hc.set.imp_right fun h => h.spawn hi, fun node hnode => ?_⟩
      exact (hc.filter node hnode).imp_right fun h => h.spawn hi
  | step i now =>
      obtain ⟨p, s, q, hp, hs, rfl⟩ := Prog.next_step.mp hn
      have heq := Option.some.inj hs
      obtain rfl : (p.step now c.shared).1 = s := congrArg Prod.fst heq
      obtain rfl : (p.step now c.shared).2 = q := congrArg Prod.snd heq
      exact hc.step hC hp
  | env a =>
      obtain ⟨s, hs, rfl⟩ := Prog.next_env.mp hn
      obtain rfl := Option.some.inj hs
      cases a with
      | retain node til now => exact ⟨hc.set, hc.filter⟩
      | persistRetained => exact ⟨hc.set, hc.filter⟩
      | reissue now =>
          exact ⟨hc.set, fun node hnode => Or.inl (mem_claimNodePubkeys_of_mem hnode)⟩

/-! ## Every interleaving -/

/-- The set is the store's, and every node with an open claim is let in and listened to. -/
structure NodesInStep (s : NodeState) : Prop where
  set : s.nodes.claimNodes = claimNodesOf s.store.rows
  isClaimNode : ∀ claim ∈ s.store.rows, claim.phase.isTerminal = false →
    ∀ now, s.nodes.isClaimNode claim.nodePubkey now = true
  pubkeys : ∀ claim ∈ s.store.rows, claim.phase.isTerminal = false →
    ∀ now, claim.nodePubkey ∈ s.nodes.claimNodePubkeys now
  authors : ∀ claim ∈ s.store.rows, claim.phase.isTerminal = false →
    claim.nodePubkey ∈ s.authors

/-- **Once every call has finished, the claim-node set is that of the stored claims**, in any run
of at least one call whose steps put current sets in place. Memory may start with any set the
filter has, such as the empty one. -/
theorem claim_nodes_in_step {s : NodeState} {ls : List (Label NodeTask Int NodeAction)}
    (hs : s.nodes.claimNodes ⊆ s.authors)
    (hC : Along nodeProg.next PutsCurrent (Pool.idle s) (.spawn i p :: ls))
    (hr : run nodeProg.next (Pool.idle s) (.spawn i p :: ls) = some c)
    (hdone : ∀ j, c.threads j = none) : NodesInStep c.shared := by
  obtain ⟨c₁, h₁, hrest⟩ := run_cons_eq_some.mp hr
  have hkept : NodesKept c₁ := by
    obtain ⟨hstart, -, rfl⟩ := Prog.next_spawn.mp h₁
    refine ⟨Or.inr (Pool.any_self i s ?_), fun node hnode => Or.inl (hs hnode)⟩
    cases p <;> trivial
  have hend := run_inv (fun _ _ _ hc hC hn => nodesKept_next hc hC hn) hkept (hC.2 c₁ h₁) hrest
  have hset := hend.set.resolve_right (Pool.not_any_idle hdone)
  have hmem : ∀ claim ∈ c.shared.store.rows, claim.phase.isTerminal = false →
      claim.nodePubkey ∈ c.shared.nodes.claimNodes := by
    intro claim hclaim hopen
    rw [hset]
    exact mem_claimNodesOf.mpr ⟨claim, hclaim, hopen, rfl⟩
  refine ⟨hset, fun claim hclaim hopen now => ?_, fun claim hclaim hopen now => ?_,
    fun claim hclaim hopen => ?_⟩
  · exact isClaimNode_of_mem (hmem claim hclaim hopen)
  · exact mem_claimNodePubkeys_of_mem (hmem claim hclaim hopen)
  · exact (hend.filter _ (hmem claim hclaim hopen)).resolve_right (Pool.not_any_idle hdone)

/-! ## Calls one after the other, and a listing that is overtaken -/

/-- A claim of `node` as it is first stored. -/
def openClaim (node : String) : BondClaim :=
  { orderId := "order", nodePubkey := node, amountSats := 100, slashedAt := 0,
    deadlineAt := 1296000, phase := .pending, updatedAt := 0 }

/-- What a call puts in place is the store's, and no node of it was there at its start. -/
def PutsFresh (c : Pool NodeState NodeTask) : Label NodeTask Int NodeAction → Prop
  | .step i _ =>
      match c.threads i with
      | some (.sets before listing) =>
          claimNodesOf listing = claimNodesOf c.shared.store.rows ∧
            ∀ node ∈ claimNodesOf listing, node ∉ before ∨ node ∈ c.shared.authors
      | _ => True
  | _ => True

instance (c : Pool NodeState NodeTask) : ∀ l, Decidable (PutsFresh c l)
  | .step i _ => by
      unfold PutsFresh
      dsimp only
      split <;> infer_instance
  | .spawn .. | .env _ => inferInstanceAs (Decidable True)

theorem PutsFresh.putsCurrent {l : Label NodeTask Int NodeAction} (h : PutsFresh c l) :
    PutsCurrent c l := by
  constructor
  · rintro i w before listing rfl hp
    simp only [PutsFresh, hp] at h
    exact Or.inl h.1
  · rintro i w before listing rfl hp node hnode -
    simp only [PutsFresh, hp] at h
    exact h.2 node hnode

/-- The claims of two nodes are persisted, the second while the first call looks up the nodes
the user left. -/
def twoClaims : List (Label NodeTask Int NodeAction) :=
  [.spawn 0 (.saves (openClaim "alice")), .step 0 0, .step 0 0, .step 0 0, .step 0 0,
    .spawn 1 (.saves (openClaim "bob")), .step 1 0, .step 0 0, .step 0 0, .step 0 0, .step 0 0,
    .step 1 0, .step 1 0, .step 1 0, .step 1 0, .step 1 0, .step 1 0, .step 1 0]

theorem two_claims_in_step :
    ∃ c, run nodeProg.next (Pool.idle {}) twoClaims = some c ∧ NodesInStep c.shared ∧
      c.shared.nodes.claimNodes = {"alice", "bob"} := by
  have hfresh : Along nodeProg.next PutsFresh (Pool.idle {}) twoClaims := by decide
  have hC : Along nodeProg.next PutsCurrent (Pool.idle {}) twoClaims :=
    hfresh.mono fun _ _ h => h.putsCurrent
  have hend : (run nodeProg.next (Pool.idle {}) twoClaims).map
      (fun c => (c.finished 2, c.shared.nodes.claimNodes)) = some (true, {"alice", "bob"}) := by
    decide
  obtain ⟨c, hr, heq⟩ := Option.map_eq_some_iff.mp hend
  obtain ⟨hf, hset⟩ := Prod.mk.inj heq
  have hbelow : Below 2 c := (below_idle 2 _).run rfl hr
  exact ⟨c, hr, claim_nodes_in_step (Finset.empty_subset _) hC hr (hbelow.all_done hf), hset⟩

/-- The first call has listed its own claim; the second runs to its end; then the first puts its
listing in place. -/
def overtakenListing : List (Label NodeTask Int NodeAction) :=
  [.spawn 0 (.saves (openClaim "alice")), .step 0 0, .step 0 0, .step 0 0,
    .spawn 1 (.saves (openClaim "bob")), .step 1 0, .step 1 0, .step 1 0, .step 1 0, .step 1 0,
    .step 1 0, .step 1 0, .step 1 0,
    .step 0 0, .step 0 0, .step 0 0, .step 0 0, .step 0 0]

/-- **A node with an open claim is lost**: both calls are over, the store has both claims, and
the second node is neither let in nor listened to. -/
theorem overtaken_listing_loses_node :
    ∃ c, run nodeProg.next (Pool.idle {}) overtakenListing = some c ∧
      (∀ j, c.threads j = none) ∧ openClaim "bob" ∈ c.shared.store.rows ∧
      c.shared.nodes.claimNodes ≠ claimNodesOf c.shared.store.rows ∧
      c.shared.nodes.isClaimNode "bob" 0 = false ∧ "bob" ∉ c.shared.authors := by
  have hend : (run nodeProg.next (Pool.idle {}) overtakenListing).map
      (fun c => (c.finished 2, c.shared.store.rows, c.shared.nodes, c.shared.authors)) =
      some (true, [openClaim "alice", openClaim "bob"], ⟨{"alice"}, []⟩, {"alice"}) := by
    decide
  obtain ⟨c, hr, heq⟩ := Option.map_eq_some_iff.mp hend
  simp only [Prod.mk.injEq] at heq
  obtain ⟨hf, hrows, hnodes, hauth⟩ := heq
  have hbelow : Below 2 c := (below_idle 2 _).run rfl hr
  refine ⟨c, hr, hbelow.all_done hf, ?_⟩
  rw [hrows, hnodes, hauth]
  decide

end MostroApp.BondClaims
