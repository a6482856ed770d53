import MostroApp.Lib.Handles
import MostroApp.Lib.Numeral
import MostroApp.Lib.Text

set_option autoImplicit false

/-! # What a node publishes of itself (`pow.rs`, `escrow_mode.rs`, `bond_policy.rs`)

A node's Kind 38385 event is fetched when the pool comes online and after a node switch, and four
process-wide slots are filled from its tags one after the other: the difficulties, the protocol
version, the escrow mode and the bond policy. Three of them name the node they came from. The escrow
mode does not; a switch clears it, and a fetch stores it only for the node that is active.

Keys are compared in the lower-case hex they are stored in.
-/

namespace MostroApp.Capabilities

open Interleaving Transition

abbrev Tags := List (List String)

/-- The value of the first tag of a name. -/
def valueOf (tags : Tags) (name : String) : Option String :=
  (tags.find? fun t => t.head? = some name).bind (·[1]?)

/-! ## Proof of work and protocol -/

/-- `parse_difficulty`; a value that is no `u8` reads as absent. -/
def parseDifficulty (tags : Tags) (name : String) : Option Nat :=
  (valueOf tags name).bind fun v => Numeral.parseUnsigned 256 v.toList

def parsePowTags (tags : Tags) : Nat × Option Nat :=
  ((parseDifficulty tags "pow").getD 0, parseDifficulty tags "pow_first_contact")

/-- A first-contact difficulty is never below the other; an absent one is that one. -/
def resolveFirstContact (pow : Nat) : Option Nat → Nat
  | some d => max d pow
  | none => pow

def parseProtocolVersion (tags : Tags) : Option Nat := parseDifficulty tags "protocol_version"

/-- `SUPPORTED_VERSION`. -/
def isSupported (version : Option Nat) : Bool := version == some 2

/-! ## Escrow mode -/

inductive EscrowMode where
  | unknown
  | lightning
  | cashu
  deriving DecidableEq, Repr

/-- Anything but `cashu` is Lightning. -/
def EscrowMode.fromTagValue (value : String) : EscrowMode :=
  if Text.asciiLowered (Text.trimmed value.toList) = "cashu".toList then .cashu else .lightning

structure CashuNodeConfig where
  mintUrl : Option String := none
  escrowLocktimeDays : Option Nat := none
  settlementMarginDays : Option Nat := none
  deriving DecidableEq, Repr

/-- A URL that is not blank. -/
def named (url : Option String) : Option String := (url.map Text.trim).filter (· ≠ "")

def CashuNodeConfig.isUsable (self : CashuNodeConfig) : Bool :=
  self.mintUrl.any fun u => Text.trim u ≠ ""

/-- `escrow_mode::parse_tags`. -/
def parseTags (tags : Tags) : EscrowMode × CashuNodeConfig :=
  let days name := (valueOf tags name).bind fun v =>
    Numeral.parseUnsigned (2 ^ 32) (Text.trimmed v.toList)
  ((valueOf tags "escrow_mode").elim .unknown EscrowMode.fromTagValue,
    { mintUrl := named (valueOf tags "cashu_mint_url")
      escrowLocktimeDays := days "cashu_escrow_locktime_days"
      settlementMarginDays := days "cashu_settlement_margin_days" })

/-- The developer overrides. -/
structure EscrowOverrides where
  forceCashu : Bool := false
  mintUrl : Option String := none
  deriving DecidableEq, Repr

structure ResolvedEscrowMode where
  mode : EscrowMode
  config : CashuNodeConfig
  isOverridden : Bool
  deriving DecidableEq, Repr

/-- Override, then tag; the mint the same way on its own. -/
def resolve (tags : EscrowMode × CashuNodeConfig) (overrides : EscrowOverrides) :
    ResolvedEscrowMode where
  mode := if overrides.forceCashu then .cashu else tags.1
  config := { tags.2 with mintUrl := (named overrides.mintUrl).or tags.2.mintUrl }
  isOverridden := overrides.forceCashu && tags.1 != .cashu

def ResolvedEscrowMode.isCashuUsable (self : ResolvedEscrowMode) : Bool :=
  self.mode == .cashu && self.config.isUsable

/-! ## The slots -/

variable {β : Type}

/-- `pow::Capabilities`. -/
structure Difficulties where
  node : String
  pow : Nat
  firstContact : Option Nat
  deriving DecidableEq, Repr

structure Advertised where
  node : String
  version : Option Nat
  deriving DecidableEq, Repr

/-- A message wrapped for a node, and the difficulty it is mined at. -/
structure Wrapped where
  node : String
  pow : Nat
  firstContact : Bool
  deriving DecidableEq, Repr

/-- The active node, the four slots, the overrides, the count of pending fetches, and the messages
that have been wrapped. -/
structure Slots (β : Type) where
  active : String
  pow : Option Difficulties := none
  advertised : Option Advertised := none
  escrow : Option (EscrowMode × CashuNodeConfig) := none
  bond : Option (String × β) := none
  overrides : EscrowOverrides := {}
  pending : Nat := 0
  sent : List Wrapped := []

/-- `get_resolved`. -/
def Slots.getResolved (s : Slots β) : ResolvedEscrowMode :=
  resolve (s.escrow.getD (.unknown, {})) s.overrides

/-- `is_cashu_mode`. -/
def Slots.isCashuMode (s : Slots β) : Bool := s.getResolved.isCashuUsable

/-- `bond_policy::get_for`. -/
def Slots.bondFor (s : Slots β) (node : String) : Option β :=
  (s.bond.filter (·.1 = node)).map (·.2)

/-! ## Tasks -/

/-- What a fetch brings back: the tags of the node's event, no event, or an error. -/
inductive Answer where
  | found (tags : Tags)
  | absent
  | failed
  deriving DecidableEq, Repr

/-- Where a task stands. -/
inductive CapTask where
  /-- `set_active_mostro_node`. -/
  | switches (node : String)
  /-- `fetch_pending`: a switch goes on to clear, the Online sequence to fetch. -/
  | announces (switched : Bool)
  /-- `refresh_subscriptions_for_active_node`. -/
  | leaves
  | forgets
  | subscribes
  /-- `fetch_and_set_node_capabilities`. -/
  | fetches
  | asks (node : String)
  /-- `apply_node_capabilities`. -/
  | checks (node : String) (answer : Answer)
  | setsPow (node : String) (tags : Option Tags)
  | setsVersion (node : String) (tags : Tags)
  | setsEscrow (node : String) (tags : Tags)
  | setsBond (node : String) (tags : Tags)
  | dropsEscrow
  | dropsBond
  /-- `FetchPending` is dropped. -/
  | releases
  /-- `wrap_message`, or `wrap_message_first_contact`; then `wrap_message_at`. -/
  | wraps (node : String) (firstContact : Bool)
  | supports (message : Wrapped)
  deriving DecidableEq, Repr

/-- The answer to a fetch, whether the new subscriptions are taken, and whether a wait has run
out. -/
structure CapOracle where
  answer : Answer := .failed
  opens : Bool := true
  timedOut : Bool := false

variable (bondOf : Tags → β)

/-- A task's next step. A gate that waits for its node's snapshot stands still until there is one
or its time is up. -/
def CapTask.step (w : CapOracle) : CapTask → Slots β → Option (Slots β × Option CapTask)
  | .switches node, s => some ({ s with active := node }, some (.announces true))
  | .announces switched, s =>
      some ({ s with pending := s.pending + 1 }, some (if switched then .leaves else .fetches))
  | .leaves, s => some ({ s with escrow := none }, some .forgets)
  | .forgets, s => some ({ s with bond := none }, some .subscribes)
  | .subscribes, s => some (s, some (if w.opens then .fetches else .releases))
  | .fetches, s => some (s, some (.asks s.active))
  | .asks node, s => some (s, some (.checks node w.answer))
  | .checks node answer, s =>
      some (s, some (if node = s.active then
        match answer with
        | .found tags => .setsPow node (some tags)
        | .absent => .setsPow node none
        | .failed => .dropsEscrow
      else .releases))
  | .setsPow node (some tags), s =>
      some ({ s with pow := some ⟨node, (parsePowTags tags).1, (parsePowTags tags).2⟩ },
        some (.setsVersion node tags))
  | .setsPow node none, s => some ({ s with pow := some ⟨node, 0, none⟩ }, some .dropsEscrow)
  | .setsVersion node tags, s =>
      some ({ s with advertised := some ⟨node, parseProtocolVersion tags⟩ },
        some (.setsEscrow node tags))
  | .setsEscrow node tags, s =>
      some ({ s with escrow := some (parseTags tags) }, some (.setsBond node tags))
  | .setsBond node tags, s => some ({ s with bond := some (node, bondOf tags) }, some .releases)
  | .dropsEscrow, s => some ({ s with escrow := none }, some .dropsBond)
  | .dropsBond, s => some ({ s with bond := none }, some .releases)
  | .releases, s => some ({ s with pending := s.pending - 1 }, none)
  | .wraps node true, s =>
      match s.pow.filter (·.node = node) with
      | some d => some (s, some (.supports ⟨node, resolveFirstContact d.pow d.firstContact, true⟩))
      | none => if w.timedOut then some (s, none) else none
  | .wraps node false, s => some (s, some (.supports ⟨node, s.pow.elim 0 (·.pow), false⟩))
  | .supports message, s =>
      match s.advertised.filter (·.node = message.node) with
      | some a =>
          some (if isSupported a.version then { s with sent := message :: s.sent } else s, none)
      | none => if w.timedOut then some (s, none) else none

/-- The developer's settings change, `update_overrides`. -/
inductive CapAct where
  | overrides (value : EscrowOverrides)

/-- Any number of switches, Online sequences and messages. -/
def capProg : Prog (Slots β) CapTask CapOracle CapAct where
  enter
    | .switches _ | .announces false | .wraps .. => true
    | _ => false
  tstep w p s := p.step bondOf w s
  act
    | .overrides value, s => some { s with overrides := value }

/-! ## What a step does -/

/-- The steps one by one. -/
inductive CapTask.Steps (w : CapOracle) (s : Slots β) :
    CapTask → Slots β → Option CapTask → Prop where
  | switched (node : String) :
      Steps w s (.switches node) { s with active := node } (some (.announces true))
  | announced (switched : Bool) :
      Steps w s (.announces switched) { s with pending := s.pending + 1 }
        (some (if switched then .leaves else .fetches))
  | left : Steps w s .leaves { s with escrow := none } (some .forgets)
  | forgotten : Steps w s .forgets { s with bond := none } (some .subscribes)
  | subscribed : Steps w s .subscribes s (some (if w.opens then .fetches else .releases))
  | targets : Steps w s .fetches s (some (.asks s.active))
  | asked (node : String) : Steps w s (.asks node) s (some (.checks node w.answer))
  | outlived (node : String) (answer : Answer) (h : node ≠ s.active) :
      Steps w s (.checks node answer) s (some .releases)
  | found (tags : Tags) :
      Steps w s (.checks s.active (.found tags)) s (some (.setsPow s.active (some tags)))
  | absent : Steps w s (.checks s.active .absent) s (some (.setsPow s.active none))
  | failed : Steps w s (.checks s.active .failed) s (some .dropsEscrow)
  | measured (node : String) (tags : Tags) :
      Steps w s (.setsPow node (some tags))
        { s with pow := some ⟨node, (parsePowTags tags).1, (parsePowTags tags).2⟩ }
        (some (.setsVersion node tags))
  | unmeasured (node : String) :
      Steps w s (.setsPow node none) { s with pow := some ⟨node, 0, none⟩ } (some .dropsEscrow)
  | versioned (node : String) (tags : Tags) :
      Steps w s (.setsVersion node tags)
        { s with advertised := some ⟨node, parseProtocolVersion tags⟩ }
        (some (.setsEscrow node tags))
  | escrowed (node : String) (tags : Tags) :
      Steps w s (.setsEscrow node tags) { s with escrow := some (parseTags tags) }
        (some (.setsBond node tags))
  | bonded (node : String) (tags : Tags) :
      Steps w s (.setsBond node tags) { s with bond := some (node, bondOf tags) }
        (some .releases)
  | escrowDropped : Steps w s .dropsEscrow { s with escrow := none } (some .dropsBond)
  | bondDropped : Steps w s .dropsBond { s with bond := none } (some .releases)
  | released : Steps w s .releases { s with pending := s.pending - 1 } none
  | firstContact (d : Difficulties) (h : s.pow = some d) :
      Steps w s (.wraps d.node true) s
        (some (.supports ⟨d.node, resolveFirstContact d.pow d.firstContact, true⟩))
  | plain (node : String) :
      Steps w s (.wraps node false) s (some (.supports ⟨node, s.pow.elim 0 (·.pow), false⟩))
  | unknown (node : String) : Steps w s (.wraps node true) s none
  | sent (message : Wrapped) (a : Advertised) (h : s.advertised = some a)
      (hnode : a.node = message.node) (hv : isSupported a.version = true) :
      Steps w s (.supports message) { s with sent := message :: s.sent } none
  | refused (message : Wrapped) : Steps w s (.supports message) s none

variable {bondOf} {w : CapOracle} {p q : CapTask} {s t : Slots β} {o : Option CapTask}

theorem CapTask.steps (h : p.step bondOf w s = some (t, o)) : p.Steps bondOf w s t o := by
  cases p with
  | checks node answer =>
      by_cases hnode : node = s.active
      · subst hnode
        cases answer <;> simp only [CapTask.step, if_true] at h <;> cases h
        · exact .found _
        · exact .absent
        · exact .failed
      · simp only [CapTask.step, if_neg hnode] at h
        cases h
        exact .outlived node answer hnode
  | setsPow node tags =>
      cases tags <;> cases h
      · exact .unmeasured node
      · exact .measured node _
  | wraps node first =>
      cases first with
      | false =>
          cases h
          exact .plain node
      | true =>
          simp only [CapTask.step] at h
          split at h
          · next d hd =>
              obtain ⟨hpow, hnode⟩ := Option.filter_eq_some_iff.mp hd
              obtain rfl : d.node = node := by simpa using hnode
              cases h
              exact .firstContact d hpow
          · split at h <;> cases h
            exact .unknown node
  | supports message =>
      simp only [CapTask.step] at h
      split at h
      · next a ha =>
          obtain ⟨hadv, hnode⟩ := Option.filter_eq_some_iff.mp ha
          split at h <;> cases h
          · next hv => exact .sent message a hadv (by simpa using hnode) hv
          · exact .refused message
      · split at h <;> cases h
        exact .refused message
  | switches | announces | leaves | forgets | subscribes | fetches | asks | setsVersion
  | setsEscrow | setsBond | dropsEscrow | dropsBond | releases =>
      cases h
      constructor

/-! ## Whose the slots are -/

section Sources

variable (published : String → Tags → Prop) (silent : String → Prop)

/-- What a node asked may answer: tags it has published, or nothing where the relays have nothing
of it. -/
def Answer.From (node : String) : Answer → Prop
  | .found tags => published node tags
  | .absent => silent node
  | .failed => True

/-- A fetch brings back what the node asked has published. -/
def Honest (c : Pool (Slots β) CapTask) : Label CapTask CapOracle CapAct → Prop
  | .step i w =>
      match c.threads i with
      | some (.asks node) => w.answer.From published silent node
      | _ => True
  | _ => True

section Decided

variable [∀ node tags, Decidable (published node tags)] [∀ node, Decidable (silent node)]

instance (node : String) : ∀ answer : Answer, Decidable (answer.From published silent node)
  | .found tags => inferInstanceAs (Decidable (published node tags))
  | .absent => inferInstanceAs (Decidable (silent node))
  | .failed => isTrue trivial

instance (c : Pool (Slots β) CapTask) (l : Label CapTask CapOracle CapAct) :
    Decidable (Honest published silent c l) := by
  unfold Honest
  split
  · split <;> infer_instance
  · infer_instance

end Decided

/-- Both difficulties of one event of the node, or none at all. -/
def Measured (d : Difficulties) : Prop :=
  (∃ tags, published d.node tags ∧ (d.pow, d.firstContact) = parsePowTags tags) ∨
    silent d.node ∧ d.pow = 0 ∧ d.firstContact = none

/-- A first-contact difficulty that one event of the node asks for: neither of its two is above. -/
def Mined (node : String) (pow : Nat) : Prop :=
  (∃ tags, published node tags ∧
    pow = resolveFirstContact (parsePowTags tags).1 (parsePowTags tags).2 ∧
    (parsePowTags tags).1 ≤ pow ∧ ∀ d, (parsePowTags tags).2 = some d → d ≤ pow) ∨
    silent node ∧ pow = 0

/-- The node speaks our protocol and, where it does not know the key yet, gets the work it asks
for. -/
structure Wrapped.Fits (m : Wrapped) : Prop where
  speaks : ∃ tags, published m.node tags ∧ isSupported (parseProtocolVersion tags) = true
  mined : m.firstContact = true → Mined published silent m.node m.pow

/-- Every slot that names a node holds what that node has published. -/
structure Sourced (bondOf : Tags → β) (s : Slots β) : Prop where
  pow : ∀ d, s.pow = some d → Measured published silent d
  advertised : ∀ a, s.advertised = some a →
    ∃ tags, published a.node tags ∧ a.version = parseProtocolVersion tags
  bond : ∀ e, s.bond = some e → ∃ tags, published e.1 tags ∧ e.2 = bondOf tags
  sent : ∀ m ∈ s.sent, m.Fits published silent

/-- What a task carries. -/
def CapTask.Carries : CapTask → Prop
  | .checks node answer => answer.From published silent node
  | .setsPow node (some tags) | .setsVersion node tags | .setsEscrow node tags
  | .setsBond node tags => published node tags
  | .setsPow node none => silent node
  | .supports m => m.firstContact = true → Mined published silent m.node m.pow
  | _ => True

end Sources

variable {published : String → Tags → Prop} {silent : String → Prop}

theorem le_resolveFirstContact (pow : Nat) (first : Option Nat) :
    pow ≤ resolveFirstContact pow first ∧
      ∀ d, first = some d → d ≤ resolveFirstContact pow first := by
  cases first with
  | none => exact ⟨Nat.le_refl _, fun d hd => by cases hd⟩
  | some d =>
      refine ⟨Nat.le_max_right d pow, fun e he => ?_⟩
      obtain rfl := Option.some.inj he
      exact Nat.le_max_left d pow

/-- What a snapshot implies for a first contact with its node. -/
theorem Measured.mined {d : Difficulties} (h : Measured published silent d) :
    Mined published silent d.node (resolveFirstContact d.pow d.firstContact) := by
  rcases h with ⟨tags, hpub, heq⟩ | ⟨hsilent, hpow, hfirst⟩
  · have hpow : d.pow = (parsePowTags tags).1 := congrArg Prod.fst heq
    have hfirst : d.firstContact = (parsePowTags tags).2 := congrArg Prod.snd heq
    rw [hpow, hfirst]
    exact Or.inl ⟨tags, hpub, rfl, le_resolveFirstContact _ _⟩
  · rw [hpow, hfirst]
    exact Or.inr ⟨hsilent, rfl⟩

/-- A slot is filled by a task that carries its node's tags, and read under the node's name. -/
theorem sourcedOutline : Outline (capProg bondOf) (Honest published silent)
    (Sourced published silent bondOf) (fun p _ => p.Carries published silent) := by
  constructor
  -- A task that starts carries nothing yet.
  · intro c i p _ _ henter _
    cases p with
    | switches | wraps => trivial
    | announces => trivial
    | _ => cases henter
  -- Each store writes what its task carries; a message leaves under the advertised version.
  · intro c i w p s o hc _ hp hs
    have hA := hc.threads i p hp
    obtain ⟨hpow, hadv, hbond, hsent⟩ := hc.shared
    cases CapTask.steps hs with
    | measured node tags =>
        refine ⟨fun d hd => ?_, hadv, hbond, hsent⟩
        obtain rfl := Option.some.inj hd
        exact Or.inl ⟨tags, hA, rfl⟩
    | unmeasured node =>
        refine ⟨fun d hd => ?_, hadv, hbond, hsent⟩
        obtain rfl := Option.some.inj hd
        exact Or.inr ⟨hA, rfl, rfl⟩
    | versioned node tags =>
        refine ⟨hpow, fun a ha => ?_, hbond, hsent⟩
        obtain rfl := Option.some.inj ha
        exact ⟨tags, hA, rfl⟩
    | bonded node tags =>
        refine ⟨hpow, hadv, fun e he => ?_, hsent⟩
        obtain rfl := Option.some.inj he
        exact ⟨tags, hA, rfl⟩
    | forgotten | bondDropped => exact ⟨hpow, hadv, fun e he => (by cases he), hsent⟩
    | sent message a ha hnode hv =>
        refine ⟨hpow, hadv, hbond, fun m hm => ?_⟩
        rcases List.mem_cons.mp hm with rfl | hold
        · obtain ⟨tags, hpub, hversion⟩ := hadv a ha
          exact ⟨⟨tags, hnode ▸ hpub, hversion ▸ hv⟩, hA⟩
        · exact hsent m hold
    | _ => exact ⟨hpow, hadv, hbond, hsent⟩
  -- What a task goes on with is what an honest relay has answered.
  · intro c i w p s q hc honest hp hs
    have hA := hc.threads i p hp
    cases CapTask.steps hs with
    | asked node =>
        simp only [Honest, hp] at honest
        exact honest
    | announced switched => cases switched <;> trivial
    | subscribed => cases w.opens <;> trivial
    | found | absent | measured | versioned | escrowed => exact hA
    | firstContact d hd => exact fun _ => (hc.shared.pow d hd).mined
    | plain => exact fun hfirst => by cases hfirst
    | _ => trivial
  · intro c i w p s o j r hc _ _ _ _ hr
    exact hc.threads j r hr
  · intro c a s hc _ hs
    cases a
    obtain rfl := Option.some.inj hs
    exact ⟨hc.shared.pow, hc.shared.advertised, hc.shared.bond, hc.shared.sent⟩
  · intro c a s i p hc _ _ hp
    exact hc.threads i p hp

/-- The app before the first fetch. -/
structure Unfetched (s : Slots β) : Prop where
  pow : s.pow = none
  advertised : s.advertised = none
  escrow : s.escrow = none
  bond : s.bond = none
  pending : s.pending = 0
  sent : s.sent = []

theorem sourced_unfetched (h : Unfetched s) : Sourced published silent bondOf s where
  pow d hd := absurd (h.pow.symm.trans hd) nofun
  advertised a ha := absurd (h.advertised.symm.trans ha) nofun
  bond e he := absurd (h.bond.symm.trans he) nofun
  sent m hm := by
    rw [h.sent] at hm
    cases hm

variable {c c' : Pool (Slots β) CapTask} {l : Label CapTask CapOracle CapAct}
  {ls : List (Label CapTask CapOracle CapAct)}

/-- **No node is served another's answer.** Whatever fetches, switches and timeouts run into each
other, a message leaves only for a node that has said it speaks our protocol, the first one under a
key with the work that node asks of it, by both values of one event; and a bond policy is read as a
node's only if it is the node's. -/
theorem gates_serve_own_node (h : Unfetched s)
    (honest : Along (capProg bondOf).next (Honest published silent) (Pool.idle s) ls)
    (hr : run (capProg bondOf).next (Pool.idle s) ls = some c) :
    (∀ m ∈ c.shared.sent, m.Fits published silent) ∧
      ∀ node policy, c.shared.bondFor node = some policy →
        ∃ tags, published node tags ∧ policy = bondOf tags := by
  have hinv := sourcedOutline.run_inv (poolInv_idle (sourced_unfetched h)) honest hr
  refine ⟨hinv.shared.sent, fun node policy hpolicy => ?_⟩
  unfold Slots.bondFor at hpolicy
  obtain ⟨e, he, rfl⟩ := Option.map_eq_some_iff.mp hpolicy
  obtain ⟨hbond, hnode⟩ := Option.filter_eq_some_iff.mp he
  obtain rfl : e.1 = node := by simpa using hnode
  exact hinv.shared.bond e hbond

/-- A node that wants more work of a key it does not know, and one that wants less. -/
def strictTags : Tags :=
  [["d", "b"], ["pow", "10"], ["pow_first_contact", "20"], ["protocol_version", "2"]]

def laxTags : Tags := [["d", "a"], ["pow", "1"], ["protocol_version", "2"]]

def twoNodes (node : String) (tags : Tags) : Prop :=
  node = "a" ∧ tags = laxTags ∨ node = "b" ∧ tags = strictTags

instance (node : String) (tags : Tags) : Decidable (twoNodes node tags) :=
  inferInstanceAs (Decidable (_ ∨ _))

/-- `a` is asked, `b` is switched to and asked, `b` answers, a first message goes to `b`, and `a`
answers last. -/
def overtakenFetch : List (Label CapTask CapOracle CapAct) :=
  [.spawn 0 (.announces false), .step 0 {}, .step 0 {}, .spawn 1 (.switches "b"), .step 1 {},
    .spawn 2 (.wraps "b" true)] ++ List.replicate 5 (.step 1 {}) ++
  [.step 1 { answer := .found strictTags }] ++ List.replicate 6 (.step 1 {}) ++
  [.step 2 {}, .step 2 {}, .step 0 { answer := .found laxTags }, .step 0 {}, .step 0 {}]

theorem gates_serve_own_node_overtaken :
    ∃ c, run (capProg fun _ => ()).next (Pool.idle { active := "a" }) overtakenFetch = some c ∧
      c.shared.sent = [⟨"b", 20, true⟩] ∧
      ∀ m ∈ c.shared.sent, m.Fits twoNodes fun _ => False := by
  have hr : run (capProg fun _ => ()).next (Pool.idle { active := "a" }) overtakenFetch =
      some _ := rfl
  have honest : Along (capProg fun _ => ()).next (Honest twoNodes fun _ => False)
      (Pool.idle { active := "a" }) overtakenFetch := by
    decide
  exact ⟨_, hr, rfl, (gates_serve_own_node ⟨rfl, rfl, rfl, rfl, rfl, rfl⟩ honest hr).1⟩

/-! ## The escrow mode names no node -/

/-- The task has found its node active and has not stored the escrow mode yet. -/
def CapTask.stores : CapTask → Bool
  | .setsPow _ (some _) | .setsVersion .. | .setsEscrow .. => true
  | _ => false

/-- The node has been switched, and the former one's mode is still to be cleared. -/
def CapTask.leaving : CapTask → Bool
  | .announces true | .leaves => true
  | _ => false

/-- A node is switched to while a thread at `t` is not storing what another one has said. -/
def Undivided (c : Pool (Slots β) CapTask) :
    Label CapTask CapOracle CapAct → Option CapTask → Prop
  | .step i _, t =>
      match c.threads i, t with
      | some (.switches _), some q => q.stores = false
      | _, _ => True
  | _, _ => True

theorem undivided_none (c : Pool (Slots β) CapTask) (l : Label CapTask CapOracle CapAct) :
    Undivided c l none := by
  unfold Undivided
  split
  · split
    · next hnone => cases hnone
    · trivial
  · trivial

/-- Fetches bring back what the node has published, and no switch comes between the check of one
and its stores. -/
def Orderly (published : String → Tags → Prop) (silent : String → Prop)
    (c : Pool (Slots β) CapTask) (l : Label CapTask CapOracle CapAct) : Prop :=
  ∀ j, Honest published silent c l ∧ Undivided c l (c.threads j)

/-- Where a task stores a node's tags, that node is active. -/
def CapTask.Here : CapTask → Slots β → Prop
  | .setsPow node (some _), s | .setsVersion node _, s | .setsEscrow node _, s => node = s.active
  | _, _ => True

/-- Only a switch changes the active node. -/
theorem CapTask.Steps.active (h : p.Steps bondOf w s t o) :
    t.active = s.active ∨ p = .switches t.active ∧ o = some (.announces true) := by
  cases h with
  | switched => exact Or.inr ⟨rfl, rfl⟩
  | _ => exact Or.inl rfl

theorem hereOutline : Outline (capProg bondOf) (Orderly published silent) (fun _ => True)
    CapTask.Here := by
  constructor
  · intro c i p _ _ henter _
    cases p with
    | switches | wraps | announces => trivial
    | _ => cases henter
  · intros
    trivial
  · intro c i w p s q hc _ hp hs
    have hA := hc.threads i p hp
    cases CapTask.steps hs with
    | announced switched => cases switched <;> trivial
    | subscribed => cases w.opens <;> trivial
    -- The check against the active node has just passed.
    | found => rfl
    | measured | versioned => exact hA
    | _ => trivial
  · intro c i w p s o j r hc orderly hp hs _ hr
    have hA := hc.threads j r hr
    rcases (CapTask.steps hs).active with hsame | ⟨rfl, -⟩
    · cases r with
      | setsPow node tags =>
          cases tags with
          | none => trivial
          | some tags => exact Eq.trans hA hsame.symm
      | setsVersion | setsEscrow => exact Eq.trans hA hsame.symm
      | _ => trivial
    · -- a switch finds no task storing
      have hidle := (orderly j).2
      simp only [Undivided, hp, hr] at hidle
      cases r with
      | setsPow node tags =>
          cases tags with
          | none => trivial
          | some tags => cases hidle
      | setsVersion | setsEscrow => cases hidle
      | _ => trivial
  · intros
    trivial
  · intro c a s i p hc _ hs hp
    have hA := hc.threads i p hp
    cases a
    obtain rfl := Option.some.inj hs
    cases p with
    | setsPow node tags => cases tags <;> exact hA
    | _ => exact hA

/-- The escrow slot holds what the active node has published. -/
def Slots.Own (published : String → Tags → Prop) (s : Slots β) : Prop :=
  ∀ e, s.escrow = some e → ∃ tags, published s.active tags ∧ e = parseTags tags

/-- The escrow slot is the active node's, or a switch is about to clear it. -/
def Followed (published : String → Tags → Prop) (c : Pool (Slots β) CapTask) : Prop :=
  c.shared.Own published ∨ c.Any (·.leaving = true)

/-- A step leaves the escrow slot empty or as its own node's, is of a switch before its clear, or
leaves the slot alone. -/
theorem CapTask.Steps.escrow (h : p.Steps bondOf w s t o) (hhere : p.Here s)
    (hcarries : p.Carries published silent) :
    t.Own published ∨ (∃ q, o = some q ∧ q.leaving = true) ∨
      t.escrow = s.escrow ∧ t.active = s.active ∧ p.leaving = false := by
  cases h with
  | switched => exact Or.inr (Or.inl ⟨_, rfl, rfl⟩)
  | announced switched =>
      cases switched with
      | true => exact Or.inr (Or.inl ⟨_, rfl, rfl⟩)
      | false => exact Or.inr (Or.inr ⟨rfl, rfl, rfl⟩)
  | left | escrowDropped => exact Or.inl fun e he => by cases he
  | escrowed node tags =>
      refine Or.inl fun e he => ⟨tags, ?_, (Option.some.inj he).symm⟩
      have hnode : node = s.active := hhere
      exact hnode ▸ hcarries
  | _ => exact Or.inr (Or.inr ⟨rfl, rfl, rfl⟩)

theorem Followed.next (h : Followed published c)
    (hhere : PoolInv (fun _ => True) CapTask.Here c)
    (hcarries : PoolInv (Sourced published silent bondOf)
      (fun p _ => p.Carries published silent) c)
    (hn : (capProg bondOf).next c l = some c') : Followed published c' := by
  cases l with
  | spawn i p =>
      obtain ⟨-, hi, rfl⟩ := Prog.next_spawn.mp hn
      exact h.imp_right fun hany => hany.spawn hi
  | step i w =>
      obtain ⟨p, s, o, hp, hs, rfl⟩ := Prog.next_step.mp hn
      rcases (CapTask.steps hs).escrow (hhere.threads i p hp) (hcarries.threads i p hp) with
        hown | ⟨q, rfl, hq⟩ | ⟨hescrow, hactive, hstays⟩
      · exact Or.inl hown
      · exact Or.inr (Pool.any_self i s hq)
      · rcases h with hown | hany
        · refine Or.inl fun e he => ?_
          show ∃ tags, published s.active tags ∧ e = parseTags tags
          rw [hactive]
          exact hown e (hescrow ▸ he)
        · have hother := (hany.split hp).resolve_left fun hme =>
            absurd (hstays.symm.trans hme) nofun
          exact Or.inr (hother.any s o)
  | env a =>
      obtain ⟨s, hs, rfl⟩ := Prog.next_env.mp hn
      cases a
      obtain rfl := Option.some.inj hs
      exact h

/-- The Cashu gate opens only on what the active node has published, or on an override. -/
structure Slots.Gated (published : String → Tags → Prop) (s : Slots β) : Prop where
  own : s.Own published
  mode : s.isCashuMode = true → s.overrides.forceCashu = true ∨
    ∃ tags, published s.active tags ∧ (parseTags tags).1 = .cashu
  mint : s.isCashuMode = true → ∃ url, s.getResolved.config.mintUrl = some url ∧
    Text.trim url ≠ "" ∧ (named s.overrides.mintUrl = some url ∨
      ∃ tags, published s.active tags ∧ (parseTags tags).2.mintUrl = some url)

theorem Slots.Own.gated (h : s.Own published) : s.Gated published where
  own := h
  mode hmode := by
    obtain ⟨hcashu, -⟩ := Bool.and_eq_true_iff.mp hmode
    cases hforce : s.overrides.forceCashu with
    | true => exact Or.inl rfl
    | false =>
        simp only [Slots.getResolved, resolve, hforce] at hcashu
        cases he : s.escrow with
        | none =>
            rw [he] at hcashu
            cases hcashu
        | some e =>
            obtain ⟨tags, hpub, rfl⟩ := h e he
            rw [he] at hcashu
            exact Or.inr ⟨tags, hpub, by simpa using hcashu⟩
  mint hmode := by
    obtain ⟨-, husable⟩ := Bool.and_eq_true_iff.mp hmode
    obtain ⟨url, hurl, hblank⟩ := (Option.any_eq_true _ _).mp husable
    refine ⟨url, hurl, by simpa using hblank, ?_⟩
    rcases Option.or_eq_some_iff.mp hurl with hover | ⟨-, htag⟩
    · exact Or.inl hover
    · cases he : s.escrow with
      | none =>
          rw [he] at htag
          cases htag
      | some e =>
          obtain ⟨tags, hpub, rfl⟩ := h e he
          rw [he] at htag
          exact Or.inr ⟨tags, hpub, htag⟩

/-- What holds along every orderly run. -/
structure Tracked (published : String → Tags → Prop) (silent : String → Prop) (bondOf : Tags → β)
    (c : Pool (Slots β) CapTask) : Prop where
  followed : Followed published c
  here : PoolInv (fun _ => True) CapTask.Here c
  carries : PoolInv (Sourced published silent bondOf)
    (fun p _ => p.Carries published silent) c

theorem Tracked.next (h : Tracked published silent bondOf c)
    (orderly : Orderly published silent c l) (hn : (capProg bondOf).next c l = some c') :
    Tracked published silent bondOf c' where
  followed := h.followed.next h.here h.carries hn
  here := hereOutline.keep c l c' h.here orderly hn
  carries := sourcedOutline.keep c l c' h.carries (orderly 0).1 hn

theorem tracked_unfetched (h : Unfetched s) :
    Tracked published silent bondOf (Pool.idle s) where
  followed := Or.inl fun _ he => absurd (h.escrow.symm.trans he) nofun
  here := poolInv_idle trivial
  carries := poolInv_idle (sourced_unfetched h)

/-- **One node's Cashu mode is never another's.** Where no switch comes between a fetch's check and
its stores, the escrow slot is the active node's at all times but between a switch and its clear, so
that the Cashu gate opens only where the active node has said Cashu and named the mint, or the
developer has. -/
theorem cashu_gate_follows_node (h : Unfetched s)
    (orderly : Along (capProg bondOf).next (Orderly published silent) (Pool.idle s) ls)
    (hr : run (capProg bondOf).next (Pool.idle s) ls = some c)
    (hleft : ∀ i p, c.threads i = some p → p.leaving = false) : c.shared.Gated published := by
  have htracked := run_inv (fun _ _ _ h orderly hn => Tracked.next h orderly hn)
    (tracked_unfetched h) orderly hr
  refine Slots.Own.gated (htracked.followed.resolve_right ?_)
  rintro ⟨i, p, hp, hleaving⟩
  exact absurd ((hleft i p hp).symm.trans hleaving) nofun

def cashuTags : Tags :=
  [["pow", "0"], ["protocol_version", "2"], ["escrow_mode", "Cashu"],
    ["cashu_mint_url", " https://mint "]]

/-- The first node runs on Cashu, the other one has no escrow tag. -/
def cashuNode (node : String) (tags : Tags) : Prop :=
  node = "a" ∧ tags = cashuTags ∨ node = "b" ∧ tags = strictTags

instance (node : String) (tags : Tags) : Decidable (cashuNode node tags) :=
  inferInstanceAs (Decidable (_ ∨ _))

instance (c : Pool (Slots β) CapTask) (l : Label CapTask CapOracle CapAct)
    (t : Option CapTask) : Decidable (Undivided c l t) := by
  unfold Undivided
  split
  · split <;> infer_instance
  · infer_instance

/-- `b` is fetched and left for `a`, which is on Cashu; `b`'s second answer comes too late. -/
def backToCashu : List (Label CapTask CapOracle CapAct) :=
  [.spawn 0 (.announces false), .step 0 {}, .step 0 {}, .step 0 { answer := .found strictTags }] ++
  List.replicate 6 (.step 0 {}) ++
  [.spawn 0 (.announces false), .step 0 {}, .step 0 {}, .spawn 1 (.switches "a")] ++
  List.replicate 6 (.step 1 {}) ++ [.step 1 { answer := .found cashuTags }] ++
  List.replicate 6 (.step 1 {}) ++ [.step 0 { answer := .found strictTags }, .step 0 {}, .step 0 {}]

theorem cashu_gate_follows_node_back :
    ∃ c, run (capProg fun _ => ()).next (Pool.idle { active := "b" }) backToCashu = some c ∧
      c.shared.getResolved.config.mintUrl = some "https://mint" ∧ c.shared.isCashuMode = true ∧
      c.shared.Gated cashuNode := by
  have hr : run (capProg fun _ => ()).next (Pool.idle { active := "b" }) backToCashu =
      some _ := rfl
  have orderly := along_of_below
    (K := fun c l t => Honest cashuNode (fun _ => False) c l ∧ Undivided c l t) 2
    (fun c l h => ⟨(h 0 (by decide)).1, undivided_none c l⟩)
    (below_idle 2 _) rfl
    (show Along (capProg fun _ => ()).next (fun c l => ∀ j < 2,
      Honest cashuNode (fun _ => False) c l ∧ Undivided c l (c.threads j))
      (Pool.idle { active := "b" }) backToCashu by decide)
  refine ⟨_, hr, by decide, by decide, ?_⟩
  refine cashu_gate_follows_node ⟨rfl, rfl, rfl, rfl, rfl, rfl⟩ orderly hr fun i p hp => ?_
  have hbelow : backToCashu.all (Label.below 2) = true := rfl
  have hdone := (below_idle 2 _).run hbelow hr
  exact absurd (hp.symm.trans (hdone.all_done (by rfl) i)) nofun

/-- **A switch between the check and the stores** leaves the former node's Cashu mode to the other
one: the switch has cleared, and nothing is on the way. -/
example :
    (run (capProg fun _ => ()).next (Pool.idle { active := "a" })
      ([.spawn 0 (.announces false), .step 0 {}, .step 0 {},
        .step 0 { answer := .found cashuTags }, .step 0 {}, .spawn 1 (.switches "b")] ++
        List.replicate 4 (.step 1 {}) ++ [.step 1 { opens := false }, .step 1 {}] ++
        List.replicate 5 (.step 0 {}))).map
      (fun c => (c.shared.active, c.shared.isCashuMode, c.threads 0, c.threads 1)) =
    some ("b", true, none, none) := by
  decide

/-! ## The count of pending fetches -/

/-- The task holds a `FetchPending`. -/
def CapTask.guarded : CapTask → Bool
  | .switches _ | .announces _ | .wraps .. | .supports _ => false
  | _ => true

/-- The guards a task holds. -/
def CapTask.guards (p : CapTask) (_ : Unit) : Nat := p.guarded.toNat

/-- The count is that of the guards held. -/
def Announced (c : Pool (Slots β) CapTask) : Prop :=
  c.Counted (fun s _ => s.pending) (fun _ _ => 0) CapTask.guards

/-- A step counts the guard it takes or drops; there is one to drop. -/
theorem CapTask.Steps.balance (h : p.Steps bondOf w s t o)
    (hpositive : p.guards () ≤ s.pending) (k : Unit) :
    t.pending + 0 + handles CapTask.guards k (some p) =
      s.pending + 0 + handles CapTask.guards k o := by
  cases h with
  | announced switched => cases switched <;> rfl
  | subscribed => cases w.opens <;> rfl
  | released =>
      have hpositive : 1 ≤ s.pending := hpositive
      show s.pending - 1 + 1 = s.pending
      omega
  | _ => rfl

theorem Announced.next (h : Announced c) (hn : (capProg bondOf).next c l = some c') :
    Announced c' := by
  cases l with
  | spawn i p =>
      obtain ⟨henter, hi, rfl⟩ := Prog.next_spawn.mp hn
      refine h.move fun k => ?_
      rw [hi]
      cases p with
      | switches | announces | wraps => rfl
      | _ => cases henter
  | step i w =>
      obtain ⟨p, s, o, hp, hs, rfl⟩ := Prog.next_step.mp hn
      have hpositive : p.guards () ≤ c.shared.pending := by
        have hle := h.le hp ()
        omega
      refine h.move fun k => ?_
      rw [hp]
      exact (CapTask.steps hs).balance hpositive k
  | env a =>
      obtain ⟨s, hs, rfl⟩ := Prog.next_env.mp hn
      cases a
      obtain rfl := Option.some.inj hs
      exact h

/-- **A claim waits exactly while a fetch is coming.** Whatever switches, reconnects and failures
overlap, nothing is pending if and only if no task is between its announcement and the end of its
fetch. -/
theorem pending_iff_guarded (h : Unfetched s)
    (hr : run (capProg bondOf).next (Pool.idle s) ls = some c) :
    c.shared.pending = 0 ↔ ∀ i p, c.threads i = some p → p.guarded = false := by
  have hcount : Announced c := by
    refine run_inv (C := fun _ _ => True) (fun _ _ _ h _ hn => Announced.next h hn) ?_
      (along_true _ ls) hr
    exact counted_idle fun _ => h.pending
  constructor
  · intro hnone i p hp
    have hfree := hcount.unused (le_of_eq hnone) (k := ()) hp
    simpa [CapTask.guards] using hfree
  · intro hfree
    obtain ⟨users, -, hsum⟩ := hcount ()
    refine hsum.trans ((Nat.zero_add _).trans (Finset.sum_eq_zero fun i _ => ?_))
    cases hp : c.threads i with
    | none => rfl
    | some p =>
        show p.guarded.toNat = 0
        rw [hfree i p hp]
        rfl

/-- A switch is under way inside an Online sequence's fetch, and the fetch ends first. -/
theorem pending_iff_guarded_overlap :
    ∃ c, run (capProg fun _ => ()).next (Pool.idle { active := "a" })
        [.spawn 0 (.announces false), .step 0 {}, .step 0 {}, .spawn 1 (.switches "b"),
          .step 1 {}, .step 1 {}, .step 0 {}, .step 0 {}, .step 0 {}] = some c ∧
      c.shared.pending = 1 ∧ c.threads 0 = none ∧
      (c.shared.pending = 0 ↔ ∀ i p, c.threads i = some p → p.guarded = false) := by
  have hr : run (capProg fun _ => ()).next (Pool.idle { active := "a" })
      [.spawn 0 (.announces false), .step 0 {}, .step 0 {}, .spawn 1 (.switches "b"),
        .step 1 {}, .step 1 {}, .step 0 {}, .step 0 {}, .step 0 {}] = some _ := rfl
  exact ⟨_, hr, rfl, rfl, pending_iff_guarded ⟨rfl, rfl, rfl, rfl, rfl, rfl⟩ hr⟩

end MostroApp.Capabilities
