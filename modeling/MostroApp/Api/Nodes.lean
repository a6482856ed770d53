import MostroApp.Lib.Interleaving
import Mathlib.Data.Finset.Erase
import Mathlib.Data.Finset.Insert

set_option autoImplicit false

/-! # The Mostro node registry (`api/nodes.rs`, `set_active_mostro_node`)

The registry is the compiled-in trusted nodes and one persisted list of the user's own. Every
load-modify-save of the list, and the write of the active node, runs under one lock, so each of
these is a single step here. What a call reads outside the lock is a step of its own: above all
the active node, which `list_mostro_nodes` reads before it takes the lock and imports under it.
-/

namespace MostroApp.Nodes

open Interleaving Transition

/-! ## The records -/

/-- A user-added node as persisted. -/
structure CustomNode where
  pubkey : String
  name : Option String := none
  addedAt : Int := 0
  deriving DecidableEq, Repr

/-- Cached kind 0 profile fields. -/
structure NodeMetadata where
  name : Option String := none
  picture : Option String := none
  about : Option String := none
  website : Option String := none
  deriving DecidableEq, Repr

/-- `TrustedNodeConfig`. -/
structure TrustedNode where
  pubkey : String
  region : String
  deriving DecidableEq, Repr

structure MostroNodeEntry where
  pubkey : String
  region : Option String
  isTrusted : Bool
  isActive : Bool
  name : Option String
  picture : Option String
  about : Option String
  website : Option String
  deriving DecidableEq, Repr

/-- A kind 0 event as the SDK parses its content. -/
structure Profile where
  name : Option String := none
  displayName : Option String := none
  picture : Option String := none
  about : Option String := none
  website : Option String := none
  deriving DecidableEq, Repr

/-- The compiled-in registry, and what the standard library and the SDK do with a text:
`PublicKey::parse` gives lowercase hex or an error, `from_hex` accepts or gives one. -/
structure NodeEnv where
  trusted : List TrustedNode
  trim : String → String
  toLowercase : String → String
  parse : String → Except String String
  fromHexError : String → Option String

/-! ## Pure helpers -/

variable (env : NodeEnv)

/-- `parse_node_pubkey`. -/
def parseNodePubkey (input : String) : Except String String :=
  let trimmed := env.trim input
  if trimmed.toLower.startsWith "nsec" then
    .error "PrivateKeyNotAllowed: expected a public key, got an nsec"
  else
    (env.parse trimmed).mapError ("InvalidPubkey: " ++ ·)

/-- `normalize_name`. -/
def normalizeName (name : Option String) : Option String :=
  (name.map env.trim).filter (· ≠ "")

/-- `sanitize_https_url`. -/
def sanitizeHttpsUrl (url : Option String) : Option String :=
  (url.map env.trim).filter (·.startsWith "https://")

/-- `is_trusted_pubkey`. -/
def isTrustedPubkey (pubkey : String) : Bool := env.trusted.any (·.pubkey = pubkey)

/-- `drop_promoted_customs`. -/
def dropPromotedCustoms (custom : List CustomNode) : List CustomNode :=
  custom.filter fun n => !isTrustedPubkey env n.pubkey

/-- `needs_auto_import`. -/
def needsAutoImport (custom : List CustomNode) (active : String) : Bool :=
  !isTrustedPubkey env active && !custom.any (·.pubkey = active)

/-- `entry_from`. -/
def entryFrom (pubkey : String) (region : Option String) (isTrusted : Bool)
    (customName : Option String) (meta? : Option NodeMetadata) (active : String) :
    MostroNodeEntry where
  pubkey := pubkey
  region := region
  isTrusted := isTrusted
  isActive := pubkey = active
  name := customName.orElse fun _ => meta?.bind (·.name)
  picture := meta?.bind (·.picture)
  about := meta?.bind (·.about)
  website := meta?.bind (·.website)

/-- The metadata cache, a map by pubkey. -/
abbrev MetadataCache := List (String × NodeMetadata)

/-- The rows `list_mostro_nodes` returns: trusted first, then the user's own. -/
def entries (custom : List CustomNode) (cache : MetadataCache) (active : String) :
    List MostroNodeEntry :=
  env.trusted.map (fun n =>
      entryFrom n.pubkey (some n.region) true none (cache.lookup n.pubkey) active) ++
    custom.map fun n => entryFrom n.pubkey none false n.name (cache.lookup n.pubkey) active

/-- The list after promoted nodes are dropped and an unknown active one is imported. -/
def importActive (now : Int) (active : String) (custom : List CustomNode) : List CustomNode :=
  let kept := dropPromotedCustoms env custom
  if needsAutoImport env kept active then kept ++ [{ pubkey := active, addedAt := now }] else kept

/-- What one kind 0 event makes of the cache: the newest of a known author wins. -/
def cacheProfile (pubkeys : List String) (cache : MetadataCache × List String)
    (event : String × Option Profile) : MetadataCache × List String :=
  if event.1 ∉ pubkeys ∨ event.1 ∈ cache.2 then cache
  else
    match event.2 with
    -- an event that does not parse still counts as its author's newest
    | none => (cache.1, event.1 :: cache.2)
    | some p =>
        let row : NodeMetadata :=
          { name := normalizeName env (p.name.orElse fun _ => p.displayName)
            picture := sanitizeHttpsUrl env p.picture
            about := normalizeName env p.about
            website := sanitizeHttpsUrl env p.website }
        ((event.1, row) :: cache.1.filter (·.1 ≠ event.1), event.1 :: cache.2)

/-! ## What the import keeps -/

variable {env}

theorem not_any_pubkey {custom : List CustomNode} {p : String}
    (h : custom.any (·.pubkey = p) = false) : p ∉ custom.map (·.pubkey) := by
  intro hp
  obtain ⟨n, hn, rfl⟩ := List.mem_map.mp hp
  simpa using List.any_eq_false.mp h n hn

theorem isTrustedPubkey_iff {p : String} :
    isTrustedPubkey env p = true ↔ p ∈ env.trusted.map (·.pubkey) := by
  simp [isTrustedPubkey]

theorem mem_dropPromotedCustoms {custom : List CustomNode} {p : String} :
    p ∈ (dropPromotedCustoms env custom).map (·.pubkey) ↔
      p ∈ custom.map (·.pubkey) ∧ isTrustedPubkey env p = false := by
  simp only [dropPromotedCustoms, List.mem_map, List.mem_filter, Bool.not_eq_true']
  constructor
  · rintro ⟨n, ⟨hn, ht⟩, rfl⟩
    exact ⟨⟨n, hn, rfl⟩, ht⟩
  · rintro ⟨⟨n, hn, rfl⟩, ht⟩
    exact ⟨n, ⟨hn, ht⟩, rfl⟩

/-- A node with a pubkey of its own keeps the pubkeys distinct. -/
theorem nodup_append_custom {custom : List CustomNode} {n : CustomNode}
    (h : (custom.map (·.pubkey)).Nodup) (hn : n.pubkey ∉ custom.map (·.pubkey)) :
    ((custom ++ [n]).map (·.pubkey)).Nodup := by
  rw [List.map_append]
  refine List.nodup_append.mpr ⟨h, List.nodup_singleton _, ?_⟩
  rintro p hp q hq rfl
  obtain rfl : p = n.pubkey := List.mem_singleton.mp hq
  exact hn hp

theorem nodup_filter_custom {custom : List CustomNode} (f : CustomNode → Bool)
    (h : (custom.map (·.pubkey)).Nodup) : ((custom.filter f).map (·.pubkey)).Nodup :=
  h.sublist (List.filter_sublist.map _)

theorem nodup_importActive {custom : List CustomNode} (now : Int) (active : String)
    (h : (custom.map (·.pubkey)).Nodup) :
    ((importActive env now active custom).map (·.pubkey)).Nodup := by
  have hkept : ((dropPromotedCustoms env custom).map (·.pubkey)).Nodup := nodup_filter_custom _ h
  unfold importActive
  simp only
  split
  · next himp =>
    obtain ⟨-, hnew⟩ := Bool.and_eq_true_iff.mp himp
    exact nodup_append_custom hkept (not_any_pubkey (by simpa using hnew))
  · exact hkept

/-- The import brings in no node but the active one it was given. -/
theorem mem_of_mem_importActive {custom : List CustomNode} {now : Int} {active p : String}
    (h : p ∈ (importActive env now active custom).map (·.pubkey)) :
    p ∈ custom.map (·.pubkey) ∨ p = active := by
  unfold importActive at h
  simp only at h
  split at h
  · rw [List.map_append, List.mem_append] at h
    rcases h with h | h
    · exact Or.inl (mem_dropPromotedCustoms.mp h).1
    · exact Or.inr (List.mem_singleton.mp h)
  · exact Or.inl (mem_dropPromotedCustoms.mp h).1

/-- A node the list had is trusted by now or still in it. -/
theorem mem_importActive_of_mem {custom : List CustomNode} {now : Int} {active p : String}
    (h : p ∈ custom.map (·.pubkey)) :
    isTrustedPubkey env p = true ∨ p ∈ (importActive env now active custom).map (·.pubkey) := by
  cases ht : isTrustedPubkey env p with
  | true => exact Or.inl rfl
  | false =>
      have hkept := mem_dropPromotedCustoms.mpr ⟨h, ht⟩
      refine Or.inr ?_
      unfold importActive
      simp only
      split
      · rw [List.map_append]
        exact List.mem_append_left _ hkept
      · exact hkept

/-- The active node it is given is trusted or in the list it leaves. -/
theorem active_importActive (custom : List CustomNode) (now : Int) (active : String) :
    isTrustedPubkey env active = true ∨
      active ∈ (importActive env now active custom).map (·.pubkey) := by
  cases ht : isTrustedPubkey env active with
  | true => exact Or.inl rfl
  | false =>
      refine Or.inr ?_
      unfold importActive
      simp only
      split
      · rw [List.map_append]
        exact List.mem_append_right _ (List.mem_singleton.mpr rfl)
      · next himp =>
        have hany : (dropPromotedCustoms env custom).any (·.pubkey = active) = true := by
          simpa [needsAutoImport, ht] using himp
        obtain ⟨n, hn, hp⟩ := List.any_eq_true.mp hany
        exact List.mem_map.mpr ⟨n, hn, by simpa using hp⟩

theorem mem_entries {custom : List CustomNode} {cache : MetadataCache} {active p : String} :
    p ∈ (entries env custom cache active).map (·.pubkey) ↔
      isTrustedPubkey env p = true ∨ p ∈ custom.map (·.pubkey) := by
  rw [isTrustedPubkey_iff, entries, List.map_append, List.mem_append, List.map_map, List.map_map]
  exact Iff.rfl

/-! ## The calls -/

/-- The registry in storage and in memory: whether storage is up, the user's list, the metadata,
the active node in memory and as persisted, and the nodes whose removal ended well and that no
add or selection has been made of since. -/
structure NodeState where
  ready : Bool := true
  custom : List CustomNode := []
  cache : MetadataCache := []
  active : String
  storedActive : Option String := none
  removed : Finset String := ∅
  deriving DecidableEq

/-- What a call returns. -/
inductive Answer where
  | entries (rows : List MostroNodeEntry)
  | entry (row : MostroNodeEntry)
  | done
  | failed (message : String)
  deriving DecidableEq, Repr

/-- What a call does next; one that `answers` is about to return. -/
inductive NodeCall where
  | lists
  | listsLocked (active : String)
  | adds (input : String) (name : Option String)
  | addsLocked (pubkey : String) (name : Option String)
  | readsCache (pubkey : String) (name : Option String)
  | readsActive (pubkey : String) (name : Option String) (cache : MetadataCache)
  | removes (input : String)
  | removesLocked (pubkey : String)
  | selects (input : String)
  | selectsLocked (pubkey : String)
  | refollows
  | refreshes
  | fetches (pubkeys : List String)
  | caches (pubkeys : List String) (events : List (String × Option Profile))
  | answers (a : Answer)
  deriving DecidableEq, Repr

/-- What a step learns from outside: the clock, whether there is a relay pool, and its answer to a
fetch. -/
structure NodeOracle where
  now : Int := 0
  pool : Except String Unit := .ok ()
  fetched : Except String (List (String × Option Profile)) := .ok []

variable (env)

/-- One step of a call. -/
def NodeCall.step (w : NodeOracle) : NodeCall → NodeState → NodeState × Option NodeCall
  | .lists, s => (s, some (.listsLocked s.active))
  | .listsLocked active, s =>
      if s.ready = true then
        let custom := importActive env w.now active s.custom
        ({ s with custom := custom },
          some (.answers (.entries (entries env custom s.cache active))))
      else
        let custom := importActive env w.now active []
        (s, some (.answers (.entries (entries env custom [] active))))
  | .adds input name, s =>
      match parseNodePubkey env input with
      | .error message => (s, some (.answers (.failed message)))
      | .ok pubkey =>
          -- from here on an add of the node is under way
          let s := { s with removed := s.removed.erase pubkey }
          if s.ready = false then
            (s, some (.answers (.failed "NotInitialized: storage is not ready")))
          else if isTrustedPubkey env pubkey = true then
            (s, some (.answers (.failed ("NodeAlreadyExists: " ++ pubkey ++ " is a trusted node"))))
          else (s, some (.addsLocked pubkey (normalizeName env name)))
  | .addsLocked pubkey name, s =>
      if s.custom.any (·.pubkey = pubkey) = true then
        (s, some (.answers (.failed ("NodeAlreadyExists: " ++ pubkey ++ " was already added"))))
      else
        ({ s with custom := s.custom ++ [{ pubkey := pubkey, name := name, addedAt := w.now }] },
          some (.readsCache pubkey name))
  | .readsCache pubkey name, s => (s, some (.readsActive pubkey name s.cache))
  | .readsActive pubkey name cache, s =>
      (s, some (.answers (.entry
        (entryFrom pubkey none false name (cache.lookup pubkey) s.active))))
  | .removes input, s =>
      let pubkey := env.toLowercase input
      if isTrustedPubkey env pubkey = true then
        (s, some (.answers (.failed "NodeIsTrusted: compiled-in nodes cannot be removed")))
      else if s.ready = false then
        (s, some (.answers (.failed "NotInitialized: storage is not ready")))
      else (s, some (.removesLocked pubkey))
  | .removesLocked pubkey, s =>
      if pubkey = s.active then
        (s, some (.answers (.failed "CannotRemoveActiveNode: select another node first")))
      else
        ({ s with
            custom := s.custom.filter (·.pubkey ≠ pubkey)
            removed := insert pubkey s.removed },
          some (.answers .done))
  | .selects input, s =>
      let pubkey := env.toLowercase input
      match env.fromHexError pubkey with
      | some message => (s, some (.answers (.failed ("InvalidPubkey: " ++ message))))
      | none => ({ s with removed := s.removed.erase pubkey }, some (.selectsLocked pubkey))
  | .selectsLocked pubkey, s =>
      ({ s with
          active := pubkey
          storedActive := if s.ready = true then some pubkey else s.storedActive },
        some .refollows)
  -- the bond, subscription and push follow-ups of a selection leave the registry alone
  | .refollows, s => (s, some (.answers .done))
  | .refreshes, s =>
      match w.pool with
      | .error message => (s, some (.answers (.failed message)))
      | .ok () =>
          let known := if s.ready = true then s.custom.map (·.pubkey) else []
          (s, some (.fetches (env.trusted.map (·.pubkey) ++ known)))
  | .fetches pubkeys, s =>
      match w.fetched with
      | .error message => (s, some (.answers (.failed ("fetch_events failed: " ++ message))))
      | .ok events => (s, some (.caches pubkeys events))
  | .caches pubkeys events, s =>
      if s.ready = true then
        ({ s with cache := (events.foldl (cacheProfile env pubkeys) (s.cache, [])).1 },
          some .lists)
      else (s, some .lists)
  | .answers _, s => (s, none)

/-- Where each of the five calls begins. -/
def NodeCall.starts : NodeCall → Bool
  | .lists | .adds .. | .removes _ | .selects _ | .refreshes => true
  | _ => false

/-- Storage comes up while calls are under way. -/
inductive NodeAction where
  | storageUp
  deriving DecidableEq, Repr

/-- Any number of calls. -/
def nodeProg : Prog NodeState NodeCall NodeOracle NodeAction where
  enter := NodeCall.starts
  tstep w p s := some (p.step env w s)
  act _ s := some { s with ready := true }

/-! ## Calls that read the node still active -/

/-- The registry has the node. -/
def NodeState.registered (s : NodeState) (p : String) : Prop :=
  isTrustedPubkey env p = true ∨ s.ready = true ∧ p ∈ s.custom.map (·.pubkey)

/-- A call that lists the nodes returns, or is going to return, the active one: it read that node
as active, or finds it in the registry, or has it among its rows. -/
def NodeCall.shows (s : NodeState) : NodeCall → Prop
  | .listsLocked active => active = s.active ∨ s.registered env s.active
  | .answers (.entries rows) => s.active ∈ rows.map (·.pubkey)
  | _ => True

/-- A selection that has begun and not returned. -/
def NodeCall.selecting : NodeCall → Prop
  | .selects _ | .selectsLocked _ | .refollows => True
  | _ => False

/-- The call will make `p` a node of the registry, or the active one, at its turn at the lock. -/
def NodeCall.brings (p : String) : NodeCall → Prop
  | .addsLocked pubkey _ | .selectsLocked pubkey => pubkey = p
  | _ => False

/-- No node is imported that was removed since it was read as the active one; no add or selection
of a node is waiting for the lock when its removal ends; and when the last selection in progress
returns, every list call under way shows the node it leaves active. -/
structure ReadsActive (c : Pool NodeState NodeCall) (l : Label NodeCall NodeOracle NodeAction) :
    Prop where
  imports : ∀ i w active, l = .step i w → c.threads i = some (.listsLocked active) →
    active ∉ c.shared.removed
  removes : ∀ i w p, l = .step i w → c.threads i = some (.removesLocked p) → p ≠ c.shared.active →
    ¬ c.Any (NodeCall.brings p)
  selects : ∀ i w p, l = .step i w → c.threads i = some p → p.selecting →
    (∀ q, (p.step env w c.shared).2 = some q → ¬ q.selecting) → ¬ c.AnyBut i NodeCall.selecting →
    ∀ j q, c.threads j = some q → q.shows env c.shared

variable {env}

/-! ## What one step does to the registry -/

variable {w : NodeOracle} {p q : NodeCall} {s t : NodeState} {r : String}

/-- Only a selection at its turn moves the active node. -/
theorem NodeCall.step_active (h : ∀ r, p ≠ .selectsLocked r) :
    (p.step env w s).1.active = s.active := by
  cases p with
  | selectsLocked pubkey => exact absurd rfl (h pubkey)
  | listsLocked | adds | addsLocked | removes | removesLocked | selects | refreshes | fetches
  | caches =>
      simp only [NodeCall.step]
      repeat' split
      all_goals rfl
  | lists | readsCache | readsActive | refollows | answers => rfl

theorem NodeCall.step_ready : (p.step env w s).1.ready = s.ready := by
  cases p with
  | listsLocked | adds | addsLocked | removes | removesLocked | selects | refreshes | fetches
  | caches =>
      simp only [NodeCall.step]
      repeat' split
      all_goals rfl
  | lists | readsCache | readsActive | selectsLocked | refollows | answers => rfl

/-- The list after a step: what an import, an add or a removal makes of it. -/
theorem NodeCall.step_custom (env : NodeEnv) (w : NodeOracle) (p : NodeCall) (s : NodeState) :
    (p.step env w s).1.custom = s.custom ∨
      (∃ active, p = .listsLocked active ∧
        (p.step env w s).1.custom = importActive env w.now active s.custom) ∨
      (∃ n name, p = .addsLocked n.pubkey name ∧ n.pubkey ∉ s.custom.map (·.pubkey) ∧
        (p.step env w s).1.custom = s.custom ++ [n]) ∨
      ∃ r, p = .removesLocked r ∧ r ≠ s.active ∧
        (p.step env w s).1.custom = s.custom.filter (·.pubkey ≠ r) := by
  cases p with
  | listsLocked active =>
      simp only [NodeCall.step]
      split
      · exact Or.inr (Or.inl ⟨active, rfl, rfl⟩)
      · exact Or.inl rfl
  | addsLocked pubkey name =>
      simp only [NodeCall.step]
      split
      · exact Or.inl rfl
      · next hany =>
        refine Or.inr (Or.inr (Or.inl ⟨⟨pubkey, name, w.now⟩, name, rfl, ?_, rfl⟩))
        exact not_any_pubkey (by simpa using hany)
  | removesLocked r =>
      simp only [NodeCall.step]
      split
      · exact Or.inl rfl
      · next hne => exact Or.inr (Or.inr (Or.inr ⟨r, rfl, hne, rfl⟩))
  | adds | removes | selects | refreshes | fetches | caches =>
      refine Or.inl ?_
      simp only [NodeCall.step]
      repeat' split
      all_goals rfl
  | lists | readsCache | readsActive | selectsLocked | refollows | answers => exact Or.inl rfl

/-- A node is marked removed by its removal only. -/
theorem NodeCall.step_removed (h : r ∈ (p.step env w s).1.removed) :
    r ∈ s.removed ∨ p = .removesLocked r ∧ r ≠ s.active := by
  cases p with
  | adds input name =>
      simp only [NodeCall.step] at h
      split at h
      · exact Or.inl h
      · repeat' split at h
        all_goals exact Or.inl (Finset.mem_of_mem_erase h)
  | selects input =>
      simp only [NodeCall.step] at h
      split at h
      · exact Or.inl h
      · exact Or.inl (Finset.mem_of_mem_erase h)
  | removesLocked pubkey =>
      simp only [NodeCall.step] at h
      split at h
      · exact Or.inl h
      · next hne =>
        rcases Finset.mem_insert.mp h with rfl | h
        · exact Or.inr ⟨rfl, hne⟩
        · exact Or.inl h
  | listsLocked | addsLocked | removes | refreshes | fetches | caches =>
      simp only [NodeCall.step] at h
      repeat' split at h
      all_goals exact Or.inl h
  | lists | readsCache | readsActive | selectsLocked | refollows | answers => exact Or.inl h

/-- Whoever is about to bring a node in has unmarked it. -/
theorem NodeCall.step_brings (h : (p.step env w s).2 = some q) (hq : q.brings r) :
    r ∉ (p.step env w s).1.removed := by
  cases p with
  | adds input name =>
      cases hparse : parseNodePubkey env input with
      | error message =>
          simp only [NodeCall.step, hparse] at h
          obtain rfl := Option.some.inj h
          cases hq
      | ok pubkey =>
          simp only [NodeCall.step, hparse] at h ⊢
          by_cases hready : s.ready = false
          · rw [if_pos hready] at h
            obtain rfl := Option.some.inj h
            cases hq
          by_cases ht : isTrustedPubkey env pubkey = true
          · rw [if_neg hready, if_pos ht] at h
            obtain rfl := Option.some.inj h
            cases hq
          · rw [if_neg hready, if_neg ht] at h ⊢
            obtain rfl := Option.some.inj h
            obtain rfl : pubkey = r := hq
            exact Finset.notMem_erase _ _
  | selects input =>
      cases hhex : env.fromHexError (env.toLowercase input) with
      | some message =>
          simp only [NodeCall.step, hhex] at h
          obtain rfl := Option.some.inj h
          cases hq
      | none =>
          simp only [NodeCall.step, hhex] at h ⊢
          obtain rfl := Option.some.inj h
          obtain rfl : env.toLowercase input = r := hq
          exact Finset.notMem_erase _ _
  | listsLocked | addsLocked | removes | removesLocked | refreshes | fetches | caches =>
      simp only [NodeCall.step] at h
      repeat' split at h
      all_goals
        obtain rfl := Option.some.inj h
        cases hq
  | lists | readsCache | readsActive | selectsLocked | refollows =>
      obtain rfl := Option.some.inj h
      cases hq
  | answers => cases h

/-- The active node stays in the registry through every step but a selection's. -/
theorem NodeCall.step_registered (h : s.registered env s.active) :
    (p.step env w s).1.registered env s.active := by
  rcases h with h | ⟨hready, hmem⟩
  · exact Or.inl h
  have hready' : (p.step env w s).1.ready = true := NodeCall.step_ready.trans hready
  unfold NodeState.registered
  rcases NodeCall.step_custom env w p s with
    hc | ⟨active, -, hc⟩ | ⟨n, name, -, -, hc⟩ | ⟨r, -, hne, hc⟩
  · exact Or.inr ⟨hready', hc ▸ hmem⟩
  · rw [hc]
    exact (mem_importActive_of_mem hmem).imp_right fun hm => ⟨hready', hm⟩
  · rw [hc, List.map_append]
    exact Or.inr ⟨hready', List.mem_append_left _ hmem⟩
  · obtain ⟨n, hn, hp⟩ := List.mem_map.mp hmem
    rw [hc]
    refine Or.inr ⟨hready', List.mem_map.mpr ⟨n, List.mem_filter.mpr ⟨hn, ?_⟩, hp⟩⟩
    exact decide_eq_true fun he => hne (he.symm.trans hp)

theorem NodeCall.shows_mono (hactive : t.active = s.active)
    (hreg : s.registered env s.active → t.registered env s.active) (h : q.shows env s) :
    q.shows env t := by
  cases q with
  | listsLocked active =>
      show active = t.active ∨ t.registered env t.active
      rw [hactive]
      exact h.imp_right hreg
  | answers a =>
      cases a with
      | entries rows =>
          show t.active ∈ rows.map (·.pubkey)
          rw [hactive]
          exact h
      | entry | done | failed => trivial
  | lists | adds | addsLocked | readsCache | readsActive | removes | removesLocked | selects
  | selectsLocked | refollows | refreshes | fetches | caches => trivial

/-- A listing that shows the active node goes on to. -/
theorem NodeCall.step_shows (hp : p.shows env s) (h : (p.step env w s).2 = some q)
    (hsel : ¬ q.selecting) : q.shows env (p.step env w s).1 := by
  cases p with
  | lists =>
      obtain rfl := Option.some.inj h
      exact Or.inl rfl
  | listsLocked active =>
      by_cases hready : s.ready = true
      · simp only [NodeCall.step, if_pos hready] at h ⊢
        obtain rfl := Option.some.inj h
        refine mem_entries.mpr ?_
        rcases hp with rfl | hreg | ⟨-, hmem⟩
        · exact active_importActive s.custom w.now s.active
        · exact Or.inl hreg
        · exact mem_importActive_of_mem hmem
      · simp only [NodeCall.step, if_neg hready] at h ⊢
        obtain rfl := Option.some.inj h
        refine mem_entries.mpr ?_
        rcases hp with rfl | hreg | ⟨hup, -⟩
        · exact active_importActive [] w.now s.active
        · exact Or.inl hreg
        · exact absurd hup hready
  | adds | addsLocked | removes | removesLocked | selects | refreshes | fetches | caches =>
      simp only [NodeCall.step] at h
      repeat' split at h
      all_goals
        obtain rfl := Option.some.inj h
        trivial
  | readsCache | readsActive | selectsLocked | refollows =>
      obtain rfl := Option.some.inj h
      trivial
  | answers => cases h

theorem NodeCall.not_brings_of_starts (h : p.starts = true) : ¬ p.brings r := by
  cases p <;> first | exact id | cases h

/-! ## The invariant -/

/-- Pubkeys are distinct; with no selection in progress every list call shows the active node;
a removed node is neither in the list nor active, and no call is about to bring it back. -/
structure RegistryInv (env : NodeEnv) (c : Pool NodeState NodeCall) : Prop where
  distinct : (c.shared.custom.map (·.pubkey)).Nodup
  listed : ¬ c.Any NodeCall.selecting → ∀ i p, c.threads i = some p → p.shows env c.shared
  gone : ∀ r ∈ c.shared.removed, r ∉ c.shared.custom.map (·.pubkey) ∧ r ≠ c.shared.active
  apart : ∀ r ∈ c.shared.removed, ¬ c.Any (NodeCall.brings r)

variable {c : Pool NodeState NodeCall} {i : Nat}

theorem RegistryInv.distinct_step (hc : RegistryInv env c) :
    ((p.step env w c.shared).1.custom.map (·.pubkey)).Nodup := by
  rcases NodeCall.step_custom env w p c.shared with
    h | ⟨active, -, h⟩ | ⟨n, name, -, hnew, h⟩ | ⟨r, -, -, h⟩
  · rw [h]; exact hc.distinct
  · rw [h]; exact nodup_importActive w.now active hc.distinct
  · rw [h]; exact nodup_append_custom hc.distinct hnew
  · rw [h]; exact nodup_filter_custom _ hc.distinct

theorem RegistryInv.gone_step (hc : RegistryInv env c) (hC : ReadsActive env c (.step i w))
    (hp : c.threads i = some p) (hr : r ∈ (p.step env w c.shared).1.removed) :
    r ∉ (p.step env w c.shared).1.custom.map (·.pubkey) ∧
      r ≠ (p.step env w c.shared).1.active := by
  rcases NodeCall.step_removed hr with hold | ⟨rfl, hne⟩
  · obtain ⟨hnot, hactive⟩ := hc.gone r hold
    constructor
    · rcases NodeCall.step_custom env w p c.shared with
        h | ⟨active, rfl, h⟩ | ⟨n, name, rfl, -, h⟩ | ⟨r', -, -, h⟩
      · rw [h]; exact hnot
      · rw [h]
        intro hmem
        rcases mem_of_mem_importActive hmem with hmem | rfl
        · exact hnot hmem
        · exact hC.imports i w r rfl hp hold
      · rw [h, List.map_append, List.mem_append, not_or]
        refine ⟨hnot, fun hmem => hc.apart r hold ⟨i, _, hp, ?_⟩⟩
        exact (List.mem_singleton.mp hmem).symm
      · rw [h]
        exact fun hmem => hnot ((List.filter_sublist.map _).mem hmem)
    · by_cases hsel : ∃ r', p = .selectsLocked r'
      · obtain ⟨r', rfl⟩ := hsel
        rintro rfl
        exact hc.apart _ hold ⟨i, _, hp, rfl⟩
      · rw [NodeCall.step_active (not_exists.mp hsel)]
        exact hactive
  · simp only [NodeCall.step, if_neg hne]
    refine ⟨fun hmem => ?_, hne⟩
    obtain ⟨n, hn, hp⟩ := List.mem_map.mp hmem
    simpa [hp] using (List.mem_filter.mp hn).2

theorem RegistryInv.apart_step (hc : RegistryInv env c) (hC : ReadsActive env c (.step i w))
    (hp : c.threads i = some p) (hr : r ∈ (p.step env w c.shared).1.removed) :
    ¬ Pool.Any ⟨(p.step env w c.shared).1,
      Function.update c.threads i (p.step env w c.shared).2⟩ (NodeCall.brings r) := by
  rintro ⟨j, q, hq, hbrings⟩
  rcases threads_update hq with ⟨-, hnew⟩ | ⟨-, hold⟩
  · exact NodeCall.step_brings hnew hbrings hr
  · rcases NodeCall.step_removed hr with hmark | ⟨rfl, hne⟩
    · exact hc.apart r hmark ⟨j, q, hold, hbrings⟩
    · exact hC.removes i w r rfl hp hne ⟨j, q, hold, hbrings⟩

theorem RegistryInv.listed_step (hc : RegistryInv env c) (hC : ReadsActive env c (.step i w))
    (hp : c.threads i = some p)
    (hnone : ¬ Pool.Any ⟨(p.step env w c.shared).1,
      Function.update c.threads i (p.step env w c.shared).2⟩ NodeCall.selecting) (j : Nat)
    (hq : Function.update c.threads i (p.step env w c.shared).2 j = some q) :
    q.shows env (p.step env w c.shared).1 := by
  have hself : ∀ q, (p.step env w c.shared).2 = some q → ¬ q.selecting := fun q hnext hsel => by
    refine hnone ⟨i, q, ?_, hsel⟩
    show Function.update c.threads i (p.step env w c.shared).2 i = some q
    rw [Function.update_self]
    exact hnext
  have hothers : ¬ c.AnyBut i NodeCall.selecting := fun h => hnone (h.any _ _)
  -- the step ends the last selection, or there was none in progress before it
  have hall : ∀ j q, c.threads j = some q → q.shows env c.shared := by
    by_cases hsel : p.selecting
    · exact hC.selects i w p rfl hp hsel hself hothers
    · exact hc.listed fun hany => (hany.split hp).elim hsel hothers
  have hmoves : ∀ r, p ≠ .selectsLocked r := by
    rintro r rfl
    exact hself .refollows rfl trivial
  rcases threads_update hq with ⟨rfl, hnew⟩ | ⟨-, hold⟩
  · exact NodeCall.step_shows (hall _ p hp) hnew (hself q hnew)
  · exact NodeCall.shows_mono (NodeCall.step_active hmoves)
      NodeCall.step_registered (hall j q hold)

theorem registryInv_next {c' : Pool NodeState NodeCall}
    {l : Label NodeCall NodeOracle NodeAction} (hc : RegistryInv env c)
    (hC : ReadsActive env c l) (hn : (nodeProg env).next c l = some c') : RegistryInv env c' := by
  cases l with
  | spawn i p =>
      obtain ⟨hstart, hfree, rfl⟩ := Prog.next_spawn.mp hn
      refine ⟨hc.distinct, fun hnone j q hq => ?_, hc.gone, fun r hr => ?_⟩
      · rcases threads_update hq with ⟨-, hnew⟩ | ⟨-, hold⟩
        · obtain rfl := Option.some.inj hnew
          cases p <;> trivial
        · exact hc.listed (fun hany => hnone (hany.spawn hfree)) j q hold
      · rintro ⟨j, q, hq, hbrings⟩
        rcases threads_update hq with ⟨-, hnew⟩ | ⟨-, hold⟩
        · obtain rfl := Option.some.inj hnew
          exact NodeCall.not_brings_of_starts hstart hbrings
        · exact hc.apart r hr ⟨j, q, hold, hbrings⟩
  | step i w =>
      obtain ⟨p, s, q, hp, hs, rfl⟩ := Prog.next_step.mp hn
      have heq := Option.some.inj hs
      obtain rfl : (p.step env w c.shared).1 = s := congrArg Prod.fst heq
      obtain rfl : (p.step env w c.shared).2 = q := congrArg Prod.snd heq
      exact ⟨hc.distinct_step, fun hnone j q hq => hc.listed_step hC hp hnone j hq,
        fun r hr => hc.gone_step hC hp hr, fun r hr => hc.apart_step hC hp hr⟩
  | env a =>
      obtain ⟨s, hs, rfl⟩ := Prog.next_env.mp hn
      obtain rfl := Option.some.inj hs
      refine ⟨hc.distinct, fun hnone j q hq => ?_, hc.gone, hc.apart⟩
      refine NodeCall.shows_mono (s := c.shared) rfl (fun h => ?_) (hc.listed hnone j q hq)
      exact h.imp_right fun h => ⟨rfl, h.2⟩

/-! ## Every interleaving -/

/-- What holds of the registry at every moment. -/
structure RegistryRight (c : Pool NodeState NodeCall) : Prop where
  /-- No two custom entries have the same pubkey. -/
  distinct : (c.shared.custom.map (·.pubkey)).Nodup
  /-- A list call about to return has the active node among its rows. -/
  listed : ¬ c.Any NodeCall.selecting → ∀ i rows, c.threads i = some (.answers (.entries rows)) →
    c.shared.active ∈ rows.map (·.pubkey)
  /-- A removed node is not in the list. -/
  removed : ∀ r ∈ c.shared.removed, r ∉ c.shared.custom.map (·.pubkey)

/-- **A removed node stays removed**, and lists show the active node, in every run whose list
calls read a node that is still the active one. -/
theorem removed_node_stays_removed {ls : List (Label NodeCall NodeOracle NodeAction)}
    (hs : (s.custom.map (·.pubkey)).Nodup) (hnone : s.removed = ∅)
    (hC : Along (nodeProg env).next (ReadsActive env) (Pool.idle s) ls)
    (hr : run (nodeProg env).next (Pool.idle s) ls = some c) : RegistryRight c := by
  have hinv : RegistryInv env (Pool.idle s) := by
    refine ⟨hs, fun _ i p hp => ?_, fun r hr => ?_, fun r hr => ?_⟩
    · cases hp
    · exact absurd (show r ∈ s.removed from hr) (by simp [hnone])
    · exact absurd (show r ∈ s.removed from hr) (by simp [hnone])
  have hend := run_inv (fun _ _ _ hc hC hn => registryInv_next hc hC hn) hinv hC hr
  exact ⟨hend.distinct, fun hnone i rows hp => hend.listed hnone i _ hp,
    fun r hr => (hend.gone r hr).1⟩

/-! ## A removal in turn, and a list call that is overtaken -/

/-- `DEFAULT_MOSTRO_PUBKEY`. -/
def defaultNode : String := "82fa8cb978b43c79b2156585bac2c011176a21d2aead6d9f7c575c005be88390"

/-- A node of the user's. -/
def ownNode : String := "0000000000000000000000000000000000000000000000000000000000000001"

/-- The trusted registry with its default node, on pubkeys in lowercase hex. -/
def hexEnv : NodeEnv where
  trusted := [⟨defaultNode, "🌐"⟩]
  trim := id
  toLowercase := id
  parse := .ok
  fromHexError := fun _ => none

/-- What a call on its own has to meet: it imports no node that is marked removed. -/
def ImportsKept (c : Pool NodeState NodeCall) (l : Label NodeCall NodeOracle NodeAction) : Prop :=
  l.below 1 = true ∧
    match l with
    | .step i _ =>
        match c.threads i with
        | some (.listsLocked active) => active ∉ c.shared.removed
        | _ => True
    | _ => True

instance (c : Pool NodeState NodeCall) :
    ∀ l : Label NodeCall NodeOracle NodeAction, Decidable (ImportsKept c l)
  | .step i _ => by
      unfold ImportsKept
      refine @instDecidableAnd _ _ inferInstance ?_
      dsimp only
      split <;> infer_instance
  | .spawn .. => inferInstanceAs (Decidable (_ ∧ True))
  | .env _ => inferInstanceAs (Decidable (_ ∧ True))

theorem ImportsKept.readsActive {l : Label NodeCall NodeOracle NodeAction} (h : ImportsKept c l)
    (hc : Below 1 c) : ReadsActive env c l := by
  have only : ∀ j q, c.threads j = some q → j = 0 := by
    intro j q hq
    by_contra hj
    exact absurd (hq.symm.trans (hc j (Nat.one_le_iff_ne_zero.mpr hj))) nofun
  constructor
  · rintro i w active rfl hp
    have := h.2
    simp only [hp] at this
    exact this
  · rintro i w p rfl hp - ⟨j, q, hq, hbrings⟩
    obtain rfl := (only i _ hp).trans (only j q hq).symm
    obtain rfl := Option.some.inj (hp.symm.trans hq)
    cases hbrings
  · rintro i w p rfl hp hsel - - j q hq
    obtain rfl := (only i _ hp).trans (only j q hq).symm
    obtain rfl := Option.some.inj (hp.symm.trans hq)
    cases p <;> trivial

/-- The node is listed, the user goes back to the default one and removes it, and lists again. -/
def removedInTurn : List (Label NodeCall NodeOracle NodeAction) :=
  [.spawn 0 .lists, .step 0 {}, .step 0 {}, .step 0 {},
    .spawn 0 (.selects defaultNode), .step 0 {}, .step 0 {}, .step 0 {}, .step 0 {},
    .spawn 0 (.removes ownNode), .step 0 {}, .step 0 {}, .step 0 {},
    .spawn 0 .lists, .step 0 {}, .step 0 {}]

/-- The pubkeys of the rows a call is about to return. -/
def NodeCall.rows : NodeCall → List String
  | .answers (.entries rows) => rows.map (·.pubkey)
  | _ => []

/-- The list, the removed nodes and what the first call returns, after a run in which `ownNode` is
active at first. -/
def registryAfter (ls : List (Label NodeCall NodeOracle NodeAction)) :
    Option (List String × Finset String × List String) :=
  (run (nodeProg hexEnv).next (Pool.idle { active := ownNode }) ls).map fun c =>
    (c.shared.custom.map (·.pubkey), c.shared.removed,
      ((c.threads 0).map NodeCall.rows).getD [])

theorem removed_in_turn_stays_out :
    registryAfter removedInTurn = some ([], {ownNode}, [defaultNode]) ∧
      ∃ c, run (nodeProg hexEnv).next (Pool.idle { active := ownNode }) removedInTurn = some c ∧
        RegistryRight c := by
  refine ⟨by decide, ?_⟩
  have hkept : Along (nodeProg hexEnv).next ImportsKept (Pool.idle { active := ownNode })
      removedInTurn := by decide
  have hC : Along (nodeProg hexEnv).next (ReadsActive hexEnv) (Pool.idle { active := ownNode })
      removedInTurn :=
    along_of_inv (fun _ _ _ hc hk hn => hc.next hk.1 hn) (fun _ _ hc hk => hk.readsActive hc)
      (below_idle 1 _) hkept
  have hsome : (run (nodeProg hexEnv).next (Pool.idle { active := ownNode })
      removedInTurn).isSome = true := by decide
  obtain ⟨c, hr⟩ := Option.isSome_iff_exists.mp hsome
  have hs : (({ active := ownNode } : NodeState).custom.map (·.pubkey)).Nodup := List.nodup_nil
  exact ⟨c, hr, removed_node_stays_removed hs rfl hC hr⟩

/-- A list call has read the node as the active one; the user goes back to the default node and
removes the old one; then the list call takes the lock. -/
def overtakenList : List (Label NodeCall NodeOracle NodeAction) :=
  [.spawn 0 .lists, .step 0 {},
    .spawn 1 (.selects defaultNode), .step 1 {}, .step 1 {}, .step 1 {}, .step 1 {},
    .spawn 1 (.removes ownNode), .step 1 {}, .step 1 {}, .step 1 {},
    .step 0 {}]

/-- **The list call brings the removed node back.** And one that read the default node as active
returns without the node selected meanwhile. -/
theorem overtaken_list_resurrects :
    registryAfter overtakenList = some ([ownNode], {ownNode}, [defaultNode, ownNode]) ∧
      (run (nodeProg hexEnv).next (Pool.idle { active := defaultNode })
        [.spawn 0 .lists, .step 0 {}, .spawn 1 (.selects ownNode), .step 1 {}, .step 1 {},
          .step 1 {}, .step 1 {}, .step 0 {}]).map
        (fun c => (c.shared.active, c.threads 1, ((c.threads 0).map NodeCall.rows).getD [])) =
      some (ownNode, none, [defaultNode]) := by
  constructor <;> decide

end MostroApp.Nodes
