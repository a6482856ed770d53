import MostroApp.Lib.Mutex

set_option autoImplicit false

/-! # Coverage of the daemon's messages (`global_dm_keys`, `replace_global_dm_filter`)

Daemon messages are decrypted with a map of our trade keys, and the bulk subscription asks the
relays for what is addressed to them. A key joins the map at once; the filter follows: a create or
a take asks for a coalesced refresh, a restore seeds the map and refreshes, the start of the app
and a node switch seed it and subscribe for the active node. A replacement of the filter reads the
map under `DM_FILTER_LOCK`; the node it is authored by was read before.
-/

namespace MostroApp.DmCoverage

open Interleaving Transition

/-- The bulk Kind-14 filter. -/
structure DmFilter where
  authors : List String
  pubkeys : List String
  deriving DecidableEq, Repr

/-- The map from covered keys to their indices, the identity's counter, the active node, the nodes
of open claims and of live trades, the two flags, and the filter recorded for `mostro-dm`. -/
structure Coverage where
  keys : List (String × Nat) := []
  counter : Nat := 0
  active : String
  claimNodes : List String := []
  issuingNodes : List String := []
  armed : Bool := false
  locked : Bool := false
  filter : Option DmFilter := none
  deriving DecidableEq, Repr

def Coverage.pubkeys (s : Coverage) : List String := s.keys.map (·.1)

/-- A key joins the map; one that is there keeps its entry. -/
def Coverage.cover (key : String) (index : Nat) (s : Coverage) : Coverage :=
  if key ∈ s.pubkeys then s else { s with keys := s.keys ++ [(key, index)] }

/-- `seed_global_dm_coverage` merges what it has derived. -/
def Coverage.merge (derived : List (String × Nat)) (s : Coverage) : Coverage :=
  derived.foldl (fun s e => s.cover e.1 e.2) s

/-- What a seeding goes on to: `resubscribe_global_dm_filter`, or `subscribe_node_filters` for a
node read before. -/
inductive AfterSeed where
  | resubscribe
  | subscribe (node : String)
  deriving DecidableEq, Repr

/-- Where a task stands. -/
inductive CoverTask where
  /-- `ensure_global_dm_coverage`. -/
  | adds (key : String) (index : Nat)
  /-- `Coalesced::request`, then the window's task. -/
  | requests
  | sleeps
  /-- `resubscribe_global_dm_filter` reads the active node. -/
  | resubscribes
  /-- `seed_global_dm_coverage` reads the counter. -/
  | seeds (next : AfterSeed)
  | merges (counter : Nat) (next : AfterSeed)
  /-- `set_active_mostro_node`. -/
  | switches (node : String)
  /-- `refresh_subscriptions_for_active_node`, or the start of the subscription loop. -/
  | refreshes
  /-- `subscribe_node_filters`, before the daemon's messages. -/
  | subscribes (node : String)
  /-- `replace_global_dm_filter` waits for the lock; from `reads` on it has it. -/
  | waits (node : String)
  | reads (node : String)
  | gathers (node : String) (pubkeys : List String)
  | replaces (filter : DmFilter)
  | unlocks
  deriving DecidableEq, Repr

def AfterSeed.task : AfterSeed → CoverTask
  | .resubscribe => .resubscribes
  | .subscribe node => .subscribes node

/-- Whether the identity gives its keys; whether there is a pool, and it takes the subscriptions
before the bulk one. -/
structure CoverOracle where
  loads : Bool := true
  opens : Bool := true

variable (keyOf : Nat → String) (fromHex : String → Bool)

/-- `build_trade_key_map`. -/
def tradeKeys (counter : Nat) : List (String × Nat) :=
  (List.range counter).map fun i => (keyOf (i + 1), i + 1)

/-- The authors of the filter: the node, and every other one whose messages are still owed. -/
def dmAuthors (node : String) (s : Coverage) : List String :=
  (s.issuingNodes.filter fromHex).foldl
    (fun authors pk => if pk ∈ authors then authors else authors ++ [pk])
    (node :: (s.claimNodes.filter fromHex).filter (· ≠ node))

/-- A task's next step. -/
def CoverTask.step (w : CoverOracle) :
    CoverTask → Coverage → Option (Coverage × Option CoverTask)
  | .adds key index, s =>
      some (s.cover key index, if key ∈ s.pubkeys then none else some .requests)
  | .requests, s =>
      if s.armed then some (s, none) else some ({ s with armed := true }, some .sleeps)
  | .sleeps, s => some ({ s with armed := false }, some .resubscribes)
  | .resubscribes, s => some (s, if w.opens then some (.waits s.active) else none)
  | .seeds next, s => some (s, some (.merges s.counter next))
  | .merges counter next, s =>
      some (s.merge (if w.loads then tradeKeys keyOf counter else []), some next.task)
  | .switches node, s => some ({ s with active := node }, some .refreshes)
  | .refreshes, s => some (s, if w.opens then some (.seeds (.subscribe s.active)) else none)
  | .subscribes node, s => some (s, if w.opens then some (.waits node) else none)
  | .waits node, s =>
      if s.locked then none else some ({ s with locked := true }, some (.reads node))
  | .reads node, s =>
      some (s, some (if s.keys.isEmpty then .unlocks else .gathers node s.pubkeys))
  | .gathers node pubkeys, s => some (s, some (.replaces ⟨dmAuthors fromHex node s, pubkeys⟩))
  | .replaces filter, s => some ({ s with filter := some filter }, some .unlocks)
  | .unlocks, s => some ({ s with locked := false }, none)

/-- What goes on beside: keys are derived, claims and trades come and go. -/
inductive CoverAct where
  | counts (index : Nat)
  | claims (nodes : List String)
  | issues (nodes : List String)

def CoverAct.act (s : Coverage) : CoverAct → Coverage
  | .counts index => { s with counter := max s.counter index }
  | .claims nodes => { s with claimNodes := nodes }
  | .issues nodes => { s with issuingNodes := nodes }

/-- Any number of creates and takes, restores, refreshes, node switches and starts. -/
def coverProg : Prog Coverage CoverTask CoverOracle CoverAct where
  enter
    | .adds .. | .resubscribes | .seeds .resubscribe | .switches _ | .refreshes => true
    | _ => false
  tstep w p s := p.step keyOf fromHex w s
  act a s := some (a.act s)

/-! ## What a step leaves -/

/-- The steps one by one. -/
inductive CoverTask.Steps (w : CoverOracle) (s : Coverage) :
    CoverTask → Coverage → Option CoverTask → Prop where
  | covered (key : String) (index : Nat) (h : key ∈ s.pubkeys) : Steps w s (.adds key index) s none
  | added (key : String) (index : Nat) (h : key ∉ s.pubkeys) :
      Steps w s (.adds key index) { s with keys := s.keys ++ [(key, index)] } (some .requests)
  | rides (h : s.armed = true) : Steps w s .requests s none
  | arms (h : s.armed = false) : Steps w s .requests { s with armed := true } (some .sleeps)
  | fires : Steps w s .sleeps { s with armed := false } (some .resubscribes)
  | targets (h : w.opens = true) : Steps w s .resubscribes s (some (.waits s.active))
  | counted (next : AfterSeed) : Steps w s (.seeds next) s (some (.merges s.counter next))
  | merged (counter : Nat) (next : AfterSeed) (derived : List (String × Nat)) :
      Steps w s (.merges counter next) (s.merge derived) (some next.task)
  | switched (node : String) :
      Steps w s (.switches node) { s with active := node } (some .refreshes)
  | unaimed (h : w.opens = false) : Steps w s .resubscribes s none
  | unrefreshed (h : w.opens = false) : Steps w s .refreshes s none
  | refreshed (h : w.opens = true) :
      Steps w s .refreshes s (some (.seeds (.subscribe s.active)))
  | opened (node : String) (h : w.opens = true) :
      Steps w s (.subscribes node) s (some (.waits node))
  | unopened (node : String) (h : w.opens = false) : Steps w s (.subscribes node) s none
  | locks (node : String) (h : s.locked = false) :
      Steps w s (.waits node) { s with locked := true } (some (.reads node))
  | empty (node : String) (h : s.keys = []) : Steps w s (.reads node) s (some .unlocks)
  | read (node : String) (h : s.keys ≠ []) :
      Steps w s (.reads node) s (some (.gathers node s.pubkeys))
  | gathered (node : String) (pubkeys : List String) :
      Steps w s (.gathers node pubkeys) s (some (.replaces ⟨dmAuthors fromHex node s, pubkeys⟩))
  | replaced (filter : DmFilter) :
      Steps w s (.replaces filter) { s with filter := some filter } (some .unlocks)
  | unlocked : Steps w s .unlocks { s with locked := false } none

variable {keyOf fromHex} {w : CoverOracle} {p q : CoverTask} {s t : Coverage}
  {o : Option CoverTask}

theorem CoverTask.steps (h : p.step keyOf fromHex w s = some (t, o)) :
    p.Steps fromHex w s t o := by
  cases p with
  | adds key index =>
      simp only [CoverTask.step, Coverage.cover] at h
      split at h <;> cases h
      · next hmem => exact .covered key index hmem
      · next hmem => exact .added key index hmem
  | requests =>
      simp only [CoverTask.step] at h
      split at h <;> cases h
      · next hup => exact .rides hup
      · next hdown => exact .arms (by simpa using hdown)
  | subscribes node =>
      simp only [CoverTask.step] at h
      split at h <;> cases h
      · next hopen => exact .opened node hopen
      · next hopen => exact .unopened _ (by simpa using hopen)
  | resubscribes =>
      simp only [CoverTask.step] at h
      split at h <;> cases h
      · next hopen => exact .targets hopen
      · next hopen => exact .unaimed (by simpa using hopen)
  | refreshes =>
      simp only [CoverTask.step] at h
      split at h <;> cases h
      · next hopen => exact .refreshed hopen
      · next hopen => exact .unrefreshed (by simpa using hopen)
  | waits node =>
      simp only [CoverTask.step, Option.ite_none_left_eq_some] at h
      obtain ⟨hfree, heq⟩ := h
      cases heq
      exact .locks node (by simpa using hfree)
  | reads node =>
      simp only [CoverTask.step] at h
      split at h <;> cases h
      · next hempty => exact .empty node (List.isEmpty_iff.mp hempty)
      · next hsome => exact .read node fun hnil => hsome (List.isEmpty_iff.mpr hnil)
  | sleeps | seeds | merges | switches | gathers | replaces | unlocks =>
      cases h
      constructor

/-- Seeding adds keys and does nothing else. -/
theorem Coverage.merge_eq (derived : List (String × Nat)) (s : Coverage) :
    ∃ extra, s.merge derived = { s with keys := s.keys ++ extra } := by
  induction derived generalizing s with
  | nil => exact ⟨[], by simp [Coverage.merge]⟩
  | cons e derived ih =>
      show ∃ extra, (s.cover e.1 e.2).merge derived = { s with keys := s.keys ++ extra }
      obtain ⟨extra, hextra⟩ := ih (s.cover e.1 e.2)
      rw [hextra]
      unfold Coverage.cover
      split
      · exact ⟨extra, rfl⟩
      · exact ⟨(e.1, e.2) :: extra, by simp⟩

/-- No step takes a key out of the map or changes its entry, and only a replacement changes the
filter. -/
theorem CoverTask.Steps.frame (h : p.Steps fromHex w s t o) :
    s.keys <+: t.keys ∧ (t.filter = s.filter ∨ ∃ f, p = .replaces f ∧ t.filter = some f) := by
  cases h with
  | added => exact ⟨List.prefix_append _ _, Or.inl rfl⟩
  | merged counter next derived =>
      obtain ⟨extra, hextra⟩ := s.merge_eq derived
      rw [hextra]
      exact ⟨List.prefix_append _ _, Or.inl rfl⟩
  | replaced f => exact ⟨List.prefix_refl _, Or.inr ⟨f, rfl, rfl⟩⟩
  | _ => exact ⟨List.prefix_refl _, Or.inl rfl⟩

theorem pubkeys_subset (h : s.keys <+: t.keys) : s.pubkeys ⊆ t.pubkeys :=
  List.map_subset _ h.subset

/-! ## The window and the lock -/

def CoverTask.sleeping : CoverTask → Bool
  | .sleeps => true
  | _ => false

def CoverTask.holds : CoverTask → Bool
  | .reads _ | .gathers .. | .replaces _ | .unlocks => true
  | _ => false

theorem Coverage.merge_flags (derived : List (String × Nat)) (s : Coverage) :
    (s.merge derived).locked = s.locked ∧ (s.merge derived).armed = s.armed := by
  obtain ⟨extra, hextra⟩ := s.merge_eq derived
  rw [hextra]
  exact ⟨rfl, rfl⟩

/-- The window is armed exactly while its task sleeps. -/
theorem refreshWindow : Mutex (coverProg keyOf fromHex) Coverage.armed CoverTask.sleeping where
  enter p hp := by
    cases p with
    | sleeps => cases hp
    | _ => rfl
  take w p s t q h hp hq := by
    cases CoverTask.steps h with
    | arms hdown => exact ⟨hdown, rfl⟩
    | merged _ next => cases next <;> cases hq
    | _ => cases hq
  stay w p s t q h hp hq := by
    cases CoverTask.steps h with
    | fires => cases hq
    | _ => cases hp
  keep w p s t q h hp hq := by
    cases CoverTask.steps h with
    | arms => cases hq _ rfl
    | fires => cases hp
    | merged _ _ derived => exact (s.merge_flags derived).2
    | _ => rfl
  env a s t h := by
    obtain rfl := Option.some.inj h
    cases a <;> rfl

/-- `DM_FILTER_LOCK`. -/
theorem filterLock : Mutex (coverProg keyOf fromHex) Coverage.locked CoverTask.holds where
  enter p hp := by
    cases p with
    | reads | gathers | replaces | unlocks => cases hp
    | _ => rfl
  take w p s t q h hp hq := by
    cases CoverTask.steps h with
    | locks node hfree => exact ⟨hfree, rfl⟩
    | merged _ next => cases next <;> cases hq
    | empty | read | gathered | replaced => cases hp
    | _ => cases hq
  stay w p s t q h hp hq := by
    cases CoverTask.steps h with
    | empty | read | gathered | replaced => rfl
    | _ => cases hp
  keep w p s t q h hp hq := by
    cases CoverTask.steps h with
    | locks => cases hq _ rfl
    | empty | read | gathered | replaced | unlocked => cases hp
    | merged _ _ derived => exact (s.merge_flags derived).1
    | _ => rfl
  env a s t h := by
    obtain rfl := Option.some.inj h
    cases a <;> rfl

/-! ## The filter under the lock -/

/-- What was read of the map is in it still, and the filter holds nothing else. -/
structure Coverage.Read (s : Coverage) (pubkeys : List String) : Prop where
  nonempty : pubkeys ≠ []
  map : pubkeys ⊆ s.pubkeys
  filter : ∀ f, s.filter = some f → f.pubkeys ⊆ pubkeys

/-- The filter names keys of the map only, and at least one. -/
def Coverage.Within (s : Coverage) : Prop :=
  ∀ f, s.filter = some f → f.pubkeys ≠ [] ∧ f.pubkeys ⊆ s.pubkeys

def CoverTask.Holding : CoverTask → Coverage → Prop
  | .gathers _ pubkeys, s => s.Read pubkeys
  | .replaces filter, s => s.Read filter.pubkeys
  | _, _ => True

theorem Coverage.Read.grows {pubkeys : List String} (h : s.Read pubkeys) (hk : s.keys <+: t.keys)
    (hf : t.filter = s.filter) : t.Read pubkeys :=
  ⟨h.nonempty, List.Subset.trans h.map (pubkeys_subset hk), fun f hf' => h.filter f (hf ▸ hf')⟩

theorem Coverage.Within.grows (h : s.Within) (hk : s.keys <+: t.keys)
    (hf : t.filter = s.filter) : t.Within := fun f hf' =>
  ⟨(h f (hf ▸ hf')).1, List.Subset.trans (h f (hf ▸ hf')).2 (pubkeys_subset hk)⟩

theorem CoverAct.frame (a : CoverAct) (s : Coverage) :
    (a.act s).keys = s.keys ∧ (a.act s).filter = s.filter := by
  cases a <;> exact ⟨rfl, rfl⟩

/-- While the lock is one thread's, what a replacement has read is what the filter may hold. -/
theorem filterOutline : Outline (coverProg keyOf fromHex)
    (fun c _ => c.Alone Coverage.locked CoverTask.holds) Coverage.Within CoverTask.Holding := by
  constructor
  · intro c i p _ _ henter _
    cases p with
    | gathers | replaces => cases henter
    | _ => trivial
  · intro c i w p s o hc _ hp hs
    have hsteps := CoverTask.steps hs
    obtain ⟨hk, hf | ⟨f, rfl, hf⟩⟩ := hsteps.frame
    · exact hc.shared.grows hk hf
    -- A replaced filter has the keys its task read, and the map has only grown since.
    · obtain ⟨hne, hsub, -⟩ := hc.threads i _ hp
      intro f' hf'
      obtain rfl := Option.some.inj (hf.symm.trans hf')
      exact ⟨hne, List.Subset.trans hsub (pubkeys_subset hk)⟩
  · intro c i w p s p' hc _ hp hs
    have hA := hc.threads i p hp
    cases CoverTask.steps hs with
    | read node hne =>
        exact ⟨fun hnil => hne (List.map_eq_nil_iff.mp hnil), List.Subset.refl _,
          fun f hf => (hc.shared f hf).2⟩
    | gathered => exact hA
    | merged _ next => cases next <;> trivial
    | _ => trivial
  · intro c i w p s o j r hc halone hp hs hj hr
    have hA := hc.threads j r hr
    have hsteps := CoverTask.steps hs
    obtain ⟨hk, hf | ⟨f, rfl, -⟩⟩ := hsteps.frame
    · cases r with
      | gathers | replaces => exact Coverage.Read.grows hA hk hf
      | _ => trivial
    · -- the one that replaces has the lock
      have hfree : r.holds = false := halone.not_holds hp rfl hr hj
      cases r with
      | gathers | replaces => cases hfree
      | _ => trivial
  · intro c a s hc _ hs
    obtain rfl := Option.some.inj hs
    obtain ⟨hk, hf⟩ := a.frame c.shared
    exact hc.shared.grows (hk ▸ List.prefix_refl _) hf
  · intro c a s i p hc _ hs hp
    obtain rfl := Option.some.inj hs
    have hA := hc.threads i p hp
    obtain ⟨hk, hf⟩ := a.frame c.shared
    cases p with
    | gathers | replaces => exact Coverage.Read.grows hA (hk ▸ List.prefix_refl _) hf
    | _ => trivial

/-! ## Every interleaving -/

/-- The app before anything is covered. -/
structure Uncovered (s : Coverage) : Prop where
  keys : s.keys = []
  armed : s.armed = false
  locked : s.locked = false
  filter : s.filter = none

/-- What holds in every reachable state. -/
structure Guarded (c : Pool Coverage CoverTask) : Prop where
  inv : PoolInv Coverage.Within CoverTask.Holding c
  window : c.Alone Coverage.armed CoverTask.sleeping
  held : c.Held Coverage.armed CoverTask.sleeping
  alone : c.Alone Coverage.locked CoverTask.holds

variable {c c' : Pool Coverage CoverTask} {l : Label CoverTask CoverOracle CoverAct}

theorem guarded_idle (h : Uncovered s) : Guarded (Pool.idle s) where
  inv := poolInv_idle fun _ hf => (Option.some_ne_none _ (hf.symm.trans h.filter)).elim
  window := alone_idle s
  held := held_idle h.armed
  alone := alone_idle s

theorem Guarded.next (h : Guarded c) (hn : (coverProg keyOf fromHex).next c l = some c') :
    Guarded c' where
  inv := filterOutline.keep c l c' h.inv h.alone hn
  window := refreshWindow.next h.window hn
  held := by
    refine refreshWindow.held_next ?_ h.held hn
    intro w p s t o hs hp _
    cases CoverTask.steps hs with
    | fires => rfl
    | _ => cases hp
  alone := filterLock.next h.alone hn

/-- What one move leaves of the map and the filter. -/
theorem Guarded.grows (h : Guarded c) (hn : (coverProg keyOf fromHex).next c l = some c') :
    c.shared.keys <+: c'.shared.keys ∧
      ∀ f, c.shared.filter = some f →
        ∃ f', c'.shared.filter = some f' ∧ f.pubkeys ⊆ f'.pubkeys := by
  cases l with
  | spawn i p =>
      obtain ⟨-, -, rfl⟩ := Prog.next_spawn.mp hn
      exact ⟨List.prefix_refl _, fun f hf => ⟨f, hf, List.Subset.refl _⟩⟩
  | step i w =>
      obtain ⟨p, s, o, hp, hs, rfl⟩ := Prog.next_step.mp hn
      obtain ⟨hk, hf | ⟨f', rfl, hf⟩⟩ := (CoverTask.steps hs).frame
      · exact ⟨hk, fun f hold => ⟨f, hf.trans hold, List.Subset.refl _⟩⟩
      · exact ⟨hk, fun f hold => ⟨f', hf, (h.inv.threads i _ hp).filter f hold⟩⟩
  | env a =>
      obtain ⟨s, hs, rfl⟩ := Prog.next_env.mp hn
      obtain rfl := Option.some.inj hs
      obtain ⟨hk, hf⟩ := a.frame c.shared
      exact ⟨hk ▸ List.prefix_refl _, fun f hold => ⟨f, hf.trans hold, List.Subset.refl _⟩⟩

/-- The task will read the map, or has read the key in it and will name it in the filter. -/
def CoverTask.brings (k : String) : CoverTask → Prop
  | .adds .. | .unlocks => False
  | .gathers _ pubkeys => k ∈ pubkeys
  | .replaces filter => k ∈ filter.pubkeys
  | _ => True

/-- Every key of the map is in the filter, or is being brought to it. -/
def Owed (c : Pool Coverage CoverTask) : Prop :=
  ∀ k ∈ c.shared.pubkeys,
    (∃ f, c.shared.filter = some f ∧ k ∈ f.pubkeys) ∨ c.Any (CoverTask.brings k)

/-- The subscriptions before the bulk one are taken. -/
def Opens (_ : Pool Coverage CoverTask) : Label CoverTask CoverOracle CoverAct → Prop
  | .step _ w => w.opens = true
  | _ => True

instance (c : Pool Coverage CoverTask) (l : Label CoverTask CoverOracle CoverAct) :
    Decidable (Opens c l) := by
  unfold Opens
  split <;> infer_instance

/-- A key that is new in the map is brought by the task that has put it there. -/
theorem CoverTask.Steps.brings_new (h : p.Steps fromHex w s t o) {k : String}
    (hk : k ∈ t.pubkeys) (hnew : k ∉ s.pubkeys) : ∃ q, o = some q ∧ q.brings k := by
  cases h with
  | added => exact ⟨_, rfl, trivial⟩
  | merged _ next => cases next <;> exact ⟨_, rfl, trivial⟩
  | _ => exact absurd hk hnew

/-- A task that brings a key goes on to, has put it into the filter, or leaves it to the task of an
armed window. -/
theorem CoverTask.Steps.brings_on (h : p.Steps fromHex w s t o) (hopen : w.opens = true)
    {k : String} (hk : k ∈ s.pubkeys) (hp : p.brings k) :
    (∃ q, o = some q ∧ q.brings k) ∨ (∃ f, t.filter = some f ∧ k ∈ f.pubkeys) ∨
      p.sleeping = false ∧ s.armed = true := by
  cases h with
  | covered | added | unlocked => exact hp.elim
  | rides hup => exact Or.inr (Or.inr ⟨rfl, hup⟩)
  | merged _ next => cases next <;> exact Or.inl ⟨_, rfl, trivial⟩
  | unaimed hno | unrefreshed hno | unopened _ hno => exact absurd (hno.symm.trans hopen) nofun
  | empty _ hnil =>
      unfold Coverage.pubkeys at hk
      rw [hnil] at hk
      cases hk
  | read => exact Or.inl ⟨_, rfl, hk⟩
  | gathered => exact Or.inl ⟨_, rfl, hp⟩
  | replaced f => exact Or.inr (Or.inl ⟨f, rfl, hp⟩)
  | _ => exact Or.inl ⟨_, rfl, trivial⟩

theorem Owed.next (h : Owed c) (hg : Guarded c) (hopen : Opens c l)
    (hn : (coverProg keyOf fromHex).next c l = some c') : Owed c' := by
  have hfilter := (hg.grows hn).2
  intro k hk
  cases l with
  | spawn i p =>
      obtain ⟨-, hi, rfl⟩ := Prog.next_spawn.mp hn
      exact (h k hk).imp_right fun hany => hany.spawn hi
  | step i w =>
      obtain ⟨p, s, o, hp, hs, rfl⟩ := Prog.next_step.mp hn
      have hsteps := CoverTask.steps hs
      -- A key that is not new is heard already or somebody brings it; the step may be that task's.
      by_cases hold : k ∈ c.shared.pubkeys
      · rcases h k hold with ⟨f, hf, hkf⟩ | hany
        · obtain ⟨f', hf', hsub⟩ := hfilter f hf
          exact Or.inl ⟨f', hf', hsub hkf⟩
        rcases hany.split hp with hbrings | hother
        · rcases hsteps.brings_on hopen hold hbrings with ⟨q, rfl, hq⟩ | hf | ⟨hawake, hup⟩
          · exact Or.inr (Pool.any_self i s hq)
          · exact Or.inl hf
          · -- whoever sleeps for the window will read the map
            have hsleeps := ((hg.held hup).split hp).resolve_left fun hasleep =>
              absurd (hawake.symm.trans hasleep) nofun
            obtain ⟨j, r, hj, hr, hasleep⟩ := hsleeps
            have hr' : r.brings k := by
              cases r with
              | sleeps => trivial
              | _ => cases hasleep
            exact Or.inr ⟨j, r, (Function.update_of_ne hj ..).trans hr, hr'⟩
        · exact Or.inr (hother.any s o)
      -- A new key is brought by the task that has added it.
      · obtain ⟨q, rfl, hq⟩ := hsteps.brings_new hk hold
        exact Or.inr (Pool.any_self i s hq)
  | env a =>
      obtain ⟨s, hs, rfl⟩ := Prog.next_env.mp hn
      obtain rfl := Option.some.inj hs
      obtain ⟨hkeys, hf⟩ := a.frame c.shared
      have hold : k ∈ c.shared.pubkeys := by
        unfold Coverage.pubkeys at hk ⊢
        rw [← hkeys]
        exact hk
      exact (h k hold).imp_left fun ⟨f, hf', hkf⟩ => ⟨f, hf.trans hf', hkf⟩

/-! ## What the subscription hears -/

/-- `resolve_dm_recipient`: the first `p` tag that names a key of the map. -/
def Coverage.resolveDmRecipient (s : Coverage) (tags : List (List String)) :
    Option (String × Nat) :=
  tags.findSome? fun
    | "p" :: pk :: _ => (s.keys.lookup pk).map fun index => (pk, index)
    | _ => none

/-- An event that names a covered key has its recipient. -/
theorem resolves {tags : List (List String)} {k : String} {rest : List String}
    (htag : ("p" :: k :: rest) ∈ tags) (hk : k ∈ s.pubkeys) :
    (s.resolveDmRecipient tags).isSome = true := by
  unfold Coverage.resolveDmRecipient
  rw [List.findSome?_isSome_iff]
  refine ⟨"p" :: k :: rest, htag, ?_⟩
  obtain ⟨e, he, rfl⟩ := List.mem_map.mp hk
  show ((s.keys.lookup e.1).map fun index => (e.1, index)).isSome = true
  rw [Option.isSome_map, List.lookup_isSome_iff]
  exact ⟨e, he, beq_self_eq_true _⟩

/-- What a state that `ls` has led to listens for, and what becomes of it. -/
structure Listens (keyOf : Nat → String) (fromHex : String → Bool) (s : Coverage)
    (ls : List (Label CoverTask CoverOracle CoverAct)) (c : Pool Coverage CoverTask) : Prop where
  /-- What matches the filter is addressed to a key that the map decrypts with. -/
  decrypts : ∀ f, c.shared.filter = some f → ∀ tags k rest, ("p" :: k :: rest) ∈ tags →
    k ∈ f.pubkeys → (c.shared.resolveDmRecipient tags).isSome = true
  /-- However it goes on, no covered key loses its entry and no subscribed key is dropped. -/
  keeps : ∀ ls c', run (coverProg keyOf fromHex).next c ls = some c' →
    c.shared.keys <+: c'.shared.keys ∧
      ∀ f, c.shared.filter = some f → ∃ f', c'.shared.filter = some f' ∧ f.pubkeys ⊆ f'.pubkeys
  /-- At rest every key of the map is subscribed, if the subscriptions were taken. -/
  settled : Along (coverProg keyOf fromHex).next Opens (Pool.idle s) ls →
    (∀ i, c.threads i = none) → ∀ k ∈ c.shared.pubkeys,
      ∃ f, c.shared.filter = some f ∧ k ∈ f.pubkeys

theorem Guarded.keeps (h : Guarded c) {ls : List (Label CoverTask CoverOracle CoverAct)}
    (hr : run (coverProg keyOf fromHex).next c ls = some c') :
    c.shared.keys <+: c'.shared.keys ∧
      ∀ f, c.shared.filter = some f →
        ∃ f', c'.shared.filter = some f' ∧ f.pubkeys ⊆ f'.pubkeys := by
  induction ls generalizing c with
  | nil =>
      obtain rfl := Option.some.inj hr
      exact ⟨List.prefix_refl _, fun f hf => ⟨f, hf, List.Subset.refl _⟩⟩
  | cons l ls ih =>
      obtain ⟨c₁, h₁, hr⟩ := run_cons_eq_some.mp hr
      obtain ⟨hkeys, hfilter⟩ := h.grows h₁
      obtain ⟨hkeys', hfilter'⟩ := ih (h.next h₁) hr
      refine ⟨hkeys.trans hkeys', fun f hf => ?_⟩
      obtain ⟨f₁, hf₁, hsub⟩ := hfilter f hf
      obtain ⟨f', hf', hsub'⟩ := hfilter' f₁ hf₁
      exact ⟨f', hf', List.Subset.trans hsub hsub'⟩

theorem guarded_run {ls : List (Label CoverTask CoverOracle CoverAct)} (h : Uncovered s)
    (hr : run (coverProg keyOf fromHex).next (Pool.idle s) ls = some c) : Guarded c :=
  run_inv (fun _ _ _ h _ hn => h.next hn) (guarded_idle h) (along_true _ ls) hr

/-- What holds along every run that the subscriptions are taken in. -/
def Kept (c : Pool Coverage CoverTask) : Prop := Guarded c ∧ Owed c

theorem kept_run {ls : List (Label CoverTask CoverOracle CoverAct)} (h : Uncovered s)
    (hopen : Along (coverProg keyOf fromHex).next Opens (Pool.idle s) ls)
    (hr : run (coverProg keyOf fromHex).next (Pool.idle s) ls = some c) : Kept c := by
  have hstart : Owed (Pool.idle s : Pool Coverage CoverTask) := by
    intro k hk
    have hk : k ∈ s.keys.map (·.1) := hk
    rw [h.keys] at hk
    cases hk
  have hkept : Kept (Pool.idle s) := ⟨guarded_idle h, hstart⟩
  exact run_inv (fun _ _ _ h hopen hn => ⟨h.1.next hn, h.2.next h.1 hopen hn⟩) hkept hopen hr

/-- **No trade goes deaf.** In every interleaving of creates, takes, restores, refreshes and node
switches the filter asks for nothing the map cannot decrypt, covered and subscribed keys stay so
for ever, and once the tasks are through every key of the map is subscribed. -/
theorem covered_keys_listen {ls : List (Label CoverTask CoverOracle CoverAct)} (h : Uncovered s)
    (hr : run (coverProg keyOf fromHex).next (Pool.idle s) ls = some c) :
    Listens keyOf fromHex s ls c := by
  have hg : Guarded c := guarded_run h hr
  constructor
  · intro f hf tags k rest htag hk
    exact resolves htag ((hg.inv.shared f hf).2 hk)
  · intro ls' c' hr'
    exact hg.keeps hr'
  · intro hopen hdone k hk
    exact ((kept_run h hopen hr).2 k hk).resolve_right (Pool.not_any_idle hdone)

/-- The start of the app seeds one key, and the key of a create joins while that one replaces the
filter without it; the create's own refresh follows. -/
def joins : List (Label CoverTask CoverOracle CoverAct) :=
  [.spawn 0 .refreshes, .step 0 {}, .step 0 {}, .step 0 {}, .step 0 {}, .step 0 {}, .step 0 {},
    .env (.counts 2), .spawn 1 (.adds "k2" 2), .step 1 {}, .step 1 {}, .step 0 {}, .step 1 {},
    .step 1 {}, .step 0 {}, .step 0 {}, .step 1 {}, .step 1 {}, .step 1 {}, .step 1 {},
    .step 1 {}]

theorem covered_keys_listen_joined :
    ∃ c, run (coverProg (fun i => if i = 1 then "k1" else "k2") fun _ => true).next
        (Pool.idle { active := "node", counter := 1 }) joins = some c ∧
      c.shared.filter = some ⟨["node"], ["k1", "k2"]⟩ ∧
      Along (coverProg (fun i => if i = 1 then "k1" else "k2") fun _ => true).next Opens
        (Pool.idle { active := "node", counter := 1 }) joins ∧
      Listens (fun i => if i = 1 then "k1" else "k2") (fun _ => true)
        { active := "node", counter := 1 } joins c := by
  have hr : run (coverProg (fun i => if i = 1 then "k1" else "k2") fun _ => true).next
      (Pool.idle { active := "node", counter := 1 }) joins = some _ := rfl
  exact ⟨_, hr, rfl, by decide, covered_keys_listen ⟨rfl, rfl, rfl, rfl⟩ hr⟩

/-! ## Which node authors the filter -/

/-- The task has read the active node. -/
def CoverTask.aims : CoverTask → Bool
  | .seeds (.subscribe _) | .merges _ (.subscribe _) | .subscribes _ | .waits _ | .reads _
  | .gathers .. | .replaces _ => true
  | _ => false

/-- The node it will ask for, before any other. -/
def CoverTask.target : CoverTask → Option String
  | .seeds (.subscribe node) | .merges _ (.subscribe node) | .subscribes node | .waits node
  | .reads node | .gathers node _ => some node
  | .replaces filter => filter.authors.head?
  | _ => none

/-- A task that has read the active node has read the one active now. -/
def CoverTask.Aimed (p : CoverTask) (s : Coverage) : Prop :=
  p.aims = true → p.target = some s.active

/-- No node is switched to while a thread at `t` has read the active one. -/
def Aside (c : Pool Coverage CoverTask) :
    Label CoverTask CoverOracle CoverAct → Option CoverTask → Prop
  | .step i _, t =>
      match c.threads i, t with
      | some (.switches _), some q => q.aims = false
      | _, _ => True
  | _, _ => True

instance (c : Pool Coverage CoverTask) (l : Label CoverTask CoverOracle CoverAct)
    (t : Option CoverTask) : Decidable (Aside c l t) := by
  unfold Aside
  split
  · split <;> infer_instance
  · infer_instance

/-- No switch overtakes a task that has read the active node. -/
def OneAtATime (c : Pool Coverage CoverTask) (l : Label CoverTask CoverOracle CoverAct) : Prop :=
  ∀ j, Aside c l (c.threads j)

theorem aside_none : Aside c l none := by
  cases l with
  | step i w =>
      simp only [Aside]
      split
      · next hnone => cases hnone
      · trivial
  | _ => trivial

/-- The node read comes first among the authors. -/
theorem dmAuthors_head? (node : String) (s : Coverage) :
    (dmAuthors fromHex node s).head? = some node := by
  unfold dmAuthors
  generalize (s.claimNodes.filter fromHex).filter (· ≠ node) = rest
  generalize s.issuingNodes.filter fromHex = issuing
  induction issuing generalizing rest with
  | nil => rfl
  | cons pk issuing ih =>
      rw [List.foldl_cons]
      split
      · exact ih rest
      · exact ih (rest ++ [pk])

/-- A step goes on with the node it has read, or reads the one active now. -/
theorem CoverTask.Steps.aims_next (h : p.Steps fromHex w s t (some q)) (hp : p.Aimed s) :
    q.Aimed t := by
  cases h with
  | targets | refreshed => exact fun _ => rfl
  | counted next =>
      cases next with
      | subscribe => exact hp
      | resubscribe =>
          intro haims
          cases haims
  | merged counter next derived =>
      cases next with
      | subscribe node =>
          obtain ⟨extra, hextra⟩ := s.merge_eq derived
          rw [hextra]
          exact hp
      | resubscribe =>
          intro haims
          cases haims
  | gathered node =>
      intro _
      rw [← hp rfl]
      exact dmAuthors_head? node s
  | opened | locks | read => exact hp
  | added | arms | fires | switched | empty | replaced =>
      intro haims
      cases haims

/-- Only a switch changes the active node. -/
theorem CoverTask.Steps.active (h : p.Steps fromHex w s t o) :
    t.active = s.active ∨ p = .switches t.active ∧ o = some .refreshes := by
  cases h with
  | switched node => exact Or.inr ⟨rfl, rfl⟩
  | merged counter next derived =>
      obtain ⟨extra, hextra⟩ := s.merge_eq derived
      exact Or.inl (by rw [hextra])
  | _ => exact Or.inl rfl

theorem aimedOutline : Outline (coverProg keyOf fromHex) OneAtATime (fun _ => True)
    CoverTask.Aimed := by
  constructor
  · intro c i p _ _ henter _ haims
    cases p with
    | adds | resubscribes | switches | refreshes => cases haims
    | seeds next =>
        cases next with
        | resubscribe => cases haims
        | subscribe => cases henter
    | _ => cases henter
  · intros
    trivial
  · intro c i w p s q hc _ hp hs
    exact (CoverTask.steps hs).aims_next (hc.threads i p hp)
  · intro c i w p s o j r hc hapart hp hs hj hr haims
    rcases (CoverTask.steps hs).active with hsame | ⟨rfl, -⟩
    · rw [hsame]
      exact hc.threads j r hr haims
    · -- a switch finds no other task under way
      have hfree := hapart j
      simp only [Aside, hp, hr] at hfree
      exact absurd (hfree.symm.trans haims) nofun
  · intros
    trivial
  · intro c a s i p hc _ hs hp haims
    obtain rfl := Option.some.inj hs
    refine (hc.threads i p hp haims).trans ?_
    cases a <;> rfl

/-- The task will read the active node, or has read `node`. -/
def CoverTask.retargets (node : String) (p : CoverTask) : Prop :=
  p = .refreshes ∨ p.target = some node

/-- The filter is the active node's, or is being made so. -/
def Followed (c : Pool Coverage CoverTask) : Prop :=
  ∀ f, c.shared.filter = some f →
    f.authors.head? = some c.shared.active ∨ c.Any (CoverTask.retargets c.shared.active)

/-- A task that makes the filter the active node's goes on to, or has, or finds no filter. -/
theorem CoverTask.Steps.retargets_on (h : p.Steps fromHex w s t o) (hopen : w.opens = true)
    (hwithin : s.Within) (hp : p.retargets s.active) :
    (∃ q, o = some q ∧ q.retargets s.active) ∨ t.filter = none ∨
      ∃ f, t.filter = some f ∧ f.authors.head? = some s.active := by
  rcases hp with rfl | hp
  · cases h with
    | refreshed => exact Or.inl ⟨_, rfl, Or.inr rfl⟩
    | unrefreshed hno => exact absurd (hno.symm.trans hopen) nofun
  cases h with
  | counted next | merged _ next =>
      cases next with
      | subscribe => exact Or.inl ⟨_, rfl, Or.inr hp⟩
      | resubscribe => cases hp
  | opened | locks | read => exact Or.inl ⟨_, rfl, Or.inr hp⟩
  | unopened _ hno => exact absurd (hno.symm.trans hopen) nofun
  | gathered node =>
      refine Or.inl ⟨_, rfl, Or.inr ?_⟩
      rw [← hp]
      exact dmAuthors_head? node s
  | empty _ hnil =>
      -- nothing is covered, so nothing was ever subscribed
      refine Or.inr (Or.inl ?_)
      cases hf : s.filter with
      | none => rfl
      | some f =>
          obtain ⟨hne, hsub⟩ := hwithin f hf
          unfold Coverage.pubkeys at hsub
          rw [hnil] at hsub
          exact absurd (List.subset_nil.mp hsub) hne
  | replaced f => exact Or.inr (Or.inr ⟨f, rfl, hp⟩)
  | _ => cases hp

theorem Followed.next (h : Followed c) (hg : Guarded c)
    (haimed : PoolInv (fun _ => True) CoverTask.Aimed c) (hopen : Opens c l)
    (hn : (coverProg keyOf fromHex).next c l = some c') : Followed c' := by
  intro f hf
  cases l with
  | spawn i p =>
      obtain ⟨-, hi, rfl⟩ := Prog.next_spawn.mp hn
      exact (h f hf).imp_right fun hany => hany.spawn hi
  | step i w =>
      obtain ⟨p, s, o, hp, hs, rfl⟩ := Prog.next_step.mp hn
      have hsteps := CoverTask.steps hs
      rcases hsteps.active with hsame | ⟨-, rfl⟩
      · rcases hsteps.frame.2 with hfsame | ⟨f', rfl, hf'⟩
        · rw [hsame]
          rcases h f (hfsame ▸ hf) with hhead | hany
          · exact Or.inl hhead
          rcases hany.split hp with hme | hother
          · rcases hsteps.retargets_on hopen hg.inv.shared hme with ⟨q, rfl, hq⟩ | hnone | hset
            · exact Or.inr (Pool.any_self i s hq)
            · exact absurd (hnone.symm.trans hf) nofun
            · obtain ⟨f', hf', hhead⟩ := hset
              obtain rfl := Option.some.inj (hf.symm.trans hf')
              exact Or.inl hhead
          · exact Or.inr (hother.any s o)
        · obtain rfl := Option.some.inj (hf.symm.trans hf')
          rw [hsame]
          exact Or.inl (haimed.threads i _ hp rfl)
      · exact Or.inr (Pool.any_self i s (Or.inl rfl))
  | env a =>
      obtain ⟨s, hs, rfl⟩ := Prog.next_env.mp hn
      obtain rfl := Option.some.inj hs
      cases a <;> exact h f hf

/-- What holds along every run of one switch at a time that the subscriptions are taken in. -/
def Tracked (c : Pool Coverage CoverTask) : Prop :=
  Guarded c ∧ Followed c ∧ PoolInv (fun _ => True) CoverTask.Aimed c

/-- **The filter follows the active node.** Where no node is switched to between another task's
reading of the active node and its replacement, every replacement asks first for the node active
then. If the subscriptions were taken as well, the filter is the active node's once the tasks are
through. -/
theorem filter_follows_node {ls : List (Label CoverTask CoverOracle CoverAct)} (h : Uncovered s)
    (hone : Along (coverProg keyOf fromHex).next OneAtATime (Pool.idle s) ls)
    (hr : run (coverProg keyOf fromHex).next (Pool.idle s) ls = some c) :
    (∀ i f, c.threads i = some (.replaces f) → f.authors.head? = some c.shared.active) ∧
      (Along (coverProg keyOf fromHex).next Opens (Pool.idle s) ls →
        (∀ i, c.threads i = none) → ∀ f, c.shared.filter = some f →
          f.authors.head? = some c.shared.active) := by
  have haimed := aimedOutline.run_inv (poolInv_idle trivial) hone hr
  refine ⟨fun i f hi => haimed.threads i _ hi rfl, fun hopen hdone f hf => ?_⟩
  have hstart : Tracked (Pool.idle s) :=
    ⟨guarded_idle h, fun f hf => absurd (hf.symm.trans h.filter) nofun, poolInv_idle trivial⟩
  have hnext : ∀ c l c', Tracked c → OneAtATime c l ∧ Opens c l →
      (coverProg keyOf fromHex).next c l = some c' → Tracked c' := by
    rintro c l c' ⟨hg, hfollow, haimed⟩ ⟨hone, hopen⟩ hn
    exact ⟨hg.next hn, hfollow.next hg haimed hopen hn, aimedOutline.keep c l c' haimed hone hn⟩
  obtain ⟨-, hfollow, -⟩ := run_inv hnext hstart (hone.and hopen) hr
  exact (hfollow f hf).resolve_right (Pool.not_any_idle hdone)

/-- The start of the app, then a switch to another node. -/
def startThenSwitch : List (Label CoverTask CoverOracle CoverAct) :=
  .spawn 0 .refreshes :: List.replicate 9 (.step 0 {}) ++
    .spawn 0 (.switches "b") :: List.replicate 10 (.step 0 {})

theorem filter_follows_node_switched :
    ∃ c, run (coverProg (fun _ => "k1") fun _ => true).next
        (Pool.idle { active := "a", counter := 1 }) startThenSwitch = some c ∧
      c.shared.filter = some ⟨["b"], ["k1"]⟩ ∧
      ((∀ i, c.threads i = none) → ∀ f, c.shared.filter = some f →
        f.authors.head? = some c.shared.active) := by
  have hr : run (coverProg (fun _ => "k1") fun _ => true).next
      (Pool.idle { active := "a", counter := 1 }) startThenSwitch = some _ := rfl
  have hone := along_of_below 1 (fun c l _ => aside_none) (below_idle 1 _) rfl
    (show Along (coverProg (fun _ => "k1") fun _ => true).next
      (fun c l => ∀ j < 1, Aside c l (c.threads j)) (Pool.idle { active := "a", counter := 1 })
      startThenSwitch by decide)
  exact ⟨_, hr, rfl, (filter_follows_node ⟨rfl, rfl, rfl, rfl⟩ hone hr).2 (by decide)⟩

/-- Neither condition can go: a switch that overtakes a refresh is undone by it, and one whose
subscriptions are refused leaves the filter the former node's. -/
example :
    (run (coverProg (fun _ => "k1") fun _ => true).next
        (Pool.idle { active := "a", counter := 1 })
        (.spawn 0 .refreshes :: List.replicate 4 (.step 0 {}) ++
          .spawn 1 (.switches "b") :: List.replicate 10 (.step 1 {}) ++
          List.replicate 5 (.step 0 {}))).map
        (fun c => (c.shared.active, c.shared.filter, c.threads 0, c.threads 1)) =
      some ("b", some ⟨["a"], ["k1"]⟩, none, none) ∧
    (run (coverProg (fun _ => "k1") fun _ => true).next
        (Pool.idle { active := "a", counter := 1 })
        (.spawn 0 .refreshes :: List.replicate 9 (.step 0 {}) ++
          [.spawn 0 (.switches "b"), .step 0 {}, .step 0 { opens := false }])).map
        (fun c => (c.shared.active, c.shared.filter, c.threads 0)) =
      some ("b", some ⟨["a"], ["k1"]⟩, none) :=
  ⟨rfl, rfl⟩

end MostroApp.DmCoverage
