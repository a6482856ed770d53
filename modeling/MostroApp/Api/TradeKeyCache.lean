import MostroApp.Lib.Interleaving

set_option autoImplicit false

/-! # The trade-key index of an order (`api/orders.rs`)

An order's index is looked up in the in-memory map, then among the known misses, then in the
database, whose answer goes back into the map or into the misses. A store writes the map,
forgets the miss and saves the row. The file follows one order through every interleaving of
the steps of lookups and stores; each read and each write of one of the three places is a step.

Once a store has completed a lookup finds its index, as long as no lookup puts back a row it
read before a store of another index began, and stores of different indices do not overlap.
-/

namespace MostroApp.TradeKeys

open Interleaving Transition

/-! ## The three places and their users -/

/-- What the map, the misses and the database hold for the order, with the index of the store
that began last, that of the last store if it is complete, and, for every answered lookup, the
latter at its start beside its answer. -/
structure KeyPlaces where
  cached : Option Nat := none
  missed : Bool := false
  row : Option Nat := none
  latest : Option Nat := none
  stored : Option Nat := none
  answers : List (Option Nat × Option Nat) := []
  deriving DecidableEq, Repr

/-- What a lookup or a store does next. A lookup carries the index whose store was complete when
it started. -/
inductive KeyTask where
  | readsMap
  | readsMisses (due : Option Nat)
  | readsDb (due : Option Nat)
  | cachesRow (due : Option Nat) (index : Nat)
  | notesMiss (due : Option Nat)
  | insertsMap (index : Nat)
  | forgetsMiss (index : Nat)
  | savesRow (index : Nat)
  deriving DecidableEq, Repr

/-- `lookup_trade_key_index` is done. -/
def KeyPlaces.answer (due found : Option Nat) (s : KeyPlaces) : KeyPlaces :=
  { s with answers := (due, found) :: s.answers }

/-- One step; `reached` is whether the database takes the call. -/
def KeyTask.step (reached : Bool) : KeyTask → KeyPlaces → KeyPlaces × Option KeyTask
  | .readsMap, s =>
      match s.cached with
      | some index => (s.answer s.stored (some index), none)
      | none => (s, some (.readsMisses s.stored))
  | .readsMisses due, s =>
      if s.missed then (s.answer due none, none) else (s, some (.readsDb due))
  | .readsDb due, s =>
      -- a failed read is not evidence of absence
      if reached = false then (s.answer due none, none)
      else match s.row with
        | some index => (s, some (.cachesRow due index))
        | none => (s, some (.notesMiss due))
  | .cachesRow due index, s => (({ s with cached := some index }).answer due (some index), none)
  -- by now a store may have begun: the miss is noted all the same
  | .notesMiss due, s => (({ s with missed := true }).answer due none, none)
  -- memory first: a lookup finds the new index before the database has it
  | .insertsMap index, s =>
      ({ s with cached := some index, latest := some index, stored := none },
        some (.forgetsMiss index))
  | .forgetsMiss index, s => ({ s with missed := false }, some (.savesRow index))
  | .savesRow index, s =>
      ({ s with row := if reached then some index else s.row, stored := some index }, none)

/-- A lookup starts at the map, a store at its insertion. -/
def KeyTask.starts : KeyTask → Bool
  | .readsMap | .insertsMap _ => true
  | _ => false

/-- Another order's miss finds the set full, and clears it. -/
inductive Eviction where
  | misses
  deriving DecidableEq, Repr

/-- Lookups and stores of one order. -/
def keyProg : Prog KeyPlaces KeyTask Bool Eviction where
  enter := KeyTask.starts
  tstep w p s := some (p.step w s)
  act _ s := some { s with missed := false }

/-! ## Stores that do not overlap, and lookups that are not overtaken -/

/-- The index a store under way has put in the map. -/
def KeyTask.storing : KeyTask → Option Nat
  | .forgetsMiss index | .savesRow index => some index
  | _ => none

/-- A store begins while every other one under way is of its index; what a lookup puts back is
the index stored last. -/
def InTurn (c : Pool KeyPlaces KeyTask) (l : Label KeyTask Bool Eviction)
    (other : Option KeyTask) : Prop :=
  match l with
  | .step i _ =>
      match c.threads i with
      | some (.insertsMap index) => ∀ k ∈ other.bind KeyTask.storing, k = index
      | some (.cachesRow _ index) => ∀ k ∈ c.shared.latest, k = index
      | _ => True
  | _ => True

instance (c : Pool KeyPlaces KeyTask) (l : Label KeyTask Bool Eviction) (q : Option KeyTask) :
    Decidable (InTurn c l q) := by
  unfold InTurn
  split
  · split <;> infer_instance
  · infer_instance

/-- A lookup that started after a store was complete has answered with its index. -/
def Answered (s : KeyPlaces) : Prop := ∀ index found, (some index, found) ∈ s.answers →
  found = some index

/-! ## The proof outline -/

/-- The map holds the index stored last; every answer is right. -/
structure Coherent (s : KeyPlaces) : Prop where
  latest : ∀ index, s.latest = some index → s.cached = some index
  stored : ∀ index, s.stored = some index → s.latest = some index
  answered : Answered s

/-- A lookup past the map started with no store complete; a store under way is the latest. -/
def KeyTask.holds : KeyTask → KeyPlaces → Prop
  | .readsMisses due, _ | .readsDb due, _ | .cachesRow due _, _ | .notesMiss due, _ => due = none
  | .forgetsMiss index, s | .savesRow index, s => s.latest = some index
  | .readsMap, _ | .insertsMap _, _ => True

theorem Answered.answer {s : KeyPlaces} (h : Answered s) {due found : Option Nat}
    (hdue : ∀ index, due = some index → found = some index) : Answered (s.answer due found) := by
  intro index a hmem
  rcases List.mem_cons.mp hmem with heq | hmem
  · obtain ⟨hd, rfl⟩ := Prod.mk.inj heq
    exact hdue index hd.symm
  · exact h index a hmem

/-- An assertion reads the index stored last only. -/
theorem KeyTask.holds_congr {p : KeyTask} {s t : KeyPlaces} (h : t.latest = s.latest)
    (hp : p.holds s) : p.holds t := by
  cases p <;> simp_all [KeyTask.holds]

/-- Every step but a store's first leaves the index stored last alone. -/
theorem KeyTask.step_latest {w : Bool} {p : KeyTask} {s : KeyPlaces}
    (h : ∀ index, p ≠ .insertsMap index) : (p.step w s).1.latest = s.latest := by
  unfold KeyTask.step
  split
  all_goals first
    | rfl
    | (split <;> first | rfl | (split <;> rfl))
    | exact absurd rfl (h _)

/-- What a step finds in its thread's own assertion, and leaves for it. -/
theorem KeyTask.step_keeps {w : Bool} {p : KeyTask} {s : KeyPlaces} (hs : Coherent s)
    (hp : p.holds s) (hc : ∀ due index, p = .cachesRow due index → ∀ k ∈ s.latest, k = index) :
    Coherent (p.step w s).1 ∧ ∀ q, (p.step w s).2 = some q → q.holds (p.step w s).1 := by
  cases p with
  | readsMap =>
      cases hm : s.cached with
      | some index =>
          have hstep : KeyTask.readsMap.step w s = (s.answer s.stored (some index), none) := by
            simp [KeyTask.step, hm]
          rw [hstep]
          refine ⟨⟨hs.latest, hs.stored, hs.answered.answer fun k hk => ?_⟩, nofun⟩
          exact hm ▸ hs.latest k (hs.stored k hk)
      | none =>
          have hstep : KeyTask.readsMap.step w s = (s, some (.readsMisses s.stored)) := by
            simp [KeyTask.step, hm]
          rw [hstep]
          refine ⟨hs, fun q hq => ?_⟩
          obtain rfl := Option.some.inj hq
          show s.stored = none
          cases hst : s.stored with
          | none => rfl
          | some k => exact absurd (hm.symm.trans (hs.latest k (hs.stored k hst))) nofun
  | readsMisses due =>
      obtain rfl : due = none := hp
      simp only [KeyTask.step]
      split
      · exact ⟨⟨hs.latest, hs.stored, hs.answered.answer nofun⟩, nofun⟩
      · exact ⟨hs, fun q hq => Option.some.inj hq ▸ rfl⟩
  | readsDb due =>
      obtain rfl : due = none := hp
      simp only [KeyTask.step]
      split
      · exact ⟨⟨hs.latest, hs.stored, hs.answered.answer nofun⟩, nofun⟩
      · split <;> exact ⟨hs, fun q hq => Option.some.inj hq ▸ rfl⟩
  | cachesRow due index =>
      obtain rfl : due = none := hp
      refine ⟨⟨fun k hk => ?_, hs.stored, hs.answered.answer nofun⟩, nofun⟩
      exact congrArg some (hc none index rfl k hk).symm
  | notesMiss due =>
      obtain rfl : due = none := hp
      exact ⟨⟨hs.latest, hs.stored, hs.answered.answer nofun⟩, nofun⟩
  | insertsMap index =>
      refine ⟨⟨fun _ hk => hk, nofun, hs.answered⟩, fun q hq => ?_⟩
      obtain rfl := Option.some.inj hq
      rfl
  | forgetsMiss index =>
      refine ⟨⟨hs.latest, hs.stored, hs.answered⟩, fun q hq => ?_⟩
      obtain rfl := Option.some.inj hq
      exact hp
  | savesRow index =>
      refine ⟨⟨hs.latest, fun k hk => ?_, hs.answered⟩, nofun⟩
      obtain rfl := Option.some.inj hk
      exact hp

/-- A store's first step, beside a store under way. -/
theorem KeyTask.holds_inserted {p : KeyTask} {s : KeyPlaces} {w : Bool} {index : Nat}
    (hp : p.holds s) (hsame : ∀ k ∈ p.storing, k = index) :
    p.holds ((KeyTask.insertsMap index).step w s).1 := by
  cases p with
  | forgetsMiss k => exact congrArg some (hsame k rfl).symm
  | savesRow k => exact congrArg some (hsame k rfl).symm
  | readsMap => trivial
  | insertsMap k => trivial
  | readsMisses due => exact hp
  | readsDb due => exact hp
  | cachesRow due k => exact hp
  | notesMiss due => exact hp

theorem keyOutline :
    Outline keyProg (fun c l => ∀ j, InTurn c l (c.threads j)) Coherent KeyTask.holds := by
  have own : ∀ (c : Pool KeyPlaces KeyTask) i w p,
      PoolInv Coherent KeyTask.holds c → (∀ j, InTurn c (.step i w) (c.threads j)) →
      c.threads i = some p → Coherent (p.step w c.shared).1 ∧
        ∀ q, (p.step w c.shared).2 = some q → q.holds (p.step w c.shared).1 := by
    intro c i w p hc hC hp
    refine KeyTask.step_keeps hc.shared (hc.threads i p hp) fun due index hq => ?_
    have hi := hC i
    simp only [InTurn, hp, hq] at hi
    exact hi
  constructor
  · intro c i p _ _ henter _
    cases p <;> trivial
  · intro c i w p s q hc hC hp hs
    obtain rfl := congrArg Prod.fst (Option.some.inj hs)
    exact (own c i w p hc hC hp).1
  · intro c i w p s p' hc hC hp hs
    have heq := Option.some.inj hs
    obtain rfl := congrArg Prod.fst heq
    exact (own c i w p hc hC hp).2 p' (congrArg Prod.snd heq)
  · intro c i w p s q j r hc hC hp hs _ hr
    obtain rfl := congrArg Prod.fst (Option.some.inj hs)
    by_cases hins : ∃ index, p = .insertsMap index
    · obtain ⟨index, rfl⟩ := hins
      refine KeyTask.holds_inserted (hc.threads j r hr) ?_
      have hj := hC j
      simp only [InTurn, hp, hr] at hj
      exact hj
    · exact KeyTask.holds_congr (KeyTask.step_latest (not_exists.mp hins)) (hc.threads j r hr)
  · intro c a s hc _ hs
    obtain rfl := Option.some.inj hs
    exact ⟨hc.shared.latest, hc.shared.stored, hc.shared.answered⟩
  · intro c a s i p hc _ hs hp
    obtain rfl := Option.some.inj hs
    exact KeyTask.holds_congr (s := c.shared) rfl (hc.threads i p hp)

/-! ## Every interleaving -/

/-- **A completed store is what every later lookup finds**, whatever the map, the misses and the
database held at first, in any run in which every step is taken in turn. -/
theorem stored_index_found {s : KeyPlaces} {c : Pool KeyPlaces KeyTask}
    {ls : List (Label KeyTask Bool Eviction)} (hl : s.latest = none) (hs : s.stored = none)
    (ha : s.answers = [])
    (hC : Along keyProg.next (fun c l => ∀ j, InTurn c l (c.threads j)) (Pool.idle s) ls)
    (hr : run keyProg.next (Pool.idle s) ls = some c) : Answered c.shared := by
  refine (keyOutline.run_inv (poolInv_idle ⟨?_, ?_, ?_⟩) hC hr).shared.answered
  · exact fun k hk => absurd (hl.symm.trans hk) nofun
  · exact fun k hk => absurd (hs.symm.trans hk) nofun
  · intro k a hmem
    rw [ha] at hmem
    cases hmem

/-- A row of an earlier process is looked up, then index 9 is stored and looked up. -/
def lookupStoreLookup : List (Label KeyTask Bool Eviction) :=
  [.spawn 0 .readsMap, .step 0 true, .step 0 true, .step 0 true, .step 0 true,
    .spawn 1 (.insertsMap 9), .step 1 true, .step 1 true, .step 1 false,
    .spawn 2 .readsMap, .step 2 true]

theorem inTurn_none {c : Pool KeyPlaces KeyTask} {l : Label KeyTask Bool Eviction}
    {q : Option KeyTask} (h : InTurn c l q) : InTurn c l none := by
  unfold InTurn at h ⊢
  split
  · split
    · exact nofun
    · next hp => simpa only [hp] using h
    · trivial
  · trivial

theorem lookup_store_lookup_found :
    ∃ c, run keyProg.next (Pool.idle { row := some 5 }) lookupStoreLookup = some c ∧
      Answered c.shared ∧ c.shared.answers = [(some 9, some 9), (none, some 5)] := by
  have hC : Along keyProg.next (fun c l => ∀ j < 3, InTurn c l (c.threads j))
      (Pool.idle { row := some 5 }) lookupStoreLookup := by decide
  have hC := along_of_below 3 (fun c l h => inTurn_none (h 0 (by decide))) (below_idle 3 _) rfl hC
  have hend : (run keyProg.next (Pool.idle { row := some 5 }) lookupStoreLookup).map
      (·.shared.answers) = some [(some 9, some 9), (none, some 5)] := by decide
  obtain ⟨c, hr, ha⟩ := Option.map_eq_some_iff.mp hend
  exact ⟨c, hr, stored_index_found rfl rfl rfl hC hr, ha⟩

/-! ## A lookup overtaken by a store -/

/-- The row of an earlier process is read; a store of index 9 runs to its end; the lookup puts
the row it read into the map. -/
def overtakenLookup : List (Label KeyTask Bool Eviction) :=
  [.spawn 0 .readsMap, .step 0 true, .step 0 true, .step 0 true,
    .spawn 1 (.insertsMap 9), .step 1 true, .step 1 true, .step 1 true,
    .step 0 true, .spawn 2 .readsMap, .step 2 true]

/-- **A lookup that starts after the store of index 9 is complete finds index 5.** -/
theorem lookup_finds_stale_index :
    (run keyProg.next (Pool.idle { row := some 5 }) overtakenLookup).map (·.shared.answers) =
      some [(some 9, some 5), (none, some 5)] := by
  decide

end MostroApp.TradeKeys
