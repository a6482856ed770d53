import MostroApp.Lib.Keyed

set_option autoImplicit false

/-! # Tasks that own a subscription by their generation (`messages.rs`, `orders.rs`)

A chat listener and a single-order listener each claim a key: the registry maps it to the generation
of the task that owns the subscription, and every claim takes a higher one. A task releases its
claim and then closes the subscription id, which the next owner opens again; a stop takes the claim
away and then closes the id as well. Release and close are two steps, and between them the id is
nobody's.

The two families differ in a claim of a key that is taken: a chat's bounces, a single order's takes
over, and its opening then replaces the REQ. A single order's claims and stops hold the order's
lock, a chat's do not. `stop_chat_subscriptions` goes through the two channels of an order, which
have a guard key and a subscription id each, one after the other.
-/

namespace MostroApp.Listeners

open Interleaving Transition

inductive Family where
  | chat
  | singleOrder
  deriving DecidableEq, Repr

/-! ## One key -/

/-- What there is of a key: the generation that owns it (`active_chats`, `single_order_tasks`), the
newest one claimed, those with a REQ open under the key's id, and whether a stop of it holds the
order's lock. -/
structure Listener where
  current : Option Nat := none
  newest : Nat := 0
  opened : List Nat := []
  stopping : Bool := false
  deriving DecidableEq, Repr

/-- A new generation. The counter is common to all keys, so `gap` generations went to others. -/
def Listener.claim (gap : Nat) (s : Listener) : Listener :=
  { s with current := some (s.newest + gap + 1), newest := s.newest + gap + 1 }

/-- `release_chat`, `release_single_order_task`. -/
def Listener.release (generation : Nat) (s : Listener) : Listener × Bool :=
  if s.current = some generation then ({ s with current := none }, true) else (s, false)

/-- `LiveSubs::close` of the key's id. -/
def Listener.close (s : Listener) : Listener := { s with opened := [] }

/-- `LiveSubs::open`. One relay may refuse the id that another one takes. -/
def Listener.open (generation : Nat) (s : Listener) : Listener :=
  { s with opened := generation :: s.opened }

/-- `LiveSubs::replace`. -/
def Listener.replace (generation : Nat) (s : Listener) : Listener := s.close.open generation

/-! ## Its tasks -/

/-- Where a listener or a stop stands. A stop remembers the generation it took the claim from. -/
inductive ListenTask where
  | claims (key : String)
  | opens (key : String) (generation : Nat) (replaced : Bool)
  | listens (key : String) (generation : Nat)
  | releases (key : String) (generation : Nat) (closing : Bool)
  | closes (key : String) (generation : Nat)
  | stops (key : String)
  | stopCloses (key : String) (generation : Nat)
  deriving DecidableEq, Repr

/-- How a step comes out: as intended; by its failure exit (a subscribe that fails, a listener that
ends, a trade that is not over); or without a relay pool. -/
inductive Outcome where
  | goes
  | fails
  | noPool
  deriving DecidableEq, Repr

structure Turn where
  outcome : Outcome := .goes
  gap : Nat := 0
  deriving DecidableEq, Repr

namespace ListenTask

def key : ListenTask → String
  | .claims key | .opens key _ _ | .listens key _ | .releases key _ _ | .closes key _
  | .stops key | .stopCloses key _ => key

/-- The generation of a listener. -/
def owner : ListenTask → Option (String × Nat)
  | .opens key g _ | .listens key g | .releases key g _ | .closes key g => some (key, g)
  | _ => none

/-- The generation that a task's next step closes the key's REQ for. -/
def closing : ListenTask → Option (String × Nat)
  | .opens key g true | .closes key g | .stopCloses key g => some (key, g)
  | _ => none

def step (family : Family) (w : Turn) :
    ListenTask → Listener → Option (Listener × Option ListenTask)
  | .claims key, s =>
      match family with
      | .chat =>
          if s.current.isSome then some (s, none)
          else some (s.claim w.gap, some (.opens key (s.newest + w.gap + 1) true))
      | .singleOrder =>
          if s.stopping then none
          else some (s.claim w.gap, some (.opens key (s.newest + w.gap + 1) s.current.isSome))
  | .opens key g replaced, s =>
      match w.outcome with
      | .noPool => some (s, some (.releases key g (family = .chat)))
      | .fails =>
          some (if replaced then s.close else s, some (.releases key g (family = .chat)))
      | .goes => some (if replaced then s.replace g else s.open g, some (.listens key g))
  | .listens key g, s =>
      if w.outcome = .goes ∧ s.current = some g then some (s, some (.listens key g))
      else some (s, some (.releases key g true))
  | .releases key g closing, s =>
      some ((s.release g).1,
        if closing && (s.release g).2 then some (.closes key g) else none)
  | .closes _ _, s =>
      if family = .chat ∧ w.outcome = .noPool then some (s, none) else some (s.close, none)
  | .stops key, s =>
      if family = .singleOrder ∧ s.stopping then none
      else if family = .singleOrder ∧ w.outcome = .fails then some (s, none)
      else
        match s.current with
        | none => some (s, none)
        | some g =>
            some ({ s with current := none, stopping := decide (family = .singleOrder) },
              some (.stopCloses key g))
  | .stopCloses _ _, s =>
      some ({ (if w.outcome = .noPool then s else s.close) with stopping := false }, none)

end ListenTask

/-- Any number of listeners and stops. -/
def listenProg (family : Family) : CellProg String Listener ListenTask Turn where
  key := ListenTask.key
  enter
    | .claims _ | .stops _ => true
    | _ => false
  cstep := ListenTask.step family

/-! ## An opening with no close under way -/

/-- When the newest generation opens its REQ, `t` is not about to close the key's REQ for an older
one. -/
def OpensAfter (c : Pool (String → Listener) ListenTask) (l : Label ListenTask Turn Empty)
    (t : Option ListenTask) : Prop :=
  match l with
  | .step i w =>
      match c.threads i with
      | some (.opens key g _) =>
          w.outcome = .goes → g = (c.shared key).newest →
            ∀ p ∈ t.bind ListenTask.closing, p.1 = key → p.2 = g
      | _ => True
  | _ => True

instance (c : Pool (String → Listener) ListenTask) (l : Label ListenTask Turn Empty)
    (t : Option ListenTask) : Decidable (OpensAfter c l t) := by
  unfold OpensAfter
  split
  · split <;> infer_instance
  · infer_instance

/-- No REQ is opened under a close that is still to come. -/
def OpensAlone (c : Pool (String → Listener) ListenTask) (l : Label ListenTask Turn Empty) : Prop :=
  ∀ j, OpensAfter c l (c.threads j)

/-! ## What one step does to its key -/

variable {family : Family} {w : Turn} {p q : ListenTask} {s t : Listener}

/-- A step claims a new generation, opens the REQ, takes the current claim away, closes the REQ, or
leaves all three as they are. -/
inductive ListenTask.Effect (w : Turn) (s : Listener) :
    ListenTask → Listener → Option ListenTask → Prop where
  | claims (key : String) (replaced : Bool) :
      Effect w s (.claims key) (s.claim w.gap) (some (.opens key (s.newest + w.gap + 1) replaced))
  | opens (key : String) (g : Nat) (replaced : Bool) : w.outcome = .goes →
      Effect w s (.opens key g replaced) (if replaced then s.replace g else s.open g)
        (some (.listens key g))
  | releases (key : String) (g : Nat) (closing : Bool) : s.current = some g →
      Effect w s (.releases key g closing) { s with current := none }
        (if closing then some (.closes key g) else none)
  | stops (key : String) (g : Nat) (stopping : Bool) : s.current = some g →
      Effect w s (.stops key) { s with current := none, stopping := stopping }
        (some (.stopCloses key g))
  | keeps (p : ListenTask) (t : Listener) (q : Option ListenTask) : t.current = s.current →
      t.newest = s.newest → t.opened = s.opened →
      (∀ r, q = some r → r.key = p.key ∧ r.owner = p.owner ∧ r.closing = none) → Effect w s p t q
  | shuts (p : ListenTask) (t : Listener) (q : Option ListenTask) (g : Nat) :
      p.closing = some (p.key, g) → t.current = s.current → t.newest = s.newest → t.opened = [] →
      (∀ r, q = some r → r.key = p.key ∧ r.owner = p.owner ∧ r.closing = none) → Effect w s p t q

theorem ListenTask.step_effect {q : Option ListenTask} (h : p.step family w s = some (t, q)) :
    p.Effect w s t q := by
  have stays : ∀ q, (∀ r, q = some r → r.key = p.key ∧ r.owner = p.owner ∧ r.closing = none) →
      p.Effect w s s q := fun q hq => .keeps p s q rfl rfl rfl hq
  cases p with
  | claims key =>
      cases family with
      | chat =>
          simp only [step] at h
          split at h
          · cases h; exact stays none nofun
          · cases h; exact .claims key true
      | singleOrder =>
          simp only [step] at h
          split at h
          · cases h
          · cases h; exact .claims key _
  | opens key g replaced =>
      have gives : ∀ r, (some (ListenTask.releases key g (decide (family = .chat)))) = some r →
          r.key = key ∧ r.owner = some (key, g) ∧ r.closing = none := by
        rintro r ⟨⟩
        exact ⟨rfl, rfl, rfl⟩
      simp only [step] at h
      split at h
      · cases h; exact stays _ gives
      · cases replaced with
        | true => cases h; exact .shuts _ _ _ g rfl rfl rfl rfl gives
        | false => cases h; exact stays _ gives
      · next hgoes => cases h; exact .opens key g replaced hgoes
  | listens key g =>
      simp only [step] at h
      split at h
      · cases h; exact stays _ fun r hr => Option.some.inj hr ▸ ⟨rfl, rfl, rfl⟩
      · cases h; exact stays _ fun r hr => Option.some.inj hr ▸ ⟨rfl, rfl, rfl⟩
  | releases key g closing =>
      simp only [step, Listener.release] at h
      split at h
      · next hcur =>
        cases closing with
        | true => cases h; exact .releases key g true hcur
        | false => cases h; exact .releases key g false hcur
      · cases closing with
        | true => cases h; exact stays none nofun
        | false => cases h; exact stays none nofun
  | closes key g =>
      simp only [step] at h
      split at h
      · cases h; exact stays none nofun
      · cases h; exact .shuts _ _ none g rfl rfl rfl rfl nofun
  | stops key =>
      simp only [step] at h
      split at h
      · cases h
      · split at h
        · cases h; exact stays none nofun
        · split at h
          · cases h; exact stays none nofun
          · next g hcur => cases h; exact .stops key g _ hcur
  | stopCloses key g =>
      simp only [step] at h
      split at h
      · cases h; exact .keeps _ _ none rfl rfl rfl nofun
      · cases h; exact .shuts _ _ none g rfl rfl rfl rfl nofun

/-! ## The invariant -/

/-- The current generation is the newest, and no REQ is of a generation to come. -/
structure ListenOk (s : Listener) : Prop where
  current : ∀ g, s.current = some g → g = s.newest
  opened : ∀ g ∈ s.opened, g ≤ s.newest

/-- A listener's generation has been claimed, and whoever is about to close the key's REQ does so
for the newest generation, if that one's is open. -/
structure ListenTask.Knows (p : ListenTask) (s : Listener) : Prop where
  owner : ∀ o ∈ p.owner, o.2 ≤ s.newest
  closing : ∀ o ∈ p.closing, s.newest ∈ s.opened → o.2 = s.newest

theorem ListenTask.Effect.ok {q : Option ListenTask} (h : p.Effect w s t q) (hs : ListenOk s)
    (hp : p.Knows s) : ListenOk t := by
  cases h with
  | claims key replaced =>
      refine ⟨fun g hg => (Option.some.inj hg).symm, fun g hg => ?_⟩
      have := hs.opened g hg
      show g ≤ s.newest + w.gap + 1
      omega
  | opens key g replaced =>
      have hg : g ≤ s.newest := hp.owner (key, g) rfl
      cases replaced with
      | true => exact ⟨hs.current, fun o ho => List.mem_singleton.mp ho ▸ hg⟩
      | false =>
          refine ⟨hs.current, fun o ho => ?_⟩
          rcases List.mem_cons.mp ho with rfl | ho
          · exact hg
          · exact hs.opened o ho
  | releases => exact ⟨nofun, hs.opened⟩
  | stops => exact ⟨nofun, hs.opened⟩
  | keeps _ _ _ hc hn ho =>
      exact ⟨fun g hg => hn ▸ hs.current g (hc ▸ hg), fun g hg => hn ▸ hs.opened g (ho ▸ hg)⟩
  | shuts _ _ _ _ _ hc hn ho =>
      exact ⟨fun g hg => hn ▸ hs.current g (hc ▸ hg), fun g hg => by simp [ho] at hg⟩

theorem ListenTask.Effect.self {o : Option ListenTask} (h : p.Effect w s t o) (hs : ListenOk s)
    (hp : p.Knows s) (ho : o = some q) : q.Knows t := by
  -- a task that only goes on closes nothing
  have goesOn : t.newest = s.newest → q.owner = p.owner ∧ q.closing = none → q.Knows t := by
    rintro hn ⟨howner, hclosing⟩
    exact ⟨fun x hx => hn ▸ hp.owner x (howner ▸ hx), fun x hx => by simp [hclosing] at hx⟩
  cases h with
  | claims key replaced =>
      obtain rfl := Option.some.inj ho
      refine ⟨fun x hx => ?_, fun x hx _ => ?_⟩
      · obtain rfl : (key, _) = x := Option.some.inj hx
        exact Nat.le_refl _
      · cases replaced with
        | true =>
            obtain rfl : (key, _) = x := Option.some.inj hx
            rfl
        | false => cases hx
  | opens key g replaced =>
      obtain rfl := Option.some.inj ho
      cases replaced <;> exact ⟨hp.owner, nofun⟩
  | releases key g closing hcur =>
      cases closing with
      | true =>
          obtain rfl := Option.some.inj ho
          refine ⟨hp.owner, fun x hx _ => ?_⟩
          obtain rfl : (key, g) = x := Option.some.inj hx
          exact hs.current g hcur
      | false => cases ho
  | stops key g _ hcur =>
      obtain rfl := Option.some.inj ho
      refine ⟨nofun, fun x hx _ => ?_⟩
      obtain rfl : (key, g) = x := Option.some.inj hx
      exact hs.current g hcur
  | keeps _ _ _ _ hn _ hq => exact goesOn hn (hq q ho).2
  | shuts _ _ _ _ _ _ hn _ hq => exact goesOn hn (hq q ho).2

theorem closing_key {o : String × Nat} (h : o ∈ p.closing) : o.1 = p.key := by
  cases p with
  | opens key g replaced =>
      cases replaced with
      | true => exact Option.some.inj h ▸ rfl
      | false => cases h
  | closes => exact Option.some.inj h ▸ rfl
  | stopCloses => exact Option.some.inj h ▸ rfl
  | _ => cases h

theorem owner_key {o : String × Nat} (h : o ∈ p.owner) : o.1 = p.key := by
  cases p with
  | opens | listens | releases | closes => exact Option.some.inj h ▸ rfl
  | _ => cases h

/-- The other tasks of the key: a new generation has no REQ open yet, and when it opens one nobody
is about to close it. -/
theorem ListenTask.Effect.other {r : ListenTask} {o : Option ListenTask} (h : p.Effect w s t o)
    (hs : ListenOk s) (hr : r.Knows s)
    (halone : ∀ key g replaced, p = .opens key g replaced → w.outcome = .goes → g = s.newest →
      ∀ x ∈ r.closing, x.2 = g) : r.Knows t := by
  cases h with
  | claims key replaced =>
      refine ⟨fun x hx => ?_, fun x _ hopen => ?_⟩
      · have := hr.owner x hx
        show x.2 ≤ s.newest + w.gap + 1
        omega
      · have hle : s.newest + w.gap + 1 ≤ s.newest := hs.opened _ hopen
        omega
  | opens key g replaced hgoes =>
      have hmem : s.newest ∈ (if replaced then s.replace g else s.open g).opened →
          g = s.newest ∨ s.newest ∈ s.opened := by
        cases replaced with
        | true => exact fun hm => Or.inl (List.mem_singleton.mp hm).symm
        | false => exact fun hm => (List.mem_cons.mp hm).imp Eq.symm id
      have hn : (if replaced then s.replace g else s.open g).newest = s.newest := by
        cases replaced <;> rfl
      refine ⟨fun x hx => hn ▸ hr.owner x hx, fun x hx hopen => ?_⟩
      rw [hn] at hopen ⊢
      rcases hmem hopen with hg | hold
      · exact (halone key g replaced rfl hgoes hg x hx).trans hg
      · exact hr.closing x hx hold
  | releases => exact ⟨hr.owner, hr.closing⟩
  | stops => exact ⟨hr.owner, hr.closing⟩
  | keeps _ _ _ _ hn ho =>
      refine ⟨fun x hx => hn ▸ hr.owner x hx, fun x hx hopen => ?_⟩
      rw [hn] at hopen ⊢
      exact hr.closing x hx (ho ▸ hopen)
  | shuts _ _ _ _ _ _ hn ho =>
      exact ⟨fun x hx => hn ▸ hr.owner x hx, fun x _ hopen => by simp [ho] at hopen⟩

theorem ListenTask.Effect.key {o : Option ListenTask} (h : p.Effect w s t o) (ho : o = some q) :
    q.key = p.key := by
  cases h with
  | releases key g closing =>
      cases closing with
      | true => exact Option.some.inj ho ▸ rfl
      | false => cases ho
  | keeps _ _ _ _ _ _ hq => exact (hq q ho).1
  | shuts _ _ _ _ _ _ _ _ hq => exact (hq q ho).1
  | _ => exact Option.some.inj ho ▸ rfl

theorem listenOutline :
    CellOutline (listenProg family) OpensAlone ListenOk fun p s => p.Knows s where
  key := fun _ _ _ _ _ h => (ListenTask.step_effect h).key rfl
  spawn := by
    intro p s hp _
    cases p with
    | claims | stops => exact ⟨nofun, nofun⟩
    | _ => cases hp
  shared := fun c i w p s' q _ _ hs hp h => (ListenTask.step_effect h).ok hs hp
  self := fun c i w p s' q _ _ hs hp h => (ListenTask.step_effect h).self hs hp rfl
  other := by
    intro c i w p s' q j r hC hi hs _ h hj hr hkey hk
    refine (ListenTask.step_effect h).other hs hk fun key g replaced hp hgoes hg x hx => ?_
    subst hp
    have halone := hC j
    simp only [OpensAfter, hi, hr] at halone
    exact halone hgoes hg x hx ((closing_key hx).trans hkey)

/-- A task's generation is the one it had, or a new one. -/
theorem ListenTask.Effect.owned {o : Option ListenTask} {x : String × Nat} (h : p.Effect w s t o)
    (ho : o = some q) (hq : q.owner = some x) :
    p.owner = some x ∨ x.1 = p.key ∧ s.newest < x.2 := by
  cases h with
  | claims key replaced =>
      obtain rfl := Option.some.inj ho
      obtain rfl : (key, s.newest + w.gap + 1) = x := Option.some.inj hq
      exact Or.inr ⟨rfl, by show s.newest < s.newest + w.gap + 1; omega⟩
  | opens =>
      obtain rfl := Option.some.inj ho
      exact Or.inl hq
  | releases key g closing =>
      cases closing with
      | true =>
          obtain rfl := Option.some.inj ho
          exact Or.inl hq
      | false => cases ho
  | stops => exact absurd (Option.some.inj ho ▸ hq) nofun
  | keeps _ _ _ _ _ _ hr => exact Or.inl ((hr q ho).2.1 ▸ hq)
  | shuts _ _ _ _ _ _ _ _ hr => exact Or.inl ((hr q ho).2.1 ▸ hq)

/-- The invariant of the pool: each task's own, and no two tasks of one generation. -/
structure ListenInv (c : Pool (String → Listener) ListenTask) : Prop where
  pool : PoolInv (fun s => ∀ k, ListenOk (s k)) (fun p s => p.Knows (s p.key)) c
  apart : c.Apart ListenTask.owner

theorem listenInv_idle : ListenInv (Pool.idle fun _ => {}) :=
  ⟨poolInv_idle fun _ => ⟨nofun, nofun⟩, apart_idle _⟩

theorem ListenInv.next {c c' : Pool (String → Listener) ListenTask}
    {l : Label ListenTask Turn Empty} (hc : ListenInv c) (hC : OpensAlone c l)
    (hn : (listenProg family).prog.next c l = some c') : ListenInv c' := by
  refine ⟨listenOutline.outline.keep c l c' hc.pool hC hn, ?_⟩
  cases l with
  | spawn i p =>
      obtain ⟨hp, -, rfl⟩ := Prog.next_spawn.mp hn
      refine hc.apart.update i c.shared fun r x hr hown => ?_
      obtain rfl := Option.some.inj hr
      cases p with
      | claims | stops => cases hown
      | _ => cases hp
  | step i w =>
      obtain ⟨p, s, q, hp, hs, rfl⟩ := Prog.next_step.mp hn
      obtain ⟨cell, hcell, rfl⟩ := CellProg.tstep_eq_some.mp hs
      refine hc.apart.update i _ fun r x hr hown => ?_
      rcases (ListenTask.step_effect hcell).owned hr hown with hold | ⟨hkey, hlt⟩
      · exact Or.inl ⟨p, hp, hold⟩
      · refine Or.inr fun j r' _ hr' howns => ?_
        have hle := (hc.pool.threads j r' hr').owner x howns
        rw [← owner_key howns, hkey] at hle
        exact absurd hlt (Nat.not_lt.mpr hle)
  | env a => cases a

/-! ## Only the owner closes -/

/-- No two tasks of one generation; the current generation of a key is the newest; and a step that
closes the REQ of the newest is of its owner, or of a stop that took its claim. -/
structure OwnerCloses (family : Family) (c : Pool (String → Listener) ListenTask) : Prop where
  apart : ∀ i j p q x, i ≠ j → c.threads i = some p → c.threads j = some q →
    p.owner = some x → q.owner ≠ some x
  current : ∀ key g, (c.shared key).current = some g → g = (c.shared key).newest
  closes : ∀ l c' key, (listenProg family).prog.next c l = some c' →
    (c.shared key).newest ∈ (c.shared key).opened → (c.shared key).newest ∉ (c'.shared key).opened →
    ∃ i w p, l = .step i w ∧ c.threads i = some p ∧
      p.closing = some (key, (c.shared key).newest)

/-- What is open after a step was, unless the task closed it. -/
theorem ListenTask.Effect.shut {o : Option ListenTask} {g : Nat} (h : p.Effect w s t o)
    (hg : g ∈ s.opened) (hnot : g ∉ t.opened) : ∃ g', p.closing = some (p.key, g') := by
  cases h with
  | claims | releases | stops => exact absurd hg hnot
  | opens key g' replaced =>
      cases replaced with
      | true => exact ⟨g', rfl⟩
      | false => exact absurd (List.mem_cons_of_mem _ hg) hnot
  | keeps _ _ _ _ _ ho => exact absurd (ho ▸ hg) hnot
  | shuts _ _ _ g' hclosing => exact ⟨g', hclosing⟩

theorem ListenInv.ownerCloses {c : Pool (String → Listener) ListenTask} (hc : ListenInv c) :
    OwnerCloses family c where
  apart := hc.apart
  current := fun key g hg => (hc.pool.shared key).current g hg
  closes := by
    intro l c' key hn hopen hnot
    cases l with
    | spawn i p =>
        obtain ⟨-, -, rfl⟩ := Prog.next_spawn.mp hn
        exact absurd hopen hnot
    | step i w =>
        obtain ⟨p, s, q, hp, hs, rfl⟩ := Prog.next_step.mp hn
        obtain ⟨cell, hcell, rfl⟩ := CellProg.tstep_eq_some.mp hs
        by_cases hkey : key = p.key
        · subst hkey
          have hcell : p.step family w (c.shared p.key) = some (cell, q) := hcell
          have hnot : (c.shared p.key).newest ∉ cell.opened := by
            simpa [listenProg] using hnot
          obtain ⟨g, hg⟩ := (ListenTask.step_effect hcell).shut hopen hnot
          have hnewest : g = (c.shared p.key).newest :=
            (hc.pool.threads i p hp).closing (p.key, g) hg hopen
          exact ⟨i, w, p, rfl, hp, hnewest ▸ hg⟩
        · have hsame : (Function.update c.shared p.key cell) key = c.shared key :=
            Function.update_of_ne hkey ..
          exact absurd (show _ ∈ ((Function.update c.shared p.key cell) key).opened from
            hsame ▸ hopen) hnot
    | env a => cases a

/-- **A superseded task closes nothing.** In every run in which no generation opens its REQ under a
close that is still to come, for either family and on any keys. -/
theorem superseded_closes_nothing {ls : List (Label ListenTask Turn Empty)}
    {c : Pool (String → Listener) ListenTask}
    (hC : Along (listenProg family).prog.next OpensAlone (Pool.idle fun _ => {}) ls)
    (hr : run (listenProg family).prog.next (Pool.idle fun _ => {}) ls = some c) :
    OwnerCloses family c :=
  (run_inv (fun _ _ _ hc hC hn => ListenInv.next hc hC hn) listenInv_idle hC hr).ownerCloses

/-! ## A successor after a stop, and one between a release and its close -/

theorem opensAfter_none {c : Pool (String → Listener) ListenTask}
    {l : Label ListenTask Turn Empty} {o : Option ListenTask} (_ : OpensAfter c l o) :
    OpensAfter c l none := by
  unfold OpensAfter
  split
  · split
    · exact fun _ _ _ hp => nomatch hp
    · trivial
  · trivial

/-- The stop of a listening task, its successor, and the end of both. -/
def stoppedThenSucceeded : List (Label ListenTask Turn Empty) :=
  [.spawn 0 (.claims "o"), .step 0 {}, .step 0 {}, .spawn 1 (.stops "o"), .step 1 {}, .step 1 {},
    .spawn 1 (.claims "o"), .step 1 {}, .step 1 {}, .step 0 {}, .step 0 {},
    .step 1 { outcome := .fails }, .step 1 {}]

/-- What a run leaves of the key, and where its first two tasks stand. -/
def listenersAfter (family : Family) (ls : List (Label ListenTask Turn Empty)) :
    Option (Listener × Option ListenTask × Option ListenTask) :=
  (run (listenProg family).prog.next (Pool.idle fun _ => {}) ls).map fun c =>
    (c.shared "o", c.threads 0, c.threads 1)

theorem stopped_then_succeeded :
    listenersAfter .chat stoppedThenSucceeded =
        some ({ newest := 2, opened := [2] }, none, some (.closes "o" 2)) ∧
      ∃ c, run (listenProg .chat).prog.next (Pool.idle fun _ => {}) stoppedThenSucceeded = some c ∧
        OwnerCloses .chat c := by
  refine ⟨by decide, ?_⟩
  have hsome : (run (listenProg .chat).prog.next (Pool.idle fun _ => {})
      stoppedThenSucceeded).isSome = true := by decide
  obtain ⟨c, hr⟩ := Option.isSome_iff_exists.mp hsome
  have hC := along_of_below 2 (fun c l h => opensAfter_none (h 0 (by decide)))
    (below_idle 2 _) rfl
    (show Along (listenProg .chat).prog.next (fun c l => ∀ j < 2, OpensAfter c l (c.threads j))
      (Pool.idle fun _ => {}) stoppedThenSucceeded by decide)
  exact ⟨c, hr, superseded_closes_nothing hC hr⟩

/-- A chat task has released its claim; the next one claims the chat and opens the id. -/
def chatBetween : List (Label ListenTask Turn Empty) :=
  [.spawn 0 (.claims "o"), .step 0 {}, .step 0 {}, .step 0 { outcome := .fails }, .step 0 {},
    .spawn 1 (.claims "o"), .step 1 {}, .step 1 {}]

/-- A single-order task has released its claim; two retakes claim the order, and the second one's
task, which replaced the first's, opens the id. -/
def singleOrderBetween : List (Label ListenTask Turn Empty) :=
  [.spawn 0 (.claims "o"), .step 0 {}, .step 0 {}, .step 0 { outcome := .fails }, .step 0 {},
    .spawn 2 (.claims "o"), .step 2 {}, .spawn 1 (.claims "o"), .step 1 {}, .step 1 {}]

/-- **A successor between a release and its close** loses its REQ to the task that has released. -/
theorem successor_closed_by_its_predecessor :
    listenersAfter .chat chatBetween =
        some ({ current := some 2, newest := 2, opened := [2] }, some (.closes "o" 1),
          some (.listens "o" 2)) ∧
      (∃ c, run (listenProg .chat).prog.next (Pool.idle fun _ => {}) chatBetween = some c ∧
        ¬ OwnerCloses .chat c) ∧
      listenersAfter .singleOrder singleOrderBetween =
        some ({ current := some 3, newest := 3, opened := [3] }, some (.closes "o" 1),
          some (.listens "o" 3)) ∧
      ∃ c, run (listenProg .singleOrder).prog.next (Pool.idle fun _ => {}) singleOrderBetween =
        some c ∧ ¬ OwnerCloses .singleOrder c := by
  refine ⟨by decide, ?_, by decide, ?_⟩
  · refine ⟨_, rfl, fun h => ?_⟩
    obtain ⟨i, w, p, hl, hp, hclosing⟩ :=
      h.closes (.step 0 {}) _ "o" rfl (by decide) (by decide)
    cases hl
    cases hp
    cases hclosing
  · refine ⟨_, rfl, fun h => ?_⟩
    obtain ⟨i, w, p, hl, hp, hclosing⟩ :=
      h.closes (.step 0 {}) _ "o" rfl (by decide) (by decide)
    cases hl
    cases hp
    cases hclosing

end MostroApp.Listeners
