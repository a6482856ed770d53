import MostroApp.Api.OrderBook
import MostroApp.Lib.Interleaving

set_option autoImplicit false

/-! # The snapshot stream of the order book (`api/orders.rs`)

Next to the deltas the book is published whole. A writer takes the snapshot under the book's lock
and sends it after the lock is released; a removal takes it under the lock again; the relay firehose
arms a window, whose task takes and sends one snapshot when it closes. The screens show the last one
sent.
-/

namespace MostroApp.OrderBook

open Interleaving Transition

/-! ## The stream and its senders -/

/-- The book, the last snapshot sent, and `publish_scheduled`. -/
structure BookStream where
  book : BookState
  last : Option (List OrderInfo)
  scheduled : Bool

/-- A call of the book. The coalesced ones are the relay firehose's. -/
inductive BookCall where
  | setOrders (orders : List OrderInfo)
  | clear
  | upsertOrder (order : OrderInfo)
  | upsertOrderCoalesced (order : OrderInfo)
  | updateOrderStatus (orderId : String) (status : OrderStatus)
  | removeOrder (orderId : String)
  | removeOrderCoalesced (orderId : String)
  deriving DecidableEq, Repr

/-- Where a call stands, or the task of a window: `sleeps` is armed, `publishes` is about to take a
snapshot, `sends` has one. -/
inductive BookTask where
  | writes (call : BookCall)
  | schedules
  | sleeps
  | publishes
  | sends (snapshot : List OrderInfo)
  deriving DecidableEq, Repr

namespace BookTask

/-- The book after a call's locked part, and what the call does then. -/
def write : BookCall → BookState → BookState × Option BookTask
  | .setOrders orders, s =>
      ((s.replaceAll orders).1, some (.sends (s.replaceAll orders).1.snapshot))
  | .clear, s => (s.clear.1, some (.sends []))
  | .upsertOrder order, s => ((s.upsert order).1, some (.sends (s.upsert order).1.snapshot))
  | .upsertOrderCoalesced order, s => ((s.upsert order).1, some .schedules)
  | .updateOrderStatus orderId status, s =>
      match s.updateOrderStatus orderId status with
      | some (book, _) => (book, some (.sends book.snapshot))
      | none => (s, none)
  | .removeOrder orderId, s =>
      ((s.remove orderId).1, if (s.remove orderId).2 = none then none else some .publishes)
  | .removeOrderCoalesced orderId, s =>
      ((s.remove orderId).1, if (s.remove orderId).2 = none then none else some .schedules)

/-- One step. The window's flag is released before its snapshot is taken. -/
def step : BookTask → BookStream → BookStream × Option BookTask
  | .writes call, s => ({ s with book := (write call s.book).1 }, (write call s.book).2)
  | .schedules, s =>
      if s.scheduled then (s, none) else ({ s with scheduled := true }, some .sleeps)
  | .sleeps, s => ({ s with scheduled := false }, some .publishes)
  | .publishes, s => (s, some (.sends s.book.snapshot))
  | .sends snapshot, s => ({ s with last := some snapshot }, none)

/-- A call starts at its write; `publish` itself is called at the end of a bulk ingest. -/
def starts : BookTask → Bool
  | .writes _ | .publishes => true
  | _ => false

end BookTask

/-- Any number of calls. -/
def streamProg : Prog BookStream BookTask Unit Empty where
  enter := BookTask.starts
  tstep _ p s := some (p.step s)
  act := nofun

/-! ## Snapshots that are not the last word -/

/-- The task is sure to send the book as it is, or as some later write leaves it. -/
def BookTask.tells (book : BookState) : BookTask → Prop
  | .writes (.setOrders _) | .writes .clear | .writes (.upsertOrder _)
  | .writes (.upsertOrderCoalesced _) => True
  | .writes _ => False
  | .schedules | .sleeps | .publishes => True
  | .sends snapshot => snapshot = book.snapshot

/-- A snapshot the book has left behind is sent only while another task will still send it. -/
def LastWord (c : Pool BookStream BookTask) (l : Label BookTask Unit Empty) : Prop :=
  ∀ i snapshot, l = .step i () → c.threads i = some (.sends snapshot) →
    snapshot = c.shared.book.snapshot ∨ c.AnyBut i (BookTask.tells c.shared.book)

/-! ## The invariant -/

/-- The last snapshot sent is the book's, or none was sent and the book is empty. -/
def BookStream.Settled (s : BookStream) : Prop :=
  s.last = some s.book.snapshot ∨ s.last = none ∧ s.book.orders = ∅

/-- The stream has settled, or a task will still send the book; and an armed window has its task. -/
structure StreamOk (c : Pool BookStream BookTask) : Prop where
  settles : c.shared.Settled ∨ c.Any (BookTask.tells c.shared.book)
  armed : c.shared.scheduled = true → c.Any (· = .sleeps)

theorem streamOk_idle {s : BookStream} (hs : s.Settled) (harmed : s.scheduled = false) :
    StreamOk (Pool.idle s) :=
  ⟨Or.inl hs, fun h => absurd (harmed.symm.trans h) nofun⟩

/-- A write leads to a task that will send the book, or finds nothing to change. -/
theorem write_tells (call : BookCall) (s : BookState) :
    (∃ q, (BookTask.write call s).2 = some q ∧ q.tells (BookTask.write call s).1) ∨
      (BookTask.write call s).1 = s ∧ (BookTask.write call s).2 = none ∧
        ¬ (BookTask.writes call).tells s := by
  have removed : ∀ orderId, (s.remove orderId).2 = none → (s.remove orderId).1 = s := by
    intro orderId h
    unfold BookState.remove at h ⊢
    split at h
    · next hnone => rw [if_pos hnone]
    · cases h
  cases call with
  | setOrders orders => exact Or.inl ⟨_, rfl, rfl⟩
  | clear => exact Or.inl ⟨_, rfl, rfl⟩
  | upsertOrder order => exact Or.inl ⟨_, rfl, rfl⟩
  | upsertOrderCoalesced order => exact Or.inl ⟨_, rfl, trivial⟩
  | updateOrderStatus orderId status =>
      dsimp only [BookTask.write]
      split
      · exact Or.inl ⟨_, rfl, rfl⟩
      · exact Or.inr ⟨rfl, rfl, id⟩
  | removeOrder orderId =>
      dsimp only [BookTask.write]
      split
      · next h => exact Or.inr ⟨removed orderId h, rfl, id⟩
      · exact Or.inl ⟨_, rfl, trivial⟩
  | removeOrderCoalesced orderId =>
      dsimp only [BookTask.write]
      split
      · next h => exact Or.inr ⟨removed orderId h, rfl, id⟩
      · exact Or.inl ⟨_, rfl, trivial⟩

variable {c : Pool BookStream BookTask} {i : Nat} {p : BookTask}

/-- One step of a task. -/
theorem StreamOk.step (hc : StreamOk c) (hC : LastWord c (.step i ())) (hp : c.threads i = some p) :
    StreamOk ⟨(p.step c.shared).1, Function.update c.threads i (p.step c.shared).2⟩ := by
  -- a window's task other than the one that moves
  have keeps : p ≠ .sleeps → c.shared.scheduled = true → ∀ s q,
      Pool.Any ⟨s, Function.update c.threads i q⟩ (· = BookTask.sleeps) :=
    fun hne harmed s q => (((hc.armed harmed).split hp).resolve_left hne).any s q
  cases p with
  | writes call =>
      rcases write_tells call c.shared.book with ⟨q, hq, htells⟩ | ⟨hsame, hnone, hno⟩
      · refine ⟨Or.inr ?_, fun harmed => keeps nofun harmed _ _⟩
        simp only [BookTask.step, hq]
        exact Pool.any_self i _ htells
      · refine ⟨?_, fun harmed => keeps nofun harmed _ _⟩
        simp only [BookTask.step, hsame, hnone]
        exact hc.settles.imp_right fun h => ((h.split hp).resolve_left hno).any _ _
  | schedules =>
      simp only [BookTask.step]
      split
      · next harmed =>
        refine ⟨Or.inr ?_, fun harmed => keeps nofun harmed _ _⟩
        obtain ⟨j, q, hj, hq, rfl⟩ := ((hc.armed harmed).split hp).resolve_left nofun
        exact ⟨j, _, (Function.update_of_ne hj ..).trans hq, trivial⟩
      · exact ⟨Or.inr (Pool.any_self i _ trivial), fun _ => Pool.any_self i _ rfl⟩
  | sleeps => exact ⟨Or.inr (Pool.any_self i _ trivial), nofun⟩
  | publishes =>
      exact ⟨Or.inr (Pool.any_self i _ rfl), fun harmed => keeps nofun harmed _ _⟩
  | sends snapshot =>
      refine ⟨?_, fun harmed => keeps nofun harmed _ _⟩
      rcases hC i snapshot rfl hp with rfl | hother
      · exact Or.inl (Or.inl rfl)
      · exact Or.inr (hother.any _ _)

theorem StreamOk.next {c' : Pool BookStream BookTask} {l : Label BookTask Unit Empty}
    (hc : StreamOk c) (hC : LastWord c l) (hn : streamProg.next c l = some c') : StreamOk c' := by
  cases l with
  | spawn i p =>
      obtain ⟨-, hi, rfl⟩ := Prog.next_spawn.mp hn
      exact ⟨hc.settles.imp_right fun h => h.spawn hi, fun harmed => (hc.armed harmed).spawn hi⟩
  | step i w =>
      obtain ⟨p, s, q, hp, hs, rfl⟩ := Prog.next_step.mp hn
      have heq := Option.some.inj hs
      obtain rfl : (p.step c.shared).1 = s := congrArg Prod.fst heq
      obtain rfl : (p.step c.shared).2 = q := congrArg Prod.snd heq
      exact hc.step hC hp
  | env a => cases a

/-- **Once every call has finished and every window has closed, the last snapshot sent is the
book's**, in every run in which no older one is the last word. -/
theorem stream_ends_on_book {s : BookStream} {ls : List (Label BookTask Unit Empty)}
    (hs : s.Settled) (harmed : s.scheduled = false)
    (hC : Along streamProg.next LastWord (Pool.idle s) ls)
    (hr : run streamProg.next (Pool.idle s) ls = some c) (hdone : ∀ j, c.threads j = none) :
    c.shared.Settled := by
  have hend := run_inv (fun _ _ _ hc hC hn => StreamOk.next hc hC hn) (streamOk_idle hs harmed)
    hC hr
  exact hend.settles.resolve_right (Pool.not_any_idle hdone)

/-! ## Calls that send in turn, and two that do not -/

/-- The task has a snapshot the book has left behind. -/
def BookTask.stale (book : BookState) : BookTask → Bool
  | .sends snapshot => snapshot ≠ book.snapshot
  | _ => false

/-- What is sent is the book as it is. -/
def SendsCurrent (c : Pool BookStream BookTask) : Label BookTask Unit Empty → Prop
  | .step i _ => (c.threads i).all (fun p => !p.stale c.shared.book) = true
  | _ => True

instance (c : Pool BookStream BookTask) : ∀ l, Decidable (SendsCurrent c l)
  | .step _ _ => inferInstanceAs (Decidable (_ = _))
  | .spawn _ _ | .env _ => inferInstanceAs (Decidable True)

theorem SendsCurrent.lastWord {l : Label BookTask Unit Empty} (h : SendsCurrent c l) :
    LastWord c l := by
  rintro i snapshot rfl hp
  have h : (c.threads i).all (fun p => !p.stale c.shared.book) = true := h
  rw [hp] at h
  exact Or.inl (by simpa [BookTask.stale] using h)

/-- The stream of a book that was just made. -/
def newStream : BookStream := ⟨.empty, none, false⟩

/-- An order comes over the firehose and another is written by hand, which is removed again while
the first one's window is armed. -/
def inTurn : List (Label BookTask Unit Empty) :=
  [.spawn 0 (.writes (.upsertOrderCoalesced (pendingOrder "a" .sell))), .step 0 (), .step 0 (),
    .spawn 1 (.writes (.upsertOrder (pendingOrder "b" .buy))), .step 1 (), .step 1 (),
    .spawn 1 (.writes (.removeOrder "b")), .step 1 (), .step 1 (), .step 1 (), .step 0 (),
    .step 0 (), .step 0 ()]

theorem in_turn_ends_on_book :
    ∃ c, run streamProg.next (Pool.idle newStream) inTurn = some c ∧
      c.shared.last = some [pendingOrder "a" .sell] ∧ c.shared.Settled := by
  have hsome : (run streamProg.next (Pool.idle newStream) inTurn).isSome = true := by decide
  obtain ⟨c, hr⟩ := Option.isSome_iff_exists.mp hsome
  have hlast : (run streamProg.next (Pool.idle newStream) inTurn).map (fun c => c.shared.last) =
      some (some [pendingOrder "a" .sell]) := by decide
  have hfin : (run streamProg.next (Pool.idle newStream) inTurn).map (Pool.finished 2) =
      some true := by decide
  rw [hr] at hlast hfin
  have hC : Along streamProg.next SendsCurrent (Pool.idle newStream) inTurn := by decide
  have hbelow : Below 2 c := (below_idle 2 _).run rfl hr
  exact ⟨c, hr, Option.some.inj hlast,
    stream_ends_on_book (Or.inr ⟨rfl, rfl⟩) rfl (hC.mono fun _ _ h => h.lastWord) hr
      (hbelow.all_done (Option.some.inj hfin))⟩

/-- Two upserts write in turn and send in the other. -/
def outOfTurn : List (Label BookTask Unit Empty) :=
  [.spawn 0 (.writes (.upsertOrder (pendingOrder "a" .sell))), .step 0 (),
    .spawn 1 (.writes (.upsertOrder (pendingOrder "b" .buy))), .step 1 (), .step 1 (), .step 0 ()]

/-- **The first of two upserts sends last**: both calls have finished, and the screens are left
without the second order. -/
theorem out_of_turn_ends_behind :
    ∃ c, run streamProg.next (Pool.idle newStream) outOfTurn = some c ∧
      (∀ j, c.threads j = none) ∧ c.shared.last = some [pendingOrder "a" .sell] ∧
      c.shared.book.snapshot = [pendingOrder "a" .sell, pendingOrder "b" .buy] ∧
      ¬ c.shared.Settled := by
  have hsome : (run streamProg.next (Pool.idle newStream) outOfTurn).isSome = true := by decide
  obtain ⟨c, hr⟩ := Option.isSome_iff_exists.mp hsome
  have hread : (run streamProg.next (Pool.idle newStream) outOfTurn).map
      (fun c => (c.finished 2, c.shared.last, c.shared.book.snapshot)) =
        some (true, some [pendingOrder "a" .sell],
          [pendingOrder "a" .sell, pendingOrder "b" .buy]) := by decide
  simp only [hr, Option.map_some, Option.some.injEq, Prod.mk.injEq] at hread
  obtain ⟨hfin, hlast, hsnap⟩ := hread
  have hbelow : Below 2 c := (below_idle 2 _).run rfl hr
  refine ⟨c, hr, hbelow.all_done hfin, hlast, hsnap, ?_⟩
  rintro (h | ⟨h, -⟩)
  · rw [hlast, hsnap] at h
    exact absurd h (by decide)
  · exact absurd (hlast.symm.trans h) (Option.some_ne_none _)

end MostroApp.OrderBook
