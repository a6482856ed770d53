import MostroApp.Lib.Window

set_option autoImplicit false

/-! # The windows that suppress replays (`DedupWindow`, `BoundedIdSet`)

Both keep a set for lookups and a queue for eviction. The first records an id and then evicts, the
second makes room first. In step with each other (`Kept`), set and queue are the window of
`Lib/Window.lean`, whatever ids come (`dedup_windows_right`).
-/

namespace MostroApp.Dedup

open Window

/-! ## The window of the daemon's messages -/

structure DedupWindow where
  seen : Finset String := ∅
  order : List String := []
  deriving DecidableEq

/-- Whether the id is in the window already; `cap` is `DEDUP_MAX_ENTRIES`, 512 in the source. -/
def DedupWindow.record (cap : Nat) (eventId : String) (w : DedupWindow) : DedupWindow × Bool :=
  if eventId ∈ w.seen then (w, true)
  else
    let seen := insert eventId w.seen
    let order := w.order ++ [eventId]
    if cap < order.length then
      match order with
      | evicted :: order => (⟨seen.erase evicted, order⟩, false)
      | [] => (⟨seen, []⟩, false)
    else (⟨seen, order⟩, false)

/-! ## The outer ids of a chat -/

structure BoundedIdSet where
  set : Finset String
  order : List String
  cap : Nat
  deriving DecidableEq

def outerLruCap : Nat := 512

def BoundedIdSet.new (cap : Nat) : BoundedIdSet := ⟨∅, [], cap⟩

/-- `false` for an id that was present already. -/
def BoundedIdSet.insert (id : String) (s : BoundedIdSet) : BoundedIdSet × Bool :=
  if id ∈ s.set then (s, false)
  else
    let s :=
      if s.cap ≤ s.order.length then
        match s.order with
        | evicted :: order => { s with set := s.set.erase evicted, order := order }
        | [] => s
      else s
    ({ s with set := Insert.insert id s.set, order := s.order ++ [id] }, true)

/-! ## One step of each -/

variable {cap : Nat}

/-- The eviction after an id was pushed keeps the last ids. -/
theorem DedupWindow.record_window {w : DedupWindow} (id : String)
    (hw : Kept cap w.seen w.order) :
    Kept cap (w.record cap id).1.seen (w.record cap id).1.order ∧
      ((w.record cap id).1.order, !(w.record cap id).2) = remember cap w.order id := by
  unfold DedupWindow.record remember
  by_cases hid : id ∈ w.seen
  · rw [if_pos hid, if_pos ((hw.same id).mp hid)]
    exact ⟨hw, rfl⟩
  · rw [if_neg hid, if_neg fun hmem => hid ((hw.same id).mpr hmem)]
    have hpush := hw.push hid
    have hlen : (w.order ++ [id]).length = w.order.length + 1 := List.length_append
    have hbound := hw.bounded
    dsimp only
    by_cases hfull : cap < (w.order ++ [id]).length
    · rw [if_pos hfull]
      cases horder : w.order with
      | nil =>
          -- Without capacity the id just pushed is the one evicted.
          rw [horder] at hpush hbound hfull
          have hcap : cap = 0 := by simpa using hfull
          subst hcap
          exact ⟨hpush.pop, rfl⟩
      | cons evicted order =>
          rw [horder] at hpush hbound hlen hfull
          have hcap : (evicted :: order).length = cap := by omega
          exact ⟨hpush.pop, Prod.ext (rtake_full hcap).symm rfl⟩
    · rw [if_neg hfull]
      have hroom : (w.order ++ [id]).length ≤ cap := Nat.le_of_not_lt hfull
      exact ⟨hpush.of_length hroom, Prod.ext (rtake_of_length_le hroom).symm rfl⟩

/-- So does an eviction before it, where there is room for an id at all. -/
theorem BoundedIdSet.insert_window {s : BoundedIdSet} (id : String) (hcap : 0 < s.cap)
    (hs : Kept s.cap s.set s.order) :
    (s.insert id).1.cap = s.cap ∧ Kept s.cap (s.insert id).1.set (s.insert id).1.order ∧
      ((s.insert id).1.order, (s.insert id).2) = remember s.cap s.order id := by
  unfold BoundedIdSet.insert remember
  by_cases hid : id ∈ s.set
  · rw [if_pos hid, if_pos ((hs.same id).mp hid)]
    exact ⟨rfl, hs, rfl⟩
  · rw [if_neg hid, if_neg fun hmem => hid ((hs.same id).mpr hmem)]
    have hbound := hs.bounded
    dsimp only
    by_cases hfull : s.cap ≤ s.order.length
    · rw [if_pos hfull]
      have hlen : s.order.length = s.cap := Nat.le_antisymm hbound hfull
      obtain ⟨n, hn⟩ := Nat.exists_eq_add_one.mpr hcap
      cases horder : s.order with
      | nil =>
          rw [horder, List.length_nil] at hlen
          omega
      | cons evicted order =>
          -- Making room drops the bound by one, and the push takes it back.
          rw [horder, hn] at hs
          rw [horder] at hlen
          have hout : id ∉ s.set.erase evicted := fun h => hid (Finset.mem_of_mem_erase h)
          refine ⟨rfl, ?_, Prod.ext (rtake_full hlen).symm rfl⟩
          rw [hn]
          exact hs.pop.push hout
    · rw [if_neg hfull]
      have hroom : (s.order ++ [id]).length ≤ s.cap := by
        rw [List.length_append]
        exact Nat.lt_of_not_le hfull
      exact ⟨rfl, (hs.push hid).of_length hroom, Prod.ext (rtake_of_length_le hroom).symm rfl⟩

/-! ## Every sequence of ids -/

/-- The window after a sequence of ids, and those it reported as new. -/
def DedupWindow.after (cap : Nat) (ids : List String) : DedupWindow × List String :=
  feed (fun w id => ((w.record cap id).1, !(w.record cap id).2)) {} ids

def BoundedIdSet.after (cap : Nat) (ids : List String) : BoundedIdSet × List String :=
  feed (fun s id => s.insert id) (.new cap) ids

/-- Set and queue agree, and hold the last ids that were reported as new; another id is reported
as new when it is not among them. -/
structure Remembers (cap : Nat) (set : Finset String) (order news : List String)
    (isNew : String → Bool) : Prop extends Kept cap set order where
  recent : order = news.rtake cap
  reports : ∀ id, isNew id = true ↔ id ∉ order

theorem DedupWindow.remembers (cap : Nat) (ids : List String) :
    Remembers cap (DedupWindow.after cap ids).1.seen (DedupWindow.after cap ids).1.order
      (DedupWindow.after cap ids).2
      fun id => !((DedupWindow.after cap ids).1.record cap id).2 := by
  have hempty : Kept cap ({} : DedupWindow).seen ({} : DedupWindow).order := kept_empty cap
  obtain ⟨hkept, hrecent⟩ := feed_window
    (fun (w : DedupWindow) id => ((w.record cap id).1, !(w.record cap id).2)) DedupWindow.order
    (fun w => Kept cap w.seen w.order) (fun w id hw => w.record_window id hw) hempty rfl ids
  refine ⟨hkept, hrecent, fun id => ?_⟩
  have hwindow := congrArg Prod.snd (DedupWindow.record_window id hkept).2
  exact (Bool.eq_iff_iff.mp hwindow).trans remember_new

theorem BoundedIdSet.remembers (hcap : 0 < cap) (ids : List String) :
    Remembers cap (BoundedIdSet.after cap ids).1.set (BoundedIdSet.after cap ids).1.order
      (BoundedIdSet.after cap ids).2 fun id => ((BoundedIdSet.after cap ids).1.insert id).2 := by
  have hempty : (BoundedIdSet.new cap).cap = cap ∧
      Kept cap (BoundedIdSet.new cap).set (BoundedIdSet.new cap).order := ⟨rfl, kept_empty cap⟩
  have hstep : ∀ (s : BoundedIdSet) (id : String), s.cap = cap ∧ Kept cap s.set s.order →
      ((s.insert id).1.cap = cap ∧ Kept cap (s.insert id).1.set (s.insert id).1.order) ∧
        ((s.insert id).1.order, (s.insert id).2) = remember cap s.order id := by
    rintro s id ⟨rfl, hs⟩
    obtain ⟨hsame, hkept, hwindow⟩ := s.insert_window id hcap hs
    exact ⟨⟨hsame, hkept⟩, hwindow⟩
  obtain ⟨hok, hrecent⟩ := feed_window (fun (s : BoundedIdSet) id => s.insert id)
    BoundedIdSet.order (fun s => s.cap = cap ∧ Kept cap s.set s.order) hstep hempty rfl ids
  refine ⟨hok.2, hrecent, fun id => ?_⟩
  have hwindow := congrArg Prod.snd (hstep _ id hok).2
  exact (Bool.eq_iff_iff.mp hwindow).trans remember_new

/-- **Both windows remember exactly the last distinct ids**, whatever ids are recorded. -/
theorem dedup_windows_right (hcap : 0 < cap) (ids : List String) :
    Remembers cap (DedupWindow.after cap ids).1.seen (DedupWindow.after cap ids).1.order
        (DedupWindow.after cap ids).2
        (fun id => !((DedupWindow.after cap ids).1.record cap id).2) ∧
      Remembers cap (BoundedIdSet.after cap ids).1.set (BoundedIdSet.after cap ids).1.order
        (BoundedIdSet.after cap ids).2 fun id => ((BoundedIdSet.after cap ids).1.insert id).2 :=
  ⟨DedupWindow.remembers cap ids, BoundedIdSet.remembers hcap ids⟩

/-- An id that was evicted is new again, one that is repeated in the window is not. -/
theorem windows_of_two :
    (DedupWindow.after 2 ["a", "a", "b", "c", "b", "a"]).2 = ["a", "b", "c", "a"] ∧
      (BoundedIdSet.after 2 ["a", "a", "b", "c", "b", "a"]).1.order = ["c", "a"] ∧
      ((BoundedIdSet.after 2 ["a", "a", "b", "c", "b", "a"]).1.insert "b").2 = true := by
  have h := dedup_windows_right (show 0 < 2 by decide) ["a", "a", "b", "c", "b", "a"]
  exact ⟨by decide, by decide, (h.2.reports "b").mpr (by decide)⟩

end MostroApp.Dedup
