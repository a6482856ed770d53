import MostroApp.Lib.Owner
import MostroApp.Lib.Rows
import MostroApp.Nostr.RelayPool

set_option autoImplicit false

/-! # The relays the store keeps (`api/nostr.rs`, `db/seeds.rs`)

Every call that changes the relay list writes the row of each relay it changed once the pool is
done with it. A relay of which the SDK or the store failed the last change stays behind; where no
two calls work on a relay at once, the row of any other mirrors it whenever none does
(`rowOutline`).
-/

namespace MostroApp.RelayRows

open Interleaving Transition Relays

/-! ## Pool and rows -/

/-- The pool of the session and the stored rows. Beside them the relays whose rows need not mirror
them: the last change failed half-way, or the start did not know the relay from its row. -/
structure Shelf where
  pool : Registry
  rows : List RelayInfo := []
  behind : Finset String := ∅
  deriving DecidableEq

namespace Shelf

def lose (url : String) (s : Shelf) : Shelf := { s with behind := insert url s.behind }

/-- `save_relay`: a row replaces that of its URL. -/
def saveRelay (row : RelayInfo) (s : Shelf) : Shelf :=
  { s with
    rows := s.rows.filter (·.url ≠ row.url) ++ [row]
    behind := s.behind.erase row.url }

/-- `delete_relay`. A relay that is listed and blacklisted at once, as a start without an active row
can make it, loses the row that had it blacklisted. -/
def deleteRelay (url : String) (s : Shelf) : Shelf :=
  { s with
    rows := s.rows.filter (·.url ≠ url)
    behind := if url ∈ s.pool.blacklist then insert url s.behind else s.behind.erase url }

/-- `persist_relay`; a write that fails is only logged. -/
def persistRelay (saved : Bool) (row : RelayInfo) (s : Shelf) : Shelf :=
  if saved then s.saveRelay row else s.lose row.url

def unpersistRelay (saved : Bool) (url : String) (s : Shelf) : Shelf :=
  if saved then s.deleteRelay url else s.lose url

end Shelf

/-- What removing a relay leaves in storage. -/
def removalEffect (removed : Option RelayInfo) : Option RelayInfo :=
  (removed.filter fun info => info.source = .mostroDiscovered).map fun info =>
    { info with isActive := false, isBlacklisted := true, status := .disconnected }

/-! ## Calls -/

/-- Where a call stands. In the pool it has with it the relay that `remove_relay` found. -/
inductive RowCall where
  /-- `remove_relay`. -/
  | looks (url : String)
  | asks (removed : Option RelayInfo) (p : RelayCall)
  /-- `apply_relay_list_event`, after its `sync_discovered`. -/
  | collects (added : List String)
  | persists (rows : List RelayInfo)
  | unpersists (url : String)
  deriving DecidableEq, Repr

/-- The rows that are still to be written. -/
def toPersist : List RelayInfo → Option RowCall
  | [] => none
  | rows => some (.persists rows)

/-- What is done about the answer of the pool; an error is returned as it is. -/
def answered (removed : Option RelayInfo) : RelayCall → Answer → Option RowCall
  | _, .added info => toPersist [info]
  | _, .synced added => if added = [] then none else some (.collects added)
  | .disconnects url, .removed =>
      match removalEffect removed with
      | some row => toPersist [row]
      | none => some (.unpersists url)
  | _, _ => none

def asksNext (removed : Option RelayInfo) (p : RelayCall) : Option RelayCall → Option RowCall
  | some (.answers a) => answered removed p a
  | some q => some (.asks removed q)
  | none => none

/-- The relay that an error of the SDK leaves half changed: off the blacklist and not added, or
removed with its row in place. -/
def lost (sdk : Except String Unit) : RelayCall → Option String
  | .registers url .user | .disconnects url =>
      match sdk with
      | .ok () => none
      | .error _ => some url
  | _ => none

/-- What the SDK makes of a request, and whether a write succeeds. -/
structure Outcome where
  sdk : Except String Unit := .ok ()
  saved : Bool := true

def RowCall.step (w : Outcome) : RowCall → Shelf → Shelf × Option RowCall
  | .looks url, s => (s, some (.asks (s.pool.relays.find? (·.url = url)) (.removes url)))
  | .asks removed p, s =>
      let r := p.step w.sdk s.pool
      let s := { s with pool := r.1 }
      (match lost w.sdk p with
        | some url => s.lose url
        | none => s, asksNext removed p r.2)
  | .collects added, s => (s, toPersist (s.pool.relays.filter (·.url ∈ added)))
  | .persists [], s => (s, none)
  | .persists (row :: rest), s => (s.persistRelay w.saved row, toPersist rest)
  | .unpersists url, s => (s.unpersistRelay w.saved url, none)

def RowCall.starts : RowCall → Bool
  | .looks _ | .asks none (.adds _) | .asks none (.syncs _) => true
  | _ => false

/-- Any number of calls in one session. -/
def rowProg : Prog Shelf RowCall Outcome Empty where
  enter := RowCall.starts
  tstep w p s := some (p.step w s)
  act a _ := a.elim

/-! ## The relays a call works on -/

def urlsInPool : RelayCall → List String
  | .adds url | .lifts url | .removes url | .blacklists url | .disconnects url => [url]
  | .registers url .user | .pushes url .user => [url]
  | .registers url (.sync rest added) | .pushes url (.sync rest added) => url :: rest ++ added
  | .syncs _ | .answers _ => []

/-- The relays a call is changing, from its start or its plan until their rows are written. -/
def RowCall.urls : RowCall → List String
  | .looks url | .unpersists url => [url]
  | .asks _ p => urlsInPool p
  | .collects added => added
  | .persists rows => rows.map (·.url)

/-- The call is working on the relay. -/
def RowCall.worksOn (u : String) (p : RowCall) : Bool := u ∈ p.urls

theorem RowCall.worksOn_iff {u : String} {p : RowCall} : p.worksOn u = true ↔ u ∈ p.urls :=
  decide_eq_true_iff

/-! ## One relay -/

/-- What there is of one relay: its entries in the list, whether it is blacklisted, its row, and
whether it is behind. -/
@[ext]
structure Cell where
  listed : List RelayInfo
  black : Bool
  row : Option RelayInfo
  behind : Bool

def Shelf.view (u : String) (s : Shelf) : Cell where
  listed := s.pool.relays.filter (·.url = u)
  black := u ∈ s.pool.blacklist
  row := s.rows.find? (·.url = u)
  behind := u ∈ s.behind

/-- The row says of a relay what the pool has of it. -/
inductive Mirrors : List RelayInfo → Bool → Option RelayInfo → Prop where
  | absent : Mirrors [] false none
  | blacklisted {row : RelayInfo} (h : row.isBlacklisted = true) : Mirrors [] true (some row)
  | listed {r row : RelayInfo} (h : row.isBlacklisted = false) (source : r.source = row.source)
      (default : r.isDefault = row.isDefault) : Mirrors [r] false (some row)

/-- The relay is listed once at most, and its row mirrors it unless it is behind. -/
structure Cell.Settled (d : Cell) : Prop where
  once : d.listed.length ≤ 1
  mirrors : d.behind = true ∨ Mirrors d.listed d.black d.row

/-- A relay an announcement brings, with the URLs still to add and those added. -/
structure Brought (u : String) (rest added : List String) (d : Cell) : Prop where
  count : (rest ++ added).count u = 1
  allowed : d.black = false
  done : u ∈ added → d.listed = [relayInfo .mostroDiscovered u]
  waits : u ∉ added → d.listed = [] ∧ d.Settled

/-- What the call that works on `u` has found and made of it. -/
def RowCall.Found (u : String) : RowCall → Cell → Prop
  | .looks _, d | .asks _ (.adds _), d => d.Settled
  | .asks _ (.lifts _), d => d.listed = []
  | .asks _ (.registers _ .user), d | .asks _ (.pushes _ .user), d =>
      d.listed = [] ∧ d.black = false
  | .asks removed (.removes _), d => d.Settled ∧ removed = d.listed.head?
  | .asks removed (.blacklists _), d =>
      d.listed = [] ∧ ∃ r, removed = some r ∧ r.url = u ∧ r.source = .mostroDiscovered
  | .asks removed (.disconnects _), d =>
      d.listed = [] ∧ ∃ r, removed = some r ∧ r.url = u ∧
        (r.source = .mostroDiscovered → d.black = true)
  | .asks _ (.registers v (.sync rest added)), d | .asks _ (.pushes v (.sync rest added)), d =>
      Brought u (v :: rest) added d
  | .collects _, d => d.listed = [relayInfo .mostroDiscovered u] ∧ d.black = false
  | .persists rows, d =>
      ∃ row, rows.filter (·.url = u) = [row] ∧ Mirrors d.listed d.black (some row)
  | .unpersists _, d => d.listed = []
  | _, _ => False

/-- What the pool has of a relay: the source and the default flag of its entries, and whether it is
blacklisted. -/
def known (u : String) (s : Registry) : List (RelaySource × Bool) × Bool :=
  ((s.relays.filter (·.url = u)).map fun r => (r.source, r.isDefault), u ∈ s.blacklist)

/-- What a row says of its relay. -/
def told : Option RelayInfo → List (RelaySource × Bool) × Bool
  | none => ([], false)
  | some row => if row.isBlacklisted then ([], true) else ([(row.source, row.isDefault)], false)

theorem mirrors_iff {listed : List RelayInfo} {black : Bool} {row : Option RelayInfo} :
    Mirrors listed black row ↔
      (listed.map fun r => (r.source, r.isDefault), black) = told row := by
  constructor
  · intro h
    cases h with
    | absent => rfl
    | blacklisted hb => simp [told, hb]
    | listed hb hsource hdefault => simp [told, hb, hsource, hdefault]
  · intro h
    cases row with
    | none =>
        obtain ⟨hlisted, rfl⟩ := Prod.mk.inj h
        rw [List.map_eq_nil_iff.mp hlisted]
        exact .absent
    | some row =>
        cases hb : row.isBlacklisted with
        | true =>
            simp only [told, hb, if_true, Prod.mk.injEq, List.map_eq_nil_iff] at h
            obtain ⟨rfl, rfl⟩ := h
            exact .blacklisted hb
        | false =>
            simp only [told, hb, Bool.false_eq_true, if_false, Prod.mk.injEq,
              List.map_eq_singleton_iff] at h
            obtain ⟨⟨r, rfl, hsource, hdefault⟩, rfl⟩ := h
            exact .listed hb hsource hdefault

theorem Mirrors.once {listed : List RelayInfo} {black : Bool} {row : Option RelayInfo}
    (h : Mirrors listed black row) : listed.length ≤ 1 := by
  cases h <;> simp

/-! ## What changes of a relay -/

variable {u v : String} {s : Shelf} {row : RelayInfo} {saved : Bool}

theorem find?_filter_ne (rows : List RelayInfo) (h : u ≠ v) :
    (rows.filter (·.url ≠ v)).find? (·.url = u) = rows.find? (·.url = u) := by
  rw [List.find?_filter]
  refine congrArg (fun p => rows.find? p) (funext fun r => ?_)
  by_cases hr : r.url = u <;> simp [hr, h]

theorem find?_filter_self (rows : List RelayInfo) (u : String) :
    (rows.filter (·.url ≠ u)).find? (·.url = u) = none := by
  refine List.find?_eq_none.mpr fun r hr => ?_
  simpa using (List.mem_filter.mp hr).2

theorem view_saveRelay (h : row.url = u) :
    (s.saveRelay row).view u = { s.view u with row := some row, behind := false } := by
  subst h
  refine Cell.ext rfl rfl ?_ ?_
  · show (s.rows.filter (·.url ≠ row.url) ++ [row]).find? (·.url = row.url) = _
    rw [List.find?_append, find?_filter_self]
    simp
  · show decide (row.url ∈ s.behind.erase row.url) = false
    simp

theorem view_saveRelay_ne (h : u ≠ row.url) : (s.saveRelay row).view u = s.view u := by
  refine Cell.ext rfl rfl ?_ ?_
  · show (s.rows.filter (·.url ≠ row.url) ++ [row]).find? (·.url = u) = _
    rw [List.find?_append, find?_filter_ne s.rows h]
    have hrow : [row].find? (·.url = u) = none := by simp [h.symm]
    rw [hrow, Option.or_none]
    rfl
  · show decide (u ∈ s.behind.erase row.url) = decide (u ∈ s.behind)
    simp [h]

theorem view_deleteRelay :
    (s.deleteRelay u).view u = { s.view u with row := none, behind := (s.view u).black } := by
  refine Cell.ext rfl rfl (find?_filter_self s.rows u) ?_
  show decide (u ∈ if u ∈ s.pool.blacklist then _ else _) = decide (u ∈ s.pool.blacklist)
  by_cases hb : u ∈ s.pool.blacklist <;> simp [hb]

theorem view_deleteRelay_ne (h : u ≠ v) : (s.deleteRelay v).view u = s.view u := by
  refine Cell.ext rfl rfl (find?_filter_ne s.rows h) ?_
  show decide (u ∈ if v ∈ s.pool.blacklist then _ else _) = decide (u ∈ s.behind)
  by_cases hb : v ∈ s.pool.blacklist <;> simp [hb, h]

theorem view_lose : (s.lose u).view u = { s.view u with behind := true } :=
  Cell.ext rfl rfl rfl (by simp [Shelf.view, Shelf.lose])

theorem view_lose_ne (h : u ≠ v) : (s.lose v).view u = s.view u :=
  Cell.ext rfl rfl rfl (by simp [Shelf.view, Shelf.lose, h])

theorem view_persistRelay_ne (h : u ≠ row.url) : (s.persistRelay saved row).view u = s.view u := by
  cases saved with
  | true => exact view_saveRelay_ne h
  | false => exact view_lose_ne h

theorem view_unpersistRelay_ne (h : u ≠ v) : (s.unpersistRelay saved v).view u = s.view u := by
  cases saved with
  | true => exact view_deleteRelay_ne h
  | false => exact view_lose_ne h

/-- A row that mirrors its relay settles it, whether the write of it succeeds or not. -/
theorem settled_persistRelay (h : row.url = u)
    (hrow : Mirrors (s.view u).listed (s.view u).black (some row)) :
    ((s.persistRelay saved row).view u).Settled := by
  cases saved with
  | true =>
      show ((s.saveRelay row).view u).Settled
      rw [view_saveRelay h]
      exact ⟨hrow.once, .inr hrow⟩
  | false =>
      subst h
      show ((s.lose row.url).view row.url).Settled
      rw [view_lose]
      exact ⟨hrow.once, .inl rfl⟩

theorem settled_unpersistRelay (h : (s.view u).listed = []) :
    ((s.unpersistRelay saved u).view u).Settled := by
  have honce : (s.view u).listed.length ≤ 1 := by simp [h]
  cases saved with
  | true =>
      show ((s.deleteRelay u).view u).Settled
      rw [view_deleteRelay]
      refine ⟨honce, ?_⟩
      cases hb : (s.view u).black with
      | true => exact .inl rfl
      | false =>
          refine .inr ?_
          show Mirrors (s.view u).listed false none
          rw [h]
          exact .absent
  | false =>
      show ((s.lose u).view u).Settled
      rw [view_lose]
      exact ⟨honce, .inl rfl⟩

/-! ## Calls that work on other relays -/

variable {p q : RelayCall} {o : Option RelayCall} {t : Registry} {r : RelayInfo}

theorem url_mem_urlsInPool (k : Caller) :
    v ∈ urlsInPool (.pushes v k) ∧ v ∈ urlsInPool (.registers v k) := by
  cases k <;> simp [urlsInPool]

theorem filter_remove_ne {s : Registry} (hr : s.relays.find? (·.url = v) = some r) (h : u ≠ v) :
    (s.remove v r).relays.filter (·.url = u) = s.relays.filter (·.url = u) := by
  obtain ⟨l₁, l₂, heq, hrest, hurl⟩ := Registry.remove_split hr
  have hne : r.url ≠ u := fun e => h (e.symm.trans hurl)
  rw [hrest, heq]
  simp [List.filter_append, hne]

/-- A step in the pool leaves the relays it is not about as they are. -/
theorem pool_spares {s : Registry} (he : p.Effect s t o) (h : u ∉ urlsInPool p) :
    t.relays.filter (·.url = u) = s.relays.filter (·.url = u) ∧
      (u ∈ t.blacklist ↔ u ∈ s.blacklist) := by
  cases he with
  | reads => exact ⟨rfl, Iff.rfl⟩
  | lifts v =>
      have hne : u ≠ v := by simpa [urlsInPool] using h
      exact ⟨rfl, by simp [Registry.lift, hne]⟩
  | pushes v k =>
      have hne : v ≠ u := by
        rintro rfl
        exact h (url_mem_urlsInPool k).1
      refine ⟨?_, Iff.rfl⟩
      show (s.relays ++ [relayInfo k.source v]).filter (·.url = u) = _
      simp [List.filter_append, relayInfo, hne]
  | removes v r hr =>
      have hne : u ≠ v := by simpa [urlsInPool] using h
      exact ⟨filter_remove_ne hr hne, Iff.rfl⟩
  | blacklists v =>
      have hne : u ≠ v := by simpa [urlsInPool] using h
      exact ⟨rfl, by simp [hne]⟩

theorem lost_mem {sdk : Except String Unit} (h : lost sdk p = some v) : v ∈ urlsInPool p := by
  unfold lost at h
  split at h
  · split at h <;> cases h
    simp [urlsInPool]
  · split at h <;> cases h
    simp [urlsInPool]
  · cases h

/-- A step of a call leaves the relays it is not working on as they are. -/
theorem RowCall.step_spares {w : Outcome} {p : RowCall} (h : p.worksOn u = false) :
    (p.step w s).1.view u = s.view u := by
  have hu : u ∉ p.urls := by simpa [RowCall.worksOn] using h
  cases p with
  | looks | collects => rfl
  | asks removed p =>
      obtain ⟨hlisted, hblack⟩ := pool_spares (p.step_effect w.sdk s.pool) hu
      have hpool : (Shelf.view u { s with pool := (p.step w.sdk s.pool).1 }) = s.view u :=
        Cell.ext hlisted (by simpa [Shelf.view] using hblack) rfl rfl
      show (match lost w.sdk p with
        | some url => Shelf.lose url { s with pool := (p.step w.sdk s.pool).1 }
        | none => { s with pool := (p.step w.sdk s.pool).1 }).view u = _
      split
      · next v hv =>
          have hne : u ≠ v := by
            rintro rfl
            exact hu (lost_mem hv)
          rw [view_lose_ne hne, hpool]
      · exact hpool
  | persists rows =>
      cases rows with
      | nil => rfl
      | cons row rest =>
          refine view_persistRelay_ne ?_
          rintro rfl
          exact hu (by simp [RowCall.urls])
  | unpersists v =>
      refine view_unpersistRelay_ne ?_
      rintro rfl
      exact hu (by simp [RowCall.urls])

/-! ## The call that works on a relay -/

theorem view_push (k : Caller) : Shelf.view u { s with pool := s.pool.push u k } =
    { s.view u with listed := (s.view u).listed ++ [relayInfo k.source u] } := by
  refine Cell.ext ?_ rfl rfl rfl
  show (s.pool.relays ++ [relayInfo k.source u]).filter (·.url = u) = _
  simp [Shelf.view, List.filter_append, relayInfo]

theorem view_push_ne (k : Caller) (h : u ≠ v) :
    Shelf.view u { s with pool := s.pool.push v k } = s.view u := by
  refine Cell.ext ?_ rfl rfl rfl
  show (s.pool.relays ++ [relayInfo k.source v]).filter (·.url = u) = _
  simp [Shelf.view, List.filter_append, relayInfo, h.symm]

theorem listed_remove {s : Registry} (hr : s.relays.find? (·.url = u) = some r)
    (honce : (s.relays.filter (·.url = u)).length ≤ 1) :
    (s.remove u r).relays.filter (·.url = u) = [] := by
  obtain ⟨l₁, l₂, heq, hrest, rfl⟩ := Registry.remove_split hr
  rw [hrest]
  rw [heq] at honce
  simp only [List.filter_append, List.filter_cons, decide_true, if_true, List.length_append,
    List.length_cons] at honce
  refine List.eq_nil_of_length_eq_zero ?_
  rw [List.filter_append, List.length_append]
  omega

/-- What a step leaves of the relay: what the call that goes on with it finds, or a settled one. -/
structure Leaves (u : String) (o : Option RowCall) (d : Cell) : Prop where
  settled : o.any (RowCall.worksOn u) = false → d.Settled
  found : ∀ q, o = some q → q.worksOn u = true → q.Found u d

theorem Leaves.none {d : Cell} (h : d.Settled) : Leaves u none d :=
  ⟨fun _ => h, fun _ hq => (nomatch hq)⟩

theorem Leaves.some {q : RowCall} {d : Cell} (hq : q.worksOn u = true) (h : q.Found u d) :
    Leaves u (some q) d := by
  refine ⟨fun hno => absurd (hno.symm.trans hq) nofun, fun q' hq' _ => ?_⟩
  obtain rfl := Option.some.inj hq'
  exact h

theorem answered_synced (removed : Option RelayInfo) (p : RelayCall) (added : List String) :
    answered removed p (.synced added) = if added = [] then none else some (.collects added) := by
  cases p <;> rfl

theorem answered_failed (removed : Option RelayInfo) (p : RelayCall) (message : String) :
    answered removed p (.failed message) = none := by
  cases p <;> rfl

/-- An announcement goes on with the relays it still brings. -/
theorem leaves_syncNext {removed : Option RelayInfo} {p : RelayCall} {rest added : List String}
    {d : Cell} (hin : u ∈ rest ++ added → Brought u rest added d)
    (hout : u ∉ rest ++ added → d.Settled) :
    Leaves u (asksNext removed p (some (syncNext added rest))) d := by
  cases rest with
  | nil =>
      show Leaves u (answered removed p (.synced added)) d
      rw [answered_synced]
      by_cases hu : u ∈ added
      · have hb := hin (by simpa using hu)
        rw [if_neg (List.ne_nil_of_mem hu)]
        exact .some (RowCall.worksOn_iff.mpr hu) ⟨hb.done hu, hb.allowed⟩
      · have hsettled := hout (by simpa using hu)
        split
        · exact .none hsettled
        · refine ⟨fun _ => hsettled, fun q hq hworks => ?_⟩
          obtain rfl := Option.some.inj hq
          exact absurd (RowCall.worksOn_iff.mp hworks) hu
  | cons v rest =>
      show Leaves u (Option.some (.asks removed (.registers v (.sync rest added)))) d
      by_cases hu : u ∈ v :: rest ++ added
      · exact .some (RowCall.worksOn_iff.mpr hu) (hin hu)
      · refine ⟨fun _ => hout hu, fun q hq hworks => ?_⟩
        obtain rfl := Option.some.inj hq
        exact absurd (RowCall.worksOn_iff.mp hworks) hu

theorem Brought.mem {rest added : List String} {d : Cell} (h : Brought u rest added d) :
    u ∈ rest ++ added := List.count_pos_iff.mp (by rw [h.count]; exact Nat.one_pos)

/-- The relay that the SDK did not take is settled, and no other is changed. -/
theorem Brought.refused {rest added : List String} {d : Cell} {removed : Option RelayInfo}
    {p : RelayCall} (h : Brought u (v :: rest) added d) :
    Leaves u (asksNext removed p (some (syncNext added rest))) d := by
  have hcount := h.count
  rw [List.cons_append, List.count_cons] at hcount
  by_cases hu : v = u
  · subst hu
    have hnot : v ∉ rest ++ added := by
      rw [← List.count_eq_zero]
      simpa using hcount
    refine leaves_syncNext (fun hin => absurd hin hnot) fun _ => ?_
    exact (h.waits fun hin => hnot (List.mem_append_right _ hin)).2
  · have hbrought : Brought u rest added d :=
      ⟨by simpa [hu] using hcount, h.allowed, h.done, h.waits⟩
    exact leaves_syncNext (fun _ => hbrought) fun hout => absurd hbrought.mem hout

/-- The relay that was pushed is listed, and no other is changed. -/
theorem Brought.pushed {rest added : List String} {removed : Option RelayInfo} {p : RelayCall}
    (h : Brought u (v :: rest) added (s.view u)) :
    Leaves u (asksNext removed p (some (syncNext (added ++ [v]) rest)))
      (Shelf.view u { s with pool := s.pool.push v (.sync rest added) }) := by
  have hcount := h.count
  rw [List.cons_append, List.count_cons] at hcount
  by_cases hu : v = u
  · subst hu
    have hnot : v ∉ rest ++ added := by
      rw [← List.count_eq_zero]
      simpa using hcount
    have hempty := (h.waits fun hin => hnot (List.mem_append_right _ hin)).1
    rw [view_push, hempty]
    have hbrought : Brought v rest (added ++ [v])
        { s.view v with listed := [] ++ [relayInfo (Caller.source (.sync rest added)) v] } := by
      refine ⟨?_, h.allowed, fun _ => rfl, fun hnot => absurd (by simp) hnot⟩
      rw [← List.append_assoc, List.count_append, List.count_eq_zero.mpr hnot]
      simp
    exact leaves_syncNext (fun _ => hbrought) fun hout => absurd hbrought.mem hout
  · have hne : u ≠ v := Ne.symm hu
    rw [view_push_ne _ hne]
    have hin : u ∈ added ++ [v] ↔ u ∈ added := by simp [hne]
    have hbrought : Brought u rest (added ++ [v]) (s.view u) := by
      refine ⟨?_, h.allowed, fun hmem => h.done (hin.mp hmem),
        fun hmem => h.waits fun hold => hmem (hin.mpr hold)⟩
      rw [← List.append_assoc, List.count_append]
      simpa [hu] using hcount
    exact leaves_syncNext (fun _ => hbrought) fun hout => absurd hbrought.mem hout

theorem Shelf.view_head? (u : String) (s : Shelf) :
    (s.view u).listed.head? = s.pool.relays.find? (·.url = u) := List.head?_filter

/-- The row that a removal leaves, or its absence, mirrors the relay that is gone. -/
theorem leaves_removed {d : Cell} (hlisted : d.listed = []) (hurl : r.url = u)
    (hblack : r.source = .mostroDiscovered → d.black = true) :
    Leaves u (answered (some r) (.disconnects u) .removed) d := by
  by_cases hsource : r.source = .mostroDiscovered
  · have heffect : removalEffect (some r) = some
        { r with isActive := false, isBlacklisted := true, status := .disconnected } := by
      simp [removalEffect, hsource]
    simp only [answered, heffect, toPersist]
    refine .some (RowCall.worksOn_iff.mpr (by simp [RowCall.urls, hurl]))
      ⟨{ r with isActive := false, isBlacklisted := true, status := .disconnected },
        by simp [hurl], ?_⟩
    rw [hlisted, hblack hsource]
    exact .blacklisted rfl
  · have heffect : removalEffect (some r) = none := by simp [removalEffect, hsource]
    simp only [answered, heffect]
    exact .some (RowCall.worksOn_iff.mpr (by simp [RowCall.urls])) hlisted

/-- In the pool. -/
theorem leaves_asks {w : Outcome} {removed : Option RelayInfo}
    (hworks : u ∈ urlsInPool p) (hfound : (RowCall.asks removed p).Found u (s.view u)) :
    Leaves u ((RowCall.asks removed p).step w s).2
      (((RowCall.asks removed p).step w s).1.view u) := by
  cases p with
  | adds v =>
      obtain rfl : u = v := by simpa [urlsInPool] using hworks
      by_cases hany : s.pool.relays.any (·.url = u) = true
      -- Listed already: the call is refused and nothing has changed.
      · simp only [RowCall.step, RelayCall.step, if_pos hany, asksNext, answered_failed, lost]
        exact .none hfound
      · simp only [RowCall.step, RelayCall.step, if_neg hany, asksNext, lost]
        refine .some (RowCall.worksOn_iff.mpr hworks) ?_
        show s.pool.relays.filter (·.url = u) = []
        simpa [List.filter_eq_nil_iff] using hany
  | lifts v =>
      obtain rfl : u = v := by simpa [urlsInPool] using hworks
      refine .some (RowCall.worksOn_iff.mpr hworks) ⟨hfound, ?_⟩
      show decide (u ∈ s.pool.blacklist.erase u) = false
      simp
  | registers v k =>
      cases k with
      | user =>
          obtain rfl : u = v := by simpa [urlsInPool] using hworks
          cases hsdk : w.sdk with
          | ok x =>
              simp only [RowCall.step, RelayCall.step, hsdk, asksNext, lost]
              exact .some (RowCall.worksOn_iff.mpr hworks) hfound
          | error e =>
              simp only [RowCall.step, RelayCall.step, hsdk, lost, Caller.after, asksNext,
                answered_failed]
              refine .none ?_
              rw [view_lose]
              exact ⟨by simp [hfound.1], .inl rfl⟩
      | sync rest added =>
          cases hsdk : w.sdk with
          | ok x =>
              simp only [RowCall.step, RelayCall.step, hsdk, asksNext, lost]
              exact .some (RowCall.worksOn_iff.mpr hworks) hfound
          | error e =>
              simp only [RowCall.step, RelayCall.step, hsdk, lost, Caller.after]
              exact Brought.refused hfound
  | pushes v k =>
      cases k with
      | user =>
          obtain rfl : u = v := by simpa [urlsInPool] using hworks
          simp only [RowCall.step, RelayCall.step, lost, Caller.after, asksNext]
          -- It is listed once now and not blacklisted, as the row will say.
          rw [view_push, hfound.1]
          refine .some (RowCall.worksOn_iff.mpr (by simp [RowCall.urls, relayInfo]))
            ⟨relayInfo .userAdded u, by simp [relayInfo, Caller.source], ?_⟩
          rw [hfound.2]
          exact .listed rfl rfl rfl
      | sync rest added =>
          simp only [RowCall.step, RelayCall.step, lost, Caller.after]
          exact Brought.pushed hfound
  | removes v =>
      obtain rfl : u = v := by simpa [urlsInPool] using hworks
      obtain ⟨hsettled, hremoved⟩ := hfound
      simp only [RowCall.step, RelayCall.step, lost]
      split
      · simp only [asksNext, answered_failed]
        exact .none hsettled
      · cases hr : s.pool.relays.find? (·.url = u) with
        | none =>
            simp only [asksNext, answered_failed]
            exact .none hsettled
        | some r =>
            -- Listed once, so it is out of the list once it is removed.
            have hurl : r.url = u := by simpa using List.find?_some hr
            have hempty := listed_remove hr hsettled.once
            rw [Shelf.view_head?, hr] at hremoved
            subst hremoved
            dsimp only
            split
            · next hsource =>
                exact .some (RowCall.worksOn_iff.mpr hworks) ⟨hempty, r, rfl, hurl, hsource⟩
            · next hsource =>
                exact .some (RowCall.worksOn_iff.mpr hworks)
                  ⟨hempty, r, rfl, hurl, fun h => absurd h hsource⟩
  | blacklists v =>
      obtain rfl : u = v := by simpa [urlsInPool] using hworks
      obtain ⟨hlisted, r, rfl, hurl, -⟩ := hfound
      refine .some (RowCall.worksOn_iff.mpr hworks) ⟨hlisted, r, rfl, hurl, fun _ => ?_⟩
      show decide (u ∈ insert u s.pool.blacklist) = true
      simp
  | disconnects v =>
      obtain rfl : u = v := by simpa [urlsInPool] using hworks
      obtain ⟨hlisted, r, rfl, hurl, hblack⟩ := hfound
      cases hsdk : w.sdk with
      | ok x =>
          simp only [RowCall.step, RelayCall.step, hsdk, lost, asksNext]
          exact leaves_removed hlisted hurl hblack
      | error e =>
          simp only [RowCall.step, RelayCall.step, hsdk, lost, asksNext, answered_failed]
          refine .none ?_
          rw [view_lose]
          exact ⟨by simp [hlisted], .inl rfl⟩
  | syncs | answers => cases hworks

/-- **One step of the call that works on a relay.** -/
theorem RowCall.step_leaves {w : Outcome} {p : RowCall} (h : p.worksOn u = true)
    (hfound : p.Found u (s.view u)) : Leaves u (p.step w s).2 ((p.step w s).1.view u) := by
  have hu := RowCall.worksOn_iff.mp h
  cases p with
  | looks v =>
      obtain rfl : u = v := by simpa [RowCall.urls] using hu
      exact .some h ⟨hfound, (Shelf.view_head? u s).symm⟩
  | asks removed p => exact leaves_asks hu hfound
  | collects added =>
      have hadded : u ∈ added := hu
      -- Of the relays a discovery has added, this one is listed once and gets one row.
      have hlisted : s.pool.relays.filter (·.url = u) = [relayInfo .mostroDiscovered u] := hfound.1
      have hrows : (s.pool.relays.filter (·.url ∈ added)).filter (·.url = u) =
          [relayInfo .mostroDiscovered u] := by
        rw [← hlisted, List.filter_filter]
        refine List.filter_congr fun r _ => ?_
        by_cases hr : r.url = u
        · subst hr
          simpa using hadded
        · simp [hr]
      have hmem : relayInfo .mostroDiscovered u ∈ s.pool.relays.filter (·.url ∈ added) :=
        (List.mem_filter.mp (hrows ▸ List.mem_singleton_self _)).1
      show Leaves u (toPersist (s.pool.relays.filter (·.url ∈ added))) (s.view u)
      unfold toPersist
      split
      · next hnil =>
          rw [hnil] at hmem
          cases hmem
      · refine .some (RowCall.worksOn_iff.mpr (List.mem_map.mpr ⟨_, hmem, rfl⟩)) ⟨_, hrows, ?_⟩
        rw [hfound.1, hfound.2]
        exact .listed rfl rfl rfl
  | persists rows =>
      obtain ⟨row, hrow, hmirrors⟩ := hfound
      cases rows with
      | nil => cases hrow
      | cons row' rest =>
          show Leaves u (toPersist rest) ((s.persistRelay w.saved row').view u)
          by_cases hurl : row'.url = u
          · -- The row is the relay's, and the last of it.
            rw [List.filter_cons_of_pos (by simpa using hurl)] at hrow
            obtain ⟨rfl, hrest⟩ := List.cons_eq_cons.mp hrow
            have hnone : u ∉ rest.map (·.url) := by
              rw [List.filter_eq_nil_iff] at hrest
              intro hmem
              obtain ⟨r, hr, hru⟩ := List.mem_map.mp hmem
              exact hrest r hr (by simpa using hru)
            have hsettled : ((s.persistRelay w.saved row').view u).Settled :=
              settled_persistRelay hurl hmirrors
            refine ⟨fun _ => hsettled, fun q hq hworks => ?_⟩
            unfold toPersist at hq
            split at hq <;> cases hq
            exact absurd (RowCall.worksOn_iff.mp hworks) hnone
          · rw [view_persistRelay_ne (Ne.symm hurl)]
            rw [List.filter_cons_of_neg (by simpa using hurl)] at hrow
            have hmem : row ∈ rest ∧ row.url = u := by
              have hin : row ∈ rest.filter (·.url = u) := hrow ▸ List.mem_singleton_self _
              simpa using List.mem_filter.mp hin
            unfold toPersist
            split
            · cases hmem.1
            · exact .some (RowCall.worksOn_iff.mpr (List.mem_map.mpr ⟨row, hmem.1, hmem.2⟩))
                ⟨row, hrow, hmirrors⟩
  | unpersists v =>
      obtain rfl : u = v := by simpa [RowCall.urls] using hu
      exact .none (settled_unpersistRelay hfound)

/-! ## A session -/

/-- A plan names no relay twice, and none that is listed or blacklisted. -/
theorem plan_fresh (current : List RelayInfo) (blacklist : Finset String)
    (announced : List String) :
    (planRelaySync current blacklist announced).Nodup ∧
      ∀ v ∈ planRelaySync current blacklist announced,
        v ∉ blacklist ∧ current.filter (·.url = v) = [] := by
  unfold planRelaySync
  refine List.foldlRecOn (motive := fun planned : List String => planned.Nodup ∧
    ∀ v ∈ planned, v ∉ blacklist ∧ current.filter (·.url = v) = []) announced _
    ⟨List.nodup_nil, fun v hv => (nomatch hv)⟩ fun planned ih v _ => ?_
  split
  · exact ih
  · next hnew =>
      simp only [not_or] at hnew
      obtain ⟨hcurrent, hblack, hplanned⟩ := hnew
      refine ⟨?_, fun v' hv' => ?_⟩
      · rw [List.nodup_append]
        refine ⟨ih.1, List.nodup_singleton v, fun a ha b hb => ?_⟩
        rintro rfl
        exact hplanned (List.mem_singleton.mp hb ▸ ha)
      · rcases List.mem_append.mp hv' with hold | hlast
        · exact ih.2 v' hold
        · obtain rfl := List.mem_singleton.mp hlast
          exact ⟨hblack, by simpa [List.filter_eq_nil_iff] using hcurrent⟩

theorem brought_plan {announced : List String} (hs : (s.view u).Settled)
    (h : u ∈ planRelaySync s.pool.relays s.pool.blacklist announced) :
    Brought u (planRelaySync s.pool.relays s.pool.blacklist announced) [] (s.view u) := by
  obtain ⟨hnodup, hfresh⟩ := plan_fresh s.pool.relays s.pool.blacklist announced
  obtain ⟨hblack, hlisted⟩ := hfresh u h
  refine ⟨?_, ?_, fun hmem => (nomatch hmem), fun _ => ⟨hlisted, hs⟩⟩
  · rw [List.append_nil]
    exact List.count_eq_one_of_mem hnodup h
  · show decide (u ∈ s.pool.blacklist) = false
    simpa using hblack

/-- The relay that a call is removing. -/
def removing : RelayCall → Option String
  | .removes url | .blacklists url | .disconnects url => some url
  | _ => none

/-- The relay that `remove_relay` found is the one it is removing. -/
def RowCall.Fits : RowCall → Prop
  | .asks removed p => ∀ r, removed = some r → removing p = some r.url
  | _ => True

theorem RowCall.fits_none (p : RelayCall) : (RowCall.asks none p).Fits := fun _ h => (nomatch h)

/-- A relay was found for a removal only. -/
theorem RowCall.Fits.eq_none {removed : Option RelayInfo} (h : (RowCall.asks removed p).Fits)
    (hp : removing p = none) : removed = none := by
  cases removed with
  | none => rfl
  | some r => exact absurd (hp.symm.trans (h r rfl)) nofun

/-- A call goes on to relays of `urls` only. -/
def RowCall.Within (urls : List String) (q : RowCall) : Prop := q.Fits ∧ ∀ v ∈ q.urls, v ∈ urls

theorem toPersist_within {rows : List RelayInfo} {q : RowCall} (h : toPersist rows = some q) :
    q.Within (rows.map (·.url)) := by
  unfold toPersist at h
  split at h <;> cases h
  exact ⟨trivial, fun v hv => hv⟩

theorem syncNext_within {added rest : List String} {q : RowCall}
    (h : asksNext none p (some (syncNext added rest)) = some q) : q.Within (rest ++ added) := by
  cases rest with
  | nil =>
      have h : answered none p (.synced added) = some q := h
      rw [answered_synced] at h
      split at h <;> cases h
      exact ⟨trivial, fun v hv => hv⟩
  | cons v rest =>
      obtain rfl := Option.some.inj h
      exact ⟨RowCall.fits_none _, fun v hv => hv⟩

/-- A removal goes on with the relay it is removing. -/
theorem removes_within {w : Outcome} {removed : Option RelayInfo} {s : Registry} {q : RowCall}
    (hfits : (RowCall.asks removed (.removes v)).Fits)
    (h : asksNext removed (.removes v) (RelayCall.step w.sdk (.removes v) s).2 = some q) :
    q.Within [v] := by
  simp only [RelayCall.step] at h
  split at h
  · cases h
  · split at h
    · cases h
    · -- Blacklisted first where a node had announced it, else disconnected at once.
      dsimp only at h
      split at h <;> cases h
      · exact ⟨hfits, fun v hv => hv⟩
      · exact ⟨hfits, fun v hv => hv⟩

/-- What a removal writes is about the relay it has removed. -/
theorem disconnects_within {w : Outcome} {removed : Option RelayInfo} {s : Registry} {q : RowCall}
    (hfits : (RowCall.asks removed (.disconnects v)).Fits)
    (h : asksNext removed (.disconnects v) (RelayCall.step w.sdk (.disconnects v) s).2 = some q) :
    q.Within [v] := by
  simp only [RelayCall.step] at h
  split at h
  · have h : answered removed (.disconnects v) .removed = some q := h
    simp only [answered] at h
    split at h
    · next row hrow =>
        obtain ⟨r, hr, rfl⟩ := Option.map_eq_some_iff.mp hrow
        obtain ⟨hremoved, -⟩ := Option.filter_eq_some_iff.mp hr
        have hurl : v = r.url := Option.some.inj (hfits r hremoved)
        obtain ⟨hq, hurls⟩ := toPersist_within h
        exact ⟨hq, fun v' hv' => hurl ▸ hurls v' hv'⟩
    · obtain rfl := Option.some.inj h
      exact ⟨trivial, fun v hv => hv⟩
  · cases h

/-- In the pool a call keeps to its relays, but for an announcement that has still to plan. -/
theorem asksNext_within {w : Outcome} {removed : Option RelayInfo} {s : Registry} {q : RowCall}
    (hfits : (RowCall.asks removed p).Fits) (hplan : ∀ announced, p ≠ .syncs announced)
    (h : asksNext removed p (p.step w.sdk s).2 = some q) : q.Within (urlsInPool p) := by
  cases p with
  | removes v => exact removes_within hfits h
  | disconnects v => exact disconnects_within hfits h
  | blacklists v =>
      obtain rfl := Option.some.inj h
      exact ⟨hfits, fun v hv => hv⟩
  | adds v =>
      obtain rfl := hfits.eq_none rfl
      simp only [RelayCall.step] at h
      split at h
      · cases h
      · obtain rfl := Option.some.inj h
        exact ⟨RowCall.fits_none _, fun v hv => hv⟩
  | lifts v =>
      obtain rfl := hfits.eq_none rfl
      obtain rfl := Option.some.inj h
      exact ⟨RowCall.fits_none _, fun v hv => hv⟩
  | registers v k =>
      obtain rfl := hfits.eq_none rfl
      simp only [RelayCall.step] at h
      split at h
      · obtain rfl := Option.some.inj h
        exact ⟨RowCall.fits_none _, fun v hv => by cases k <;> exact hv⟩
      · cases k with
        | user => cases h
        | sync rest added =>
            -- A discovery goes on with the relays it has yet to ask for.
            obtain ⟨hq, hurls⟩ := syncNext_within h
            exact ⟨hq, fun v hv => List.mem_cons_of_mem _ (hurls v hv)⟩
  | pushes v k =>
      obtain rfl := hfits.eq_none rfl
      cases k with
      | user =>
          obtain rfl := Option.some.inj h
          exact ⟨trivial, fun v hv => hv⟩
      | sync rest added =>
          obtain ⟨hq, hurls⟩ := syncNext_within h
          refine ⟨hq, fun v' hv' => ?_⟩
          have hmem := hurls v' hv'
          simp only [List.mem_append, urlsInPool, List.cons_append, List.mem_cons] at hmem ⊢
          tauto
  | syncs announced => exact absurd rfl (hplan announced)
  | answers a => cases h

theorem RowCall.step_within {w : Outcome} {p q : RowCall} (hfits : p.Fits)
    (hplan : ∀ removed announced, p ≠ .asks removed (.syncs announced))
    (h : (p.step w s).2 = some q) : q.Within p.urls := by
  cases p with
  | looks v =>
      obtain rfl := Option.some.inj h
      refine ⟨fun r hr => ?_, fun v hv => hv⟩
      have hurl : r.url = v := by simpa using List.find?_some hr
      exact congrArg some hurl.symm
  | asks removed p =>
      exact asksNext_within hfits (fun announced hp => hplan removed announced (hp ▸ rfl)) h
  | collects added =>
      obtain ⟨hq, hurls⟩ := toPersist_within h
      refine ⟨hq, fun v hv => ?_⟩
      obtain ⟨r, hr, rfl⟩ := List.mem_map.mp (hurls v hv)
      have hmem : r.url ∈ added := by simpa using (List.mem_filter.mp hr).2
      exact hmem
  | persists rows =>
      cases rows with
      | nil => cases h
      | cons row rest =>
          obtain ⟨hq, hurls⟩ := toPersist_within h
          exact ⟨hq, fun v hv => List.mem_cons_of_mem _ (hurls v hv)⟩
  | unpersists v => cases h

theorem RowCall.fits_step {w : Outcome} {p q : RowCall} (hfits : p.Fits)
    (h : (p.step w s).2 = some q) : q.Fits := by
  by_cases hplan : ∃ removed announced, p = .asks removed (.syncs announced)
  · obtain ⟨removed, announced, rfl⟩ := hplan
    obtain rfl := hfits.eq_none rfl
    exact (syncNext_within h).1
  · exact (RowCall.step_within hfits (fun removed announced hp =>
      hplan ⟨removed, announced, hp⟩) h).1

theorem rowProg_tstep {w : Outcome} {p : RowCall} {s t : Shelf} {q : Option RowCall} :
    rowProg.tstep w p s = some (t, q) ↔ (p.step w s).1 = t ∧ (p.step w s).2 = q := by
  simp [rowProg, Prod.ext_iff]

theorem rowOutline (u : String) : OwnerOutline rowProg RowCall.Fits (RowCall.worksOn u)
    (fun s => (s.view u).Settled) (fun p s => p.Found u (s.view u)) where
  start p h := by
    cases p with
    | asks removed p =>
        cases removed with
        | none => exact RowCall.fits_none p
        | some r => cases h
    | _ => trivial
  go w p s t q h hp := RowCall.fits_step hp (rowProg_tstep.mp h).2
  spawn p s henter hworks hs := by
    cases p with
    | looks v => exact hs
    | asks removed p =>
        cases removed with
        | some r => cases henter
        | none =>
            cases p with
            | adds v => exact hs
            | syncs announced => cases hworks
            | _ => cases henter
    | _ => cases henter
  take w p s t q h hfits hp hq hs := by
    obtain ⟨rfl, hnext⟩ := rowProg_tstep.mp h
    by_cases hplan : ∃ removed announced, p = .asks removed (.syncs announced)
    · obtain ⟨removed, announced, rfl⟩ := hplan
      have hin : u ∈ planRelaySync s.pool.relays s.pool.blacklist announced ++ [] →
          Brought u (planRelaySync s.pool.relays s.pool.blacklist announced) [] (s.view u) :=
        fun hin => brought_plan hs (by simpa using hin)
      exact (leaves_syncNext hin fun _ => hs).found q hnext hq
    · -- Any other call keeps to its relays.
      have hwithin := RowCall.step_within hfits
        (fun removed announced hp => hplan ⟨removed, announced, hp⟩) hnext
      have hmem := hwithin.2 u (RowCall.worksOn_iff.mp hq)
      exact absurd (hp.symm.trans (RowCall.worksOn_iff.mpr hmem)) nofun
  stay w p s t q h hp hq hf := by
    obtain ⟨rfl, hnext⟩ := rowProg_tstep.mp h
    exact (RowCall.step_leaves hp hf).found q hnext hq
  leave w p s t q h hp hq hf := by
    obtain ⟨rfl, rfl⟩ := rowProg_tstep.mp h
    exact (RowCall.step_leaves hp hf).settled hq
  spare w p s t q h hp := by
    obtain ⟨rfl, -⟩ := rowProg_tstep.mp h
    rw [RowCall.step_spares hp]
    exact ⟨id, fun _ _ => id⟩
  env a := a.elim

/-! ## Rows and entries are tidy -/

/-- The relay is active or blacklisted, and not both. -/
def Plain (r : RelayInfo) : Prop := r.isActive = !r.isBlacklisted

structure Tidy (rows : List RelayInfo) : Prop where
  distinct : (rows.map (·.url)).Nodup
  plain : ∀ row ∈ rows, Plain row

structure Shelf.Tidy (s : Shelf) : Prop where
  rows : RelayRows.Tidy s.rows
  listed : ∀ r ∈ s.pool.relays, Plain r

def RowCall.Plain : RowCall → Prop
  | .persists rows => ∀ row ∈ rows, RelayRows.Plain row
  | _ => True

theorem Tidy.save {rows : List RelayInfo} (h : Tidy rows) (hrow : Plain row) :
    Tidy (rows.filter (·.url ≠ row.url) ++ [row]) := by
  refine ⟨?_, fun r hr => ?_⟩
  · rw [List.map_append, List.map_singleton, List.nodup_append]
    refine ⟨h.distinct.sublist (List.filter_sublist.map _), List.nodup_singleton _, ?_⟩
    rintro a ha b hb rfl
    obtain ⟨r, hr, hurl⟩ := List.mem_map.mp ha
    have hne : r.url ≠ row.url := by simpa using (List.mem_filter.mp hr).2
    exact hne (hurl.trans (List.mem_singleton.mp hb))
  · rcases List.mem_append.mp hr with hold | hnew
    · exact h.plain r (List.mem_filter.mp hold).1
    · exact List.mem_singleton.mp hnew ▸ hrow

theorem Tidy.filter {rows : List RelayInfo} (h : Tidy rows) (f : RelayInfo → Bool) :
    Tidy (rows.filter f) :=
  ⟨h.distinct.sublist (List.filter_sublist.map _),
    fun r hr => h.plain r (List.mem_filter.mp hr).1⟩

theorem plain_removalEffect {removed : Option RelayInfo} (h : removalEffect removed = some row) :
    Plain row := by
  obtain ⟨r, -, rfl⟩ := Option.map_eq_some_iff.mp h
  rfl

theorem toPersist_plain {rows : List RelayInfo} {q : RowCall} (h : toPersist rows = some q)
    (hrows : ∀ row ∈ rows, Plain row) : q.Plain := by
  unfold toPersist at h
  split at h <;> cases h
  exact hrows

theorem syncNext_not_added (added rest : List String) (info : RelayInfo) :
    syncNext added rest ≠ .answers (.added info) := by
  cases rest <;> nofun

/-- A relay that an add returns is active. -/
theorem step_added {sdk : Except String Unit} {s : Registry} {info : RelayInfo}
    (h : (p.step sdk s).2 = some (.answers (.added info))) : Plain info := by
  cases p with
  | pushes v k =>
      cases k with
      | user =>
          cases h
          rfl
      | sync rest added => exact absurd (Option.some.inj h) (syncNext_not_added _ _ _)
  | registers v k =>
      cases sdk with
      | ok x => cases h
      | error e =>
          cases k with
          | user => cases h
          | sync rest added => exact absurd (Option.some.inj h) (syncNext_not_added _ _ _)
  | syncs announced => exact absurd (Option.some.inj h) (syncNext_not_added _ _ _)
  | adds v =>
      simp only [RelayCall.step] at h
      split at h <;> cases h
  | removes v =>
      simp only [RelayCall.step] at h
      split at h
      · cases h
      · split at h
        · cases h
        · dsimp only at h
          split at h <;> cases h
  | disconnects v => cases sdk <;> cases h
  | lifts | blacklists | answers => cases h

/-- What goes on after an answer writes plain rows. -/
theorem asksNext_plain {sdk : Except String Unit} {removed : Option RelayInfo} {q : RowCall}
    {s : Registry} (h : asksNext removed p (p.step sdk s).2 = some q) : q.Plain := by
  cases ho : (p.step sdk s).2 with
  | none =>
      rw [ho] at h
      cases h
  | some o =>
      rw [ho] at h
      cases o with
      | answers a =>
          have h : answered removed p a = some q := h
          cases a with
          | added info =>
              have hq : toPersist [info] = some q := by cases p <;> exact h
              exact toPersist_plain hq fun r hr => List.mem_singleton.mp hr ▸ step_added ho
          | synced added =>
              rw [answered_synced] at h
              split at h <;> cases h
              trivial
          | failed message =>
              rw [answered_failed] at h
              cases h
          | removed =>
              cases p with
              | disconnects v =>
                  simp only [answered] at h
                  split at h
                  · next hrow =>
                      exact toPersist_plain h fun r hr =>
                        List.mem_singleton.mp hr ▸ plain_removalEffect hrow
                  · obtain rfl := Option.some.inj h
                    trivial
              | _ => cases h
      | _ =>
          obtain rfl := Option.some.inj h
          trivial

theorem pool_plain {s : Registry} (he : p.Effect s t o) (h : ∀ r ∈ s.relays, Plain r) :
    ∀ r ∈ t.relays, Plain r := by
  cases he with
  | reads | lifts | blacklists => exact h
  | pushes v k =>
      intro r hr
      rcases List.mem_append.mp hr with hold | hnew
      · exact h r hold
      · obtain rfl := List.mem_singleton.mp hnew
        rfl
  | removes v r => exact fun r hr => h r (List.mem_of_mem_eraseP hr)

theorem tidyOutline : Outline rowProg (fun _ _ => True) Shelf.Tidy (fun p _ => p.Plain) := by
  constructor
  · intro c i p _ _ henter _
    cases p with
    | looks | asks => trivial
    | _ => cases henter
  · intro c i w p s q hc _ hp hs
    obtain ⟨rfl, -⟩ := rowProg_tstep.mp hs
    have hplain := hc.threads i p hp
    cases p with
    | looks | collects => exact hc.shared
    | asks removed p =>
        have hlisted := pool_plain (p.step_effect w.sdk c.shared.pool) hc.shared.listed
        simp only [RowCall.step]
        split
        · exact ⟨hc.shared.rows, hlisted⟩
        · exact ⟨hc.shared.rows, hlisted⟩
    | persists rows =>
        cases rows with
        | nil => exact hc.shared
        | cons row rest =>
            simp only [RowCall.step, Shelf.persistRelay]
            split
            · exact ⟨hc.shared.rows.save (hplain row List.mem_cons_self), hc.shared.listed⟩
            · exact ⟨hc.shared.rows, hc.shared.listed⟩
    | unpersists v =>
        simp only [RowCall.step, Shelf.unpersistRelay]
        split
        · exact ⟨hc.shared.rows.filter _, hc.shared.listed⟩
        · exact ⟨hc.shared.rows, hc.shared.listed⟩
  · intro c i w p s q hc _ hp hs
    obtain ⟨-, hnext⟩ := rowProg_tstep.mp hs
    have hplain := hc.threads i p hp
    cases p with
    | looks v =>
        obtain rfl := Option.some.inj hnext
        trivial
    | asks removed p => exact asksNext_plain hnext
    | collects added =>
        exact toPersist_plain hnext fun r hr =>
          hc.shared.listed r (List.mem_filter.mp hr).1
    | persists rows =>
        cases rows with
        | nil => cases hnext
        | cons row rest =>
            exact toPersist_plain hnext fun r hr => hplain r (List.mem_cons_of_mem _ hr)
    | unpersists v => cases hnext
  · exact fun c i w p s q j r hc _ _ _ _ hr => hc.threads j r hr
  · exact fun c a => a.elim
  · exact fun c a => a.elim

end MostroApp.RelayRows
