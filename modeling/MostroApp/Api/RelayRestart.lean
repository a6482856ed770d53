import MostroApp.Api.RelayRows

set_option autoImplicit false

/-! # Relays over restarts (`initialize`, `seed_default_relays`)

The next start builds its pool from the rows that the session before has left. Where it reads them,
and does not fall back on the defaults for want of an active row, a relay that was not left behind
comes back as it was (`restart_restores`), and one that was removed for good stays out
(`removed_stays_out`).
-/

namespace MostroApp.RelayRows

open Interleaving Transition Relays

/-! ## Starts -/

/-- `DEFAULT_RELAYS`. -/
def defaultRelays : List String :=
  ["wss://relay.mostro.network", "wss://nos.lol", "wss://mostro-p2p.tech",
    "wss://relay.shadowbip.com"]

/-- What a start meets: whether the rows are read, whether they are read again for the seeds, and
how many seeds are written before a write fails. -/
structure Start where
  loads : Bool := true
  lists : Bool := true
  seeds : Nat := 4

/-- A row of `seed_default_relays`. -/
def seedRow (url : String) : RelayInfo :=
  { relayInfo .default url with status := .disconnected }

def activeUrls (persisted : List RelayInfo) : List String :=
  (persisted.filter fun r => r.isActive && !r.isBlacklisted).map (·.url)

/-- The rows after `seed_defaults`. -/
def seedDefaults (w : Start) (rows : List RelayInfo) : List RelayInfo :=
  if w.lists && rows.isEmpty then (defaultRelays.take w.seeds).map seedRow else rows

/-- `initialize` without relays of the caller's, in a process whose pool the SDK takes. Without an
active row the pool is built of the defaults; those that have no row then are behind, and every row
is when it was there before. -/
def initializeClient (w : Start) (rows : List RelayInfo) : Shelf :=
  let persisted := if w.loads then rows else []
  let active := activeUrls persisted
  let urls := if active.isEmpty then defaultRelays else active
  let stored := if persisted.isEmpty then seedDefaults w rows else rows
  { pool := (Registry.new urls).restorePersisted persisted
    rows := stored
    behind :=
      if !active.isEmpty then ∅
      else if rows.isEmpty then (defaultRelays.filter (· ∉ stored.map (·.url))).toFinset
      else (defaultRelays ++ rows.map (·.url)).toFinset }

/-! ## What a start makes of the rows -/

section Start

variable {u : String} {row : RelayInfo} {rows persisted : List RelayInfo} {urls : List String}
  {w : Start}

/-- The first entry takes a row's flags. -/
def restoreFlags (row : RelayInfo) : List RelayInfo → List RelayInfo
  | [] => []
  | r :: rs => { r with source := row.source, isDefault := row.isDefault } :: rs

theorem restoreRow_local :
    Rows.Local (fun (relays : List RelayInfo) row => Registry.restoreRow row relays)
      (fun relays u => relays.filter (·.url = u)) (·.url) restoreFlags where
  self relays row := by
    induction relays with
    | nil => rfl
    | cons r relays ih =>
        by_cases hr : r.url = row.url
        · simp [Registry.restoreRow, restoreFlags, hr]
        · simpa [Registry.restoreRow, hr] using ih
  other relays row u hu := by
    induction relays with
    | nil => rfl
    | cons r relays ih =>
        by_cases hr : r.url = row.url
        · have hne : row.url ≠ u := Ne.symm hu
          simp [Registry.restoreRow, hr, hne]
        · simp only [Registry.restoreRow, if_neg hr, List.filter_cons, ih]

/-- Among rows of distinct URLs at most one is a relay's. -/
theorem filter_eq_find? (h : (rows.map (·.url)).Nodup) (u : String) :
    rows.filter (·.url = u) = (rows.find? (·.url = u)).toList := by
  induction rows with
  | nil => rfl
  | cons row rows ih =>
      rw [List.map_cons, List.nodup_cons] at h
      by_cases hrow : row.url = u
      · have hnone : rows.filter (·.url = u) = [] := by
          rw [List.filter_eq_nil_iff]
          intro r hr hru
          exact h.1 (List.mem_map.mpr ⟨r, hr, (by simpa using hru : r.url = u).trans hrow.symm⟩)
        simp [hrow, hnone]
      · simpa [hrow] using ih h.2

theorem filter_new (h : urls.Nodup) (u : String) :
    (Registry.new urls).relays.filter (·.url = u) =
      if u ∈ urls then [relayInfo .default u] else [] := by
  unfold Registry.new
  induction urls with
  | nil => rfl
  | cons v urls ih =>
      obtain ⟨hv, hnodup⟩ := List.nodup_cons.mp h
      have ih := ih hnodup
      by_cases hvu : v = u
      · subst hvu
        rw [if_neg hv] at ih
        simpa [relayInfo] using ih
      · have hne : u ≠ v := Ne.symm hvu
        simpa [relayInfo, hvu, hne] using ih

/-- The entries of a relay that a pool starts with: listed if its URL is, with the flags of its
row. -/
theorem listed_start (hurls : urls.Nodup) (h : Tidy persisted) (u : String) :
    ((Registry.new urls).restorePersisted persisted).relays.filter (·.url = u) =
      ((persisted.find? (·.url = u)).filter fun r => !r.isBlacklisted).toList.foldl
        (fun l row => restoreFlags row l) (if u ∈ urls then [relayInfo .default u] else []) := by
  have hlocal := restoreRow_local.foldl (persisted.filter fun r => !r.isBlacklisted)
    (Registry.new urls).relays u
  have hrows : ((persisted.filter fun r => !r.isBlacklisted).filter fun r => r.url = u) =
      ((persisted.find? (·.url = u)).filter fun r => !r.isBlacklisted).toList := by
    rw [List.filter_comm, filter_eq_find? h.distinct]
    cases persisted.find? (·.url = u) with
    | none => rfl
    | some row => cases hb : row.isBlacklisted <;> simp [hb, Option.filter]
  rw [hrows, filter_new hurls] at hlocal
  exact hlocal

theorem black_start (h : Tidy persisted) (u : String) :
    u ∈ ((Registry.new urls).restorePersisted persisted).blacklist ↔
      ∃ row, persisted.find? (·.url = u) = some row ∧ row.isBlacklisted = true := by
  have hmem : u ∈ ((Registry.new urls).restorePersisted persisted).blacklist ↔
      ∃ row ∈ persisted.filter (·.url = u), row.isBlacklisted = true := by
    unfold Registry.restorePersisted
    simp only [List.mem_toFinset, List.mem_map, List.mem_filter, decide_eq_true_eq]
    constructor
    · rintro ⟨r, ⟨hr, hb⟩, hu⟩
      exact ⟨r, ⟨hr, hu⟩, hb⟩
    · rintro ⟨r, ⟨hr, hu⟩, hb⟩
      exact ⟨r, ⟨hr, hb⟩, hu⟩
  rw [hmem, filter_eq_find? h.distinct]
  simp [Option.mem_toList]

theorem Tidy.nodup_activeUrls (h : Tidy rows) : (activeUrls rows).Nodup :=
  h.distinct.sublist (List.filter_sublist.map _)

theorem Tidy.mem_activeUrls (h : Tidy rows) :
    u ∈ activeUrls rows ↔
      ∃ row, rows.find? (·.url = u) = some row ∧ row.isBlacklisted = false := by
  have hmem : u ∈ activeUrls rows ↔ ∃ row ∈ rows.filter (·.url = u), row.isBlacklisted = false := by
    unfold activeUrls
    simp only [List.mem_map, List.mem_filter, Bool.and_eq_true, Bool.not_eq_true',
      decide_eq_true_eq]
    constructor
    · rintro ⟨r, ⟨hr, -, hb⟩, hu⟩
      exact ⟨r, ⟨hr, hu⟩, hb⟩
    · rintro ⟨r, ⟨hr, hu⟩, hb⟩
      have hactive : r.isActive = true := by
        have hplain : r.isActive = !r.isBlacklisted := h.plain r hr
        rw [hplain, hb]
        rfl
      exact ⟨r, ⟨hr, hactive, hb⟩, hu⟩
  rw [hmem, filter_eq_find? h.distinct]
  simp [Option.mem_toList]

/-- What is known of a relay that has no row, of one that is blacklisted and of any other. -/
theorem known_start (hurls : urls.Nodup) (h : Tidy persisted)
    (hin : ∀ row, persisted.find? (·.url = u) = some row → row.isBlacklisted = false → u ∈ urls)
    (hout : ∀ row, persisted.find? (·.url = u) = some row → row.isBlacklisted = true → u ∉ urls)
    (hnone : persisted.find? (·.url = u) = none → u ∉ urls) :
    known u ((Registry.new urls).restorePersisted persisted) =
      told (persisted.find? (·.url = u)) := by
  have hblack : u ∈ ((Registry.new urls).restorePersisted persisted).blacklist ↔
      ∃ row, persisted.find? (·.url = u) = some row ∧ row.isBlacklisted = true :=
    black_start h u
  unfold known
  rw [listed_start hurls h u]
  cases hrow : persisted.find? (·.url = u) with
  | none =>
      rw [hrow] at hblack
      simp [hblack, hnone hrow, told]
  | some row =>
      rw [hrow] at hblack
      cases hb : row.isBlacklisted with
      | true => simp [hblack, hout row hrow hb, hb, Option.filter, told]
      | false => simp [hblack, hin row hrow hb, hb, Option.filter, restoreFlags, told]

/-- The URLs a pool is built with. -/
def startUrls (persisted : List RelayInfo) : List String :=
  if (activeUrls persisted).isEmpty then defaultRelays else activeUrls persisted

theorem nodup_startUrls (h : Tidy persisted) : (startUrls persisted).Nodup := by
  unfold startUrls
  split
  · decide
  · exact h.nodup_activeUrls

theorem mem_startUrls (h : u ∈ activeUrls persisted) : u ∈ startUrls persisted := by
  have hne := List.ne_nil_of_mem h
  simpa [startUrls, hne] using h

theorem mem_active_or_default (h : u ∈ startUrls persisted) :
    u ∈ activeUrls persisted ∨ activeUrls persisted = [] ∧ u ∈ defaultRelays := by
  unfold startUrls at h
  split at h
  · next hnil => exact .inr ⟨List.isEmpty_iff.mp hnil, h⟩
  · exact .inl h

theorem activeUrls_ne_nil (h : Tidy rows) (hrow : row ∈ rows) (hactive : row.isActive = true) :
    activeUrls rows ≠ [] := by
  have hplain : row.isActive = !row.isBlacklisted := h.plain row hrow
  refine List.ne_nil_of_mem (List.mem_map.mpr ⟨row, List.mem_filter.mpr ⟨hrow, ?_⟩, rfl⟩)
  simp [← hplain, hactive]

/-- **A start knows of a relay what its row says.** -/
theorem known_initializeClient (h : Tidy rows) (hloads : w.loads = true)
    (hsome : (∃ row ∈ rows, row.isActive = true) ∨ u ∉ defaultRelays) :
    known u (initializeClient w rows).pool = told (rows.find? (·.url = u)) := by
  have hin := h.mem_activeUrls (u := u)
  -- No relay is listed for being a default alone.
  have hlisted : u ∈ startUrls rows → u ∈ activeUrls rows := by
    intro hu
    refine (mem_active_or_default hu).resolve_right ?_
    rintro ⟨hnil, hdefault⟩
    rcases hsome with ⟨row, hrow, hactive⟩ | hnot
    · exact activeUrls_ne_nil h hrow hactive hnil
    · exact hnot hdefault
  have hpool : (initializeClient w rows).pool =
      (Registry.new (startUrls rows)).restorePersisted rows := by
    unfold initializeClient startUrls
    rw [hloads]
    rfl
  rw [hpool]
  refine known_start (nodup_startUrls h) h (fun row hrow hb => ?_) (fun row hrow hb hu => ?_)
    fun hrow hu => ?_
  · exact mem_startUrls (hin.mpr ⟨row, hrow, hb⟩)
  · obtain ⟨row', hrow', hb'⟩ := hin.mp (hlisted hu)
    obtain rfl := Option.some.inj (hrow.symm.trans hrow')
    exact absurd (hb.symm.trans hb') nofun
  · obtain ⟨row, hrow', -⟩ := hin.mp (hlisted hu)
    exact absurd (hrow.symm.trans hrow') nofun

theorem once_start (hurls : urls.Nodup) (persisted : List RelayInfo) (u : String) :
    (((Registry.new urls).restorePersisted persisted).relays.filter (·.url = u)).length ≤ 1 := by
  have hnodup : ((Registry.new urls).restorePersisted persisted).urls.Nodup := by
    rwa [Registry.urls_start]
  have hcount := List.nodup_iff_count_le_one.mp hnodup u
  rw [List.count, Registry.urls, List.countP_map] at hcount
  rw [← List.countP_eq_length_filter]
  refine Nat.le_trans (Nat.le_of_eq (List.countP_congr fun r _ => ?_)) hcount
  simp

theorem find?_eq_none_of_notMem (h : u ∉ rows.map (·.url)) : rows.find? (·.url = u) = none := by
  refine List.find?_eq_none.mpr fun r hr hru => h (List.mem_map.mpr ⟨r, hr, ?_⟩)
  simpa using hru

/-- The pool of a first start, and its rows. -/
theorem settled_first (w : Start) (u : String) : ((initializeClient w []).view u).Settled := by
  have hpool : (initializeClient w []).pool = (Registry.new defaultRelays).restorePersisted [] := by
    unfold initializeClient
    cases w.loads <;> rfl
  have hrows : (initializeClient w []).rows =
      if w.lists then (defaultRelays.take w.seeds).map seedRow else [] := by
    unfold initializeClient seedDefaults
    cases w.loads <;> cases w.lists <;> rfl
  have hbehind : (initializeClient w []).behind =
      (defaultRelays.filter (· ∉ (initializeClient w []).rows.map (·.url))).toFinset := by
    unfold initializeClient
    cases w.loads <;> rfl
  have hstored : ∀ row ∈ (initializeClient w []).rows, ∃ v ∈ defaultRelays, row = seedRow v := by
    intro row hrow
    rw [hrows] at hrow
    split at hrow
    · obtain ⟨v, hv, rfl⟩ := List.mem_map.mp hrow
      exact ⟨v, List.mem_of_mem_take hv, rfl⟩
    · cases hrow
  refine ⟨?_, ?_⟩
  · show ((initializeClient w []).pool.relays.filter (·.url = u)).length ≤ 1
    rw [hpool]
    exact once_start (by decide) [] u
  · have hlisted : ((initializeClient w []).view u).listed =
        if u ∈ defaultRelays then [relayInfo .default u] else [] := by
      show (initializeClient w []).pool.relays.filter (·.url = u) = _
      rw [hpool]
      exact filter_new (by decide) u
    have hblack : ((initializeClient w []).view u).black = false := by
      show decide (u ∈ (initializeClient w []).pool.blacklist) = false
      rw [hpool]
      rfl
    rw [hlisted, hblack]
    by_cases hdefault : u ∈ defaultRelays
    · by_cases hrow : u ∈ (initializeClient w []).rows.map (·.url)
      · cases hfind : (initializeClient w []).rows.find? (·.url = u) with
        | none =>
            obtain ⟨row, hmem, hurl⟩ := List.mem_map.mp hrow
            exact absurd (by simpa using hurl) (List.find?_eq_none.mp hfind row hmem)
        | some row =>
            have hurl : row.url = u := by simpa using List.find?_some hfind
            obtain ⟨v, -, rfl⟩ := hstored row (List.mem_of_find?_eq_some hfind)
            have hvu : v = u := hurl
            subst hvu
            refine .inr ?_
            show Mirrors _ false ((initializeClient w []).rows.find? _)
            rw [hfind, if_pos hdefault]
            exact .listed rfl rfl rfl
      · refine .inl ?_
        show decide (u ∈ (initializeClient w []).behind) = true
        rw [hbehind]
        simpa [hdefault] using hrow
    · have hfind : (initializeClient w []).rows.find? (·.url = u) = none := by
        refine List.find?_eq_none.mpr fun row hrow hurl => ?_
        obtain ⟨v, hv, rfl⟩ := hstored row hrow
        have hvu : v = u := by simpa [seedRow, relayInfo] using hurl
        exact hdefault (hvu ▸ hv)
      refine .inr ?_
      show Mirrors _ false ((initializeClient w []).rows.find? _)
      rw [hfind, if_neg hdefault]
      exact .absent

/-- Every relay is settled at a start: those it does not know from their rows are behind. -/
theorem settled_initializeClient (h : Tidy rows) (w : Start) (u : String) :
    ((initializeClient w rows).view u).Settled := by
  by_cases hrows : rows = []
  · subst hrows
    exact settled_first w u
  have hstored : (initializeClient w rows).rows = rows := by
    unfold initializeClient seedDefaults
    simp [hrows]
  have htidy : Tidy (if w.loads then rows else []) := by
    split
    · exact h
    · exact ⟨List.nodup_nil, fun r hr => (nomatch hr)⟩
  refine ⟨once_start (nodup_startUrls htidy) _ u, ?_⟩
  by_cases hactive : activeUrls (if w.loads then rows else []) = []
  · by_cases hu : u ∈ defaultRelays ++ rows.map (·.url)
    · refine .inl ?_
      show decide (u ∈ (initializeClient w rows).behind) = true
      unfold initializeClient
      simpa [hactive, hrows] using hu
    · -- A relay that is no default and has no row is unknown to both.
      rw [List.mem_append, not_or] at hu
      have hfind := find?_eq_none_of_notMem hu.2
      have hpersisted : (if w.loads then rows else []).find? (·.url = u) = none := by
        split
        · exact hfind
        · rfl
      have hknown : known u
          ((Registry.new (startUrls (if w.loads then rows else []))).restorePersisted
            (if w.loads then rows else [])) =
          told ((if w.loads then rows else []).find? (·.url = u)) := known_start
        (nodup_startUrls htidy) htidy
        (fun row hrow => absurd (hpersisted.symm.trans hrow) nofun)
        (fun row hrow => absurd (hpersisted.symm.trans hrow) nofun) fun _ hin => by
          rcases mem_active_or_default hin with hin | hin
          · rw [hactive] at hin
            cases hin
          · exact hu.1 hin.2
      refine .inr (mirrors_iff.mpr ?_)
      show known u (initializeClient w rows).pool = told ((initializeClient w rows).rows.find? _)
      rw [hstored, hfind, ← hpersisted]
      exact hknown
  · have hloads : w.loads = true := by
      by_contra hno
      simp [hno, activeUrls] at hactive
    obtain ⟨u', hu'⟩ := List.exists_mem_of_ne_nil _ hactive
    rw [if_pos hloads] at hu'
    obtain ⟨row, hrow, -⟩ := List.mem_map.mp hu'
    obtain ⟨hrow, hflags⟩ := List.mem_filter.mp hrow
    refine .inr (mirrors_iff.mpr ?_)
    show known u (initializeClient w rows).pool = told ((initializeClient w rows).rows.find? _)
    rw [hstored]
    exact known_initializeClient h hloads (.inl ⟨row, hrow, by simp_all⟩)

theorem tidy_seedDefaults (h : Tidy rows) (w : Start) : Tidy (seedDefaults w rows) := by
  unfold seedDefaults
  split
  · refine ⟨?_, fun row hrow => ?_⟩
    · rw [List.map_map]
      have hid : ((fun r : RelayInfo => r.url) ∘ seedRow) = id := rfl
      rw [hid, List.map_id]
      exact (by decide : defaultRelays.Nodup).sublist (List.take_sublist _ _)
    · obtain ⟨v, -, rfl⟩ := List.mem_map.mp hrow
      rfl
  · exact h

theorem tidy_initializeClient (h : Tidy rows) (w : Start) : (initializeClient w rows).Tidy := by
  constructor
  · by_cases hempty : (if w.loads then rows else []).isEmpty = true
    · have hrows : (initializeClient w rows).rows = seedDefaults w rows := if_pos hempty
      rw [hrows]
      exact tidy_seedDefaults h w
    · have hrows : (initializeClient w rows).rows = rows := if_neg hempty
      rw [hrows]
      exact h
  · -- The rows change no flag that tells active from blacklisted.
    have hflags : ∀ (urls : List String) (persisted : List RelayInfo),
        ((Registry.new urls).restorePersisted persisted).relays.map
          (fun r => (r.isActive, r.isBlacklisted)) = urls.map fun _ => (true, false) := by
      intro urls persisted
      refine (Registry.map_restorePersisted (fun _ _ _ => rfl) persisted _).trans ?_
      unfold Registry.new
      rw [List.map_map]
      rfl
    intro r hr
    have hmem := hflags (startUrls (if w.loads then rows else [])) (if w.loads then rows else [])
    have hr' : (r.isActive, r.isBlacklisted) ∈ _ :=
      hmem ▸ List.mem_map.mpr ⟨r, hr, rfl⟩
    obtain ⟨v, -, hv⟩ := List.mem_map.mp hr'
    obtain ⟨hactive, hblack⟩ := Prod.mk.inj hv
    show r.isActive = !r.isBlacklisted
    rw [← hactive, ← hblack]
    rfl

end Start

/-! ## Every session -/

/-- The rows that sessions can have left, whatever their calls, failures and ends were. -/
inductive Stored : List RelayInfo → Prop where
  | first : Stored []
  | session {rows : List RelayInfo} {w : Start} {ls : List (Label RowCall Outcome Empty)}
      {c : Pool Shelf RowCall} (h : Stored rows)
      (hr : run rowProg.next (Pool.idle (initializeClient w rows)) ls = some c) :
      Stored c.shared.rows

variable {u : String} {row : RelayInfo} {rows : List RelayInfo} {w : Start}
  {ls : List (Label RowCall Outcome Empty)}
  {c : Pool Shelf RowCall}

theorem tidy_run (h : Tidy rows)
    (hr : run rowProg.next (Pool.idle (initializeClient w rows)) ls = some c) :
    Tidy c.shared.rows :=
  (tidyOutline.run_inv (poolInv_idle (tidy_initializeClient h w)) (along_true _ _) hr).shared.rows

theorem Stored.tidy (h : Stored rows) : Tidy rows := by
  induction h with
  | first => exact ⟨List.nodup_nil, fun r hr => (nomatch hr)⟩
  | session h hr ih => exact tidy_run ih hr

/-- **A relay comes back as it was.** In a session in which no two calls work on a relay at once,
whenever none does, the next start that reads the rows has the relay listed, with its source and
default flag, or blacklisted, or neither, as the session has it. This leaves out a default relay at
a start that finds no active row, and what is behind: a relay of which the last change failed
half-way, and one that the session's own start had not from its row and no change has stored. -/
theorem restart_restores {w' : Start} (hstored : Stored rows)
    (hcalls : Along rowProg.next (TakesFree rowProg (RowCall.worksOn u))
      (Pool.idle (initializeClient w rows)) ls)
    (hr : run rowProg.next (Pool.idle (initializeClient w rows)) ls = some c)
    (hidle : ∀ i p, c.threads i = some p → u ∉ p.urls) (hbehind : u ∉ c.shared.behind)
    (hloads : w'.loads = true)
    (hsome : (∃ row ∈ c.shared.rows, row.isActive = true) ∨ u ∉ defaultRelays) :
    known u (initializeClient w' c.shared.rows).pool = known u c.shared.pool := by
  have hinv := (rowOutline u).run_inv
    (owned_idle (settled_initializeClient hstored.tidy w u)) hcalls hr
  have hsettled := hinv.free fun i p hp => by
    simpa [RowCall.worksOn] using hidle i p hp
  have hmirrors : Mirrors (c.shared.view u).listed (c.shared.view u).black (c.shared.view u).row :=
    hsettled.mirrors.resolve_left (by simpa [Shelf.view] using hbehind)
  rw [known_initializeClient (tidy_run hstored.tidy hr) hloads hsome]
  exact (mirrors_iff.mp hmirrors).symm

/-- A node announces a relay, and the user removes it. -/
def announcedAndRemoved : List (Label RowCall Outcome Empty) :=
  .spawn 0 (.asks none (.syncs ["wss://nos.lol", "wss://r"])) ::
    List.replicate 5 (.step 0 {}) ++ [.spawn 1 (.looks "wss://r")] ++
    List.replicate 5 (.step 1 {})

theorem restart_restores_removed :
    ∃ c, run rowProg.next (Pool.idle (initializeClient {} [])) announcedAndRemoved = some c ∧
      known "wss://r" c.shared.pool = ([], true) ∧
      known "wss://r" (initializeClient {} c.shared.rows).pool =
        known "wss://r" c.shared.pool := by
  have hr : run rowProg.next (Pool.idle (initializeClient {} [])) announcedAndRemoved =
      some _ := rfl
  have hcalls := along_of_below
    (K := fun c l o => TakesFrom rowProg (RowCall.worksOn "wss://r") c l o) 2
    (fun _ _ _ _ => rfl) (below_idle 2 _) rfl
    (show Along rowProg.next (fun c l => ∀ j < 2,
      TakesFrom rowProg (RowCall.worksOn "wss://r") c l (c.threads j))
      (Pool.idle (initializeClient {} [])) announcedAndRemoved by decide)
  refine ⟨_, hr, by decide, ?_⟩
  refine restart_restores .first hcalls hr (fun i p hp => ?_) (by decide) rfl (.inr (by decide))
  have hdone := (below_idle 2 _).run (by rfl) hr
  exact absurd (hp.symm.trans (hdone.all_done (by rfl) i)) nofun

/-! ## A relay that is out -/

/-- The user neither adds nor removes the relay. -/
def LeavesAlone (u : String) (_ : Pool Shelf RowCall) : Label RowCall Outcome Empty → Prop
  | .spawn _ p => u ∉ p.urls
  | _ => True

instance (u : String) (c : Pool Shelf RowCall) : ∀ l, Decidable (LeavesAlone u c l)
  | .spawn _ p => inferInstanceAs (Decidable (u ∉ p.urls))
  | .step .. => isTrue trivial
  | .env a => a.elim

/-- The relay is blacklisted and not listed, and its row says so. -/
structure Shelf.Out (u : String) (s : Shelf) : Prop where
  unlisted : (s.view u).listed = []
  black : (s.view u).black = true
  row : ∃ row, (s.view u).row = some row ∧ row.isBlacklisted = true

theorem outOutline (u : String) : Outline rowProg (LeavesAlone u) (Shelf.Out u)
    (fun p _ => p.Fits ∧ u ∉ p.urls) := by
  constructor
  · exact fun c i p _ hC henter _ => ⟨(rowOutline u).start p henter, hC⟩
  · intro c i w p s q hc _ hp hs
    obtain ⟨rfl, -⟩ := rowProg_tstep.mp hs
    have hview : (p.step w c.shared).1.view u = c.shared.view u :=
      RowCall.step_spares (by simpa [RowCall.worksOn] using (hc.threads i p hp).2)
    exact ⟨hview ▸ hc.shared.unlisted, hview ▸ hc.shared.black, hview ▸ hc.shared.row⟩
  · intro c i w p s q hc _ hp hs
    obtain ⟨-, hnext⟩ := rowProg_tstep.mp hs
    obtain ⟨hfits, hnot⟩ := hc.threads i p hp
    refine ⟨RowCall.fits_step hfits hnext, fun hu => ?_⟩
    by_cases hplan : ∃ removed announced, p = .asks removed (.syncs announced)
    · obtain ⟨removed, announced, rfl⟩ := hplan
      obtain rfl := hfits.eq_none rfl
      have hmem : u ∈ planRelaySync c.shared.pool.relays c.shared.pool.blacklist announced := by
        simpa using (syncNext_within hnext).2 u hu
      have hblack : u ∈ c.shared.pool.blacklist := by
        simpa [Shelf.view] using hc.shared.black
      exact ((plan_fresh _ _ _).2 u hmem).1 hblack
    · exact hnot ((RowCall.step_within hfits
        (fun removed announced hp => hplan ⟨removed, announced, hp⟩) hnext).2 u hu)
  · exact fun c i w p s q j r hc _ _ _ _ hr => hc.threads j r hr
  · exact fun c a => a.elim
  · exact fun c a => a.elim

/-- A session in which the user leaves the relay alone; its start reads the rows, and for a default
relay finds an active one. -/
inductive Session (u : String) (rows : List RelayInfo) (c : Pool Shelf RowCall) : Prop where
  | mk (w : Start) (ls : List (Label RowCall Outcome Empty)) (hloads : w.loads = true)
      (hsome : (∃ row ∈ rows, row.isActive = true) ∨ u ∉ defaultRelays)
      (hcalls : Along rowProg.next (LeavesAlone u) (Pool.idle (initializeClient w rows)) ls)
      (hr : run rowProg.next (Pool.idle (initializeClient w rows)) ls = some c)

/-- The rows after any number of such sessions. -/
inductive Later (u : String) (rows : List RelayInfo) : List RelayInfo → Prop where
  | now : Later u rows rows
  | session {rows' : List RelayInfo} {c : Pool Shelf RowCall} (h : Later u rows rows')
      (hs : Session u rows' c) : Later u rows c.shared.rows

theorem Session.out (h : Tidy rows) (hrow : rows.find? (·.url = u) = some row)
    (hblack : row.isBlacklisted = true) (hs : Session u rows c) : c.shared.Out u := by
  obtain ⟨w, ls, hloads, hsome, hcalls, hr⟩ := hs
  have hknown := known_initializeClient h hloads hsome
  rw [hrow, told, if_pos hblack] at hknown
  obtain ⟨hlisted, hmem⟩ := Prod.mk.inj hknown
  have hne : rows ≠ [] := List.ne_nil_of_mem (List.mem_of_find?_eq_some hrow)
  have hstored : (initializeClient w rows).rows = rows := by
    unfold initializeClient
    simp [hloads, hne]
  refine ((outOutline u).run_inv (poolInv_idle ⟨List.map_eq_nil_iff.mp hlisted, hmem, row, ?_,
    hblack⟩) hcalls hr).shared
  show (initializeClient w rows).rows.find? (·.url = u) = some row
  rw [hstored, hrow]

/-- The row stays blacklisted from session to session. -/
theorem Later.kept {rows' : List RelayInfo} (h : Tidy rows)
    (hrow : rows.find? (·.url = u) = some row) (hblack : row.isBlacklisted = true)
    (hlater : Later u rows rows') :
    Tidy rows' ∧ ∃ row, rows'.find? (·.url = u) = some row ∧ row.isBlacklisted = true := by
  induction hlater with
  | now => exact ⟨h, row, hrow, hblack⟩
  | session _ hs ih =>
      obtain ⟨htidy, row', hrow', hblack'⟩ := ih
      have hout := hs.out htidy hrow' hblack'
      obtain ⟨w, ls, -, -, -, hr⟩ := hs
      exact ⟨tidy_run htidy hr, hout.row⟩

/-- **A relay removed for good stays out.** Once its row is blacklisted, no session lists the relay
again, whatever is announced, fails or is cut short, until the user adds it; every start up to there
has to read the rows, and to find an active one if the relay is a default. -/
theorem removed_stays_out {rows' : List RelayInfo} (hstored : Stored rows)
    (hrow : rows.find? (·.url = u) = some row) (hblack : row.isBlacklisted = true)
    (hlater : Later u rows rows') (hs : Session u rows' c) :
    u ∉ c.shared.pool.urls ∧ u ∈ c.shared.pool.blacklist := by
  obtain ⟨htidy, row', hrow', hblack'⟩ := hlater.kept hstored.tidy hrow hblack
  have hout := hs.out htidy hrow' hblack'
  refine ⟨fun hmem => ?_, by simpa [Shelf.view] using hout.black⟩
  obtain ⟨r, hr, hurl⟩ := List.mem_map.mp hmem
  have hin : r ∈ (c.shared.view u).listed := List.mem_filter.mpr ⟨hr, by simpa using hurl⟩
  rw [hout.unlisted] at hin
  cases hin

/-- The rows that `announcedAndRemoved` leaves. -/
def rowsWithout : List RelayInfo :=
  defaultRelays.map seedRow ++
    [{ relayInfo .mostroDiscovered "wss://r" with
        isActive := false, isBlacklisted := true, status := .disconnected }]

theorem removed_stays_out_announced :
    ∃ c, run rowProg.next (Pool.idle (initializeClient {} rowsWithout))
        (.spawn 0 (.asks none (.syncs ["wss://s", "wss://r"])) ::
          List.replicate 5 (.step 0 {})) = some c ∧
      "wss://s" ∈ c.shared.pool.urls ∧ "wss://r" ∉ c.shared.pool.urls ∧
      "wss://r" ∈ c.shared.pool.blacklist := by
  obtain ⟨c₀, hr₀, hrows₀⟩ : ∃ c,
      run rowProg.next (Pool.idle (initializeClient {} [])) announcedAndRemoved = some c ∧
        c.shared.rows = rowsWithout := ⟨_, rfl, rfl⟩
  have hr : run rowProg.next (Pool.idle (initializeClient {} rowsWithout))
      (.spawn 0 (.asks none (.syncs ["wss://s", "wss://r"])) ::
        List.replicate 5 (.step 0 {})) = some _ := rfl
  refine ⟨_, hr, by decide, ?_⟩
  refine removed_stays_out (hrows₀ ▸ Stored.session .first hr₀) (u := "wss://r") rfl rfl .now
    ⟨{}, _, rfl, .inr (by decide), by decide, hr⟩

end MostroApp.RelayRows
