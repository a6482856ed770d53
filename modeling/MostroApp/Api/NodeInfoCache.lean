import MostroApp.Lib.Newest
import MostroApp.Lib.Rows
import MostroApp.Lib.Text
import Mathlib.Data.Prod.Lex
import Mathlib.Data.String.Basic
import Mathlib.Order.WithBot

set_option autoImplicit false

/-! # The node-info cache (`api/node_stats.rs`)

Each node's newest kind 38385 event is cached. A batch of events is folded by `newest_info`, its
result by `merge_info` into the cache, both by `supersedes`. That rule is the order of a rank
(`supersedes_iff_rank`), so a cache entry is the newest of all events there ever were
(`Folds.lookup`), whatever their order.
-/

namespace MostroApp.NodeStats

open Newest Rows

/-! ## Events and entries -/

/-- A kind 38385 event: the author's and its own hex id, and its tags. -/
structure Event where
  pubkey : String
  createdAt : UInt64
  id : String
  tags : List (List String)
  deriving DecidableEq

structure CachedNodeInfo where
  createdAt : Int64
  eventId : Option String
  tags : List (List String)
  deriving DecidableEq

/-- The value of the first tag of a name, unless it is blank. -/
def tagValue (tags : List (List String)) (name : String) : Option String :=
  (((tags.find? fun t => t.head? = some name).bind (·[1]?)).map Text.trim).filter (· ≠ "")

def CachedNodeInfo.supersedes (self held : CachedNodeInfo) : Bool :=
  match compare self.createdAt.toInt held.createdAt.toInt with
  | .gt => true
  | .lt => false
  | .eq =>
      match self.eventId, held.eventId with
      | some id, some heldId => decide (id < heldId)
      | some _, none => true
      | none, _ => false

abbrev InfoMap : Type := AList fun _ : String => CachedNodeInfo

/-- What an event says of a requested author, if its `d` tag names the author. -/
def Event.info (pubkeys : List String) (e : Event) : Option CachedNodeInfo :=
  if e.pubkey ∉ pubkeys then none
  else if tagValue e.tags "d" ≠ some e.pubkey then none
  else some { createdAt := e.createdAt.toInt64, eventId := some e.id, tags := e.tags }

/-- One event of `newest_info`'s loop. -/
def noteInfo (pubkeys : List String) (newest : InfoMap) (e : Event) : InfoMap :=
  match e.info pubkeys with
  | none => newest
  | some info =>
      if (newest.lookup e.pubkey).any (fun prev => !info.supersedes prev) then newest
      else newest.insert e.pubkey info

def newestInfo (pubkeys : List String) (infoEvents : List Event) : InfoMap :=
  infoEvents.foldl (noteInfo pubkeys) ∅

/-- One entry of `merge_info`'s loop, with the flag. -/
def mergeEntry (s : InfoMap × Bool) (entry : Sigma fun _ : String => CachedNodeInfo) :
    InfoMap × Bool :=
  match s.1.lookup entry.1 with
  | some prev => if entry.2.supersedes prev then (s.1.insert entry.1 entry.2, true) else s
  | none => (s.1.insert entry.1 entry.2, true)

/-- `merge_info`, with the entries of `fresh` in the order they are gone through. -/
def mergeInfo (cache : InfoMap) (fresh : List (Sigma fun _ : String => CachedNodeInfo)) :
    InfoMap × Bool :=
  fresh.foldl mergeEntry (cache, false)

/-- The cache after each of the batches, with the entries of a batch merged in any order. -/
inductive Folds (pubkeys : List String) : InfoMap → List (List Event) → InfoMap → Prop where
  | done (cache : InfoMap) : Folds pubkeys cache [] cache
  | batch {cache final : InfoMap} {events : List Event} {batches : List (List Event)}
      {fresh : List (Sigma fun _ : String => CachedNodeInfo)}
      (horder : fresh.Perm (newestInfo pubkeys events).entries)
      (hrest : Folds pubkeys (mergeInfo cache fresh).1 batches final) :
      Folds pubkeys cache (events :: batches) final

theorem Event.info_id {pubkeys : List String} {e : Event} {info : CachedNodeInfo}
    (h : e.info pubkeys = some info) : info.eventId = some e.id := by
  unfold Event.info at h
  split at h
  · cases h
  · split at h
    · cases h
    · exact Option.some.inj h ▸ rfl

/-! ## The rank of an entry -/

/-- The lowest id first, and no id last. -/
def idRank : Option String → WithBot Stringᵒᵈ
  | none => ⊥
  | some id => ↑(OrderDual.toDual id)

/-- Newer first, and within one second by the ids. -/
def CachedNodeInfo.rank (info : CachedNodeInfo) : Int ×ₗ WithBot Stringᵒᵈ :=
  toLex (info.createdAt.toInt, idRank info.eventId)

theorem supersedes_iff_rank (self held : CachedNodeInfo) :
    self.supersedes held = true ↔ held.rank < self.rank := by
  unfold CachedNodeInfo.supersedes CachedNodeInfo.rank
  rw [Prod.Lex.toLex_lt_toLex]
  cases hcmp : compare self.createdAt.toInt held.createdAt.toInt with
  | gt =>
      have hlt := compare_gt_iff_gt.mp hcmp
      exact ⟨fun _ => Or.inl hlt, fun _ => rfl⟩
  | lt =>
      have hlt := compare_lt_iff_lt.mp hcmp
      constructor
      · intro h
        cases h
      · rintro (h | ⟨h, -⟩)
        · exact absurd h (not_lt.mpr (le_of_lt hlt))
        · exact absurd h (ne_of_gt hlt)
  | eq =>
      have heq := compare_eq_iff_eq.mp hcmp
      have hids : ∀ a b : Option String,
          (match a, b with
            | some id, some heldId => decide (id < heldId)
            | some _, none => true
            | none, _ => false) = true ↔ idRank b < idRank a := by
        intro a b
        cases a with
        | none => exact ⟨(fun h => nomatch h), fun h => absurd h (WithBot.not_lt_bot _)⟩
        | some id =>
            cases b with
            | none => exact ⟨fun _ => WithBot.bot_lt_coe _, fun _ => rfl⟩
            | some heldId =>
                show decide (id < heldId) = true ↔ _
                rw [decide_eq_true_eq]
                exact (WithBot.coe_lt_coe.trans OrderDual.toDual_lt_toDual).symm
      refine (hids self.eventId held.eventId).trans ⟨fun h => Or.inr ⟨heq.symm, h⟩, ?_⟩
      rintro (h | ⟨-, h⟩)
      · exact absurd heq (ne_of_gt h)
      · exact h

theorem join_entry (held : Option CachedNodeInfo) (info : CachedNodeInfo) :
    join CachedNodeInfo.rank held info =
      if held.any (fun prev => !info.supersedes prev) then held else some info := by
  cases held with
  | none => rfl
  | some prev =>
      show some (if prev.rank < info.rank then info else prev) = _
      by_cases h : prev.rank < info.rank
      · have hsup := (supersedes_iff_rank info prev).mpr h
        simp [h, hsup]
      · have hsup : info.supersedes prev = false :=
          Bool.eq_false_iff.mpr fun hs => h ((supersedes_iff_rank info prev).mp hs)
        simp [h, hsup]

/-- Entries of events that rank alike have one id. -/
theorem id_eq_of_rank {a b : CachedNodeInfo} {id id' : String} (ha : a.eventId = some id)
    (hb : b.eventId = some id') (h : a.rank = b.rank) : id = id' := by
  have hids : idRank a.eventId = idRank b.eventId := congrArg (fun r => (ofLex r).2) h
  rw [ha, hb] at hids
  exact OrderDual.toDual_inj.mp (WithBot.coe_injective hids)

/-! ## The folds, a node at a time -/

variable {pubkeys : List String} {cache final : InfoMap} {events : List Event}
  {batches : List (List Event)}

/-- What the events say of a node, in order. -/
def infosOf (pubkeys : List String) (author : String) (events : List Event) :
    List CachedNodeInfo :=
  (events.filter fun e => e.pubkey = author).filterMap (·.info pubkeys)

theorem mem_infosOf {author : String} {info : CachedNodeInfo} :
    info ∈ infosOf pubkeys author events ↔
      ∃ e ∈ events, e.pubkey = author ∧ e.info pubkeys = some info := by
  simp only [infosOf, List.mem_filterMap, List.mem_filter, decide_eq_true_eq, and_assoc]

theorem noteInfo_local :
    Local (noteInfo pubkeys) (fun (m : InfoMap) k => m.lookup k) Event.pubkey
      fun e held => (e.info pubkeys).elim held (join CachedNodeInfo.rank held) where
  self m e := by
    unfold noteInfo
    cases e.info pubkeys with
    | none => rfl
    | some info =>
        show _ = join CachedNodeInfo.rank (m.lookup e.pubkey) info
        rw [join_entry]
        dsimp only
        split
        · rfl
        · exact AList.lookup_insert m
  other m e k hk := by
    unfold noteInfo
    cases e.info pubkeys with
    | none => rfl
    | some info =>
        dsimp only
        split
        · rfl
        · exact AList.lookup_insert_ne hk

theorem lookup_newestInfo (events : List Event) (author : String) :
    (newestInfo pubkeys events).lookup author =
      newest CachedNodeInfo.rank none (infosOf pubkeys author events) := by
  have fold : ∀ (l : List Event) (held : Option CachedNodeInfo),
      l.foldl (fun held e => (e.info pubkeys).elim held (join CachedNodeInfo.rank held)) held =
        newest CachedNodeInfo.rank held (l.filterMap (·.info pubkeys)) := by
    intro l
    induction l with
    | nil => exact fun held => rfl
    | cons e l ih =>
        intro held
        rw [List.foldl_cons, ih]
        cases h : e.info pubkeys with
        | none => rw [List.filterMap_cons_none h]; rfl
        | some info => rw [List.filterMap_cons_some h]; rfl
  show (events.foldl (noteInfo pubkeys) ∅).lookup author = _
  rw [noteInfo_local.foldl events ∅ author]
  exact fold _ none

theorem mergeEntry_local :
    Local mergeEntry (fun (s : InfoMap × Bool) k => s.1.lookup k) (fun entry => entry.1)
      fun entry held => join CachedNodeInfo.rank held entry.2 where
  self s entry := by
    rw [join_entry]
    unfold mergeEntry
    cases hheld : s.1.lookup entry.1 with
    | none => exact AList.lookup_insert s.1
    | some prev =>
        dsimp only
        by_cases hsup : entry.2.supersedes prev = true
        · simp [hsup, AList.lookup_insert]
        · simp [hsup, hheld]
  other s entry k hk := by
    unfold mergeEntry
    split
    · split
      · exact AList.lookup_insert_ne hk
      · rfl
    · exact AList.lookup_insert_ne hk

theorem filter_eq_nil_of_notMem {k : String} {l : List (Sigma fun _ : String => CachedNodeInfo)}
    (h : k ∉ l.map Sigma.fst) : (l.filter fun entry => entry.1 = k) = [] := by
  refine List.filter_eq_nil_iff.mpr fun entry hentry hkey => h ?_
  exact List.mem_map.mpr ⟨entry, hentry, of_decide_eq_true hkey⟩

/-- Of entries with distinct keys, those of one key are what is found under it. -/
theorem filter_entries (k : String) {l : List (Sigma fun _ : String => CachedNodeInfo)}
    (h : l.NodupKeys) :
    (l.filter fun entry => entry.1 = k) = ((l.dlookup k).map (Sigma.mk k)).toList := by
  induction l with
  | nil => rfl
  | cons entry l ih =>
      obtain ⟨a, info⟩ := entry
      obtain ⟨hfirst, hrest⟩ := List.nodupKeys_cons.mp h
      by_cases ha : a = k
      · subst ha
        rw [List.filter_cons_of_pos (by simp), filter_eq_nil_of_notMem hfirst,
          List.dlookup_cons_eq]
        rfl
      · rw [List.filter_cons_of_neg (by simpa using ha), ih hrest,
          List.dlookup_cons_ne l ⟨a, info⟩ (Ne.symm ha)]

/-- A node's entry after a batch is the newest of what it was and what the batch says. -/
theorem lookup_mergeInfo {fresh : List (Sigma fun _ : String => CachedNodeInfo)}
    (h : fresh.Perm (newestInfo pubkeys events).entries) (author : String) :
    (mergeInfo cache fresh).1.lookup author =
      newest CachedNodeInfo.rank (cache.lookup author) (infosOf pubkeys author events) := by
  have hkeys : fresh.NodupKeys :=
    (List.perm_nodupKeys h).mpr (newestInfo pubkeys events).nodupKeys
  have hfound : fresh.dlookup author =
      newest CachedNodeInfo.rank none (infosOf pubkeys author events) :=
    (List.perm_dlookup author hkeys h).trans
      (lookup_newestInfo events author)
  show (fresh.foldl mergeEntry (cache, false)).1.lookup author = _
  rw [mergeEntry_local.foldl fresh (cache, false) author, filter_entries author hkeys, hfound,
    newest_eq_join (cache.lookup author)]
  cases newest CachedNodeInfo.rank none (infosOf pubkeys author events) with
  | none => rfl
  | some info => rfl

/-- **A node's entry** is the newest of the first one and all events there were. -/
theorem Folds.lookup (h : Folds pubkeys cache batches final) (author : String) :
    final.lookup author = newest CachedNodeInfo.rank (cache.lookup author)
      (infosOf pubkeys author batches.flatten) := by
  induction h with
  | done => rfl
  | batch horder hrest ih =>
      rw [ih, lookup_mergeInfo horder author, List.flatten_cons]
      unfold infosOf
      rw [List.filter_append, List.filterMap_append, newest_append]

/-! ## Changes -/

/-- Merged entries of other keys leave an entry alone. -/
theorem lookup_foldl_mergeEntry {l : List (Sigma fun _ : String => CachedNodeInfo)}
    {s : InfoMap × Bool} {k : String} (h : k ∉ l.map Sigma.fst) :
    (l.foldl mergeEntry s).1.lookup k = s.1.lookup k := by
  rw [mergeEntry_local.foldl l s k, filter_eq_nil_of_notMem h]
  rfl

/-- An entry is merged when it changes what is held. -/
theorem mergeEntry_changed (s : InfoMap × Bool)
    (entry : Sigma fun _ : String => CachedNodeInfo) :
    (mergeEntry s entry).2 = true ∧ (mergeEntry s entry).1.lookup entry.1 ≠ s.1.lookup entry.1 ∨
      mergeEntry s entry = s := by
  unfold mergeEntry
  cases hheld : s.1.lookup entry.1 with
  | none =>
      refine Or.inl ⟨rfl, ?_⟩
      rw [AList.lookup_insert]
      exact fun h => nomatch h
  | some prev =>
      dsimp only
      by_cases hsup : entry.2.supersedes prev = true
      · rw [if_pos hsup]
        refine Or.inl ⟨rfl, ?_⟩
        rw [AList.lookup_insert]
        intro heq
        rw [Option.some.inj heq] at hsup
        exact absurd ((supersedes_iff_rank prev prev).mp hsup) (lt_irrefl _)
      · rw [if_neg hsup]
        exact Or.inr rfl

/-- A merge that reports a change goes on reporting it. -/
theorem foldl_mergeEntry_flag (l : List (Sigma fun _ : String => CachedNodeInfo))
    (s : InfoMap × Bool) (hs : s.2 = true) : (l.foldl mergeEntry s).2 = true := by
  induction l generalizing s with
  | nil => exact hs
  | cons entry l ih =>
      refine ih _ ?_
      rcases mergeEntry_changed s entry with ⟨hflag, -⟩ | hsame
      · exact hflag
      · rw [hsame]
        exact hs

/-- **A merge reports a change exactly when the cache differs.** -/
theorem mergeInfo_changed {fresh : List (Sigma fun _ : String => CachedNodeInfo)}
    (h : (fresh.map Sigma.fst).Nodup) :
    (mergeInfo cache fresh).2 = true ↔
      ∃ k, (mergeInfo cache fresh).1.lookup k ≠ cache.lookup k := by
  unfold mergeInfo
  -- As long as no entry is taken, the cache and the flag are those it started with.
  induction fresh with
  | nil =>
      constructor
      · intro h
        cases h
      · rintro ⟨k, h⟩
        exact absurd rfl h
  | cons entry l ih =>
      obtain ⟨hfirst, hl⟩ := List.nodup_cons.mp h
      rw [List.foldl_cons]
      rcases mergeEntry_changed (cache, false) entry with ⟨hflag, hne⟩ | hsame
      · -- No later entry touches the one that changed.
        refine ⟨fun _ => ⟨entry.1, ?_⟩, fun _ => foldl_mergeEntry_flag l _ hflag⟩
        rw [lookup_foldl_mergeEntry hfirst]
        exact hne
      · rw [hsame]
        exact ih hl

/-! ## The join -/

/-- No event and no entry there was supersedes a node's entry, which is one of them. -/
structure Joined (pubkeys : List String) (cache : InfoMap) (events : List Event)
    (final : InfoMap) : Prop where
  entry : ∀ author held, cache.lookup author = some held →
    ∃ info, final.lookup author = some info ∧ held.supersedes info = false
  event : ∀ e ∈ events, ∀ said, e.info pubkeys = some said →
    ∃ info, final.lookup e.pubkey = some info ∧ said.supersedes info = false
  source : ∀ author info, final.lookup author = some info → cache.lookup author = some info ∨
    ∃ e ∈ events, e.pubkey = author ∧ e.info pubkeys = some info

theorem Folds.joined (h : Folds pubkeys cache batches final) :
    Joined pubkeys cache batches.flatten final := by
  have notAbove : ∀ {a b : CachedNodeInfo}, a.rank ≤ b.rank → a.supersedes b = false :=
    fun hle => Bool.eq_false_iff.mpr fun hs =>
      absurd ((supersedes_iff_rank _ _).mp hs) (not_lt.mpr hle)
  have found : ∀ author, cache.lookup author ≠ none ∨
      infosOf pubkeys author batches.flatten ≠ [] → ∃ info, final.lookup author = some info := by
    intro author hsome
    rw [h.lookup author]
    refine Option.ne_none_iff_exists'.mp fun hnone => ?_
    -- A fold ends with nothing only where there was nothing to fold.
    obtain ⟨hheld, hinfos⟩ := newest_eq_none.mp hnone
    rcases hsome with hsome | hsome
    · exact hsome hheld
    · exact hsome hinfos
  refine ⟨fun author held hheld => ?_, fun e he said hsaid => ?_, fun author info hinfo => ?_⟩
  · obtain ⟨info, hinfo⟩ := found author (Or.inl fun hnone => nomatch hnone.symm.trans hheld)
    exact ⟨info, hinfo, notAbove (rank_le_newest ((h.lookup author).symm.trans hinfo) hheld)⟩
  · have hmem : said ∈ infosOf pubkeys e.pubkey batches.flatten :=
      mem_infosOf.mpr ⟨e, he, rfl, hsaid⟩
    obtain ⟨info, hinfo⟩ := found e.pubkey (Or.inr (List.ne_nil_of_mem hmem))
    have hleft := newest_left ((h.lookup e.pubkey).symm.trans hinfo)
    exact ⟨info, hinfo, notAbove (hleft.above said hmem)⟩
  · rcases (newest_left ((h.lookup author).symm.trans hinfo)).source with hheld | ⟨hmem, -⟩
    · exact Or.inl hheld
    · exact Or.inr (mem_infosOf.mp hmem)

/-- An event's id names it. -/
def IdsName (events : List Event) : Prop := ∀ e ∈ events, ∀ f ∈ events, e.id = f.id → e = f

/-- **The node-info cache is a join**: over any batches it holds what nothing supersedes, however
the same events are ordered, split and repeated; and a merge reports exactly the changes. -/
theorem node_info_cache_join (hid : IdsName batches.flatten)
    (h : Folds pubkeys cache batches final) :
    Joined pubkeys cache batches.flatten final ∧
      (∀ batches' final', Folds pubkeys cache batches' final' →
        (∀ e, e ∈ batches'.flatten ↔ e ∈ batches.flatten) →
        ∀ author, final'.lookup author = final.lookup author) ∧
      ∀ (m : InfoMap) (events : List Event) fresh,
        fresh.Perm (newestInfo pubkeys events).entries →
        ((mergeInfo m fresh).2 = true ↔ ∃ k, (mergeInfo m fresh).1.lookup k ≠ m.lookup k) := by
  refine ⟨h.joined, fun batches' final' h' hsame author => ?_, fun m events fresh hfresh => ?_⟩
  · rw [h.lookup author, h'.lookup author]
    refine (newest_congr (fun info => ?_) fun a ha b hb hrank => ?_).symm
    · rw [mem_infosOf, mem_infosOf]
      exact exists_congr fun e => and_congr_left fun _ => (hsame e).symm
    · -- Entries of one rank come from events of one id.
      obtain ⟨e, he, -, hea⟩ := mem_infosOf.mp ha
      obtain ⟨f, hf, -, hfb⟩ := mem_infosOf.mp hb
      have hids : e.id = f.id := id_eq_of_rank (Event.info_id hea) (Event.info_id hfb) hrank
      obtain rfl := hid e he f hf hids
      exact Option.some.inj (hea.symm.trans hfb)
  · have hkeys : fresh.NodupKeys :=
      (List.perm_nodupKeys hfresh).mpr (newestInfo pubkeys events).nodupKeys
    exact mergeInfo_changed hkeys

/-- Two revisions of one second, for a node cached before ids were kept. -/
def twoRevisions : List (List Event) :=
  [[⟨"a", 100, "bb", [["d", "a"]]⟩], [⟨"a", 100, "aa", [["d", " a "]]⟩]]

def cachedBeforeIds : InfoMap :=
  (∅ : InfoMap).insert "a" { createdAt := 100, eventId := none, tags := [] }

theorem lowest_id_is_cached :
    ∃ final, Folds ["a"] cachedBeforeIds twoRevisions final ∧
      final.lookup "a" =
        some { createdAt := 100, eventId := some "aa", tags := [["d", " a "]] } ∧
      Joined ["a"] cachedBeforeIds twoRevisions.flatten final := by
  have hfolds : Folds ["a"] cachedBeforeIds twoRevisions _ :=
    .batch (List.Perm.refl _) (.batch (List.Perm.refl _) (.done _))
  have hid : IdsName twoRevisions.flatten := by
    unfold IdsName
    decide
  exact ⟨_, hfolds, by decide, (node_info_cache_join hid hfolds).1⟩

end MostroApp.NodeStats
