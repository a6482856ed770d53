import MostroApp.Api.MessageTasks

set_option autoImplicit false

/-! # Each inner id once

A message is pushed without a look at the list: a send pushes what it has published, a handler
what it has looked up in memory and in the table and found in neither. Between the look-up and
the push another task may push the same id: the send whose echo the event is, or the handler of
another listener. As long as no look-up misses an id that a task is about to push, each id stands
in the list once and goes out on the stream once (`ids_once`).
-/

namespace MostroApp.Chat

open Transition Interleaving

/-! ## The invariant -/

/-- Each id stands once in the list and was emitted at most once, only ids in the list were, and
every id in the store exists. -/
structure IdsOk (s : ChatState) : Prop where
  nodup : (s.store.messages.map (·.id)).Nodup
  emitted : s.emitted.Nodup
  emitted_known : ∀ id ∈ s.emitted, s.store.InMemory id
  exist : ∀ id, s.store.InMemory id ∨ s.store.Stored id → id ∈ s.ids
  no_db : s.hasDb = false → s.store.db = []

/-- The id is nowhere in the store. -/
def ChatState.Absent (s : ChatState) (id : String) : Prop :=
  ¬ s.store.InMemory id ∧ ¬ s.store.Stored id

/-- A message about to be pushed is nowhere yet, one about to be emitted is in the list and was
not emitted, and a history read is in the table. -/
structure TaskOk (p : ChatTask) (s : ChatState) : Prop where
  exist : ∀ id, p.looksFor = some id ∨ p.pending = some id → id ∈ s.ids
  pending : ∀ id, p.pending = some id → s.Absent id
  pushed : ∀ id, p.pushed = some id → s.store.InMemory id ∧ id ∉ s.emitted
  history : ∀ m ∈ p.history, s.store.Stored m.id
  again : ∀ m, p = .savesAgain m → s.store.InMemory m.id ∧ s.hasDb = true

theorem TaskOk.pushes_absent {m : ChatMessage} {s : ChatState} (h : TaskOk (.pushes m) s) :
    s.Absent m.id := h.pending m.id rfl

/-- What a task writes into the table is in the list. -/
theorem TaskOk.writes {p : ChatTask} {s : ChatState} (h : TaskOk p s) {id : String}
    (hid : p.writes = some id) : s.store.InMemory id := by
  cases p with
  | saves m => exact (h.pushed id hid).1
  | savesAgain m =>
      obtain rfl := Option.some.inj hid
      exact (h.again m rfl).1
  | _ => cases hid

/-- An id that is nowhere stays so under the steps of a task that is not about to push it. -/
theorem ChatState.Absent.keep {p : ChatTask} {s s' : ChatState} {id : String} (h : s.Absent id)
    (hp : TaskOk p s) (he : StepEffect p s s') (hpush : ∀ m, p = .pushes m → m.id ≠ id) :
    s'.Absent id := by
  constructor
  · intro hmem
    rcases he.memory_from id hmem with hmem | ⟨m, hm, rfl⟩ | ⟨m, rfl, hm⟩
    · exact h.1 hmem
    · exact h.2 (hp.history m hm)
    · exact hpush m rfl hm
  · intro hst
    rcases he.table_from id hst with hst | hw
    · exact h.2 hst
    · exact h.1 (hp.writes hw)

/-- **The shared part of one step.** -/
theorem IdsOk.step {p : ChatTask} {s s' : ChatState} (h : IdsOk s) (hp : TaskOk p s)
    (he : StepEffect p s s') : IdsOk s' := by
  refine ⟨he.nodup h.nodup ?_, ?_, ?_, ?_, ?_⟩
  · rintro m rfl
    exact hp.pushes_absent.1
  · rcases he.emitted with heq | ⟨m, rfl, heq⟩
    · rw [heq]
      exact h.emitted
    · rw [heq]
      exact List.nodup_cons.mpr ⟨(hp.pushed m.id rfl).2, h.emitted⟩
  · rcases he.emitted with heq | ⟨m, rfl, heq⟩
    · rw [heq]
      exact fun id hid => he.memory id (h.emitted_known id hid)
    · rw [heq]
      intro id hid
      rcases List.mem_cons.mp hid with rfl | hid
      · exact he.memory m.id (hp.pushed m.id rfl).1
      · exact he.memory id (h.emitted_known id hid)
  · rintro id (hmem | hst)
    · rcases he.memory_from id hmem with hmem | ⟨m, hm, rfl⟩ | ⟨m, rfl, rfl⟩
      · exact he.ids id (h.exist id (Or.inl hmem))
      · exact he.ids m.id (h.exist m.id (Or.inr (hp.history m hm)))
      · exact he.ids m.id (hp.exist m.id (Or.inr rfl))
    · rcases he.table_from id hst with hst | hw
      · exact he.ids id (h.exist id (Or.inr hst))
      · exact he.ids id (h.exist id (Or.inl (hp.writes hw)))
  · intro hno
    rw [he.hasDb] at hno
    rcases he.no_db with hyes | heq | ⟨m, rfl⟩
    · rw [hyes] at hno
      cases hno
    · rw [heq]
      exact h.no_db hno
    · rw [(hp.again m rfl).2] at hno
      cases hno

/-- **Another task's step** leaves what a task has in hand, where they hold different ids. -/
theorem TaskOk.other {p r : ChatTask} {s s' : ChatState} (h : TaskOk r s) (hp : TaskOk p s)
    (he : StepEffect p s s') (hapart : ∀ id, p.holds = some id → r.holds ≠ some id) :
    TaskOk r s' := by
  refine ⟨fun id hid => he.ids id (h.exist id hid), fun id hid => ?_, fun id hid => ?_,
    fun m hm => he.table m.id (h.history m hm), fun m hm => ?_⟩
  · refine (h.pending id hid).keep hp he ?_
    rintro m rfl rfl
    refine hapart m.id rfl ?_
    unfold ChatTask.holds
    rw [hid]
    rfl
  · obtain ⟨hmem, hnew⟩ := h.pushed id hid
    refine ⟨he.memory id hmem, ?_⟩
    rcases he.emitted with heq | ⟨m, rfl, heq⟩
    · rw [heq]
      exact hnew
    · rw [heq]
      intro hin
      rcases List.mem_cons.mp hin with rfl | hin
      · have hno : r.pending = none := by
          cases hr : r.pending with
          | none => rfl
          | some other => cases r <;> first | cases hid | cases hr
        refine hapart m.id rfl ?_
        unfold ChatTask.holds
        rw [hno]
        exact hid
      · exact hnew hin
  · obtain ⟨hmem, hdb⟩ := h.again m hm
    exact ⟨he.memory m.id hmem, he.hasDb.trans hdb⟩

/-! ## A look-up that misses alone -/

/-- A look-up in the table that misses finds the id not in the list either, and that task not
about to push it. -/
def MissesAlone (c : Pool ChatState ChatTask) (l : Label ChatTask ChatOracle Empty)
    (t : Option ChatTask) : Prop :=
  match l with
  | .step i w =>
      match c.threads i with
      | some (.looksUpDb e) =>
          c.shared.messageExists w.ok e.inner.id = some false →
            ¬ c.shared.store.InMemory e.inner.id ∧ ∀ p ∈ t, p.pending ≠ some e.inner.id
      | _ => True
  | _ => True

instance (c : Pool ChatState ChatTask) (l : Label ChatTask ChatOracle Empty)
    (t : Option ChatTask) : Decidable (MissesAlone c l t) := by
  unfold MissesAlone
  split
  · split <;> infer_instance
  · infer_instance

/-- No look-up in the table misses an id that is in the list or that some task is about to
push. -/
def LooksUpAlone (c : Pool ChatState ChatTask) (l : Label ChatTask ChatOracle Empty) : Prop :=
  ∀ j, MissesAlone c l (c.threads j)

/-- The invariant of the pool: each task's own, and no two tasks with one id in hand. -/
structure OnceOk (c : Pool ChatState ChatTask) : Prop where
  pool : PoolInv IdsOk TaskOk c
  apart : c.Apart ChatTask.holds

theorem enter_ok {p : ChatTask} (h : chatProg.enter p = true) (s : ChatState) :
    TaskOk p s ∧ p.holds = none := by
  cases p with
  | publishes | receives => exact ⟨⟨nofun, nofun, nofun, nofun, nofun⟩, rfl⟩
  | checksHydrated k =>
      cases k with
      | reads | marksRead => exact ⟨⟨nofun, nofun, nofun, nofun, nofun⟩, rfl⟩
      | checksQuota | pushes => cases h
  | _ => cases h

/-- **A task's own next assertion.** -/
theorem OnceOk.step_self {c : Pool ChatState ChatTask} {i : Nat} {w : ChatOracle}
    {p q : ChatTask} {s : ChatState} (h : OnceOk c) (hp : c.threads i = some p)
    (hC : LooksUpAlone c (.step i w)) (hs : p.step w c.shared = some (s, some q)) :
    TaskOk q s := by
  have hok := h.pool.threads i p hp
  have he := ChatTask.step_effect hs
  have hn := ChatTask.step_next hs
  refine ⟨?_, fun id hid => ?_, fun id hid => ?_, fun m hm => ?_, fun m hm => ?_⟩
  · rintro id (hid | hid)
    · rcases hn.looksFor id hid with hlooks | hin
      · exact he.ids id (hok.exist id (Or.inl hlooks))
      · exact hin
    · rcases hn.pending id hid with ⟨hpend, -⟩ | ⟨e, rfl, rfl, -⟩ | ⟨-, -, hin⟩
      · exact he.ids id (hok.exist id (Or.inr hpend))
      · exact he.ids _ (hok.exist _ (Or.inl rfl))
      · exact hin
  · rcases hn.pending id hid with ⟨hpend, hno⟩ | ⟨e, rfl, rfl, hmiss⟩ | ⟨⟨m, rfl⟩, hnew, -⟩
    · exact (hok.pending id hpend).keep hok he fun m hm => absurd hm (hno m)
    -- a look-up that missed: neither the table nor, by the condition, the list has the id
    · have halone := hC i
      simp only [MissesAlone, hp] at halone
      have hst : ¬ c.shared.store.Stored e.inner.id := by
        intro hst
        unfold ChatState.messageExists at hmiss
        split at hmiss
        · split at hmiss
          · rw [(db_any_iff c.shared.store e.inner.id).mpr hst] at hmiss
            cases hmiss
          · cases hmiss
        · next hdb =>
          obtain ⟨x, hx, -⟩ := hst
          rw [h.pool.shared.no_db (Bool.not_eq_true _ ▸ hdb)] at hx
          cases hx
      have habs : c.shared.Absent e.inner.id := ⟨(halone hmiss).1, hst⟩
      exact habs.keep hok he nofun
    -- a send has drawn an id that exists nowhere
    · have habs : c.shared.Absent id :=
        ⟨fun hmem => hnew (h.pool.shared.exist id (Or.inl hmem)),
          fun hst => hnew (h.pool.shared.exist id (Or.inr hst))⟩
      exact habs.keep hok he nofun
  · rcases hn.pushed id hid with ⟨hpushed, hno⟩ | ⟨m, rfl, rfl⟩
    · obtain ⟨hmem, hnew⟩ := hok.pushed id hpushed
      refine ⟨he.memory id hmem, ?_⟩
      rcases he.emitted with heq | ⟨m, hm, -⟩
      · rw [heq]
        exact hnew
      · exact absurd hm (hno m)
    · refine ⟨he.pushes m rfl, ?_⟩
      rcases he.emitted with heq | ⟨x, hx, -⟩
      · rw [heq]
        exact fun hin => hok.pushes_absent.1 (h.pool.shared.emitted_known m.id hin)
      · cases hx
  · exact he.table m.id ⟨m, hn.history m hm, rfl⟩
  · obtain ⟨hmem, hdb⟩ := hn.again m hm
    exact ⟨he.memory m.id ⟨m, hmem, rfl⟩, he.hasDb.trans hdb⟩

/-- **A step takes no id another task has in hand.** -/
theorem OnceOk.step_apart {c : Pool ChatState ChatTask} {i : Nat} {w : ChatOracle}
    {p : ChatTask} {q : Option ChatTask} {s : ChatState} (h : OnceOk c)
    (hp : c.threads i = some p) (hC : LooksUpAlone c (.step i w))
    (hs : p.step w c.shared = some (s, q)) :
    Pool.Apart ChatTask.holds ⟨s, Function.update c.threads i q⟩ := by
  -- nobody holds an id that is not in the list and that nobody is about to push
  have free : ∀ id, ¬ c.shared.store.InMemory id →
      (∀ j r, c.threads j = some r → r.pending ≠ some id) →
      ∀ j r, j ≠ i → c.threads j = some r → r.holds ≠ some id := by
    intro id hmem hpend j r _ hr hholds
    unfold ChatTask.holds at hholds
    cases hrp : r.pending with
    | some other =>
        rw [hrp] at hholds
        exact hpend j r hr (hrp.trans hholds)
    | none =>
        rw [hrp] at hholds
        exact hmem ((h.pool.threads j r hr).pushed id hholds).1
  refine h.apart.update i s fun r id hq hholds => ?_
  subst hq
  have hn := ChatTask.step_next hs
  unfold ChatTask.holds at hholds
  cases hrp : r.pending with
  | some other =>
      rw [hrp] at hholds
      obtain rfl := Option.some.inj hholds
      -- its own id, one that a look-up missed alone, or one just drawn
      rcases hn.pending other hrp with ⟨hpend, -⟩ | ⟨e, rfl, rfl, hmiss⟩ | ⟨-, hnew, -⟩
      · refine Or.inl ⟨p, hp, ?_⟩
        unfold ChatTask.holds
        rw [hpend]
        rfl
      · have halone : ∀ j, ¬ c.shared.store.InMemory e.inner.id ∧
            ∀ t ∈ c.threads j, t.pending ≠ some e.inner.id := by
          intro j
          have hj := hC j
          simp only [MissesAlone, hp] at hj
          exact hj hmiss
        exact Or.inr (free _ (halone i).1 fun j t ht => (halone j).2 t ht)
      · refine Or.inr (free _ (fun hmem => hnew (h.pool.shared.exist other (Or.inl hmem))) ?_)
        exact fun j t ht hpend => hnew ((h.pool.threads j t ht).exist other (Or.inr hpend))
  | none =>
      rw [hrp] at hholds
      have hpushed : r.pushed = some id := hholds
      rcases hn.pushed id hpushed with ⟨hpushed, -⟩ | ⟨m, rfl, rfl⟩
      · refine Or.inl ⟨p, hp, ?_⟩
        have hno : p.pending = none := by
          cases p <;> first | rfl | cases hpushed
        unfold ChatTask.holds
        rw [hno]
        exact hpushed
      · exact Or.inl ⟨_, hp, rfl⟩

theorem OnceOk.keep (c : Pool ChatState ChatTask) (l : Label ChatTask ChatOracle Empty)
    (c' : Pool ChatState ChatTask) (h : OnceOk c) (hC : LooksUpAlone c l)
    (hn : chatProg.next c l = some c') : OnceOk c' := by
  cases l with
  | spawn i p =>
      obtain ⟨henter, hi, rfl⟩ := Prog.next_spawn.mp hn
      obtain ⟨hok, hfree⟩ := enter_ok henter c.shared
      refine ⟨⟨h.pool.shared, fun j r hr => ?_⟩, h.apart.update i c.shared fun r k hr hk => ?_⟩
      · rcases threads_update hr with ⟨-, hr⟩ | ⟨-, hr⟩
        · exact Option.some.inj hr ▸ hok
        · exact h.pool.threads j r hr
      · obtain rfl := Option.some.inj hr
        rw [hfree] at hk
        cases hk
  | step i w =>
      obtain ⟨p, s, q, hp, hs, rfl⟩ := Prog.next_step.mp hn
      have hok := h.pool.threads i p hp
      have he := ChatTask.step_effect hs
      refine ⟨⟨h.pool.shared.step hok he, fun j r hr => ?_⟩, h.step_apart hp hC hs⟩
      rcases threads_update hr with ⟨rfl, rfl⟩ | ⟨hj, hr⟩
      · exact h.step_self hp hC hs
      · exact (h.pool.threads j r hr).other hok he
          fun id hid => h.apart i j p r id (Ne.symm hj) hp hr hid
  | env a => cases a

/-! ## Every run -/

/-- **Each inner message id once**: in every state of every run of sends, deliveries to any
listeners and reads in which each look-up misses alone, no two messages of the trade's list have
one id and no id was emitted twice. -/
theorem ids_once {s : ChatState} {c : Pool ChatState ChatTask}
    {ls : List (Label ChatTask ChatOracle Empty)} (hs : IdsOk s)
    (hC : Along chatProg.next LooksUpAlone (Pool.idle s) ls)
    (hr : run chatProg.next (Pool.idle s) ls = some c) :
    (c.shared.store.messages.map (·.id)).Nodup ∧ c.shared.emitted.Nodup := by
  have hend : OnceOk c := Transition.run_inv OnceOk.keep ⟨poolInv_idle hs, apart_idle s⟩ hC hr
  exact ⟨hend.pool.shared.nodup, hend.pool.shared.emitted⟩

/-! ## An echo handled after and before the push -/

/-- A trade with no messages yet, its history loaded. -/
def emptyChat : ChatState := { store := ⟨[], [], true, []⟩, myTradePubkey := "me" }

/-- A message on its way out; its id is the one of the published inner event. -/
def outgoing : ChatMessage := ⟨"", "order", "me", "hi", true, true, none, 0⟩

/-- An outer event around the inner event `id` of `author`. -/
def wrap (outer id author : String) : ChatEvent := ⟨outer, 0, ⟨id, author, "hi", ("hi", none), 0⟩⟩

/-- Thread `i` takes `n` steps on which nothing fails. -/
def steps (i n : Nat) : List (Label ChatTask ChatOracle Empty) := List.replicate n (.step i {})

/-- Thread `i` publishes, and its inner event has the id `id`. -/
def published (i : Nat) (id : String) : List (Label ChatTask ChatOracle Empty) :=
  [.spawn i (.publishes outgoing), .step i { drawn := id }]

/-- The ids in the list and on the stream after a run. -/
def idsAfter (ls : List (Label ChatTask ChatOracle Empty)) :
    Option (List String × List String) :=
  (run chatProg.next (Pool.idle emptyChat) ls).map fun c =>
    (c.shared.store.messages.map (·.id), c.shared.emitted)

/-- The echo of a send is looked up once it has been pushed; a peer message is handled by one
listener, and its re-wrap by another after that. -/
def afterThePush : List (Label ChatTask ChatOracle Empty) :=
  published 0 "mine" ++ .spawn 1 (.receives 1 (wrap "w1" "mine" "me")) :: steps 1 1 ++ steps 0 2 ++
    steps 1 2 ++ steps 0 3 ++ .spawn 2 (.receives 1 (wrap "w2" "theirs" "peer")) :: steps 2 10 ++
    .spawn 3 (.receives 2 (wrap "w3" "theirs" "peer")) :: steps 3 3

theorem idsOk_empty : IdsOk emptyChat := by
  refine ⟨List.nodup_nil, List.nodup_nil, fun _ h => absurd h List.not_mem_nil, ?_, nofun⟩
  rintro id (⟨m, hm, -⟩ | ⟨m, hm, -⟩) <;> cases hm

theorem missesAlone_none {c : Pool ChatState ChatTask} {l : Label ChatTask ChatOracle Empty}
    {t : Option ChatTask} (h : MissesAlone c l t) : MissesAlone c l none := by
  unfold MissesAlone at h ⊢
  split
  · split
    · next hp =>
      simp only [hp] at h
      exact fun hmiss => ⟨(h hmiss).1, nofun⟩
    · trivial
  · trivial

theorem after_the_push_once :
    idsAfter afterThePush = some (["mine", "theirs"], ["theirs", "mine"]) ∧
      ∃ c, run chatProg.next (Pool.idle emptyChat) afterThePush = some c ∧
        (c.shared.store.messages.map (·.id)).Nodup ∧ c.shared.emitted.Nodup := by
  refine ⟨by decide, ?_⟩
  obtain ⟨c, hc, -⟩ := Option.map_eq_some_iff.mp (show
    (run chatProg.next (Pool.idle emptyChat) afterThePush).map (fun c => c.shared.emitted) =
      some ["theirs", "mine"] by decide)
  have hC := along_of_below 4 (fun c l h => missesAlone_none (h 0 (by decide)))
    (below_idle 4 emptyChat) rfl
    (show Along chatProg.next (fun c l => ∀ j < 4, MissesAlone c l (c.threads j))
      (Pool.idle emptyChat) afterThePush by decide)
  exact ⟨c, hc, ids_once idsOk_empty hC hc⟩

/-- **An echo handled before its send has pushed** stands in the list twice and is emitted twice:
the look-up finds it neither in memory nor in the table. So does an event that two listeners of
one channel look up before either has pushed it. -/
theorem echo_before_push_twice :
    idsAfter (published 0 "mine" ++ .spawn 1 (.receives 1 (wrap "w1" "mine" "me")) :: steps 1 10 ++
        steps 0 5) = some (["mine", "mine"], ["mine", "mine"]) ∧
      idsAfter (.spawn 0 (.receives 1 (wrap "w1" "theirs" "peer")) :: steps 0 3 ++
        .spawn 1 (.receives 2 (wrap "w1" "theirs" "peer")) :: steps 1 10 ++ steps 0 7) =
        some (["theirs", "theirs"], ["theirs", "theirs"]) := by
  refine ⟨?_, ?_⟩ <;> decide

end MostroApp.Chat
