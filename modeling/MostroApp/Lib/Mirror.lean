import Mathlib.Data.List.Basic

set_option autoImplicit false

/-! # A record shown from a store

One record of a store and the copy of it that is shown. Writers take turns, and each has a *stage*
between what it does to the copy and what it does to the store; readers take the stored record and
lay it under the copy at some later time. A removal hides the record from the readings that are
under way. The file has the steps of one record (`Step`) and the invariant that they keep
(`Sound.step`): a removed record is not shown, and once no writer is at work a shown record is the
stored one.
-/

namespace MostroApp.Mirror

variable {α : Type}

/-- Where the writer at work stands with the record. -/
inductive Stage (α : Type) where
  | idle
  /-- Shown, and yet to be stored. -/
  | saving (a : α)
  /-- Found not to be shown, and yet to be stored and then shown. -/
  | recording
  /-- Stored, and yet to be shown beside what is. -/
  | inserting (a : α)
  /-- Stored, and yet to be shown in the place of what is. -/
  | showing (a : α)
  /-- No longer shown, and yet to be taken out of the store. -/
  | removing

/-- The copy and the stored record may differ until the writer goes on. -/
def Stage.busy : Stage α → Bool
  | .idle | .recording => false
  | _ => true

@[ext] structure Entry (α : Type) where
  shown : Option α
  stored : Option α
  /-- What the readings under way have found. -/
  found : List (Option α)
  /-- The readings under way are not to show the record. -/
  hidden : Bool
  /-- Removed, and not added since. -/
  gone : Bool
  stage : Stage α
  live : Bool
  /-- A reading has been laid under the copy. -/
  hydrated : Bool

/-- What a reading that found `x` lays under the copy. -/
def under (c : Entry α) (x : Option α) : Option α := if c.hidden then none else x

theorem under_eq_none {c : Entry α} {x : Option α} (h : c.hidden = false → x = none) :
    under c x = none := by
  unfold under
  cases hh : c.hidden with
  | true => rfl
  | false => exact h hh

inductive Step : Entry α → Entry α → Prop
  | stay (c : Entry α) : Step c c
  | add (c : Entry α) (a : α) (hs : c.stage = .idle) :
      Step c { c with shown := some a, gone := false, stage := .saving a }
  | save (c : Entry α) (a : α) (hs : c.stage = .saving a) :
      Step c { c with stored := some a, stage := .idle }
  | record (c : Entry α) (hs : c.stage = .idle) (hc : c.shown = none) :
      Step c { c with stage := .recording }
  | recorded (c : Entry α) (a : α) (hs : c.stage = .recording) (hg : c.gone = false) :
      Step c { c with stored := some a, stage := .inserting a }
  | count (c : Entry α) (a : α) (hs : c.stage = .idle) :
      Step c { c with stored := some a, gone := false, stage := .showing a }
  | mark (c : Entry α) (a : α) (hs : c.stage = .idle) (hc : c.stored ≠ none) :
      Step c { c with stored := some a, stage := .showing a }
  | put (c : Entry α) (a : α) (hidden : Bool)
      (hs : c.stage = .inserting a ∨ c.stage = .showing a) (hh : hidden = true → c.hidden = true) :
      Step c { c with shown := some a, hidden := hidden, stage := .idle }
  | leave (c : Entry α) (hl : c.live = false) (hs : c.stage ≠ .removing) :
      Step c { c with stage := .idle }
  | remove (c : Entry α) (reading : Bool) (hs : c.stage = .idle)
      (hr : reading = false → c.found = []) :
      Step c { c with
        shown := none
        hidden := c.hidden || reading
        gone := c.gone || (c.shown.isSome || c.stored.isSome)
        stage := .removing }
  | removed (c : Entry α) (hs : c.stage = .removing) :
      Step c { c with stored := none, stage := .idle }
  | read (c : Entry α) (found : List (Option α)) (hf : ∀ x ∈ found, x ∈ c.found ∨ x = c.stored)
      (hr : c.live = true → c.stage = .removing → c.hidden = true ∨ c.stored = none) :
      Step c { c with found := found }
  | merge (c : Entry α) (x : Option α) (found : List (Option α)) (hidden : Bool)
      (hl : c.live = true) (hx : x ∈ c.found) (hf : ∀ y ∈ found, y ∈ c.found)
      (hh : hidden = c.hidden ∨ hidden = false ∧ found = [])
      (ha : c.stage = .recording ∨ (∃ a, c.stage = .inserting a) → c.hidden = true ∨ x = none) :
      Step c { c with
        shown := c.shown.or (under c x)
        found := found
        hidden := hidden
        hydrated := true }
  | drop (c : Entry α) (found : List (Option α)) (hidden : Bool) (hl : c.live = false) :
      Step c { c with found := found, hidden := hidden }
  | dispose (c : Entry α) : Step c { c with live := false }
  | restart (c : Entry α) :
      Step c { c with
        shown := none
        found := []
        hidden := false
        gone := c.gone && c.stored.isNone
        stage := .idle
        live := true
        hydrated := false }

theorem Step.of_eq {c c' d : Entry α} (h : Step c c') (he : d = c') : Step c d := he ▸ h

/-- What holds of a record between the steps. -/
structure Sound (c : Entry α) : Prop where
  gone_shown : c.gone = true → c.shown = none
  gone_stored : c.gone = true → c.stage = .removing ∨ c.stored = none
  saving : ∀ a, c.stage = .saving a → c.shown = some a ∧ c.gone = false
  recording : c.stage = .recording → c.shown = none
  inserting : ∀ a, c.stage = .inserting a → c.shown = none ∧ c.stored = some a ∧ c.gone = false
  showing : ∀ a, c.stage = .showing a → c.stored = some a ∧ c.gone = false
  removing : c.stage = .removing → c.shown = none
  /-- Copy and store agree, but for the writer at work and for what was never read. -/
  agree : c.live = true → c.stage.busy = false →
    c.shown = c.stored ∨ c.shown = none ∧ c.hydrated = false
  gone_found : c.live = true → c.hidden = false → c.gone = true → ∀ x ∈ c.found, x = none
  removing_found : c.live = true → c.hidden = false → c.stage = .removing → ∀ x ∈ c.found, x = none
  hidden_stored : c.live = true → c.hidden = true → c.stage.busy = false → c.shown = none →
    c.stored = none
  /-- A reading that would show the record shows the stored one. -/
  found_stored : c.live = true → c.hidden = false → c.stage.busy = false → c.shown = none →
    ∀ x ∈ c.found, x = c.stored

namespace Sound

variable {c c' : Entry α}

/-! ## What an invariant asks for at a stage -/

/-- Between two writers the invariant is about the copy, the store and the readings. -/
theorem of_idle (hs : c.stage = .idle)
    (gone_shown : c.gone = true → c.shown = none ∧ c.stored = none)
    (agree : c.live = true → c.shown = c.stored ∨ c.shown = none ∧ c.hydrated = false)
    (gone_found : c.live = true → c.hidden = false → c.gone = true → ∀ x ∈ c.found, x = none)
    (hidden_stored : c.live = true → c.hidden = true → c.shown = none → c.stored = none)
    (found_stored : c.live = true → c.hidden = false → c.shown = none →
      ∀ x ∈ c.found, x = c.stored) : Sound c := by
  constructor
  case gone_shown => exact fun hg => (gone_shown hg).1
  case gone_stored => exact fun hg => Or.inr (gone_shown hg).2
  case agree => exact fun hl _ => agree hl
  case gone_found => exact gone_found
  case hidden_stored => exact fun hl hh _ => hidden_stored hl hh
  case found_stored => exact fun hl hh _ => found_stored hl hh
  all_goals simp [hs]

/-- A record just written that is not gone asks for what its stage says. -/
theorem of_busy (hb : c.stage.busy = true) (hr : c.stage ≠ .removing) (hg : c.gone = false)
    (saving : ∀ a, c.stage = .saving a → c.shown = some a)
    (inserting : ∀ a, c.stage = .inserting a → c.shown = none ∧ c.stored = some a)
    (showing : ∀ a, c.stage = .showing a → c.stored = some a) : Sound c := by
  constructor
  case saving => exact fun a ha => ⟨saving a ha, hg⟩
  case inserting => exact fun a ha => ⟨(inserting a ha).1, (inserting a ha).2, hg⟩
  case showing => exact fun a ha => ⟨showing a ha, hg⟩
  case recording =>
    intro hs
    rw [hs] at hb
    cases hb
  all_goals simp [hb, hr, hg]

/-! ## What holds between two writers -/

/-- A record that is gone, and is not being taken out, is neither shown nor stored. -/
theorem gone_stored_of_ne (h : Sound c) (hs : c.stage ≠ .removing) (hg : c.gone = true) :
    c.stored = none :=
  (h.gone_stored hg).resolve_left hs

theorem not_gone (h : Sound c) (hs : c.stage ≠ .removing) (hc : c.stored ≠ none) :
    c.gone = false := by
  cases hg : c.gone with
  | false => rfl
  | true => exact absurd (h.gone_stored_of_ne hs hg) hc

/-- Copy and store are the same once no writer is at work and a reading has been laid under. -/
theorem shown_eq_stored (h : Sound c) (hl : c.live = true) (hs : c.stage = .idle)
    (hy : c.hydrated = true) : c.shown = c.stored := by
  have hb : c.stage.busy = false := by rw [hs]; rfl
  rcases h.agree hl hb with heq | ⟨-, hn⟩
  · exact heq
  · exact absurd (hy.symm.trans hn) (by decide)

/-! ## The steps -/

/-- A removal hides the record from the readings under way, if there are any. -/
theorem of_remove {reading : Bool} (hr : reading = false → c.found = []) :
    Sound { c with
      shown := none
      hidden := c.hidden || reading
      gone := c.gone || (c.shown.isSome || c.stored.isSome)
      stage := .removing } := by
  have hfound : (c.hidden || reading) = false → ∀ x ∈ c.found, x = none := by
    intro hh x hx
    have hnil : c.found = [] := hr (Bool.or_eq_false_iff.mp hh).2
    rw [hnil] at hx
    cases hx
  exact
    { gone_shown := fun _ => rfl
      gone_stored := fun _ => .inl rfl
      saving := nofun
      recording := nofun
      inserting := nofun
      showing := nofun
      removing := fun _ => rfl
      agree := fun _ => nofun
      gone_found := fun _ hh _ => hfound hh
      removing_found := fun _ hh _ => hfound hh
      hidden_stored := fun _ _ => nofun
      found_stored := fun _ _ => nofun }

/-- A reading finds the stored record, which is not one that is being taken out. -/
theorem read (h : Sound c) {found : List (Option α)}
    (hf : ∀ x ∈ found, x ∈ c.found ∨ x = c.stored)
    (hr : c.live = true → c.stage = .removing → c.hidden = true ∨ c.stored = none) :
    Sound { c with found := found } := by
  have hstored : c.live = true → c.hidden = false → c.stage = .removing → c.stored = none :=
    fun hl hh hs => (hr hl hs).resolve_left (by simp [hh])
  refine { h with gone_found := ?_, removing_found := ?_, found_stored := ?_ }
  · intro hl hh hg x hx
    rcases hf x hx with hx | rfl
    · exact h.gone_found hl hh hg x hx
    · exact (h.gone_stored hg).elim (hstored hl hh) id
  · intro hl hh hs x hx
    rcases hf x hx with hx | rfl
    · exact h.removing_found hl hh hs x hx
    · exact hstored hl hh hs
  · intro hl hh hb hn x hx
    rcases hf x hx with hx | rfl
    · exact h.found_stored hl hh hb hn x hx
    · rfl

/-- A reading laid under the copy shows nothing that is gone, nor twice. -/
theorem merge (h : Sound c) {x : Option α} {found : List (Option α)} {hidden : Bool}
    (hl : c.live = true) (hx : x ∈ c.found) (hf : ∀ y ∈ found, y ∈ c.found)
    (hh : hidden = c.hidden ∨ hidden = false ∧ found = [])
    (ha : c.stage = .recording ∨ (∃ a, c.stage = .inserting a) → c.hidden = true ∨ x = none) :
    Sound { c with
      shown := c.shown.or (under c x)
      found := found
      hidden := hidden
      hydrated := true } := by
  have hgone : c.gone = true → under c x = none :=
    fun hg => under_eq_none fun hh => h.gone_found hl hh hg x hx
  have hremoving : c.stage = .removing → under c x = none :=
    fun hs => under_eq_none fun hh => h.removing_found hl hh hs x hx
  have hadding : c.stage = .recording ∨ (∃ a, c.stage = .inserting a) → under c x = none :=
    fun hs => under_eq_none fun hh => (ha hs).resolve_left (by simp [hh])
  have hstored : c.stage.busy = false → c.shown = none → under c x = c.stored := by
    intro hb hn
    unfold under
    cases hh : c.hidden with
    | true => exact (h.hidden_stored hl hh hb hn).symm
    | false => exact h.found_stored hl hh hb hn x hx
  have hrest : hidden = false → c.hidden = false ∨ found = [] := by
    rintro rfl
    exact hh.imp Eq.symm And.right
  exact
    { gone_shown := fun hg => Option.or_eq_none_iff.mpr ⟨h.gone_shown hg, hgone hg⟩
      gone_stored := h.gone_stored
      saving := fun a hs => ⟨by rw [(h.saving a hs).1]; rfl, (h.saving a hs).2⟩
      recording := fun hs => Option.or_eq_none_iff.mpr ⟨h.recording hs, hadding (.inl hs)⟩
      inserting := fun a hs =>
        ⟨Option.or_eq_none_iff.mpr ⟨(h.inserting a hs).1, hadding (.inr ⟨a, hs⟩)⟩,
          (h.inserting a hs).2⟩
      showing := h.showing
      removing := fun hs => Option.or_eq_none_iff.mpr ⟨h.removing hs, hremoving hs⟩
      agree := by
        intro _ hb
        refine .inl ?_
        cases hn : c.shown with
        | none => exact hstored hb hn
        | some a => exact hn.symm.trans ((h.agree hl hb).resolve_right (by simp [hn]))
      gone_found := by
        intro _ hh' hg y hy
        rcases hrest hh' with hh' | rfl
        · exact h.gone_found hl hh' hg y (hf y hy)
        · cases hy
      removing_found := by
        intro _ hh' hs y hy
        rcases hrest hh' with hh' | rfl
        · exact h.removing_found hl hh' hs y (hf y hy)
        · cases hy
      hidden_stored := by
        intro _ hh' hb hn
        have hc : c.hidden = true := by
          rcases hh with hh | ⟨hh, -⟩
          · exact hh.symm.trans hh'
          · exact absurd (hh'.symm.trans hh) (by decide)
        exact h.hidden_stored hl hc hb (Option.or_eq_none_iff.mp hn).1
      found_stored := by
        intro _ hh' hb hn y hy
        rcases hrest hh' with hh' | rfl
        · exact h.found_stored hl hh' hb (Option.or_eq_none_iff.mp hn).1 y (hf y hy)
        · cases hy }

/-- **The invariant is kept.** -/
theorem step (h : Sound c) (hs : Step c c') : Sound c' := by
  cases hs with
  | stay => exact h
  | add a hs =>
      refine of_busy rfl nofun rfl ?_ nofun nofun
      rintro _ ⟨⟩
      rfl
  | save a hs =>
      obtain ⟨hshown, hgone⟩ := h.saving a hs
      refine of_idle rfl ?_ ?_ ?_ ?_ ?_ <;> simp [hshown, hgone]
  | record hs hc =>
      have hb : c.stage.busy = false := by rw [hs]; rfl
      exact
        { gone_shown := h.gone_shown
          gone_stored := fun hg => .inr (h.gone_stored_of_ne (by simp [hs]) hg)
          saving := nofun
          recording := fun _ => hc
          inserting := nofun
          showing := nofun
          removing := nofun
          agree := fun hl _ => h.agree hl hb
          gone_found := h.gone_found
          removing_found := fun _ _ => nofun
          hidden_stored := fun hl hh _ => h.hidden_stored hl hh hb
          found_stored := fun hl hh _ => h.found_stored hl hh hb }
  | recorded a hs hg =>
      refine of_busy rfl nofun hg nofun ?_ nofun
      rintro _ ⟨⟩
      exact ⟨h.recording hs, rfl⟩
  | count a hs =>
      refine of_busy rfl nofun rfl nofun nofun ?_
      rintro _ ⟨⟩
      rfl
  | mark a hs hc =>
      refine of_busy rfl nofun (h.not_gone (by simp [hs]) hc) nofun nofun ?_
      rintro _ ⟨⟩
      rfl
  | put a hidden hs hh =>
      have ha : c.stored = some a ∧ c.gone = false := by
        rcases hs with hs | hs
        · exact (h.inserting a hs).2
        · exact h.showing a hs
      refine of_idle rfl ?_ ?_ ?_ ?_ ?_ <;> simp [ha]
  | leave hl hs =>
      refine of_idle rfl (fun hg => ⟨h.gone_shown hg, h.gone_stored_of_ne hs hg⟩) ?_ ?_ ?_ ?_ <;>
        simp [hl]
  | remove reading hs hr => exact of_remove hr
  | removed hs =>
      have hshown := h.removing hs
      refine of_idle rfl ?_ ?_ ?_ ?_ ?_
      · exact fun _ => ⟨hshown, rfl⟩
      · exact fun _ => .inl hshown
      · exact h.gone_found
      · exact fun _ _ _ => rfl
      · exact fun hl hh _ => h.removing_found hl hh hs
  | read found hf hr => exact h.read hf hr
  | merge x found hidden hl hx hf hh ha => exact h.merge hl hx hf hh ha
  | drop found hidden hl =>
      have hlive : c.live ≠ true := by simp [hl]
      exact
        { h with
          agree := fun hl' => absurd hl' hlive
          gone_found := fun hl' => absurd hl' hlive
          removing_found := fun hl' => absurd hl' hlive
          hidden_stored := fun hl' => absurd hl' hlive
          found_stored := fun hl' => absurd hl' hlive }
  | dispose =>
      exact
        { h with
          agree := nofun
          gone_found := nofun
          removing_found := nofun
          hidden_stored := nofun
          found_stored := nofun }
  | restart =>
      refine of_idle rfl ?_ ?_ ?_ ?_ ?_
      · intro hg
        have hnone : c.stored.isNone = true := (Bool.and_eq_true_iff.mp hg).2
        exact ⟨rfl, Option.isNone_iff_eq_none.mp hnone⟩
      · exact fun _ => .inr ⟨rfl, rfl⟩
      · exact fun _ _ _ _ hx => nomatch hx
      · exact fun _ => nofun
      · exact fun _ _ _ _ hx => nomatch hx

end Sound

end MostroApp.Mirror
