import MostroApp.Lib.Interleaving

set_option autoImplicit false

/-! # Threads that each work on one cell of a keyed store

A store `κ → σ` has a cell for every key, and every thread works on the cell of its key alone
(`CellProg`). Threads on different keys do not interfere, so a proof outline has to be checked
on one cell: for the thread that moves and for the others of its key (`CellOutline`).
-/

namespace MostroApp.Interleaving

open Transition

variable {κ σ π ω : Type} [DecidableEq κ]

/-- A thread's program on the cell of its key. -/
structure CellProg (κ σ π ω : Type) where
  key : π → κ
  /-- The program counters a thread may start at. -/
  enter : π → Bool
  cstep : ω → π → σ → Option (σ × Option π)

namespace CellProg

variable {P : CellProg κ σ π ω}

/-- The program over the whole store. Nothing but threads moves it. -/
def prog (P : CellProg κ σ π ω) : Prog (κ → σ) π ω Empty where
  enter := P.enter
  tstep w p s := (P.cstep w p (s (P.key p))).map fun r => (Function.update s (P.key p) r.1, r.2)
  act := nofun

theorem tstep_eq_some {w : ω} {p : π} {s t : κ → σ} {q : Option π} :
    P.prog.tstep w p s = some (t, q) ↔
      ∃ cell, P.cstep w p (s (P.key p)) = some (cell, q) ∧
        t = Function.update s (P.key p) cell := by
  simp only [prog, Option.map_eq_some_iff, Prod.exists, Prod.mk.injEq]
  constructor
  · rintro ⟨cell, r, h, rfl, rfl⟩
    exact ⟨cell, h, rfl⟩
  · rintro ⟨cell, h, rfl⟩
    exact ⟨cell, q, h, rfl, rfl⟩

end CellProg

/-- **A proof outline on one cell.** `I` holds of the cell and `A p` of the cell of a thread at
`p`: a move keeps `I`, establishes the thread's next assertion, which is about the same key, and
keeps the assertions of the key's other threads. -/
structure CellOutline (P : CellProg κ σ π ω)
    (C : Pool (κ → σ) π → Label π ω Empty → Prop) (I : σ → Prop) (A : π → σ → Prop) : Prop where
  key : ∀ w p s s' q, P.cstep w p s = some (s', some q) → P.key q = P.key p
  spawn : ∀ p s, P.enter p = true → I s → A p s
  shared : ∀ c i w p s' q, C c (.step i w) → c.threads i = some p → I (c.shared (P.key p)) →
    A p (c.shared (P.key p)) → P.cstep w p (c.shared (P.key p)) = some (s', q) → I s'
  self : ∀ c i w p s' q, C c (.step i w) → c.threads i = some p → I (c.shared (P.key p)) →
    A p (c.shared (P.key p)) → P.cstep w p (c.shared (P.key p)) = some (s', some q) → A q s'
  other : ∀ c i w p s' q j r, C c (.step i w) → c.threads i = some p → I (c.shared (P.key p)) →
    A p (c.shared (P.key p)) → P.cstep w p (c.shared (P.key p)) = some (s', q) → j ≠ i →
    c.threads j = some r → P.key r = P.key p → A r (c.shared (P.key p)) → A r s'

variable {P : CellProg κ σ π ω} {C : Pool (κ → σ) π → Label π ω Empty → Prop} {I : σ → Prop}
  {A : π → σ → Prop}

/-- The outline on one cell is an outline of the whole store. -/
theorem CellOutline.outline (O : CellOutline P C I A) :
    Outline P.prog C (fun s => ∀ k, I (s k)) (fun p s => A p (s (P.key p))) := by
  constructor
  · exact fun c i p hc _ hp _ => O.spawn p _ hp (hc.shared _)
  · intro c i w p s q hc hC hp hs k
    obtain ⟨cell, hcell, rfl⟩ := CellProg.tstep_eq_some.mp hs
    by_cases hk : k = P.key p
    · subst hk
      rw [Function.update_self]
      exact O.shared c i w p cell q hC hp (hc.shared _) (hc.threads i p hp) hcell
    · rw [Function.update_of_ne hk]
      exact hc.shared k
  · intro c i w p s q hc hC hp hs
    obtain ⟨cell, hcell, rfl⟩ := CellProg.tstep_eq_some.mp hs
    rw [O.key w p _ cell q hcell, Function.update_self]
    exact O.self c i w p cell q hC hp (hc.shared _) (hc.threads i p hp) hcell
  · intro c i w p s q j r hc hC hp hs hj hr
    obtain ⟨cell, hcell, rfl⟩ := CellProg.tstep_eq_some.mp hs
    by_cases hk : P.key r = P.key p
    · rw [hk, Function.update_self]
      exact O.other c i w p cell q j r hC hp (hc.shared _) (hc.threads i p hp) hcell hj hr hk
        (hk ▸ hc.threads j r hr)
    · rw [Function.update_of_ne hk]
      exact hc.threads j r hr
  · exact fun c a => nomatch a
  · exact fun c a => nomatch a

end MostroApp.Interleaving
