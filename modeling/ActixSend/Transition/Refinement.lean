import Mathlib.Data.List.Flatten
import ActixSend.Transition.Path

/-! # Refinement of one step function by another

Every step of the concrete machine is one step of the abstract machine that
shows the same events, or changes nothing of it and shows none. Then every run
shows what some run of the abstract machine shows, and an invariant of the
abstract machine is one of the concrete machine.
-/

namespace Transition

set_option autoImplicit false

variable {σ τ α β ω : Type} {step : σ → α → Option σ} {step' : τ → β → Option τ} {f : σ → τ}
  {I : σ → Prop} {see : Move σ α → List ω} {see' : Move τ β → List ω} {s t : σ}
  {ms : List (Move σ α)}

structure Refines (step : σ → α → Option σ) (step' : τ → β → Option τ) (f : σ → τ) (I : σ → Prop)
    (see : Move σ α → List ω) (see' : Move τ β → List ω) : Prop where
  keeps : ∀ u a v, step u a = some v → I u → I v
  simulates : ∀ u a v, step u a = some v → I u →
    f v = f u ∧ see ⟨u, a, v⟩ = [] ∨
      ∃ b, step' (f u) b = some (f v) ∧ see' ⟨f u, b, f v⟩ = see ⟨u, a, v⟩

theorem Refines.invariant_end (h : Refines step step' f I see see') (hs : I s)
    (hpath : Path step s ms t) : I t :=
  hpath.invariant hs h.keeps

theorem Refines.exists_path (h : Refines step step' f I see see') (hs : I s)
    (hpath : Path step s ms t) :
    ∃ ns, Path step' (f s) ns (f t) ∧ ns.flatMap see' = ms.flatMap see := by
  induction hpath with
  | nil => exact ⟨[], .nil, rfl⟩
  | @snoc ms u v a hpath hstep ih =>
    obtain ⟨ns, hns, hsee⟩ := ih
    rcases h.simulates u a v hstep (h.invariant_end hs hpath) with ⟨hf, hnone⟩ | ⟨b, hb, hevents⟩
    · refine ⟨ns, hf ▸ hns, ?_⟩
      rw [List.flatMap_append, List.flatMap_singleton, hnone, List.append_nil, hsee]
    · refine ⟨ns ++ [⟨f u, b, f v⟩], hns.snoc hb, ?_⟩
      rw [List.flatMap_append, List.flatMap_append, List.flatMap_singleton, List.flatMap_singleton,
        hevents, hsee]

/-- A run that can be evaluated, with what it shows. -/
def watch (step : σ → α → Option σ) (see : Move σ α → List ω) : σ → List α → Option (σ × List ω)
  | s, [] => some (s, [])
  | s, a :: as =>
    (step s a).bind fun t => (watch step see t as).map fun r => (r.1, see ⟨s, a, t⟩ ++ r.2)

theorem exists_path_of_watch {as : List α} {shown : List ω}
    (h : watch step see s as = some (t, shown)) :
    ∃ ms, Path step s ms t ∧ ms.map Move.act = as ∧ ms.flatMap see = shown := by
  induction as generalizing s shown with
  | nil =>
    cases h
    exact ⟨[], .nil, rfl, rfl⟩
  | cons a as ih =>
    obtain ⟨u, hstep, hrest⟩ := Option.bind_eq_some_iff.mp h
    obtain ⟨⟨v, rest⟩, hwatch, heq⟩ := Option.map_eq_some_iff.mp hrest
    cases heq
    obtain ⟨ms, hpath, hacts, hsee⟩ := ih hwatch
    refine ⟨⟨s, a, u⟩ :: ms, Path.cons hstep hpath, by rw [List.map_cons, hacts], ?_⟩
    rw [List.flatMap_cons, hsee]

/-- What a move adds to a log. -/
def added {ε : Type} (log : σ → List ε) (m : Move σ α) : List ε :=
  (log m.dst).drop (log m.src).length

theorem added_of_eq {ε : Type} {log : σ → List ε} {m : Move σ α} {new : List ε}
    (h : log m.dst = log m.src ++ new) : added log m = new := by
  rw [added, h, List.drop_left]

theorem added_append {ε : Type} (log : σ → List ε) (m : Move σ α)
    (h : log m.src <+: log m.dst) : log m.src ++ added log m = log m.dst := by
  obtain ⟨new, hnew⟩ := h
  rw [added_of_eq hnew.symm, hnew]

theorem Path.log_eq {ε : Type} (log : σ → List ε)
    (hgrows : ∀ u a v, step u a = some v → log u <+: log v) (hpath : Path step s ms t) :
    log t = log s ++ ms.flatMap (added log) := by
  induction hpath with
  | nil => rw [List.flatMap_nil, List.append_nil]
  | @snoc ms u v a _ hstep ih =>
    have hgrown := added_append log ⟨u, a, v⟩ (hgrows u a v hstep)
    rw [List.flatMap_append, List.flatMap_singleton, ← List.append_assoc, ← ih]
    exact hgrown.symm

end Transition
