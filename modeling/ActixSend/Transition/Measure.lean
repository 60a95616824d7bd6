import ActixSend.Transition.Path

/-! # Measures along a path

Moves that lower a measure come to an end within the measure's first value, and
a measure that only some moves raise counts those moves from below.
-/

namespace Transition

set_option autoImplicit false

variable {σ α : Type} {step : σ → α → Option σ} {I : σ → Prop} {C : Move σ α → Prop} {μ : σ → Nat}
  {s t : σ} {ms : List (Move σ α)}

theorem Path.length_add_le (h : Path step s ms t) (hC : ∀ m ∈ ms, C m) (h0 : I s)
    (hI : ∀ u a v, C ⟨u, a, v⟩ → step u a = some v → I u → I v)
    (hμ : ∀ u a v, C ⟨u, a, v⟩ → step u a = some v → I u → μ v < μ u) :
    ms.length + μ t ≤ μ s := by
  have hcount := h.countP_add_le (p := fun _ => true) hC h0 hI fun u a v hm hstep hu => by
    rw [if_pos rfl]
    exact hμ u a v hm hstep hu
  rwa [List.countP_true] at hcount

variable (step) in
/-- Moves that lower a measure can be taken until none is left. -/
theorem exists_path_to_end (h0 : I s)
    (hI : ∀ u a v, C ⟨u, a, v⟩ → step u a = some v → I u → I v)
    (hμ : ∀ u a v, C ⟨u, a, v⟩ → step u a = some v → I u → μ v < μ u) :
    ∃ ms t, Path step s ms t ∧ (∀ m ∈ ms, C m) ∧ ∀ a v, step t a = some v → ¬C ⟨t, a, v⟩ := by
  generalize hn : μ s = n
  induction n using Nat.strongRecOn generalizing s with
  | ind n ih =>
    by_cases hend : ∀ a v, step s a = some v → ¬C ⟨s, a, v⟩
    · exact ⟨[], s, .nil, List.forall_mem_nil _, hend⟩
    · push Not at hend
      obtain ⟨a, v, hstep, hm⟩ := hend
      have hlt : μ v < n := hn ▸ hμ s a v hm hstep h0
      obtain ⟨ms, t, hpath, hms, hlast⟩ := ih (μ v) hlt (hI s a v hm hstep h0) rfl
      exact ⟨_, t, Path.cons hstep hpath, List.forall_mem_cons.mpr ⟨hm, hms⟩, hlast⟩

/-- When only the moves of one kind raise a measure, and each of them by one,
a path takes at least as many of them as the measure has grown. -/
theorem Path.le_add_countP {p : Move σ α → Bool} (h : Path step s ms t) (h0 : I s)
    (hI : ∀ u a v, step u a = some v → I u → I v)
    (hμ : ∀ u a v, step u a = some v → I u → μ v ≤ μ u + if p ⟨u, a, v⟩ then 1 else 0) :
    μ t ≤ μ s + ms.countP p := by
  induction h with
  | nil => exact Nat.le_add_right _ _
  | @snoc ms u v a h hstep ih =>
    have hlast := hμ u a v hstep (h.invariant h0 hI)
    rw [List.countP_append, List.countP_singleton]
    omega

end Transition
