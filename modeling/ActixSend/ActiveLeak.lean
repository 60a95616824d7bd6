import ActixSend.Active
import ActixSend.ManualShutdown

/-! # What panics leave in the count

A context whose task panics in its loop stays in `active` for good, and is not
restarted. So the count is that of the running contexts and of all such panics,
and it stays within the number of contexts.
-/

namespace ActixSend

open Transition
set_option autoImplicit false

variable {A : Actor}

/-- The move is a panic of a context that runs its loop. -/
def LosesContext (m : Move (State A) (Act A)) : Prop := ∃ i c, PanicsInLoop m i c

theorem losesContext_panic {s t : State A} {i : Nat} : LosesContext ⟨s, .panic i, t⟩ ↔
    (s.contexts[i]?.any fun c => c.pos.inLoop) = true := by
  constructor
  · rintro ⟨j, c, hc, hloop, hact | ⟨⟨_, _, hact⟩, _⟩⟩
    · cases hact
      exact (Option.any_eq_true _ _).mpr ⟨c, hc, hloop⟩
    · cases hact
  · intro h
    obtain ⟨c, hc, hloop⟩ := (Option.any_eq_true _ _).mp h
    exact ⟨i, c, hc, hloop, .inl rfl⟩

theorem losesContext_context {s t : State A} {i chan : Nat} {await : A.Await} :
    LosesContext ⟨s, .context i chan await, t⟩ ↔
      (s.contexts[i]?.any fun c => s.failsAssertion c.pos) = true := by
  constructor
  · rintro ⟨j, c, hc, _, hact | ⟨⟨_, _, hact⟩, hassert⟩⟩
    · cases hact
    · cases hact
      exact (Option.any_eq_true _ _).mpr ⟨c, hc, hassert⟩
  · intro h
    obtain ⟨c, hc, hassert⟩ := (Option.any_eq_true _ _).mp h
    have hassert : AtAssertion s c := hassert
    exact ⟨i, c, hc, atAssertion_inLoop hassert, .inr ⟨⟨chan, await, rfl⟩, hassert⟩⟩

theorem not_losesContext {m : Move (State A) (Act A)} (hpanic : ∀ i, m.act ≠ .panic i)
    (hcontext : ∀ i chan await, m.act ≠ .context i chan await) : ¬LosesContext m := by
  rintro ⟨i, _, _, _, hact | ⟨⟨chan, await, hact⟩, _⟩⟩
  · exact hpanic i hact
  · exact hcontext i chan await hact

instance (m : Move (State A) (Act A)) : Decidable (LosesContext m) :=
  match m with
  | ⟨_, .panic _, _⟩ => decidable_of_iff _ losesContext_panic.symm
  | ⟨_, .context _ _ _, _⟩ => decidable_of_iff _ losesContext_context.symm
  | ⟨_, .address _, _⟩ => isFalse (not_losesContext nofun nofun)
  | ⟨_, .request _, _⟩ => isFalse (not_losesContext nofun nofun)
  | ⟨_, .poll _, _⟩ => isFalse (not_losesContext nofun nofun)
  | ⟨_, .elapse _, _⟩ => isFalse (not_losesContext nofun nofun)

def Position.isPanicked : Position A → Bool
  | .panicked => true
  | _ => false

theorem isPanicked_of_inLoop {pos : Position A} (h : pos.inLoop = true) :
    pos.isPanicked = false := by
  cases pos <;> first | rfl | cases h

theorem isPanicked_of_gone {pos : Position A} (h : pos.gone = false) : pos.isPanicked = false := by
  cases pos <;> first | rfl | cases h

theorem countP_add_countP_le {α : Type} {p q : α → Bool} (h : ∀ x, p x = true → q x = false)
    (l : List α) : l.countP p + l.countP q ≤ l.length := by
  induction l with
  | nil => exact Nat.le_refl 0
  | cons x l ih =>
    rw [List.countP_cons, List.countP_cons, List.length_cons]
    cases hp : p x with
    | true =>
      rw [h x hp, if_pos rfl, if_neg Bool.false_ne_true]
      omega
    | false =>
      rw [if_neg Bool.false_ne_true]
      split <;> omega

/-- After `n` panics in the loop. -/
structure LeakInv (n : Nat) (s : State A) : Prop where
  counts : CountInv s
  even : s.active % 2 = 0
  active : s.active / 2 = s.runningContexts + n
  panicked : n ≤ s.contexts.countP fun c => c.pos.isPanicked

theorem LeakInv.same {n : Nat} {s t : State A} (hs : LeakInv n s) (hcounts : CountInv t)
    (hactive : t.active = s.active) (hcontexts : t.contexts = s.contexts) : LeakInv n t := by
  constructor
  · exact hcounts
  · rw [hactive]
    exact hs.even
  · rw [hactive, State.runningContexts, hcontexts]
    exact hs.active
  · rw [hcontexts]
    exact hs.panicked

theorem LeakInv.panics {n i : Nat} {s t : State A} {c : Context A} (hs : LeakInv n s)
    (hcounts : CountInv t) (hc : s.contexts[i]? = some c) (hactive : t.active = s.active)
    (hset : t.contexts = s.contexts.set i { c with pos := .panicked }) :
    LeakInv (n + if c.pos.inLoop then 1 else 0) t := by
  have hrun := countP_set_add (b := { c with pos := .panicked }) (p := fun c => c.pos.inLoop) hc
  have hpanic := countP_set_add (b := { c with pos := .panicked })
    (p := fun c => c.pos.isPanicked) hc
  rw [← hset] at hrun hpanic
  have hout : (Position.panicked : Position A).inLoop = false := rfl
  have hdone : (Position.panicked : Position A).isPanicked = true := rfl
  simp only [hout, Bool.false_eq_true, if_false] at hrun
  simp only [hdone, if_true] at hpanic
  have hbefore : s.active / 2 = s.contexts.countP (fun c => c.pos.inLoop) + n := hs.active
  have hpanicked := hs.panicked
  constructor
  · exact hcounts
  · rw [hactive]
    exact hs.even
  · rw [hactive, State.runningContexts]
    omega
  · cases hloop : c.pos.inLoop with
    | true =>
      simp only [isPanicked_of_inLoop hloop, Bool.false_eq_true, if_false] at hpanic
      rw [if_pos rfl]
      omega
    | false =>
      rw [if_neg Bool.false_ne_true]
      have hle : (if c.pos.isPanicked = true then 1 else 0) ≤ 1 := by split <;> decide
      omega

theorem LeakInv.moves {n i : Nat} {s t : State A} {c : Context A} (hs : LeakInv n s)
    (hcounts : CountInv t) (hc : s.contexts[i]? = some c) (hassert : ¬AtAssertion s c)
    (h : ContextMove s i c t) : LeakInv n t := by
  obtain ⟨c', hset, hcases⟩ := h.active_cases
  have hbefore : c.pos.isPanicked = false := by
    obtain ⟨_, _, hturn⟩ := h.turn
    exact isPanicked_of_gone hturn.receives_of.1
  have hrun := countP_set_add (b := c') (p := fun c => c.pos.inLoop) hc
  have hpanic := countP_set_add (b := c') (p := fun c => c.pos.isPanicked) hc
  rw [← hset] at hrun hpanic
  simp only [hbefore, Bool.false_eq_true, if_false] at hpanic
  have hactive : s.active / 2 = s.contexts.countP (fun c => c.pos.inLoop) + n := hs.active
  have heven := hs.even
  have hpanicked : n ≤ t.contexts.countP fun c => c.pos.isPanicked :=
    hs.panicked.trans (by omega)
  rcases hcases with ⟨hsame, hloop⟩ | ⟨hinc, hout, hin⟩ | ⟨hdec, hin, hout⟩ | ⟨hfails, _⟩
  · rw [hloop] at hrun
    refine ⟨hcounts, by rwa [hsame], ?_, hpanicked⟩
    rw [hsame, State.runningContexts]
    omega
  · rw [incActive_even heven] at hinc
    simp only [hin, hout, if_true, Bool.false_eq_true, if_false] at hrun
    refine ⟨hcounts, by omega, ?_, hpanicked⟩
    rw [hinc, State.runningContexts]
    omega
  · rw [decActive_even heven] at hdec
    simp only [hin, hout, if_true, Bool.false_eq_true, if_false] at hrun
    refine ⟨hcounts, by omega, ?_, hpanicked⟩
    rw [hdec, State.runningContexts]
    omega
  · exact absurd hfails hassert

theorem LeakInv.step {n : Nat} {s t : State A} {act : Act A} (h : step s act = some t)
    (hs : LeakInv n s) : LeakInv (n + if LosesContext ⟨s, act, t⟩ then 1 else 0) t := by
  have hcounts := hs.counts.step h
  have hmoves := Moves.of_step h
  have hsame : (∀ i chan await, act ≠ .context i chan await) → (∀ i, act ≠ .panic i) →
      LeakInv n t := by
    intro hcontext hpanic
    rcases hmoves.active_same hs.counts with
      ⟨hactive, hcontexts⟩ | ⟨i, chan, await, _, hact, _⟩ | ⟨i, _, hact, _⟩
    · exact hs.same hcounts hactive hcontexts
    · exact absurd hact (hcontext i chan await)
    · exact absurd hact (hpanic i)
  cases hmoves with
  | address | request | poll | elapseDelayed | elapseInterval =>
    rw [if_neg (not_losesContext (by simp) (by simp))]
    exact hsame nofun nofun
  | @context i chan await c _ hc hmove =>
    by_cases hassert : AtAssertion s c
    · have heffect := hassert.effect hc h
      have hpanics := hs.panics hcounts hc (by rw [heffect]) (by rw [heffect])
      rw [atAssertion_inLoop hassert] at hpanics
      rw [if_pos (losesContext_context.mpr (by rw [hc]; exact hassert))]
      exact hpanics
    · have hsafe : ¬LosesContext ⟨s, .context i chan await, t⟩ := fun hloses =>
        hassert (by simpa [hc, AtAssertion] using losesContext_context.mp hloses)
      rw [if_neg hsafe]
      exact hs.moves hcounts hc hassert hmove
  | panic hc hmove =>
    cases hmove
    simp only [losesContext_panic, hc, Option.any_some]
    exact hs.panics hcounts hc rfl rfl

section Runs
variable {cfg : Config} {build : Nat → A.State} {s t : State A} {ms : List (Move (State A) (Act A))}

theorem leakInv_of_path (hstart : Started cfg build s) (h : Path step s ms t) :
    LeakInv (ms.countP (LosesContext ·)) t := by
  induction h with
  | nil =>
    have hinv := hstart.activeInv
    exact ⟨hinv.counts, hinv.even, hinv.active, Nat.zero_le _⟩
  | @snoc ms u v act _ hstep ih =>
    rw [List.countP_append, List.countP_singleton]
    simp only [decide_eq_true_eq]
    exact ih.step hstep

theorem length_contexts_of_path (hstart : Started cfg build s) (h : Path step s ms t) :
    t.contexts.length = cfg.num :=
  h.invariant (I := fun u => u.contexts.length = cfg.num) hstart.length_contexts
    fun _ _ _ hstep hu => (Moves.of_step hstep).length_contexts.trans hu

/-- `current_active` counts the running contexts and, for good, every panic in
a loop; it never exceeds the number of contexts. -/
theorem active_leaks (hstart : Started cfg build s) (h : Path step s ms t) :
    t.currentActive = t.runningContexts + ms.countP (LosesContext ·) ∧
      t.currentActive ≤ cfg.num := by
  obtain ⟨_, _, hactive, hpanicked⟩ := leakInv_of_path hstart h
  have hapart := countP_add_countP_le (p := fun c : Context A => c.pos.inLoop)
    (q := fun c => c.pos.isPanicked) (fun _ => isPanicked_of_inLoop) t.contexts
  rw [length_contexts_of_path hstart h] at hapart
  rw [currentActive_eq, hactive]
  refine ⟨rfl, ?_⟩
  rw [State.runningContexts]
  omega

/-- One context panics in its handler, one at a period of zero, and one runs. -/
theorem active_leaks_three : ∃ ms t,
    Path step (echoStart { Config.default with num := 3 }) ms t ∧
      t.runningContexts = 1 ∧ ms.countP (LosesContext ·) = 2 ∧
      t.currentActive = t.runningContexts + ms.countP (LosesContext ·) ∧ t.currentActive ≤ 3 := by
  obtain ⟨ms, t, hpath, _, _, hq⟩ := exists_path_of_checkedRun step
    (echoStart { Config.default with num := 3 })
    [.context 0 0 (), .context 0 0 (), .context 1 0 (), .context 1 0 (), .context 2 0 (),
      .context 2 0 (), .request (.doSend 0 (true, 1)), .poll 0, .context 0 0 (), .panic 0,
      .request (.call 0 (.runInterval 0 (4 : Nat))), .request (.send 0), .context 1 0 (),
      .context 1 0 (), .context 1 0 ()]
    (fun _ _ _ => true) (fun t => t.runningContexts == 1 && t.currentActive == 3) (by decide)
  simp only [Bool.and_eq_true, beq_iff_eq] at hq
  have hleaks := active_leaks .start hpath
  exact ⟨ms, t, hpath, hq.1, by omega, hleaks⟩

end Runs

end ActixSend
