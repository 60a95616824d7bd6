import ActixSend.Lifetime

/-! # The count of active contexts

`inc_active` and `dec_active` bracket the receive loop in the context's own
task. As long as every context leaves its loop through `dec_active` the count
is the number of contexts in their loops. A panic inside `handle_msg` ends the
task between the two: nothing is subtracted, and the restart, which comes after
the subtraction, is never reached.
-/

namespace ActixSend

open Transition
set_option autoImplicit false

variable {A : Actor}

theorem isRunning_iff (s : State A) : s.isRunning = true ↔ s.active % 2 = 0 := by
  simp [State.isRunning, marker, Nat.and_one_is_mod]

theorem incActive_even {active : Nat} (h : active % 2 = 0) : (incActive active).2 = active + 2 := by
  simp [incActive, modifyActive, marker, unit, Nat.and_one_is_mod, h]

theorem decActive_even {active : Nat} (h : active % 2 = 0) : (decActive active).2 = active - 2 := by
  simp [decActive, modifyActive, marker, unit, Nat.and_one_is_mod, h]

theorem afterPush_contexts (s : State A) (i : Nat) (c : Context A) (env : Envelope A)
    (h : FutureHandler) : ∃ pos : Position A, pos.inLoop = true ∧
      (s.afterPush i c env h).contexts = s.contexts.set i { c with pos := pos } := by
  simp only [State.afterPush]
  split
  · exact ⟨_, rfl, rfl⟩
  · exact ⟨.recv, rfl, rfl⟩

theorem afterPush_active (s : State A) (i : Nat) (c : Context A) (env : Envelope A)
    (h : FutureHandler) : (s.afterPush i c env h).active = s.active := by
  simp only [State.afterPush]
  split <;> rfl

/-- A context enters the count by `inc_active` and leaves it by `dec_active`,
or by the panic of an assertion. -/
theorem ContextMove.active_cases {s t : State A} {i : Nat} {c : Context A}
    (h : ContextMove s i c t) : ∃ c', t.contexts = s.contexts.set i c' ∧
      (t.active = s.active ∧ c'.pos.inLoop = c.pos.inLoop ∨
        t.active = (ActixSend.incActive s.active).2 ∧ c.pos.inLoop = false ∧ c'.pos.inLoop = true ∨
        t.active = (decActive s.active).2 ∧ c.pos.inLoop = true ∧ c'.pos.inLoop = false ∨
        AtAssertion s c ∧ t.active = s.active ∧ c' = { c with pos := .panicked }) := by
  cases h with
  | incActive hpos => exact ⟨_, rfl, .inr (.inl ⟨rfl, by rw [hpos]; rfl, rfl⟩)⟩
  | restart hpos hrunning =>
    exact ⟨_, rfl, .inr (.inr (.inl ⟨(decActive_snd hrunning).symm, by rw [hpos]; rfl, rfl⟩))⟩
  | stop hpos => exact ⟨_, rfl, .inr (.inr (.inl ⟨rfl, by rw [hpos]; rfl, rfl⟩))⟩
  | register hpos hmsg =>
    by_cases hkey : s.nextKey < usizeMax
    · exact ⟨_, rfl, .inl ⟨rfl, by simp [hkey, hpos, Position.inLoop, Position.hand]⟩⟩
    · rw [if_neg hkey]
      exact ⟨_, rfl, .inr (.inr (.inr ⟨atAssertion_register hpos hmsg hkey, rfl, rfl⟩))⟩
  | insertPanic hpos hlock hperiod =>
    exact ⟨_, rfl, .inr (.inr (.inr ⟨atAssertion_insert hpos hlock hperiod, rfl, rfl⟩))⟩
  | close hpos | reply hpos =>
    rw [sendReply_frame]
    exact ⟨_, rfl, .inl ⟨rfl, by rw [hpos]; rfl⟩⟩
  | static hpos | dynamic hpos =>
    rw [sendReplyTo_frame]
    exact ⟨_, rfl, .inl ⟨rfl, by rw [hpos]; rfl⟩⟩
  | @pushRefused env handler hpos | @pushExtend env handler hpos =>
    obtain ⟨pos, hloop, hset⟩ := afterPush_contexts _ i c env handler
    exact ⟨_, hset, .inl ⟨afterPush_active _ i c env handler, by rw [hpos, hloop]; rfl⟩⟩
  | intervalRun hpos =>
    simp only [State.runInterval]
    split <;> exact ⟨_, rfl, .inl ⟨rfl, by rw [hpos]; rfl⟩⟩
  | build hpos | onStart hpos | take hpos | leave hpos | closeRefused hpos | delayed hpos
  | delayedLost hpos | lockRun hpos | remove hpos | insert hpos | pushCheck hpos | onStop hpos =>
    exact ⟨_, rfl, .inl ⟨rfl, by rw [hpos]; rfl⟩⟩

theorem Moves.active_same {s t : State A} {act : Act A} (h : Moves s act t) (hs : CountInv s) :
    (t.active = s.active ∧ t.contexts = s.contexts) ∨
      (∃ i chan await c, act = .context i chan await ∧ s.contexts[i]? = some c ∧
        ContextMove s i c t) ∨
      ∃ i c, act = .panic i ∧ s.contexts[i]? = some c ∧ PanicMove s i c t := by
  cases h with
  | address h =>
    cases h with
    | marker ha hpos | lock ha hpos | cancel ha hpos | unlock ha hpos =>
      exact absurd hpos (hs.noShutdown _ (List.mem_of_getElem? ha) _)
    | _ => exact .inl ⟨rfl, rfl⟩
  | request h =>
    rw [h.frame]
    exact .inl ⟨rfl, rfl⟩
  | poll h =>
    rw [h.frame]
    exact .inl ⟨rfl, rfl⟩
  | elapseDelayed | elapseInterval => exact .inl ⟨rfl, rfl⟩
  | context hc h => exact .inr (.inl ⟨_, _, _, _, rfl, hc, h⟩)
  | panic hc h => exact .inr (.inr ⟨_, _, rfl, hc, h⟩)

/-- The user's code panics, or an assertion fails, while the context `c` at
index `i` runs its loop. -/
def PanicsInLoop (m : Move (State A) (Act A)) (i : Nat) (c : Context A) : Prop :=
  m.src.contexts[i]? = some c ∧ c.pos.inLoop = true ∧
    (m.act = .panic i ∨ (∃ chan await, m.act = .context i chan await) ∧ AtAssertion m.src c)

structure ActiveInv (s : State A) : Prop where
  counts : CountInv s
  even : s.active % 2 = 0
  active : s.active / 2 = s.runningContexts

theorem atAssertion_inLoop {s : State A} {c : Context A} (h : AtAssertion s c) :
    c.pos.inLoop = true := by
  obtain ⟨env, hhand, _⟩ := h.exists_hand
  have hloop : c.pos.hand.isSome = true := by rw [hhand]; rfl
  cases hpos : c.pos <;> rw [hpos] at hloop <;> first | rfl | cases hloop

theorem ActiveInv.step {s t : State A} {act : Act A} (h : step s act = some t)
    (hquiet : ∀ i c, ¬PanicsInLoop ⟨s, act, t⟩ i c) (hs : ActiveInv s) : ActiveInv t := by
  have hcounts := hs.counts.step h
  obtain ⟨hcount, heven, hactive⟩ := hs
  rcases (Moves.of_step h).active_same hcount with
    ⟨hsame, hctx⟩ | ⟨i, chan, await, c, rfl, hc, hmove⟩ | ⟨i, c, rfl, hc, hmove⟩
  · exact ⟨hcounts, by rwa [hsame], by rwa [hsame, State.runningContexts, hctx]⟩
  · obtain ⟨c', hset, hcases⟩ := hmove.active_cases
    have hrun := countP_set_add (b := c') (p := fun c => c.pos.inLoop) hc
    rw [← hset] at hrun
    simp only [State.runningContexts] at hactive
    rcases hcases with ⟨hact, hloop⟩ | ⟨hact, hout, hin⟩ | ⟨hact, hin, hout⟩ | ⟨hassert, _⟩
    · rw [hloop] at hrun
      refine ⟨hcounts, by rwa [hact], ?_⟩
      rw [hact, State.runningContexts]
      omega
    · rw [incActive_even heven] at hact
      simp only [hin, hout, if_true, Bool.false_eq_true, if_false] at hrun
      refine ⟨hcounts, by omega, ?_⟩
      rw [hact, State.runningContexts]
      omega
    · rw [decActive_even heven] at hact
      simp only [hin, hout, if_true, Bool.false_eq_true, if_false] at hrun
      refine ⟨hcounts, by omega, ?_⟩
      rw [hact, State.runningContexts]
      omega
    · exact absurd ⟨hc, atAssertion_inLoop hassert, .inr ⟨⟨chan, await, rfl⟩, hassert⟩⟩ (hquiet i c)
  · have hout : c.pos.inLoop = false := by
      by_contra hin
      exact hquiet i c ⟨hc, Bool.not_eq_false _ ▸ hin, .inl rfl⟩
    cases hmove
    refine ⟨hcounts, heven, ?_⟩
    simp only [State.setContext, State.runningContexts]
    rw [countP_set_of_eq hc (by rw [hout]; rfl)]
    exact hactive

theorem Started.activeInv {cfg : Config} {build : Nat → A.State} {s : State A}
    (h : Started cfg build s) : ActiveInv s := by
  have hcount := h.countInv
  obtain ⟨w, rfl, hnew⟩ := h.exists_wiring
  refine ⟨hcount, rfl, ?_⟩
  have hout : ∀ c ∈ w.contexts, ¬c.pos.inLoop = true := by
    intro c hc
    obtain ⟨_, _, _, pos, rfl, rfl | rfl⟩ := hnew c hc <;> simp [Context.new, Position.inLoop,
      Position.hand]
  have hzero : (w.finish cfg).runningContexts = 0 := List.countP_eq_zero.mpr hout
  rw [hzero]
  exact Nat.zero_div 2

theorem Moves.running {s t : State A} {act : Act A} (h : Moves s act t) (hs : CountInv s)
    (heven : s.active % 2 = 0) : t.active % 2 = 0 := by
  rcases h.active_same hs with ⟨hsame, _⟩ | ⟨i, chan, await, c, rfl, hc, hmove⟩ |
    ⟨i, c, rfl, hc, hmove⟩
  · rwa [hsame]
  · obtain ⟨c', _, hcases⟩ := hmove.active_cases
    rcases hcases with ⟨hact, _⟩ | ⟨hact, _⟩ | ⟨hact, _⟩ | ⟨_, hact, _⟩
    · rwa [hact]
    · rw [hact, incActive_even heven]
      omega
    · rw [hact, decActive_even heven]
      omega
    · rwa [hact]
  · cases hmove
    exact heven

section Runs
variable {cfg : Config} {build : Nat → A.State} {s t : State A} {ms : List (Move (State A) (Act A))}

theorem isRunning_of_path (hstart : Started cfg build s) (h : Path step s ms t) :
    t.isRunning = true := by
  rw [isRunning_iff]
  have hinv : CountInv t ∧ t.active % 2 = 0 :=
    h.invariant (I := fun u => CountInv u ∧ u.active % 2 = 0)
      ⟨hstart.countInv, hstart.activeInv.even⟩
      fun _ _ _ hstep hu => ⟨hu.1.step hstep, (Moves.of_step hstep).running hu.1 hu.2⟩
  exact hinv.2

/-- What the count and `restart_on_err` promise when user code fails. -/
structure FailuresRecovered (s : State A) (ms : List (Move (State A) (Act A))) : Prop where
  count : ∀ u ∈ visited s ms, u.isRunning = true → u.currentActive = u.runningContexts
  restarted : s.cfg.restartOnErr = true → ∀ m ∈ ms, ∀ i c, PanicsInLoop m i c →
    ∃ ns v c', Path step m.dst ns v ∧ v.contexts[i]? = some c' ∧ c'.generation = c.generation + 1

theorem panicsInLoop_effect {u v : State A} {act : Act A} {i : Nat} {c : Context A}
    (hstep : step u act = some v) (hpanic : PanicsInLoop ⟨u, act, v⟩ i c) :
    v.active = u.active ∧ v.runningContexts + 1 = u.runningContexts := by
  obtain ⟨hc, hloop, hpanic⟩ := hpanic
  simp only at hc hpanic
  have hrun := countP_set_add (b := { c with pos := .panicked }) (p := fun c => c.pos.inLoop) hc
  simp only [hloop, if_true] at hrun
  rcases hpanic with rfl | ⟨⟨chan, await, rfl⟩, hassert⟩
  · obtain ⟨c', hc', hmove⟩ := PanicMove.of_step hstep
    obtain rfl : c = c' := Option.some.inj (hc.symm.trans hc')
    cases hmove
    exact ⟨rfl, hrun⟩
  · rw [hassert.effect hc hstep]
    exact ⟨rfl, hrun⟩

theorem currentActive_eq (s : State A) : s.currentActive = s.active / 2 := by
  rw [State.currentActive, Nat.shiftRight_eq_div_pow, Nat.pow_one]

theorem failures_recovered_iff (hstart : Started cfg build s) (h : Path step s ms t) :
    FailuresRecovered s ms ↔ ∀ m ∈ ms, ∀ i c, ¬PanicsInLoop m i c := by
  constructor
  · intro hrec m hm i c hpanic
    obtain ⟨ps, _, _, hps, hstep⟩ := h.exists_prefix hm
    obtain ⟨hsrc, hdst⟩ := h.mem_visited hm
    obtain ⟨hactive, hrunning⟩ := panicsInLoop_effect hstep hpanic
    have hbefore := hrec.count m.src hsrc (isRunning_of_path hstart hps)
    have hafter := hrec.count m.dst hdst (isRunning_of_path hstart (hps.snoc hstep))
    rw [currentActive_eq] at hbefore hafter
    rw [hactive] at hafter
    omega
  · intro hquiet
    refine ⟨?_, fun _ m hm i c hpanic => absurd hpanic (hquiet m hm i c)⟩
    intro u hu _
    obtain ⟨ps, hps, hsub⟩ := h.exists_path_to hu
    have hinv : ActiveInv u :=
      hps.invariant_of (C := fun m => ∀ i c, ¬PanicsInLoop m i c)
        (fun m hm => hquiet m (hsub m hm)) hstart.activeInv
        fun _ _ _ hC hstep hu => hu.step hstep hC
    rw [currentActive_eq, hinv.active]

/-- A context that starts, counts itself and handles a message. -/
theorem failures_recovered_handled :
    ∃ ms t, Path step (echoStart { Config.default with restartOnErr := true }) ms t ∧
      ms.length = 6 ∧
      FailuresRecovered (echoStart { Config.default with restartOnErr := true }) ms := by
  obtain ⟨ms, t, hpath, hacts, hp, _⟩ := exists_path_of_checkedRun step
    (echoStart { Config.default with restartOnErr := true })
    [.context 0 0 (), .context 0 0 (), .request (.call 0 (.send (true, 7))),
      .request (.send 0), .context 0 0 (), .context 0 0 ()]
    (fun u act _ => u.contexts.all (fun c => !u.failsAssertion c.pos) && !act matches .panic _)
    (fun t => t.handled.length == 1) (by decide)
  refine ⟨ms, t, hpath, by simpa using congrArg List.length hacts,
    (failures_recovered_iff .start hpath).mpr ?_⟩
  rintro m hm i c ⟨hc, _, hpanic⟩
  have hm := hp m hm
  rcases hpanic with hact | ⟨_, hassert⟩
  · simp [hact] at hm
  · rw [Bool.and_eq_true, List.all_eq_true] at hm
    have hsafe := hm.1 c (List.mem_of_getElem? hc)
    rw [show m.src.failsAssertion c.pos = true from hassert] at hsafe
    cases hsafe

/-- The handler panics on the first message, and its context stays counted. -/
theorem panicking_handler_stays_active :
    ¬∀ (ms : List (Move (State echoActor) (Act echoActor))) (t : State echoActor),
      Path step (echoStart { Config.default with restartOnErr := true }) ms t →
      FailuresRecovered (echoStart { Config.default with restartOnErr := true }) ms := by
  intro hall
  obtain ⟨ms, u, v, hpath, _, hp⟩ := exists_path_of_eval step
    (echoStart { Config.default with restartOnErr := true })
    [.context 0 0 (), .context 0 0 (), .request (.call 0 (.send (true, 7))),
      .request (.send 0), .context 0 0 ()]
    (.panic 0)
    (fun _ v => v.isRunning && v.currentActive != v.runningContexts) (by decide)
  rw [Bool.and_eq_true, bne_iff_ne] at hp
  exact hp.2 ((hall _ v hpath).count v hpath.end_mem_visited hp.1)

end Runs

end ActixSend
