import Mathlib.Data.List.Perm.Subperm
import ActixSend.Cancellation
import ActixSend.Delivery
import ActixSend.Transition.Measure

/-! # How often an interval future runs

An interval's task sends one `Run` for each tick of its timer, and only the
contexts that take these messages run the future. So an interval future never
runs more often than its timer has ticked, however late its messages are
handled and whichever contexts handle them.
-/

namespace ActixSend

open Transition
set_option autoImplicit false

variable {A : Actor}

/-- The `Run`s a task sends before it needs another tick. -/
def Task.owes (index : Nat) : Task A → Nat
  | .interval _ k ticked holding => if k = index then ticked.toNat + holding.toNat else 0
  | _ => 0

/-- The move is a tick of the timer of the interval future at `index`. -/
def ticks (index : Nat) (m : Move (State A) (Act A)) : Bool :=
  match m.act with
  | .elapse k =>
    match m.src.tasks[k]? with
    | some (.interval _ i _ _) => i == index
    | _ => false
  | _ => false

def State.owed (s : State A) (index : Nat) : Nat := (s.tasks.map (Task.owes index)).sum

def State.runsAccepted (s : State A) (index : Nat) : Nat :=
  s.accepted.countP fun x => x.2.msg.runs index

def State.runsHandled (s : State A) (index : Nat) : Nat :=
  s.handled.countP fun x => x.env.msg.runs index

/-- Nobody but an interval's own task sends a `Run`. -/
def OwnRuns (s : State A) : Prop :=
  ∀ task ∈ s.tasks, ∀ msg index, task = .send msg → msg.runs index = false

theorem Spawned.owes {s t : State A} {act : Act A} {task : Task A} (h : Spawned s act t task)
    (index : Nat) : task.owes index = 0 := by
  cases h <;> simp [Task.owes]

theorem Spawned.not_run {s t : State A} {act : Act A} {task : Task A} (h : Spawned s act t task)
    {msg : ContextMessage A} (htask : task = .send msg) (index : Nat) :
    msg.runs index = false := by
  cases h <;> cases htask <;> rfl

theorem owed_spawned {s t : State A} {act : Act A} (index : Nat)
    (h : ∃ new, t.tasks = s.tasks ++ new ∧ ∀ task ∈ new, Spawned s act t task) :
    t.owed index = s.owed index := by
  obtain ⟨new, htasks, hnew⟩ := h
  have hzero : (new.map (Task.owes index)).sum = 0 := by
    rw [List.sum_eq_zero_iff_forall_eq_nat]
    intro n hn
    obtain ⟨task, htask, rfl⟩ := List.mem_map.mp hn
    exact (hnew task htask).owes index
  rw [State.owed, htasks, List.map_append, List.sum_append, hzero, Nat.add_zero, State.owed]

theorem OwnRuns.step {s t : State A} {act : Act A} (h : step s act = some t) (hs : OwnRuns s) :
    OwnRuns t := by
  rcases (Moves.of_step h).tasks_cases with
    ⟨new, htasks, hnew⟩ | ⟨k, task, task', hk, htasks, hafter⟩
  · rw [OwnRuns, htasks]
    intro x hx msg index hmsg
    rcases List.mem_append.mp hx with hx | hx
    · exact hs x hx msg index hmsg
    · exact (hnew x hx).not_run hmsg index
  · rw [OwnRuns, htasks]
    intro x hx msg index hmsg
    rcases List.mem_or_eq_of_mem_set hx with hx | rfl
    · exact hs x hx msg index hmsg
    · subst hmsg
      rcases hafter with ⟨_, hend⟩ | ⟨hcell, hmessage⟩
      · cases hend
      · refine hs task (List.mem_of_getElem? hk) msg index ?_
        cases task with
        | send msg' =>
          cases hmessage
          rfl
        | delayed | interval => cases hcell
        | finished => cases hmessage

theorem sendShared_runs (s : State A) (msg : ContextMessage A) (index : Nat) :
    (s.sendShared msg).runsAccepted index ≤
      s.runsAccepted index + if msg.runs index then 1 else 0 := by
  unfold State.sendShared
  split
  · simp [State.enqueue, State.runsAccepted, List.countP_append, List.countP_singleton]
  · exact Nat.le_add_right _ _

theorem Request.message_runs (req : Request A) (tx index : Nat) :
    (req.message tx).runs index = false := by
  cases req <;> rfl

theorem RequestMove.runs {s t : State A} {act : RequestAct A} (h : RequestMove s act t)
    (index : Nat) : t.runsAccepted index = s.runsAccepted index := by
  cases h with
  | send | item =>
    simp [State.runsAccepted, State.setCall, State.newCall, State.enqueue, List.countP_append,
      Request.message_runs]
  | @answer _ call | @canceled _ call =>
    obtain ⟨address, req, phase⟩ := call
    cases req <;> rfl
  | cancel =>
    rw [cancelHandler_frame]
    rfl
  | _ => rfl

theorem TaskMove.pays {s t : State A} {k : Nat} (h : TaskMove s k t) (hs : OwnRuns s)
    (index : Nat) : t.tasks = s.tasks ∧ t.runsAccepted index = s.runsAccepted index ∨
      ∃ task task' n, s.tasks[k]? = some task ∧ t.tasks = s.tasks.set k task' ∧
        t.runsAccepted index ≤ s.runsAccepted index + n ∧
        task'.owes index + n ≤ task.owes index := by
  cases h with
  | @send msg ht =>
    have hruns := sendShared_runs s msg index
    rw [hs _ (List.mem_of_getElem? ht) msg index rfl, if_neg Bool.false_ne_true] at hruns
    rw [sendShared_frame] at hruns ⊢
    exact .inr ⟨_, _, 0, ht, rfl, hruns, Nat.zero_le _⟩
  | @delayedSend cell msg elapsed cancel ht =>
    have hruns := sendShared_runs { s with cells := s.cells.set cell (cancel.poll k).2 }
      (.instant msg) index
    rw [show (ContextMessage.instant msg).runs index = false from rfl,
      if_neg Bool.false_ne_true] at hruns
    rw [sendShared_frame] at hruns ⊢
    exact .inr ⟨_, _, 0, ht, rfl, hruns, Nat.zero_le _⟩
  | @intervalSend cell i ticked ht =>
    have hruns := sendShared_runs s (.interval (.run i)) index
    rw [sendShared_frame] at hruns ⊢
    refine .inr ⟨_, _, _, ht, rfl, hruns, ?_⟩
    by_cases hi : i = index <;> simp [Task.owes, ContextMessage.runs, hi]
  | delayedDrop ht | intervalEnd ht => exact .inr ⟨_, _, 0, ht, rfl, Nat.le_refl _, Nat.zero_le _⟩
  | intervalUpgrade ht =>
    refine .inr ⟨_, _, 0, ht, rfl, Nat.le_refl _, ?_⟩
    simp [Task.owes]
  | delayedWait | intervalWait => exact .inl ⟨rfl, rfl⟩

theorem Moves.owed_le {s t : State A} {act : Act A} (h : Moves s act t) (hs : OwnRuns s)
    (index : Nat) : t.runsAccepted index + t.owed index ≤
      s.runsAccepted index + s.owed index + if ticks index ⟨s, act, t⟩ then 1 else 0 := by
  have hset : ∀ (k : Nat) (task task' : Task A), s.tasks[k]? = some task →
      ((s.tasks.set k task').map (Task.owes index)).sum + task.owes index =
        s.owed index + task'.owes index := fun _ _ _ ht => sum_map_set ht
  cases h with
  | address h =>
    have hruns : t.runsAccepted index = s.runsAccepted index := by
      rw [h.frame]
      rfl
    rw [hruns, owed_spawned index h.spawned]
    exact Nat.le_add_right _ _
  | request h =>
    rw [h.runs, owed_spawned index h.spawned]
    exact Nat.le_add_right _ _
  | poll h =>
    rcases h.pays hs index with ⟨htasks, hruns⟩ | ⟨task, task', n, ht, htasks, hruns, hpays⟩
    · rw [hruns, State.owed, htasks]
      exact Nat.le_add_right _ _
    · have howed := hset _ task task' ht
      rw [← htasks] at howed
      change t.owed index + _ = _ at howed
      omega
  | @elapseDelayed k cell msg elapsed ht =>
    have howed := hset _ _ (.delayed cell msg true) ht
    simp only [Task.owes] at howed
    simp only [State.owed, State.runsAccepted, State.setTask] at howed ⊢
    omega
  | @elapseInterval k cell i ticked holding ht =>
    have howed := hset _ _ (.interval cell i true holding) ht
    have htick : ticks index ⟨s, .elapse k, s.setTask k (.interval cell i true holding)⟩ =
        (i == index) := by
      simp only [ticks, ht]
    simp only [Task.owes] at howed
    rw [htick]
    simp only [State.owed, State.runsAccepted, State.setTask] at howed ⊢
    by_cases hi : i = index
    · have hle := ticked.toNat_le
      simp only [hi, if_true, Bool.toNat_true, beq_self_eq_true] at howed ⊢
      omega
    · simp only [hi, if_false] at howed
      omega
  | @context i chan await c _ hc h =>
    have hruns : t.runsAccepted index = s.runsAccepted index := by
      rw [h.frame]
      rfl
    have hspawned : ∃ new, t.tasks = s.tasks ++ new ∧
        ∀ task ∈ new, Spawned s (.context i chan await) t task := h.spawned hc
    rw [hruns, owed_spawned index hspawned]
    exact Nat.le_add_right _ _
  | panic _ h =>
    rw [h.frame]
    exact Nat.le_add_right _ _

section Runs
variable {cfg : Config} {build : Nat → A.State} {s t : State A} {ms : List (Move (State A) (Act A))}

theorem ChannelInv.runsHandled_le (hs : ChannelInv t) (index : Nat) :
    t.runsHandled index ≤ t.runsAccepted index := by
  have hsub : t.ledger.handled.map Prod.snd ⊆ t.ledger.accepted.map Prod.snd := by
    intro env henv
    obtain ⟨⟨i, _⟩, hhandled, rfl⟩ := List.mem_map.mp henv
    obtain ⟨chan, htaken⟩ := hs.sound.taken_of_handled hhandled
    exact List.mem_map.mpr ⟨_, hs.sound.accepted_of_taken htaken, rfl⟩
  have hle := (List.Nodup.subperm hs.sound.handled_nodup hsub).countP_le
    fun env : Envelope A => env.msg.runs index
  simpa [State.runsHandled, State.runsAccepted, State.ledger, List.countP_map,
    Function.comp_def] using hle

/-- An interval future runs, and is asked to run, no more often than its timer
has ticked; what its task still owes is counted too. -/
theorem runs_le_ticks (hstart : Started cfg build s) (h : Path step s ms t) (index : Nat) :
    t.runsHandled index ≤ t.runsAccepted index ∧
      t.runsAccepted index + t.owed index ≤ ms.countP (ticks index) := by
  have hchannel : ChannelInv t := h.invariant hstart.channelInv fun _ _ _ hstep hu => hu.step hstep
  refine ⟨hchannel.runsHandled_le index, ?_⟩
  have hle := h.le_add_countP (I := OwnRuns) (μ := fun u => u.runsAccepted index + u.owed index)
    (p := ticks index) ?_ (fun _ _ _ hstep hu => hu.step hstep)
    fun _ _ _ hstep hu => (Moves.of_step hstep).owed_le hu index
  · obtain ⟨w, rfl, _⟩ := hstart.exists_wiring
    have hzero : (w.finish cfg).runsAccepted index + (w.finish cfg).owed index = 0 := rfl
    omega
  · obtain ⟨w, rfl, _⟩ := hstart.exists_wiring
    intro task htask
    cases htask

/-- An interval future after two ticks, the first of which is handled. -/
theorem runs_le_ticks_two : ∃ ms t, Path step (echoStart Config.default) ms t ∧
    t.runsHandled 0 = 1 ∧ t.owed 0 = 1 ∧ t.runsHandled 0 ≤ t.runsAccepted 0 ∧
    t.runsAccepted 0 + t.owed 0 ≤ ms.countP (ticks 0) := by
  obtain ⟨ms, t, hpath, _, _, hq⟩ := exists_path_of_checkedRun step (echoStart Config.default)
    [.context 0 0 (), .context 0 0 (), .request (.call 0 (.runInterval 5 (1 : Nat))),
      .request (.send 0), .context 0 0 (), .context 0 0 (), .context 0 0 (), .context 0 0 (),
      .context 0 0 (), .context 0 0 (), .elapse 0, .poll 0, .poll 0, .context 0 0 (),
      .context 0 0 (), .context 0 0 (), .elapse 0, .poll 0]
    (fun _ _ _ => true) (fun t => t.runsHandled 0 == 1 && t.owed 0 == 1) (by decide)
  simp only [Bool.and_eq_true, beq_iff_eq] at hq
  exact ⟨ms, t, hpath, hq.1, hq.2, runs_le_ticks .start hpath 0⟩

end Runs

end ActixSend
