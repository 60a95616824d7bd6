import ActixSend.Cancellation

/-! # Delayed messages

`handle_delayed_msg` spawns a task that owns the message and waits for its timer
or for a cancel. Anyone who holds a clone of the handler may cancel at any
moment, so a run here mixes the actions of the set with calls of `cancel`.
-/

namespace ActixSend

open Transition
set_option autoImplicit false

variable {A : Actor}

inductive RaceAct (A : Actor)
  | act (act : Act A)
  | cancel (h : FutureHandler)

def raceStep (s : State A) : RaceAct A → Option (State A)
  | .act act => step s act
  | .cancel h => some (s.cancelHandler h)

inductive Observed
  | cancel
  | timer
  | nothing
  deriving DecidableEq, Repr

/-- What `select` finds when the task `k` of a delayed message is polled: it
asks the finisher first. -/
def State.observed (s : State A) (k : Nat) : Option Observed :=
  match s.tasks[k]? with
  | some (.delayed cell _ elapsed) =>
    (s.cells[cell]?).map fun cancel =>
      if cancel.flag then .cancel else if elapsed then .timer else .nothing
  | _ => none

def RaceAct.polls (k : Nat) : RaceAct A → Bool
  | .act (.poll j) => j == k
  | _ => false

def puts (k : Nat) (m : Move (State A) (RaceAct A)) : Bool :=
  m.act.polls k && decide (m.src.accepted.length < m.dst.accepted.length)

def Waits (k : Nat) (ms : List (Move (State A) (RaceAct A))) : Prop :=
  ∀ m ∈ ms, m.act.polls k = true → m.src.observed k = some .nothing

def FirstFinds (k : Nat) (o : Observed) (ms : List (Move (State A) (RaceAct A)))
    (m : Move (State A) (RaceAct A)) : Prop :=
  ∃ ps qs, ms = ps ++ m :: qs ∧ Waits k ps ∧ m.act.polls k = true ∧ m.src.observed k = some o

structure DelayedLaws (k : Nat) (msg : InstantMessage A) (handleDelayedOnShutdown : Bool)
    (ms : List (Move (State A) (RaceAct A))) : Prop where
  once : ms.countP (puts k) ≤ 1
  message : ∀ m ∈ ms, puts k m = true →
    m.dst.accepted = m.src.accepted ++ [(0, ⟨m.src.nextId, .instant msg⟩)]
  observes : ∀ m ∈ ms, m.act.polls k = true → (m.src.observed k).isSome = true
  waits : Waits k ms → ms.countP (puts k) = 0
  timer : ∀ m, FirstFinds k .timer ms m → puts k m = true ∧ ms.countP (puts k) = 1
  flush : handleDelayedOnShutdown = true → ∀ m, FirstFinds k .cancel ms m →
    puts k m = true ∧ ms.countP (puts k) = 1
  dropped : handleDelayedOnShutdown = false → ∀ m, FirstFinds k .cancel ms m →
    ms.countP (puts k) = 0

/-- How a poll of a task with the message `msg` goes. -/
inductive PollCase (s : State A) (k : Nat) (msg : InstantMessage A) (t : State A) : Prop
  | wait (hfound : s.observed k = some .nothing) (haccepted : t.accepted = s.accepted)
      (htasks : t.tasks = s.tasks)
  | put (hfound : s.observed k = some .timer ∨
        s.observed k = some .cancel ∧ s.cfg.handleDelayedOnShutdown = true)
      (haccepted : t.accepted = s.accepted ++ [(0, ⟨s.nextId, .instant msg⟩)])
      (hdone : t.tasks[k]? = some .finished)
  | drop (hfound : s.observed k = some .cancel)
      (hcfg : s.cfg.handleDelayedOnShutdown = false) (haccepted : t.accepted = s.accepted)
      (hdone : t.tasks[k]? = some .finished)

theorem pollCase_of_step {s t : State A} {k cell : Nat} {msg : InstantMessage A} {elapsed : Bool}
    (hk : s.tasks[k]? = some (.delayed cell msg elapsed)) (hopen : s.receiver 0 = true)
    (h : step s (.poll k) = some t) : PollCase s k msg t := by
  have hobserved : ∀ cancel, s.cells[cell]? = some cancel → s.observed k =
      some (if cancel.flag then .cancel else if elapsed then .timer else .nothing) := by
    intro cancel hcell
    simp only [State.observed, hk, hcell, Option.map_some]
  cases Moves.of_step h with
  | poll h =>
    cases h with
    | send ht | intervalSend ht | intervalEnd ht | intervalUpgrade ht | intervalWait ht =>
      cases hk.symm.trans ht
    | @delayedSend _ _ _ cancel ht hcell hdue =>
      cases hk.symm.trans ht
      have hreceiver : ∀ cells, ({ s with cells := cells } : State A).receiver 0 = true :=
        fun _ => hopen
      refine .put ?_ ?_ ?_
      · rw [hobserved cancel hcell]
        cases hflag : cancel.flag with
        | true =>
          rw [hflag, if_pos rfl] at hdue
          exact .inr ⟨rfl, hdue⟩
        | false =>
          rw [hflag, if_neg Bool.false_ne_true] at hdue
          rw [hdue]
          exact .inl rfl
      · rw [State.sendShared, if_pos (hreceiver _)]
        rfl
      · rw [State.sendShared, if_pos (hreceiver _)]
        exact getElem?_set_self_of hk
    | @delayedDrop _ _ _ cancel ht hcell hflag hcfg =>
      cases hk.symm.trans ht
      refine .drop ?_ hcfg rfl (getElem?_set_self_of hk)
      rw [hobserved cancel hcell, hflag]
      rfl
    | @delayedWait _ _ cancel ht hcell hflag =>
      cases hk.symm.trans ht
      refine .wait ?_ rfl rfl
      rw [hobserved cancel hcell, hflag]
      rfl

theorem puts_iff {m : Move (State A) (RaceAct A)} {k : Nat} (hpolls : m.act.polls k = true) :
    puts k m = true ↔ m.src.accepted.length < m.dst.accepted.length := by
  simp [puts, hpolls]

theorem act_of_polls {act : RaceAct A} {k : Nat} (h : act.polls k = true) :
    act = .act (.poll k) := by
  cases act with
  | act act =>
    cases act with
    | poll j => rw [beq_iff_eq.mp h]
    | _ => cases h
  | cancel => cases h

theorem cancelHandler_kept {s : State A} {h : FutureHandler} {k : Nat} {task : Task A}
    (hk : s.tasks[k]? = some task) : (s.cancelHandler h).tasks[k]? = some task := by
  obtain ⟨new, htasks, _⟩ := cancelHandler_tasks s h
  rw [htasks, List.getElem?_append_left (List.getElem?_eq_some_iff.mp hk).1, hk]

theorem Moves.task_cases {s t : State A} {act : Act A} (h : Moves s act t) {k : Nat}
    {task : Task A} (hk : s.tasks[k]? = some task) :
    t.tasks[k]? = some task ∨ act = .poll k ∧ t.tasks[k]? = some .finished ∨
      ∃ task' : Task A, t.tasks[k]? = some task' ∧ task'.cell = task.cell ∧
        task'.message = task.message := by
  rcases h.tasks_cases with ⟨new, htasks, _⟩ | ⟨k', before, after, hk', htasks, hafter⟩
  · left
    rw [htasks, List.getElem?_append_left (List.getElem?_eq_some_iff.mp hk).1, hk]
  · by_cases hne : k' = k
    · subst hne
      obtain rfl := Option.some.inj (hk.symm.trans hk')
      right
      rw [htasks, getElem?_set_self_of hk]
      rcases hafter with ⟨hact, rfl⟩ | hsame
      · exact .inl ⟨hact, rfl⟩
      · exact .inr ⟨after, rfl, hsame⟩
    · left
      rw [htasks, List.getElem?_set_ne hne, hk]

theorem delayed_kept {s t : State A} {act : RaceAct A} {k cell : Nat} {msg : InstantMessage A}
    {elapsed : Bool} (h : raceStep s act = some t)
    (hk : s.tasks[k]? = some (.delayed cell msg elapsed)) :
    (∃ elapsed, t.tasks[k]? = some (.delayed cell msg elapsed)) ∨
      act.polls k = true ∧ t.tasks[k]? = some .finished := by
  cases act with
  | act act =>
    rcases (Moves.of_step h).task_cases hk with hsame | ⟨rfl, hdone⟩ | ⟨task, htask, hcell, hmsg⟩
    · exact .inl ⟨elapsed, hsame⟩
    · exact .inr ⟨beq_self_eq_true k, hdone⟩
    · obtain ⟨elapsed', rfl⟩ := Task.eq_delayed hcell hmsg
      exact .inl ⟨elapsed', htask⟩
  | cancel handler =>
    cases h
    exact .inl ⟨elapsed, cancelHandler_kept hk⟩

theorem finished_kept {s t : State A} {act : RaceAct A} {k : Nat} (h : raceStep s act = some t)
    (hk : s.tasks[k]? = some .finished) : act.polls k = false ∧ t.tasks[k]? = some .finished := by
  cases act with
  | act act =>
    constructor
    · by_contra hpolls
      cases act_of_polls (Bool.not_eq_false _ ▸ hpolls)
      simp [raceStep, step, State.pollTask, hk] at h
    · rcases (Moves.of_step h).task_cases hk with hsame | ⟨_, hdone⟩ | ⟨task, htask, _, hmsg⟩
      · exact hsame
      · exact hdone
      · rw [htask, Task.eq_finished hmsg]
  | cancel handler =>
    cases h
    exact ⟨rfl, cancelHandler_kept hk⟩

theorem raceStep_cfg {s t : State A} {act : RaceAct A} (h : raceStep s act = some t) :
    t.cfg = s.cfg := by
  cases act with
  | act act => exact (Moves.of_step h).cfg_eq
  | cancel handler =>
    cases h
    rw [cancelHandler_frame]

section Runs
variable {s t : State A} {k cell : Nat} {msg : InstantMessage A} {elapsed : Bool}
  {ms : List (Move (State A) (RaceAct A))}

theorem finished_of_path (h : Path raceStep s ms t) (hk : s.tasks[k]? = some .finished) :
    (∀ m ∈ ms, m.act.polls k = false) ∧ t.tasks[k]? = some .finished := by
  induction h with
  | nil => exact ⟨List.forall_mem_nil _, hk⟩
  | snoc _ hstep ih =>
    obtain ⟨hnone, hdone⟩ := ih
    obtain ⟨hpolls, hdone'⟩ := finished_kept hstep hdone
    refine ⟨?_, hdone'⟩
    intro m hm
    rcases List.mem_append.mp hm with hm | hm
    · exact hnone m hm
    · obtain rfl := List.mem_singleton.mp hm
      exact hpolls

theorem pollCase_of_polls {act : RaceAct A}
    (hk : s.tasks[k]? = some (.delayed cell msg elapsed)) (hpolls : act.polls k = true)
    (hopen : s.receiver 0 = true) (hstep : raceStep s act = some t) : PollCase s k msg t := by
  rw [act_of_polls hpolls] at hstep
  exact pollCase_of_step hk hopen hstep

theorem delayed_of_path (h : Path raceStep s ms t)
    (hk : s.tasks[k]? = some (.delayed cell msg elapsed))
    (hopen : ∀ m ∈ ms, m.act.polls k = true → m.src.receiver 0 = true) :
    (Waits k ms ∧ ∃ elapsed, t.tasks[k]? = some (.delayed cell msg elapsed)) ∨
      t.tasks[k]? = some .finished ∧ ∃ ps m qs, ms = ps ++ m :: qs ∧ Waits k ps ∧
        m.src.observed k ≠ some .nothing ∧ m.act.polls k = true ∧
        ∀ n ∈ qs, n.act.polls k = false := by
  induction h with
  | nil => exact .inl ⟨List.forall_mem_nil _, elapsed, hk⟩
  | @snoc ms u v act _ hstep ih =>
    rcases ih fun m hm => hopen m (List.mem_append_left _ hm) with
      ⟨hwaits, elapsed', hu⟩ | ⟨hdone, ps, m, qs, rfl, hps, hfound, hpolls, hqs⟩
    · by_cases hpolls : act.polls k = true
      · have hreceiver : u.receiver 0 = true :=
          hopen ⟨u, act, v⟩ (List.mem_concat_self) hpolls
        cases pollCase_of_polls hu hpolls hreceiver hstep with
        | wait hfound _ htasks =>
          left
          constructor
          · intro m hm hm'
            rcases List.mem_append.mp hm with hm | hm
            · exact hwaits m hm hm'
            · obtain rfl := List.mem_singleton.mp hm
              exact hfound
          · exact ⟨elapsed', by rw [htasks, hu]⟩
        | put hfound _ hdone =>
          refine .inr ⟨hdone, ms, ⟨u, act, v⟩, [], rfl, hwaits, ?_, hpolls, List.forall_mem_nil _⟩
          rcases hfound with hfound | ⟨hfound, _⟩ <;> simp [hfound]
        | drop hfound _ _ hdone =>
          refine .inr ⟨hdone, ms, ⟨u, act, v⟩, [], rfl, hwaits, ?_, hpolls, List.forall_mem_nil _⟩
          simp [hfound]
      · left
        constructor
        · intro m hm hm'
          rcases List.mem_append.mp hm with hm | hm
          · exact hwaits m hm hm'
          · obtain rfl := List.mem_singleton.mp hm
            exact absurd hm' hpolls
        · rcases delayed_kept hstep hu with hv | ⟨hpolls', _⟩
          · exact hv
          · exact absurd hpolls' hpolls
    · right
      obtain ⟨hlast, hdone'⟩ := finished_kept hstep hdone
      refine ⟨hdone', ps, m, qs ++ [⟨u, act, v⟩], by simp, hps, hfound, hpolls, ?_⟩
      intro n hn
      rcases List.mem_append.mp hn with hn | hn
      · exact hqs n hn
      · obtain rfl := List.mem_singleton.mp hn
        exact hlast

theorem cfg_of_racePath (h : Path raceStep s ms t) : t.cfg = s.cfg :=
  h.invariant (I := fun u => u.cfg = s.cfg) rfl fun _ _ _ hstep hu =>
    (raceStep_cfg hstep).trans hu

theorem observed_delayed {o : Observed} (h : s.observed k = some o) :
    ∃ cell msg elapsed, s.tasks[k]? = some (.delayed cell msg elapsed) := by
  unfold State.observed at h
  split at h
  · exact ⟨_, _, _, ‹_›⟩
  · cases h

theorem countP_puts_of_waits (h : Path raceStep s ms t)
    (hopen : ∀ m ∈ ms, m.act.polls k = true → m.src.receiver 0 = true) (hwaits : Waits k ms) :
    ms.countP (puts k) = 0 := by
  rw [List.countP_eq_zero]
  intro m hm hputs
  have hpolls : m.act.polls k = true := by
    simp only [puts, Bool.and_eq_true] at hputs
    exact hputs.1
  have hnothing := hwaits m hm hpolls
  obtain ⟨cell, msg, elapsed, hk⟩ := observed_delayed hnothing
  have hlt := (puts_iff hpolls).mp hputs
  cases pollCase_of_polls hk hpolls (hopen m hm hpolls) (h.step_eq hm) with
  | wait _ haccepted =>
    rw [haccepted] at hlt
    exact Nat.lt_irrefl _ hlt
  | put hfound =>
    rw [hnothing] at hfound
    rcases hfound with hfound | ⟨hfound, _⟩ <;> cases hfound
  | drop hfound => cases hnothing.symm.trans hfound

theorem countP_puts_of_silent (h : ∀ m ∈ ms, m.act.polls k = false) : ms.countP (puts k) = 0 := by
  rw [List.countP_eq_zero]
  intro m hm hputs
  rw [puts, h m hm] at hputs
  cases hputs

/-- A run cut at a poll of the task that has waited until then. -/
structure CutAt (k : Nat) (msg : InstantMessage A) (flag : Bool)
    (ms : List (Move (State A) (RaceAct A))) (m : Move (State A) (RaceAct A)) : Prop where
  case : PollCase m.src k msg m.dst
  cfg : m.src.cfg.handleDelayedOnShutdown = flag
  count : m.src.observed k ≠ some .nothing →
    ms.countP (puts k) = if puts k m = true then 1 else 0

theorem cutAt_of_path {ps qs : List (Move (State A) (RaceAct A))}
    {m : Move (State A) (RaceAct A)} (h : Path raceStep s (ps ++ m :: qs) t)
    (hk : s.tasks[k]? = some (.delayed cell msg elapsed))
    (hopen : ∀ n ∈ ps ++ m :: qs, n.act.polls k = true → n.src.receiver 0 = true)
    (hwaits : Waits k ps) (hpolls : m.act.polls k = true) :
    CutAt k msg s.cfg.handleDelayedOnShutdown (ps ++ m :: qs) m := by
  obtain ⟨u, hps, hrest⟩ := h.exists_between
  obtain ⟨rfl, hstep, hqs⟩ := hrest.first
  have hopen' : ∀ n ∈ ps, n.act.polls k = true → n.src.receiver 0 = true :=
    fun n hn => hopen n (List.mem_append_left _ hn)
  have hdelayed : ∃ elapsed, m.src.tasks[k]? = some (.delayed cell msg elapsed) := by
    rcases delayed_of_path hps hk hopen' with ⟨_, hu⟩ | ⟨_, ps', n, qs', rfl, _, hfound, hn, _⟩
    · exact hu
    · exact absurd (hwaits n (by simp) hn) hfound
  obtain ⟨elapsed', hu⟩ := hdelayed
  have hcase := pollCase_of_polls hu hpolls (hopen m (by simp) hpolls) hstep
  refine ⟨hcase, by rw [cfg_of_racePath hps], ?_⟩
  intro hfound
  have hdone : m.dst.tasks[k]? = some .finished := by
    cases hcase with
    | wait hnothing => exact absurd hnothing hfound
    | put _ _ hdone => exact hdone
    | drop _ _ _ hdone => exact hdone
  rw [List.countP_append, List.countP_cons, countP_puts_of_waits hps hopen' hwaits,
    countP_puts_of_silent (finished_of_path hqs hdone).1, Nat.zero_add, Nat.zero_add]

theorem cutAt_of_mem (hk : s.tasks[k]? = some (.delayed cell msg elapsed))
    (h : Path raceStep s ms t)
    (hopen : ∀ m ∈ ms, m.act.polls k = true → m.src.receiver 0 = true)
    {m : Move (State A) (RaceAct A)} (hm : m ∈ ms) (hpolls : m.act.polls k = true) :
    CutAt k msg s.cfg.handleDelayedOnShutdown ms m := by
  obtain ⟨ps, qs, rfl, hps, hstep⟩ := h.exists_prefix hm
  have hopen' : ∀ n ∈ ps, n.act.polls k = true → n.src.receiver 0 = true :=
    fun n hn => hopen n (List.mem_append_left _ hn)
  rcases delayed_of_path hps hk hopen' with ⟨hwaits, _⟩ | ⟨hdone, _⟩
  · exact cutAt_of_path h hk hopen hwaits hpolls
  · rw [(finished_kept hstep hdone).1] at hpolls
    cases hpolls

theorem PollCase.puts_eq {m : Move (State A) (RaceAct A)} (h : PollCase m.src k msg m.dst)
    (hpolls : m.act.polls k = true) : puts k m = true ↔
      (m.src.observed k = some .timer ∨
        m.src.observed k = some .cancel ∧ m.src.cfg.handleDelayedOnShutdown = true) ∧
      m.dst.accepted = m.src.accepted ++ [(0, ⟨m.src.nextId, .instant msg⟩)] := by
  rw [puts_iff hpolls]
  cases h with
  | wait hfound haccepted => simp [hfound, haccepted]
  | put hfound haccepted => simp [hfound, haccepted]
  | drop hfound hcfg haccepted => simp [hfound, hcfg, haccepted]

theorem PollCase.observed_isSome (h : PollCase s k msg t) : (s.observed k).isSome = true := by
  cases h with
  | wait hfound => rw [hfound]; rfl
  | put hfound => rcases hfound with hfound | ⟨hfound, _⟩ <;> rw [hfound] <;> rfl
  | drop hfound => rw [hfound]; rfl

theorem delayed_put_once (hk : s.tasks[k]? = some (.delayed cell msg elapsed))
    (h : Path raceStep s ms t)
    (hopen : ∀ m ∈ ms, m.act.polls k = true → m.src.receiver 0 = true) :
    DelayedLaws k msg s.cfg.handleDelayedOnShutdown ms := by
  have hcut {m : Move (State A) (RaceAct A)} (hm : m ∈ ms) (hpolls : m.act.polls k = true) :=
    cutAt_of_mem hk h hopen hm hpolls
  have hfirst : ∀ {o : Observed} {m : Move (State A) (RaceAct A)}, FirstFinds k o ms m →
      o ≠ .nothing → m.act.polls k = true ∧ m.src.observed k = some o ∧
        PollCase m.src k msg m.dst ∧
        m.src.cfg.handleDelayedOnShutdown = s.cfg.handleDelayedOnShutdown ∧
        ms.countP (puts k) = if puts k m = true then 1 else 0 := by
    rintro o m ⟨ps, qs, rfl, hwaits, hpolls, hfound⟩ ho
    obtain ⟨hcase, hcfg, hcount⟩ := cutAt_of_path h hk hopen hwaits hpolls
    refine ⟨hpolls, hfound, hcase, hcfg, hcount ?_⟩
    simpa [hfound] using ho
  constructor
  · rcases delayed_of_path h hk hopen with ⟨hwaits, _⟩ | ⟨_, ps, m, qs, rfl, _, hfound, hpolls, _⟩
    · rw [countP_puts_of_waits h hopen hwaits]
      exact Nat.zero_le 1
    · rw [(hcut (by simp) hpolls).count hfound]
      split <;> simp
  · intro m hm hputs
    have hpolls : m.act.polls k = true := by
      simp only [puts, Bool.and_eq_true] at hputs
      exact hputs.1
    exact (((hcut hm hpolls).case.puts_eq hpolls).mp hputs).2
  · intro m hm hpolls
    exact (hcut hm hpolls).case.observed_isSome
  · exact countP_puts_of_waits h hopen
  · intro m hm
    obtain ⟨hpolls, hfound, hcase, _, hcount⟩ := hfirst hm nofun
    have hputs : puts k m = true := by
      cases hcase with
      | wait hnothing => cases hfound.symm.trans hnothing
      | put _ haccepted => simp [puts, hpolls, haccepted]
      | drop hcancel => cases hfound.symm.trans hcancel
    exact ⟨hputs, by rw [hcount, if_pos hputs]⟩
  · intro hflag m hm
    obtain ⟨hpolls, hfound, hcase, hcfg, hcount⟩ := hfirst hm nofun
    have hputs : puts k m = true := by
      cases hcase with
      | wait hnothing => cases hfound.symm.trans hnothing
      | put _ haccepted => simp [puts, hpolls, haccepted]
      | drop _ hdrop => cases (hdrop.symm.trans hcfg).trans hflag
    exact ⟨hputs, by rw [hcount, if_pos hputs]⟩
  · intro hflag m hm
    obtain ⟨hpolls, hfound, hcase, hcfg, hcount⟩ := hfirst hm nofun
    rw [hcount, if_neg]
    intro hputs
    rcases ((hcase.puts_eq hpolls).mp hputs).1 with htimer | ⟨_, hon⟩
    · cases hfound.symm.trans htimer
    · cases (hon.symm.trans hcfg).trans hflag

/-- Up to the spawn of the task, and from there on. -/
def sendsLater : List (RaceAct echoActor) :=
  [.act (.request (.call 0 (.sendLater (true, 7)))), .act (.request (.send 0)),
    .act (.context 0 0 ()), .act (.context 0 0 ()), .act (.context 0 0 ()),
    .act (.context 0 0 ()), .act (.context 0 0 ())]

def cancelsTwice : List (RaceAct echoActor) :=
  [.act (.poll 0), .cancel ⟨0, none⟩, .cancel ⟨0, none⟩, .act (.poll 0)]

def isDelayed (s : State echoActor) (k : Nat) : Bool :=
  match s.tasks[k]? with
  | some (.delayed _ _ _) => true
  | _ => false

theorem delayed_put_once_flushed : ∃ (s t : State echoActor) (msg : InstantMessage echoActor)
    (ms : List (Move (State echoActor) (RaceAct echoActor))), Path raceStep s ms t ∧
      ms.map Move.act = cancelsTwice ∧ t.accepted.length = s.accepted.length + 1 ∧
      DelayedLaws 0 msg true ms := by
  obtain ⟨_, s, hreach, _, _, hs⟩ := exists_path_of_checkedRun raceStep
    (echoStart { Config.default with handleDelayedOnShutdown := true }) sendsLater
    (fun _ _ _ => true)
    (fun s => isDelayed s 0 && (checkedRun raceStep
      (fun u act _ => !act.polls 0 || u.receiver 0) s cancelsTwice).any
        fun t => t.accepted.length == s.accepted.length + 1) (by decide)
  rw [Bool.and_eq_true] at hs
  obtain ⟨hdelayed, hrun⟩ := hs
  obtain ⟨ms, t, hpath, hacts, hopen, ht⟩ := exists_path_of_checkedRun raceStep s _ _ _ hrun
  unfold isDelayed at hdelayed
  split at hdelayed
  · rename_i cell msg elapsed hk
    refine ⟨s, t, msg, ms, hpath, hacts, beq_iff_eq.mp ht, ?_⟩
    have hcfg : s.cfg.handleDelayedOnShutdown = true := by rw [cfg_of_racePath hreach]; rfl
    rw [← hcfg]
    refine delayed_put_once hk hpath ?_
    intro m hm hpolls
    simpa [hpolls] using hopen m hm
  · cases hdelayed

end Runs

end ActixSend
