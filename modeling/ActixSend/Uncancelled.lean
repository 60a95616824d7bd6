import ActixSend.IntervalFutures
import ActixSend.Transition.Batch

/-! # What no shutdown cancels

The address count starts one too high, so no drop ever runs the shutdown. What
a shutdown would work on is kept all the same: every cancelable task leaves a
handler in the list, and no handler is ever taken out. The only cancellations
are those of callers, who get handlers of interval futures and no others, so a
delayed message always waits for its time and is then sent.
-/

namespace ActixSend

open Function Transition
set_option autoImplicit false

variable {A : Actor}

def CallPhase.handler : CallPhase A → Option FutureHandler
  | .waiting (some (.handler h)) => some h
  | .done (.ok (.handler h)) => some h
  | _ => none

def ContextMessage.Registers (msg : ContextMessage A) : Prop :=
  ∃ tx fut dur, msg = .interval (.register tx fut dur)

inductive Returning (s : State A) (h : FutureHandler) : Prop
  | pushing {c : Context A} {env : Envelope A} (hc : c ∈ s.contexts)
      (hpos : c.pos.pushing = some h) (hhand : c.pos.hand = some env)
      (hmsg : env.msg.Registers) : Returning s h
  | reply {c : Context A} {env : Envelope A} {tx : Nat} (hc : c ∈ s.contexts)
      (hpos : c.pos = .reply env tx h) : Returning s h
  | call {call : Call A} (hc : call ∈ s.calls) (hphase : call.phase.handler = some h) :
      Returning s h

structure IntervalCell (s : State A) (cell : Nat) : Prop where
  exists_cell : cell < s.cells.length
  apart : ∀ msg elapsed, .delayed cell msg elapsed ∉ s.tasks

structure SpawnsInterval (s t : State A) : Prop where
  cells : t.cells.length = s.cells.length + 1
  tasks : ∃ key, t.tasks = s.tasks ++ [.interval s.cells.length key false false]

theorem Request.answer_handler {req : Request A} {reply : Reply A} {h : FutureHandler}
    (hanswer : (CallPhase.done (req.answer reply)).handler = some h) : reply = .handler h := by
  cases req with
  | send | entry | item =>
    cases reply with
    | result r =>
      simp only [Request.answer, Outcome.ofMap] at hanswer
      split at hanswer <;> cases hanswer
    | _ => cases hanswer
  | run =>
    cases reply with
    | object o =>
      simp only [Request.answer] at hanswer
      split at hanswer <;> cases hanswer
    | _ => cases hanswer
  | runInterval =>
    cases reply with
    | handler handler =>
      cases hanswer
      rfl
    | _ => cases hanswer
  | closeOne => cases reply <;> cases hanswer
  | sendLater | runLater => cases reply <;> cases hanswer

theorem ContextMove.reply_handler {s t : State A} {i : Nat} {c : Context A} {entry : Handled A}
    {h : FutureHandler} (hmove : ContextMove s i c t)
    (hsnoc : t.handled = s.handled ++ [entry]) (hreply : entry.reply = some (.handler h)) :
    ∃ env tx, c.pos = .reply env tx h := by
  have hlast : ∀ {x : Handled A}, t.handled = s.handled ++ [x] → x = entry := fun hx =>
    List.singleton_inj.mp (List.append_cancel_left (hx.symm.trans hsnoc))
  cases hmove with
  | close =>
    rw [sendReply_frame] at hlast
    rw [← hlast rfl] at hreply
    cases hreply
  | closeRefused | delayedLost | remove =>
    rw [← hlast rfl] at hreply
    cases hreply
  | static | dynamic =>
    rw [sendReplyTo_frame] at hlast
    rw [← hlast rfl] at hreply
    cases hreply
  | pushRefused | pushExtend =>
    simp only [State.afterPush] at hsnoc
    split at hsnoc
    · exact absurd hsnoc.symm (by simp [State.setContext])
    · obtain rfl : _ = entry := by simpa [State.finish] using hsnoc
      cases hreply
  | reply hpos =>
    rw [sendReply_frame] at hlast
    rw [← hlast rfl] at hreply
    cases hreply
    exact ⟨_, _, hpos⟩
  | intervalRun =>
    simp only [State.runInterval] at hsnoc
    split at hsnoc
    · obtain rfl : _ = entry := by simpa [State.finish] using hsnoc
      cases hreply
    · obtain rfl : _ = entry := by simpa [State.finish] using hsnoc
      cases hreply
  | build | onStart | incActive | take | leave | delayed | lockRun | register | insert
  | insertPanic | pushCheck | restart | stop | onStop =>
    exact absurd hsnoc.symm (by simp [State.setContext, State.spawnCancelable])

theorem Moves.call_handler {s t : State A} {act : Act A} (hmove : Moves s act t) {call : Call A}
    {h : FutureHandler} (hcall : call ∈ t.calls) (hphase : call.phase.handler = some h) :
    Returning s h := by
  obtain ⟨tx, htx⟩ := List.getElem?_of_mem hcall
  cases hmove.callOrigin htx with
  | new _ hnew =>
    rw [hnew] at hphase
    cases hphase
  | item _ _ hnew =>
    rcases hnew with hnew | hnew <;> rw [hnew] at hphase <;> cases hphase
  | old hold hturn =>
    have hmem := List.mem_of_getElem? hold
    cases hturn with
    | keep => exact .call hmem hphase
    | send =>
      simp only at hphase
      split at hphase <;> cases hphase
    | @answered i reply _ hanswers =>
      obtain ⟨c, env, hc, _, _, hhandled⟩ := hanswers.hand
      have hreply : some reply = some (.handler h) := by
        cases reply <;> cases hphase
        rfl
      rcases hmove.handled_cases with hsame | ⟨j, _, _, c', _, hc', hcontext, entry, hsnoc⟩
      · rw [hsame] at hhandled
        simp at hhandled
      · obtain rfl := List.singleton_inj.mp (List.append_cancel_left (hsnoc.symm.trans hhandled))
        obtain ⟨env', tx', hpos⟩ := hcontext.reply_handler hsnoc hreply
        exact .reply (List.mem_of_getElem? hc') hpos
    | receive _ hwaiting =>
      refine .call hmem ?_
      rw [hwaiting, Request.answer_handler hphase]
      rfl
    | refuse | timeout | canceled | abandon => cases hphase

/-- What a context brings on the way to a caller it had on the way before, or
it has just made the task. -/
theorem ContextMove.returning {s t : State A} {i : Nat} {c : Context A} {h : FutureHandler}
    (hmove : ContextMove s i c t) (hc : s.contexts[i]? = some c) :
    ∃ c', t.contexts = s.contexts.set i c' ∧
      ∀ env, (c'.pos.pushing = some h ∧ c'.pos.hand = some env ∧ env.msg.Registers ∨
        ∃ tx, c'.pos = .reply env tx h) →
      Returning s h ∨ h.cell = s.cells.length ∧ SpawnsInterval s t := by
  have hmem := List.mem_of_getElem? hc
  have hafter : ∀ {env : Envelope A} {h' : FutureHandler} (handlers : List FutureHandler),
      c.pos.pushing = some h' → c.pos.hand = some env →
      ∃ c', ({ s with handlers := handlers }.afterPush i c env h').contexts =
          s.contexts.set i c' ∧
        ∀ env, (c'.pos.pushing = some h ∧ c'.pos.hand = some env ∧ env.msg.Registers ∨
          ∃ tx, c'.pos = .reply env tx h) → Returning s h := by
    intro env h' handlers hpushing hhand
    simp only [State.afterPush]
    split
    · rename_i tx fut dur hmsg
      refine ⟨_, rfl, ?_⟩
      rintro env' (⟨hnone, _⟩ | ⟨tx', heq⟩)
      · cases hnone
      · cases heq
        exact .pushing hmem hpushing hhand ⟨_, _, _, hmsg⟩
    · refine ⟨_, rfl, ?_⟩
      rintro env' (⟨hnone, _⟩ | ⟨tx', heq⟩)
      · cases hnone
      · cases heq
  cases hmove with
  | @delayed env msg hpos hmsg =>
    refine ⟨_, rfl, ?_⟩
    rintro env' (⟨_, hhand, tx, fut, dur, hregister⟩ | ⟨tx, heq⟩)
    · cases hhand
      rw [hmsg] at hregister
      cases hregister
    · cases heq
  | @insert env fut key hpos =>
    refine ⟨_, rfl, ?_⟩
    rintro env' (⟨hpushing, _⟩ | ⟨tx, heq⟩)
    · cases hpushing
      exact .inr ⟨rfl, by simp [State.spawnCancelable, State.setContext], key, rfl⟩
    · cases heq
  | @pushCheck env h' hpos =>
    refine ⟨_, rfl, ?_⟩
    rintro env' (⟨hpushing, hhand, hregister⟩ | ⟨tx, heq⟩)
    · cases hpushing
      cases hhand
      exact .inl (.pushing hmem (by rw [hpos]; rfl) (by rw [hpos]; rfl) hregister)
    · cases heq
  | pushRefused hpos =>
    obtain ⟨c', hset, hreturning⟩ := hafter s.handlers (by rw [hpos]; rfl) (by rw [hpos]; rfl)
    exact ⟨c', hset, fun env henv => .inl (hreturning env henv)⟩
  | pushExtend hpos =>
    obtain ⟨c', hset, hreturning⟩ := hafter _ (by rw [hpos]; rfl) (by rw [hpos]; rfl)
    exact ⟨c', hset, fun env henv => .inl (hreturning env henv)⟩
  | register =>
    refine ⟨_, rfl, ?_⟩
    simp only
    split <;> simp [Position.pushing]
  | close | reply =>
    rw [sendReply_frame]
    exact ⟨_, rfl, by simp [Position.pushing]⟩
  | static | dynamic =>
    rw [sendReplyTo_frame]
    exact ⟨_, rfl, by simp [Position.pushing]⟩
  | intervalRun =>
    simp only [State.runInterval]
    split <;> exact ⟨_, rfl, by simp [Position.pushing]⟩
  | build | onStart | incActive | take | leave | closeRefused | delayedLost | lockRun | remove
  | insertPanic | restart | stop | onStop => exact ⟨_, rfl, by simp [Position.pushing]⟩

theorem Moves.returning {s t : State A} {act : Act A} {h : FutureHandler} (hmove : Moves s act t)
    (ht : Returning t h) : Returning s h ∨ h.cell = s.cells.length ∧ SpawnsInterval s t := by
  have hcontext : ∀ {c : Context A} {env : Envelope A}, c ∈ t.contexts →
      (c.pos.pushing = some h ∧ c.pos.hand = some env ∧ env.msg.Registers ∨
        ∃ tx, c.pos = .reply env tx h) →
      Returning s h ∨ h.cell = s.cells.length ∧ SpawnsInterval s t := by
    intro c env hc hway
    have hold : c ∈ s.contexts → Returning s h ∨ h.cell = s.cells.length ∧ SpawnsInterval s t := by
      intro hc
      rcases hway with ⟨hpushing, hhand, hmsg⟩ | ⟨tx, hpos⟩
      · exact .inl (.pushing hc hpushing hhand hmsg)
      · exact .inl (.reply hc hpos)
    cases hmove with
    | address h | request h | poll h =>
      rw [h.frame] at hc
      exact hold hc
    | elapseDelayed | elapseInterval => exact hold hc
    | context hc₀ hmove =>
      obtain ⟨c', hset, hreturning⟩ := hmove.returning hc₀ (h := h)
      rw [hset] at hc
      rcases List.mem_or_eq_of_mem_set hc with hc | rfl
      · exact hold hc
      · exact hreturning env hway
    | panic hc₀ h =>
      cases h
      rcases List.mem_or_eq_of_mem_set hc with hc | rfl
      · exact hold hc
      · rcases hway with ⟨hpushing, _⟩ | ⟨tx, hpos⟩
        · cases hpushing
        · cases hpos
  cases ht with
  | pushing hc hpushing hhand hmsg => exact hcontext hc (.inl ⟨hpushing, hhand, hmsg⟩)
  | reply hc hpos => exact hcontext hc (.inr ⟨_, hpos⟩)
  | call hc hphase => exact .inl (hmove.call_handler hc hphase)

theorem delayed_of_append {s t : State A} {new : List (Task A)} (htasks : t.tasks = s.tasks ++ new)
    (hnew : ∀ task ∈ new, ∀ cell msg elapsed, task ≠ .delayed cell msg elapsed) {cell : Nat}
    {msg : InstantMessage A} {elapsed : Bool} (h : .delayed cell msg elapsed ∈ t.tasks) :
    ∃ elapsed, .delayed cell msg elapsed ∈ s.tasks := by
  rw [htasks] at h
  rcases List.mem_append.mp h with h | h
  · exact ⟨elapsed, h⟩
  · exact absurd rfl (hnew _ h cell msg elapsed)

theorem delayed_of_cancel {s t : State A} {h : FutureHandler}
    (htasks : t.tasks = (s.cancelHandler h).tasks) {cell : Nat} {msg : InstantMessage A}
    {elapsed : Bool} (hmem : .delayed cell msg elapsed ∈ t.tasks) :
    ∃ elapsed, .delayed cell msg elapsed ∈ s.tasks := by
  obtain ⟨new, hset, hnew⟩ := cancelHandler_tasks s h
  refine delayed_of_append (htasks.trans hset) ?_ hmem
  intro task htask cell msg elapsed heq
  obtain ⟨_, _, htask⟩ := hnew task htask
  rw [htask] at heq
  cases heq

theorem Moves.delayed_cases {s t : State A} {act : Act A} (hmove : Moves s act t) {cell : Nat}
    {msg : InstantMessage A} {elapsed : Bool} (h : .delayed cell msg elapsed ∈ t.tasks) :
    (∃ elapsed, .delayed cell msg elapsed ∈ s.tasks) ∨
      cell = s.cells.length ∧ t.cells.length = s.cells.length + 1 := by
  have hset : ∀ {k : Nat} {task task' : Task A}, s.tasks[k]? = some task →
      t.tasks = s.tasks.set k task' →
      (task' = .finished ∨ task'.cell = task.cell ∧ task'.message = task.message) →
      ∃ elapsed, .delayed cell msg elapsed ∈ s.tasks := by
    intro k task task' hk htasks hafter
    rw [htasks] at h
    rcases List.mem_or_eq_of_mem_set h with h | rfl
    · exact ⟨elapsed, h⟩
    · rcases hafter with hfinished | ⟨hcell, hmessage⟩
      · cases hfinished
      · obtain ⟨elapsed', rfl⟩ := Task.eq_delayed hcell.symm hmessage.symm
        exact ⟨elapsed', List.mem_of_getElem? hk⟩
  cases hmove with
  | address hmove =>
    cases hmove with
    | cancel => exact .inl (delayed_of_cancel rfl h)
    | _ => exact .inl ⟨elapsed, h⟩
  | request hmove =>
    cases hmove with
    | cancel => exact .inl (delayed_of_cancel rfl h)
    | doSend | doRun => exact .inl (delayed_of_append rfl (by simp) h)
    | @answer _ call | @canceled _ call =>
      obtain ⟨address, req, phase⟩ := call
      cases req <;> exact .inl ⟨elapsed, h⟩
    | _ => exact .inl ⟨elapsed, h⟩
  | poll hmove =>
    rcases hmove.task_cases with hsame | ⟨task, task', hk, htasks, hafter⟩
    · rw [hsame] at h
      exact .inl ⟨elapsed, h⟩
    · exact .inl (hset hk htasks hafter)
  | elapseDelayed hk | elapseInterval hk => exact .inl (hset hk rfl (.inr ⟨rfl, rfl⟩))
  | context hc hmove =>
    cases hmove with
    | delayed =>
      rcases List.mem_append.mp h with h | h
      · exact .inl ⟨elapsed, h⟩
      · cases List.mem_singleton.mp h
        exact .inr ⟨rfl, by simp [State.spawnCancelable, State.setContext]⟩
    | insert => exact .inl (delayed_of_append rfl (by simp) h)
    | close | reply =>
      rw [sendReply_frame] at h
      exact .inl ⟨elapsed, h⟩
    | static | dynamic =>
      rw [sendReplyTo_frame] at h
      exact .inl ⟨elapsed, h⟩
    | pushRefused | pushExtend =>
      simp only [State.afterPush] at h
      split at h <;> exact .inl ⟨elapsed, h⟩
    | intervalRun =>
      simp only [State.runInterval] at h
      split at h <;> exact .inl ⟨elapsed, h⟩
    | _ => exact .inl ⟨elapsed, h⟩
  | panic hc hmove =>
    cases hmove
    exact .inl ⟨elapsed, h⟩

theorem Moves.flags_cases {s t : State A} {act : Act A} (hmove : Moves s act t) (hs : CountInv s)
    (hrunning : s.isRunning = true) :
    t.cells.map CancelCell.flag = s.cells.map CancelCell.flag ∨
      t.cells.map CancelCell.flag = s.cells.map CancelCell.flag ++ [false] ∨
      ∃ h call, call ∈ s.calls ∧ call.phase = .done (.ok (.handler h)) ∧
        t.cells.map CancelCell.flag = (s.cells.map CancelCell.flag).set h.cell true := by
  obtain ⟨kind, hevent, hown, _⟩ := hmove.event_before hs hrunning
  have hflags : (t.registry .before).flags = t.cells.map CancelCell.flag := rfl
  generalize t.registry .before = R at hevent hflags
  rw [← hflags]
  cases hevent with
  | same | store | storeLate | discard | take | finish => exact .inl rfl
  | spawn => exact .inr (.inl rfl)
  | cancel hpass => cases hpass
  | own =>
    obtain ⟨c, rfl⟩ := hown rfl
    cases hmove with
    | request hmove =>
      cases hmove with
      | @cancel _ call h hc hphase =>
        refine .inr (.inr ⟨h, call, List.mem_of_getElem? hc, hphase, ?_⟩)
        rw [hflags]
        exact congrArg Registry.flags (cancelHandler_registry s h .before)

structure DelayedInv (s : State A) : Prop where
  counts : CountInv s
  even : s.active % 2 = 0
  cells : CellsExist s
  returning : ∀ h, Returning s h → IntervalCell s h.cell
  unflagged : ∀ cell msg elapsed, .delayed cell msg elapsed ∈ s.tasks →
    (s.cells.map CancelCell.flag)[cell]? = some false

theorem DelayedInv.step {s t : State A} {act : Act A} (h : step s act = some t)
    (hs : DelayedInv s) : DelayedInv t := by
  have hmove := Moves.of_step h
  have hlength := hmove.cells_length
  have hrunning := (isRunning_iff s).mpr hs.even
  refine ⟨hs.counts.step h, hmove.running hs.counts hs.even, hs.cells.step h, ?_, ?_⟩
  · intro handler ht
    rcases hmove.returning ht with hold | ⟨hcell, hspawns⟩
    · obtain ⟨hlt, hapart⟩ := hs.returning handler hold
      refine ⟨Nat.lt_of_lt_of_le hlt hlength, fun msg elapsed hmem => ?_⟩
      rcases hmove.delayed_cases hmem with ⟨elapsed', hmem⟩ | ⟨heq, _⟩
      · exact hapart msg elapsed' hmem
      · omega
    · obtain ⟨key, htasks⟩ := hspawns.tasks
      refine ⟨by rw [hspawns.cells, hcell]; exact Nat.lt_succ_self _, fun msg elapsed hmem => ?_⟩
      obtain ⟨elapsed', hmem⟩ := delayed_of_append htasks (by simp) hmem
      have hlt := hs.cells _ hmem _ rfl
      omega
  · intro cell msg elapsed hmem
    rcases hmove.delayed_cases hmem with ⟨elapsed', hold⟩ | ⟨hcell, hnew⟩
    · have hflag := hs.unflagged cell msg elapsed' hold
      rcases hmove.flags_cases hs.counts hrunning with
        hsame | hsnoc | ⟨handler, call, hcall, hphase, hset⟩
      · rw [hsame, hflag]
      · rw [hsnoc]
        exact getElem?_append_of hflag
      · have hapart := (hs.returning handler (.call hcall (by rw [hphase]; rfl))).apart
        have hne : handler.cell ≠ cell := by
          rintro rfl
          exact hapart msg elapsed' hold
        rw [hset, List.getElem?_set_ne hne, hflag]
    · have hlen : (t.cells.map CancelCell.flag).length = s.cells.length + 1 := by
        rw [List.length_map, hnew]
      rcases hmove.flags_cases hs.counts hrunning with hsame | hsnoc | ⟨_, _, _, _, hset⟩
      · rw [hsame, List.length_map] at hlen
        omega
      · rw [hsnoc, hcell]
        simp
      · rw [hset, List.length_set, List.length_map] at hlen
        omega

section Runs
variable {cfg : Config} {build : Nat → A.State} {s t : State A}
  {ms : List (Move (State A) (Act A))}

theorem Started.delayedInv (h : Started cfg build s) : DelayedInv s := by
  have hcounts := h.countInv
  have heven := h.activeInv.even
  obtain ⟨w, rfl, hnew⟩ := h.exists_wiring
  refine ⟨hcounts, heven, List.forall_mem_nil _, ?_, fun _ _ _ => nofun⟩
  intro handler hreturning
  cases hreturning with
  | pushing hc hpos =>
    obtain ⟨_, _, _, _, rfl, rfl | rfl⟩ := hnew _ hc <;> cases hpos
  | reply hc hpos =>
    obtain ⟨_, _, _, _, rfl, rfl | rfl⟩ := hnew _ hc <;> cases hpos
  | call hc => cases hc

structure PollsDelayed (m : Move (State A) (Act A)) (k : Nat) (msg : InstantMessage A)
    (elapsed : Bool) : Prop where
  waits : elapsed = false → m.dst.tasks = m.src.tasks ∧ m.dst.accepted = m.src.accepted
  sends : elapsed = true → m.dst.tasks = m.src.tasks.set k .finished ∧
    m.dst.accepted = m.src.accepted ++
      if m.src.receiver 0 then [(0, ⟨m.src.nextId, .instant msg⟩)] else []

theorem DelayedInv.exists_cell (hs : DelayedInv s) {cell : Nat} {msg : InstantMessage A}
    {elapsed : Bool} (h : .delayed cell msg elapsed ∈ s.tasks) :
    ∃ cancel, s.cells[cell]? = some cancel ∧ cancel.flag = false := by
  have hflag := hs.unflagged cell msg elapsed h
  rw [List.getElem?_map] at hflag
  exact Option.map_eq_some_iff.mp hflag

theorem sendShared_delivers (s : State A) (msg : ContextMessage A) :
    (s.sendShared msg).tasks = s.tasks ∧ (s.sendShared msg).accepted =
      s.accepted ++ if s.receiver 0 then [(0, ⟨s.nextId, msg⟩)] else [] := by
  unfold State.sendShared
  split
  · exact ⟨rfl, rfl⟩
  · exact ⟨rfl, (List.append_nil _).symm⟩

theorem DelayedInv.polls (hs : DelayedInv s) {k cell : Nat} {msg : InstantMessage A}
    {elapsed : Bool} (hstep : s.pollTask k = some t)
    (hk : s.tasks[k]? = some (.delayed cell msg elapsed)) :
    PollsDelayed ⟨s, .poll k, t⟩ k msg elapsed := by
  obtain ⟨cancel, hcell, hflag⟩ := hs.exists_cell (List.mem_of_getElem? hk)
  cases TaskMove.of_step hstep with
  | delayedSend ht hcell' hdue =>
    cases hk.symm.trans ht
    cases hcell.symm.trans hcell'
    rw [hflag] at hdue
    refine ⟨fun hwait => ?_, fun _ => ?_⟩
    · rw [hwait] at hdue
      cases hdue
    · obtain ⟨htasks, haccepted⟩ := sendShared_delivers
        { s with cells := s.cells.set cell (cancel.poll k).2 } (.instant msg)
      exact ⟨congrArg (fun l => l.set k .finished) htasks, haccepted⟩
  | delayedDrop ht hcell' hraised =>
    cases hk.symm.trans ht
    cases hcell.symm.trans hcell'
    rw [hflag] at hraised
    cases hraised
  | delayedWait ht =>
    cases hk.symm.trans ht
    exact ⟨fun _ => ⟨rfl, rfl⟩, nofun⟩
  | send ht | intervalSend ht | intervalEnd ht | intervalUpgrade ht | intervalWait ht =>
    cases hk.symm.trans ht

/-- Whatever becomes of the addresses and whatever `handle_delayed_on_shutdown`
says, a delayed message is never cancelled. -/
theorem delayed_never_cancelled (hstart : Started cfg build s) (h : Path step s ms t) :
    (∀ u ∈ visited s ms, ∀ cell msg elapsed, .delayed cell msg elapsed ∈ u.tasks →
      ∃ cancel, u.cells[cell]? = some cancel ∧ cancel.flag = false) ∧
    ∀ m ∈ ms, ∀ k cell msg elapsed, m.act = .poll k →
      m.src.tasks[k]? = some (.delayed cell msg elapsed) → PollsDelayed m k msg elapsed := by
  have hinv : ∀ u ∈ visited s ms, DelayedInv u := by
    intro u hu
    obtain ⟨ps, hps, _⟩ := h.exists_path_to hu
    exact hps.invariant hstart.delayedInv fun _ _ _ hstep hu => hu.step hstep
  constructor
  · intro u hu cell msg elapsed hmem
    exact (hinv u hu).exists_cell hmem
  · rintro ⟨src, act, dst⟩ hm k cell msg elapsed rfl hk
    exact (hinv src (h.mem_visited hm).1).polls (h.step_eq hm) hk

/-- A message for later is sent after the last address is gone. -/
theorem delayed_never_cancelled_dropped : ∃ ms t, Path step (echoStart Config.default) ms t ∧
    t.liveAddresses = 0 ∧ t.accepted.length = 2 ∧
    (∀ u ∈ visited (echoStart Config.default) ms, ∀ cell msg elapsed,
      .delayed cell msg elapsed ∈ u.tasks →
      ∃ cancel, u.cells[cell]? = some cancel ∧ cancel.flag = false) ∧
    ∀ m ∈ ms, ∀ k cell msg elapsed, m.act = .poll k →
      m.src.tasks[k]? = some (.delayed cell msg elapsed) → PollsDelayed m k msg elapsed := by
  obtain ⟨ms, t, hpath, _, _, hq⟩ := exists_path_of_checkedRun step (echoStart Config.default)
    [.context 0 0 (), .context 0 0 (), .request (.call 0 (.sendLater (true, 5))),
      .request (.send 0), .context 0 0 (), .context 0 0 (), .context 0 0 (), .context 0 0 (),
      .address (.drop 0), .address (.release 0), .poll 0, .elapse 0, .poll 0]
    (fun _ _ _ => true) (fun t => t.liveAddresses == 0 && t.accepted.length == 2) (by decide)
  simp only [Bool.and_eq_true, beq_iff_eq] at hq
  exact ⟨ms, t, hpath, hq.1, hq.2, delayed_never_cancelled .start hpath⟩

theorem nodup_filterMap_of_alone {α β : Type} {l : List α} {f : α → Option β}
    (h : ∀ (i j : Nat) (x : β), (l[i]?).bind f = some x → (l[j]?).bind f = some x → i = j) :
    (l.filterMap f).Nodup := by
  rw [List.Nodup, List.pairwise_filterMap, List.pairwise_iff_getElem]
  intro i j hi hj hlt x hx y hy hxy
  subst hxy
  have hat : ∀ k (hk : k < l.length), f l[k] = some x → (l[k]?).bind f = some x := by
    intro k hk hf
    rw [List.getElem?_eq_getElem hk, Option.bind_some, hf]
  exact Nat.ne_of_lt hlt (h i j x (hat i hi hx) (hat j hj hy))

theorem kept_of_path (hstart : Started cfg build s) (h : Path step s ms t) :
    (t.registry .before).Kept := by
  obtain ⟨hcells, _, hhandlers, hheld⟩ := hstart.registry_nil .before
  have hinv := h.invariant (I := fun u => CountInv u ∧ u.active % 2 = 0 ∧
    (u.registry .before).Kept) ⟨hstart.countInv, hstart.activeInv.even, ?_⟩ ?_
  · exact hinv.2.2
  · refine ⟨?_, ?_, ?_, ?_⟩
    · simp [State.registry, hhandlers]
    · intro k
      simp only [hheld]
      simp [State.registry, hcells, hhandlers]
    · simp [hheld]
    · simp [hheld]
  · rintro u act v hstep ⟨hcount, heven, hkept⟩
    have hmove := Moves.of_step hstep
    obtain ⟨kind, hevent, _, hlate⟩ := hmove.event_before hcount ((isRunning_iff u).mpr heven)
    exact ⟨hcount.step hstep, hmove.running hcount heven, hevent.kept hlate hkept⟩

theorem Moves.handlers_extends {s t : State A} {act : Act A} (h : Moves s act t) :
    s.handlers <+: t.handlers := by
  have hkept : t.handlers = s.handlers → s.handlers <+: t.handlers :=
    fun hsame => ⟨[], by rw [List.append_nil, hsame]⟩
  cases h with
  | address h | request h | poll h | panic _ h => exact hkept (by rw [h.frame])
  | elapseDelayed | elapseInterval => exact hkept rfl
  | context _ h =>
    rcases h.handlers_cases with hsame | ⟨_, handler, _, hset⟩
    · exact hkept hsame
    · exact ⟨[handler], hset.symm⟩

/-- Every cancelable task that was ever spawned has its handler in the list, or
in the hand of the context that is about to push it, and there it stays. -/
theorem handlers_kept (hstart : Started cfg build s) (h : Path step s ms t) :
    (∀ m ∈ ms, m.src.handlers <+: m.dst.handlers) ∧
      (t.handlers.map FutureHandler.cell ++
        t.contexts.filterMap fun c => c.pos.pushing.map FutureHandler.cell).Perm
        (List.range t.cells.length) := by
  refine ⟨fun m hm => (Moves.of_step (h.step_eq hm)).handlers_extends, ?_⟩
  have hkept := kept_of_path hstart h
  have hheld : ∀ i, (t.registry .before).held i =
      (t.contexts[i]?).bind fun c => c.pos.pushing.map FutureHandler.cell := by
    intro i
    simp only [State.registry]
    cases t.contexts[i]? <;> rfl
  have hpushing : ∀ k, k ∈ (t.contexts.filterMap fun c => c.pos.pushing.map FutureHandler.cell) ↔
      ∃ i, (t.registry .before).held i = some k := by
    intro k
    rw [List.mem_filterMap]
    constructor
    · rintro ⟨c, hc, hk⟩
      obtain ⟨i, hi⟩ := List.mem_iff_getElem?.mp hc
      exact ⟨i, by rw [hheld, hi, Option.bind_some, hk]⟩
    · rintro ⟨i, hi⟩
      rw [hheld] at hi
      obtain ⟨c, hc, hk⟩ := Option.bind_eq_some_iff.mp hi
      exact ⟨c, List.mem_of_getElem? hc, hk⟩
  rw [List.perm_ext_iff_of_nodup ?_ List.nodup_range]
  · intro k
    rw [List.mem_append, hpushing, List.mem_range]
    have hk := hkept.kept k
    rw [show (t.registry .before).flags.length = t.cells.length from List.length_map _] at hk
    exact hk.symm
  · refine hkept.nodup.append (nodup_filterMap_of_alone ?_) ?_
    · intro i j x hi hj
      rw [← hheld] at hi hj
      exact hkept.alone i j x hi hj
    · intro k hk hk'
      obtain ⟨i, hi⟩ := (hpushing k).mp hk'
      exact hkept.unstored i k hi hk

/-- The handlers of two delayed messages outlive their tasks. -/
theorem handlers_kept_two : ∃ ms t, Path step (echoStart Config.default) ms t ∧
    t.tasks.all (fun task => !task.holdsSender) = true ∧ t.handlers.length = 2 ∧
    (∀ m ∈ ms, m.src.handlers <+: m.dst.handlers) ∧
      (t.handlers.map FutureHandler.cell ++
        t.contexts.filterMap fun c => c.pos.pushing.map FutureHandler.cell).Perm
        (List.range t.cells.length) := by
  obtain ⟨ms, t, hpath, _, _, hq⟩ := exists_path_of_checkedRun step (echoStart Config.default)
    [.context 0 0 (), .context 0 0 (), .request (.call 0 (.sendLater (true, 5))),
      .request (.call 0 (.sendLater (true, 6))), .request (.send 0), .request (.send 1),
      .context 0 0 (), .context 0 0 (), .context 0 0 (), .context 0 0 (), .context 0 0 (),
      .context 0 0 (), .context 0 0 (), .context 0 0 (), .elapse 0, .elapse 1, .poll 0, .poll 1]
    (fun _ _ _ => true)
    (fun t => t.tasks.all (fun task => !task.holdsSender) && t.handlers.length == 2) (by decide)
  simp only [Bool.and_eq_true, beq_iff_eq] at hq
  exact ⟨ms, t, hpath, hq.1, hq.2, handlers_kept .start hpath⟩

end Runs

end ActixSend
