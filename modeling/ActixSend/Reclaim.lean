import ActixSend.IntervalFutures
import ActixSend.Standstill

/-! # What a cancellation reclaims

`FutureHandler::cancel` only spawns a task that sends `Remove`. From then on the
removal is in that task, in the shared channel, in the hand of a context or
done, unless the channel has lost its receivers. Only user code panics, and a
context with a `Remove` in hand runs none, so the removal is never lost there.
-/

namespace ActixSend

open Function Transition
set_option autoImplicit false

variable {A : Actor}

/-- How far the removal of the closure under `index` has come. -/
inductive Removal (s : State A) (index : Nat) : Prop
  | task {k : Nat} (hk : s.tasks[k]? = some (.send (.interval (.remove index))))
  | queue {env : Envelope A} (henv : env ∈ s.queue 0) (hmsg : env.msg = .interval (.remove index))
  | context {i : Nat} {c : Context A} {env : Envelope A} (hc : s.contexts[i]? = some c)
      (hpos : c.pos = .handle env) (hmsg : env.msg = .interval (.remove index))
  | done (h : s.futures index = none)
  | refused (h : s.receiver 0 = false)

def Call.interval (call : Call A) : Option Nat :=
  match call.phase with
  | .done (.ok (.handler h)) => h.index
  | _ => none

def CancelsInterval (m : Move (State A) (Act A)) (index : Nat) : Prop :=
  ∃ c call, m.act = .request (.cancel c) ∧ m.src.calls[c]? = some call ∧
    call.interval = some index

theorem Call.exists_handler {call : Call A} {index : Nat} (h : call.interval = some index) :
    ∃ handler, call.phase = .done (.ok (.handler handler)) ∧ handler.index = some index := by
  unfold Call.interval at h
  split at h
  · exact ⟨_, ‹_›, h⟩
  · cases h

theorem Moves.task_sends {s t : State A} {act : Act A} (h : Moves s act t) {k : Nat}
    {msg : ContextMessage A} (hk : s.tasks[k]? = some (.send msg)) :
    t.tasks[k]? = some (.send msg) ∨ t = (s.sendShared msg).setTask k .finished := by
  have hnew : ∀ new, t.tasks = s.tasks ++ new → t.tasks[k]? = some (.send msg) := by
    intro new hnew
    obtain ⟨hlt, _⟩ := List.getElem?_eq_some_iff.mp hk
    rw [hnew, List.getElem?_append_left hlt]
    exact hk
  have hset : ∀ j task task', s.tasks[j]? = some task → task ≠ .send msg →
      t.tasks = s.tasks.set j task' → t.tasks[k]? = some (.send msg) := by
    intro j task task' hj hne hset
    have hjk : j ≠ k := by
      rintro rfl
      exact hne (Option.some.inj (hj.symm.trans hk))
    rw [hset, List.getElem?_set_ne hjk]
    exact hk
  cases h with
  | address h =>
    obtain ⟨new, hsame, _⟩ := h.spawned
    exact .inl (hnew new hsame)
  | request h =>
    obtain ⟨new, hsame, _⟩ := h.spawned
    exact .inl (hnew new hsame)
  | context _ h =>
    obtain ⟨new, hsame⟩ := h.tasks_extend
    exact .inl (hnew new hsame)
  | panic _ h =>
    cases h
    exact .inl hk
  | elapseDelayed ht => exact .inl (hset _ _ _ ht nofun rfl)
  | elapseInterval ht => exact .inl (hset _ _ _ ht nofun rfl)
  | @poll j _ h =>
    by_cases hjk : j = k
    · subst hjk
      cases h with
      | send ht =>
        rw [hk] at ht
        cases ht
        exact .inr rfl
      | delayedSend ht | delayedDrop ht | delayedWait ht | intervalSend ht | intervalEnd ht
      | intervalUpgrade ht | intervalWait ht =>
        rw [hk] at ht
        cases ht
    · refine .inl ?_
      rcases h.task_cases with hsame | ⟨_, _, _, hset, _⟩
      · rwa [hsame]
      · rw [hset, List.getElem?_set_ne hjk]
        exact hk

theorem Turn.handle_of_busy {s : State A} {c c' : Context A} {env : Envelope A}
    (h : Turn s c c') (hpos : c.pos = .recv) (hbusy : c'.pos.worker = .busy env) :
    c'.pos = .handle env := by
  cases h with
  | take =>
    cases hbusy
    rfl
  | leave => cases hbusy
  | hold hhand | finish hhand =>
    rw [hpos] at hhand
    cases hhand
  | build hpos' | onStart hpos' | incActive hpos' | close hpos' | restart hpos' | stop hpos'
  | onStop hpos' =>
    rw [hpos] at hpos'
    cases hpos'
  | lose hassert =>
    obtain ⟨_, hhand, _⟩ := hassert.exists_hand
    rw [hpos] at hhand
    cases hhand

theorem Moves.queue_or_hand {s t : State A} {act : Act A} (h : Moves s act t) {chan : Nat}
    {env : Envelope A} (henv : env ∈ s.queue chan) :
    env ∈ t.queue chan ∨ ∃ (i : Nat) (c : Context A), t.contexts[i]? = some c ∧
      c.pos = .handle env := by
  cases h.channelMove with
  | same hledger | panic _ _ _ _ _ hledger =>
    rw [show t.queue = s.queue from congrArg Ledger.queue hledger]
    exact .inl henv
  | @accept chan' msg _ _ _ _ hledger =>
    rw [show t.queue = _ from congrArg Ledger.queue hledger]
    by_cases hchan : chan = chan'
    · subst hchan
      exact .inl (by simpa [Ledger.accept] using Or.inl henv)
    · exact .inl (by simpa [Ledger.accept, hchan] using henv)
  | @context i _ _ c hact hc hmove hledger =>
    cases hledger with
    | same hledger | finish _ _ hledger | lose _ hledger =>
      rw [show t.queue = s.queue from congrArg Ledger.queue hledger]
      exact .inl henv
    | @take chan' env' rest hpos _ hqueue hledger =>
      rw [show t.queue = _ from congrArg Ledger.queue hledger]
      by_cases hchan : chan = chan'
      · subst hchan
        rw [hqueue] at henv
        rcases List.mem_cons.mp henv with rfl | hrest
        · obtain ⟨c', hset, hturn⟩ := hmove.turn
          have hc' : t.contexts[i]? = some c' := by rw [hset, getElem?_set_self_of hc]
          have hbusy : c'.pos.worker = .busy env := by
            rw [← ledger_worker hc', hledger]
            simp [Ledger.take]
          exact .inr ⟨i, c', hc', hturn.handle_of_busy hpos hbusy⟩
        · exact .inl (by simpa [Ledger.take] using hrest)
      · exact .inl (by simpa [Ledger.take, hchan] using henv)

/-- A context that has `Remove` in hand keeps it until it has removed the closure. -/
theorem remove_or_stays {s t : State A} {act : Act A} {i index : Nat} {c : Context A}
    {env : Envelope A} (h : step s act = some t) (hc : s.contexts[i]? = some c)
    (hpos : c.pos = .handle env) (hmsg : env.msg = .interval (.remove index)) :
    t.contexts[i]? = some c ∨ t.futures index = none := by
  rcases (Moves.of_step h).contexts_cases with
    hsame | ⟨j, cj, c', hcj, _, hset, _, _, ⟨chan, await, rfl, _⟩ | ⟨rfl, _⟩⟩
  · exact .inl (by rwa [hsame])
  · by_cases hij : j = i
    · subst hij
      simp only [ActixSend.step, State.contextStep, hc, hpos, State.handleMsg, hmsg,
        State.handleIntervalMsg] at h
      split at h
      · cases h
      · cases h
        exact .inr (by simp [State.finish, State.setContext])
    · exact .inl (by rw [hset, List.getElem?_set_ne hij]; exact hc)
  · by_cases hij : j = i
    · subst hij
      simp only [ActixSend.step, State.panicStep, hc, hpos, State.inUserCode, hmsg] at h
      cases h
    · exact .inl (by rw [hset, List.getElem?_set_ne hij]; exact hc)

theorem vacant_kept {s t : State A} {act : Act A} {es : List (SlotEvent A.Future)} {index : Nat}
    (h : step s act = some t) (hs : FuturesInv s es) (hindex : index ∈ insertedKeys es)
    (hnone : s.futures index = none) : t.futures index = none := by
  cases IntervalMove.of_step h with
  | quiet _ _ hfutures | register _ _ hfutures => rwa [hfutures]
  | @insert i key fut hat _ _ hfutures =>
    have hne : index ≠ key := by
      rintro rfl
      exact (hs.pending i index fut hat).2 hindex
    rw [hfutures, update_of_ne hne]
    exact hnone
  | @remove key _ _ _ hfutures =>
    rw [hfutures]
    by_cases hkey : index = key
    · rw [hkey, update_self]
    · rwa [update_of_ne hkey]
  | @run key _ _ _ _ _ hfutures =>
    rw [hfutures]
    by_cases hkey : index = key
    · subst hkey
      rw [update_self, hnone]
      rfl
    · rwa [update_of_ne hkey]

theorem Removal.stays {s t : State A} {act : Act A} {es : List (SlotEvent A.Future)} {index : Nat}
    (hr : Removal s index) (h : step s act = some t) (hs : FuturesInv s es)
    (hindex : index ∈ insertedKeys es) : Removal t index := by
  have hmove := Moves.of_step h
  cases hr with
  | @task k hk =>
    rcases hmove.task_sends hk with hk | rfl
    · exact .task hk
    · cases hopen : s.receiver 0 with
      | false =>
        rw [sendShared_frame]
        exact .refused hopen
      | true =>
        have hmem : (⟨s.nextId, .interval (.remove index)⟩ : Envelope A) ∈
            ((s.sendShared (.interval (.remove index))).setTask k .finished).queue 0 := by
          simp [State.sendShared, hopen, State.enqueue, State.setTask]
        exact .queue hmem rfl
  | queue henv hmsg =>
    rcases hmove.queue_or_hand henv with henv | ⟨i, c, hc, hpos⟩
    · exact .queue henv hmsg
    · exact .context hc hpos hmsg
  | context hc hpos hmsg =>
    rcases remove_or_stays h hc hpos hmsg with hc | hdone
    · exact .context hc hpos hmsg
    · exact .done hdone
  | done hnone => exact .done (vacant_kept h hs hindex hnone)
  | refused hclosed =>
    refine .refused ?_
    by_contra hopen
    rw [hmove.receiver_stable (by simpa using hopen)] at hclosed
    cases hclosed

section Runs
variable {cfg : Config} {build : Nat → A.State} {s t u : State A}
  {ms ns : List (Move (State A) (Act A))} {m : Move (State A) (Act A)} {index : Nat}

theorem CancelsInterval.removal {v : State A} {act : Act A} (h : CancelsInterval ⟨u, act, v⟩ index)
    (hstep : step u act = some v) (hopen : u.sharedSender = true) : Removal v index := by
  obtain ⟨c, call, rfl, hc, hcall⟩ := h
  obtain ⟨handler, hphase, hindex⟩ := Call.exists_handler hcall
  simp only at hc
  simp only [ActixSend.step, State.requestStep, State.cancelCall, hc, hphase, State.cancelHandler,
    hindex, Option.some.injEq] at hstep
  have hsender : State.sharedSender
      { u with cells := u.cells.modify handler.cell fun cell => cell.cancel.1 } = true := hopen
  rw [if_pos hsender] at hstep
  subst hstep
  exact .task (List.getElem?_concat_length)

theorem CancelsInterval.names {v : State A} {act : Act A} (h : CancelsInterval ⟨u, act, v⟩ index) :
    Names u index := by
  obtain ⟨c, call, _, hc, hcall⟩ := h
  obtain ⟨handler, hphase, hindex⟩ := Call.exists_handler hcall
  exact .call (List.mem_of_getElem? hc) (by rw [hphase]; exact hindex)

theorem Removal.along (hr : Removal u index) (hstart : Started cfg build s) (h : Path step s ms u)
    (hindex : index ∈ insertedKeys (events ms)) (h' : Path step u ns t)
    (hbound : (reservations (events (ms ++ ns))).length < usizeMax) : Removal t index := by
  induction h' with
  | nil => exact hr
  | @snoc ns v w act h' hstep ih =>
    rw [← List.append_assoc, events_append] at hbound
    have hbefore := (reservations_append_length_le _ _).trans_lt hbound
    have hinv := futuresInv_of_path hstart (h.trans h') hbefore
    refine (ih hbefore).stays hstep hinv ?_
    rw [events_append, insertedKeys, insertions, List.filterMap_append, List.map_append]
    exact List.mem_append_left _ hindex

theorem Removal.settled (hr : Removal t index) (ht : Settled t)
    (htasks : .send (.interval (.remove index)) ∉ t.tasks) (hopen : t.receiver 0 = true) :
    t.futures index = none := by
  cases hr with
  | task hk => exact absurd (List.mem_of_getElem? hk) htasks
  | queue henv =>
    rw [ht.queues 0 hopen] at henv
    cases henv
  | context hc hpos =>
    rcases ht.contexts _ (List.mem_of_getElem? hc) with hgone | hrecv
    · rw [hpos] at hgone
      cases hgone
    · rw [hpos] at hrecv
      cases hrecv
  | done h => exact h
  | refused h =>
    rw [hopen] at h
    cases h

/-- While the channel is open a cancelled interval does not leak its closure:
the removal is on its way until it is done, and it is done when the tasks and
the contexts have nothing left to do. -/
theorem cancel_reclaims (await : A.Await) (hstart : Started cfg build s) (h : Path step s ms t)
    (hbound : (reservations (events ms)).length < usizeMax) (hm : m ∈ ms)
    (hcancel : CancelsInterval m index) (hsender : m.src.sharedSender = true) :
    Removal t index ∧ (t.Still → .send (.interval (.remove index)) ∉ t.tasks →
      t.receiver 0 = true → t.futures index = none) := by
  obtain ⟨ms₁, ms₂, rfl⟩ := List.append_of_mem hm
  obtain ⟨u, hpre, hpost⟩ := h.exists_between
  obtain ⟨rfl, hstep, hrest⟩ := hpost.first
  have hpath := hpre.snoc hstep
  have hsplit : ms₁ ++ m :: ms₂ = (ms₁ ++ [m]) ++ ms₂ := by simp
  rw [hsplit] at hbound
  have hbefore : (reservations (events ms₁)).length < usizeMax := by
    rw [events_append, events_append, List.append_assoc] at hbound
    exact (reservations_append_length_le _ _).trans_lt hbound
  have hindex := (futuresInv_of_path hstart hpre hbefore).names index hcancel.names
  have hr : Removal t index := by
    refine (hcancel.removal hstep hsender).along hstart hpath ?_ hrest hbound
    rw [events_append, insertedKeys, insertions, List.filterMap_append, List.map_append]
    exact List.mem_append_left _ hindex
  refine ⟨hr, fun hstill htasks hopen => ?_⟩
  exact hr.settled (settled_of_path await hstart h hstill) htasks hopen

def Act.isCancel : Act A → Bool
  | .request (.cancel _) => true
  | _ => false

/-- The task has put `Remove` into the channel, and no context has taken it yet. -/
theorem cancel_reclaims_queued : ∃ ms t, Path step (echoStart Config.default) ms t ∧
    (t.futures 0).isSome = true ∧ (t.queue 0).length = 1 ∧ Removal t 0 ∧
    (t.Still → .send (.interval (.remove 0)) ∉ t.tasks → t.receiver 0 = true →
      t.futures 0 = none) := by
  obtain ⟨ms, t, hpath, hacts, hp, hq⟩ := exists_path_of_checkedRun step (echoStart Config.default)
    [.context 0 0 (), .context 0 0 (), .request (.call 0 (.runInterval 5 (1 : Nat))),
      .request (.send 0), .context 0 0 (), .context 0 0 (), .context 0 0 (), .context 0 0 (),
      .context 0 0 (), .context 0 0 (), .request (.receive 0), .request (.cancel 0), .poll 1]
    (fun u act _ => !act.isCancel || u.sharedSender &&
      (u.calls[0]?).any fun call => call.interval == some 0)
    (fun t => (t.futures 0).isSome && (t.queue 0).length == 1) (by decide)
  rw [Bool.and_eq_true, beq_iff_eq] at hq
  have hmem : Act.request (.cancel 0) ∈ ms.map Move.act := by
    rw [hacts]
    simp
  obtain ⟨⟨u, act, v⟩, hm, hact⟩ := List.mem_map.mp hmem
  obtain rfl : act = .request (.cancel 0) := hact
  have hsrc := hp _ hm
  simp only [Act.isCancel, Bool.not_true, Bool.false_or, Bool.and_eq_true, Option.any_eq_true,
    beq_iff_eq] at hsrc
  obtain ⟨hsender, call, hcall, hinterval⟩ := hsrc
  have hlength : ms.length = 13 := by
    rw [← List.length_map (f := Move.act), hacts]
    rfl
  have hle := reservations_length_le ms
  rw [hlength] at hle
  exact ⟨ms, t, hpath, hq.1, hq.2, cancel_reclaims () .start hpath (hle.trans_lt (by decide)) hm
    ⟨0, call, rfl, hcall, hinterval⟩ hsender⟩

end Runs

end ActixSend
