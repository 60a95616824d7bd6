import ActixSend.Active
import ActixSend.Calls
import ActixSend.ManualShutdown

/-! # Closing and counting

`handle_msg` answers a `close_one` before the loop ends, and `dec_active` runs
after it. A caller that is scheduled in between has its `Ok` while the closed
context is still counted.
-/

namespace ActixSend

open Transition
set_option autoImplicit false

variable {A : Actor}

/-- The context whose closing the request has returned. -/
def Call.closed (call : Call A) : Option Nat :=
  match call.phase with
  | .done (.ok (.contextState id _)) => some id
  | _ => none

def State.closed (s : State A) : List Nat := s.calls.filterMap Call.closed

structure CloseCounted (s : State A) : Prop where
  uncounted : ∀ id ∈ s.closed, ∃ c : Context A, s.contexts[id]? = some c ∧ c.pos.inLoop = false
  active : s.currentActive + s.closed.length ≤ s.cfg.num

/-- The caller takes the acknowledgement of a context that has yet to run `dec_active`. -/
def ReturnsEarly (m : Move (State A) (Act A)) : Prop :=
  ∃ (tx : Nat) (call : Call A) (id generation : Nat) (c : Context A),
    m.act = .request (.receive tx) ∧ m.src.calls[tx]? = some call ∧ call.req = .closeOne ∧
    call.phase = .waiting (some (.contextState id generation)) ∧
    m.src.contexts[id]? = some c ∧ c.pos = .decActive

theorem Call.closed_eq_some {call : Call A} {id : Nat} (h : call.closed = some id) :
    ∃ generation, call.phase = .done (.ok (.contextState id generation)) := by
  unfold Call.closed at h
  split at h
  · rename_i hphase
    cases h
    exact ⟨_, hphase⟩
  · cases h

theorem State.mem_closed {s : State A} {id : Nat} :
    id ∈ s.closed ↔ ∃ (tx : Nat) (call : Call A), s.calls[tx]? = some call ∧
      call.closed = some id := by
  rw [State.closed, List.mem_filterMap]
  constructor
  · rintro ⟨call, hcall, hid⟩
    obtain ⟨tx, htx⟩ := List.mem_iff_getElem?.mp hcall
    exact ⟨tx, call, htx, hid⟩
  · rintro ⟨tx, call, htx, hid⟩
    exact ⟨call, List.mem_of_getElem? htx, hid⟩

theorem CloseInv.closed_nodup {s : State A} (hs : CloseInv s) : s.closed.Nodup := by
  rw [State.closed, List.Nodup, List.pairwise_filterMap, List.pairwise_iff_getElem]
  intro tx tx' htx htx' hlt id hid id' hid'
  obtain ⟨_, hphase⟩ := Call.closed_eq_some hid
  obtain ⟨_, hphase'⟩ := Call.closed_eq_some hid'
  exact hs.reports_distinct (List.getElem?_eq_getElem htx) (List.getElem?_eq_getElem htx') hphase
    hphase' (Nat.ne_of_lt hlt)

theorem Moves.closed_cases {s t : State A} {act : Act A} (h : Moves s act t) {id : Nat}
    (hid : id ∈ t.closed) : id ∈ s.closed ∨ ∃ (tx : Nat) (call : Call A) (generation : Nat),
      act = .request (.receive tx) ∧ s.calls[tx]? = some call ∧ call.req = .closeOne ∧
      call.phase = .waiting (some (.contextState id generation)) := by
  obtain ⟨tx, call', hcall', hid⟩ := State.mem_closed.mp hid
  obtain ⟨generation, hphase'⟩ := Call.closed_eq_some hid
  cases h.callOrigin hcall' with
  | @old call hcall hturn =>
    cases hturn with
    | keep => exact .inl (State.mem_closed.mpr ⟨tx, call', hcall, hid⟩)
    | receive hact hphase =>
      simp only [CallPhase.done.injEq] at hphase'
      obtain ⟨hreq, rfl⟩ := answer_contextState hphase'
      exact .inr ⟨tx, call, generation, hact, hcall, hreq, hphase⟩
    | send =>
      simp only at hphase'
      split at hphase' <;> cases hphase'
    | refuse | timeout | answered | canceled | abandon => cases hphase'
  | new _ hphase =>
    rw [hphase] at hphase'
    cases hphase'
  | item _ _ hphase =>
    rcases hphase with hphase | hphase <;>
    · rw [hphase] at hphase'
      cases hphase'

theorem Moves.out_stays {s t : State A} {act : Act A} (h : Moves s act t) {i : Nat}
    {c : Context A} (hc : s.contexts[i]? = some c) (hmanual : c.manualShutdown = true)
    (hover : c.pos.over = true) (hout : c.pos.inLoop = false) :
    ∃ c' : Context A, t.contexts[i]? = some c' ∧ c'.pos.inLoop = false := by
  cases hact : act.isOf i with
  | false => exact ⟨c, (h.other hact).1.trans hc, hout⟩
  | true =>
    obtain ⟨c', hc', _, _, hnext, _⟩ := h.own hact hc hmanual hover
    refine ⟨c', hc', ?_⟩
    rcases hnext with ⟨_, hpos⟩ | ⟨_, hgone⟩
    · rw [hpos]
      rfl
    · cases hpos : c'.pos <;> simp_all [Position.gone, Position.inLoop, Position.hand]

theorem inLoop_of_over {pos : Position A} (h : pos.over = true) (hne : pos ≠ .decActive) :
    pos.inLoop = false := by
  cases pos <;> simp_all [Position.over, Position.gone, Position.inLoop, Position.hand]

theorem CloseInv.of_waiting {s : State A} (hs : CloseInv s) {tx : Nat} {call : Call A}
    {id generation : Nat} (hcall : s.calls[tx]? = some call)
    (hphase : call.phase = .waiting (some (.contextState id generation))) :
    ∃ c : Context A, s.contexts[id]? = some c ∧ c.manualShutdown = true := by
  have hresolved := hs.answer.resolved tx call hcall
  simp only [Resolved, hphase] at hresolved
  obtain ⟨h, hh, _, hreply⟩ := hresolved
  obtain ⟨c, hc, hmanual, hid⟩ := hs.closed h hh id generation hreply
  obtain ⟨hindex, _⟩ := hs.index hc
  rw [← hindex, hid] at hc
  exact ⟨c, hc, hmanual⟩

structure ReturnedInv (s : State A) : Prop where
  close : CloseInv s
  out : ∀ id ∈ s.closed, ∃ c : Context A, s.contexts[id]? = some c ∧ c.pos.inLoop = false

theorem ReturnedInv.step {s t : State A} {act : Act A} (h : step s act = some t)
    (hlate : ¬ReturnsEarly ⟨s, act, t⟩) (hs : ReturnedInv s) : ReturnedInv t := by
  have hmove := Moves.of_step h
  refine ⟨hs.close.step h, fun id hid => ?_⟩
  rcases hmove.closed_cases hid with hid | ⟨tx, call, generation, hact, hcall, hreq, hphase⟩
  · obtain ⟨c, hc, hout⟩ := hs.out id hid
    obtain ⟨tx, call, hcall, hclosed⟩ := State.mem_closed.mp hid
    obtain ⟨_, hphase⟩ := Call.closed_eq_some hclosed
    obtain ⟨x, hx, _, hreply, hcontext, _⟩ := hs.close.of_result hcall hphase
    obtain ⟨c', hc', hmanual, _⟩ := hs.close.closed x hx _ _ hreply
    rw [hcontext] at hc'
    obtain rfl := Option.some.inj (hc.symm.trans hc')
    exact hmove.out_stays hc hmanual (hs.close.behind c (List.mem_of_getElem? hc) hmanual) hout
  · obtain ⟨c, hc, hmanual⟩ := hs.close.of_waiting hcall hphase
    have hover := hs.close.behind c (List.mem_of_getElem? hc) hmanual
    have hpos : c.pos ≠ .decActive := fun hpos =>
      hlate ⟨tx, call, id, generation, c, hact, hcall, hreq, hphase, hc, hpos⟩
    exact hmove.out_stays hc hmanual hover (inLoop_of_over hover hpos)

theorem Started.returnedInv {cfg : Config} {build : Nat → A.State} {s : State A}
    (h : Started cfg build s) : ReturnedInv s := by
  have hclose := h.closeInv
  obtain ⟨w, rfl, _⟩ := h.exists_wiring
  exact ⟨hclose, by simp [State.closed, Wiring.finish]⟩

/-- The context is in its loop, or a panic took it out without the subtraction. -/
def Context.counted (c : Context A) : Bool :=
  c.pos.inLoop || ((c.pos matches .panicked) && !c.manualShutdown)

theorem counted_of_inLoop {c : Context A} (h : c.pos.inLoop = true) : c.counted = true := by
  rw [Context.counted, h, Bool.true_or]

theorem counted_eq_inLoop {c : Context A} (h : c.pos.gone = false) :
    c.counted = c.pos.inLoop := by
  cases hpos : c.pos <;> simp_all [Context.counted, Position.gone]

theorem counted_of_panicked {c : Context A} (h : c.manualShutdown = false) :
    ({ c with pos := .panicked } : Context A).counted = true := by
  simp [Context.counted, h]

structure CountedInv (s : State A) : Prop where
  close : CloseInv s
  counts : CountInv s
  even : s.active % 2 = 0
  active : s.active / 2 ≤ s.contexts.countP Context.counted

theorem CloseInv.open_of_inLoop {s : State A} (hs : CloseInv s) {i : Nat} {c : Context A}
    (hc : s.contexts[i]? = some c) (hin : c.pos.inLoop = true) (hpos : c.pos ≠ .decActive) :
    c.manualShutdown = false := by
  by_contra hmanual
  have hover := hs.behind c (List.mem_of_getElem? hc) (by simpa using hmanual)
  rw [inLoop_of_over hover hpos] at hin
  cases hin

theorem CountedInv.step {s t : State A} {act : Act A} (h : step s act = some t)
    (hs : CountedInv s) : CountedInv t := by
  have hmove := Moves.of_step h
  refine ⟨hs.close.step h, hs.counts.step h, hmove.running hs.counts hs.even, ?_⟩
  have hactive := hs.active
  rcases hmove.active_same hs.counts with
    ⟨hsame, hctx⟩ | ⟨i, chan, await, c, rfl, hc, hctx⟩ | ⟨i, c, rfl, hc, hpanic⟩
  · rwa [hsame, hctx]
  · obtain ⟨c', hset, hcases⟩ := hctx.active_cases
    obtain ⟨_, _, hturn⟩ := hctx.turn
    have hcounted := counted_eq_inLoop hturn.receives_of.1
    have hcount := countP_set_add (b := c') (p := Context.counted) hc
    rw [← hset] at hcount
    rcases hcases with ⟨hact, hloop⟩ | ⟨hact, hout, hin⟩ | ⟨hact, hin, _⟩ | ⟨hassert, hact, rfl⟩
    · rw [hact]
      cases hin : c.pos.inLoop with
      | false =>
        rw [hcounted, hin] at hcount
        simp only [Bool.false_eq_true, if_false] at hcount
        omega
      | true =>
        rw [hin] at hloop
        simp only [hcounted, hin, counted_of_inLoop hloop, if_true] at hcount
        omega
    · rw [hact, incActive_even hs.even]
      simp only [hcounted, hout, counted_of_inLoop hin, Bool.false_eq_true, if_true,
        if_false] at hcount
      omega
    · rw [hact, decActive_even hs.even]
      simp only [hcounted, hin, if_true] at hcount
      omega
    · have hin := atAssertion_inLoop hassert
      obtain ⟨_, hhand, _⟩ := hassert.exists_hand
      have hopen := hs.close.open_of_inLoop hc hin fun hpos => by
        rw [hpos] at hhand
        cases hhand
      simp only [hcounted, hin, counted_of_panicked hopen, if_true] at hcount
      rw [hact]
      omega
  · cases hpanic with
    | panic huser =>
      have hcount := countP_set_add (b := { c with pos := .panicked }) (p := Context.counted) hc
      simp only [State.setContext]
      have hgone : c.pos.gone = false := by
        cases hpos : c.pos <;> simp_all [State.inUserCode, Position.gone]
      cases hin : c.pos.inLoop with
      | false =>
        simp only [counted_eq_inLoop hgone, hin, Bool.false_eq_true, if_false] at hcount
        omega
      | true =>
        have hopen := hs.close.open_of_inLoop hc hin fun hpos => by
          rw [hpos] at huser
          cases huser
        simp only [counted_eq_inLoop hgone, hin, counted_of_panicked hopen, if_true] at hcount
        omega

theorem Started.countedInv {cfg : Config} {build : Nat → A.State} {s : State A}
    (h : Started cfg build s) : CountedInv s := by
  refine ⟨h.closeInv, h.countInv, h.activeInv.even, ?_⟩
  rw [h.activeInv.active]
  exact List.countP_mono_left fun c _ hc => counted_of_inLoop hc

theorem length_contexts_of_ids {s : State A} (hs : CloseInv s) :
    s.contexts.length = s.cfg.num := by
  rw [← List.length_map, hs.ids, List.length_range]

/-- The contexts whose closing has returned are none of those that count. -/
theorem ReturnedInv.closed_add_le {s : State A} (hs : ReturnedInv s) :
    s.contexts.countP Context.counted + s.closed.length ≤ s.cfg.num := by
  have hsub : s.closed ⊆ (s.contexts.filter fun c => !c.counted).map Context.id := by
    intro id hid
    obtain ⟨c, hc, hout⟩ := hs.out id hid
    obtain ⟨tx, call, hcall, hclosed⟩ := State.mem_closed.mp hid
    obtain ⟨_, hphase⟩ := Call.closed_eq_some hclosed
    obtain ⟨x, hx, _, hreply, hcontext, _⟩ := hs.close.of_result hcall hphase
    obtain ⟨c', hc', hmanual, _⟩ := hs.close.closed x hx _ _ hreply
    rw [hcontext] at hc'
    obtain rfl := Option.some.inj (hc.symm.trans hc')
    refine List.mem_map.mpr ⟨c, List.mem_filter.mpr ⟨List.mem_of_getElem? hc, ?_⟩, ?_⟩
    · simp [Context.counted, hout, hmanual]
    · exact (hs.close.index hc).1
  have hle := (List.subperm_of_subset hs.close.closed_nodup hsub).length_le
  rw [List.length_map, ← List.countP_eq_length_filter] at hle
  have hsplit := List.length_eq_countP_add_countP Context.counted (l := s.contexts)
  rw [length_contexts_of_ids hs.close] at hsplit
  simp only [Bool.not_eq_true, Bool.decide_eq_false] at hsplit
  omega

section Runs
variable {cfg : Config} {build : Nat → A.State} {s t : State A} {ms : List (Move (State A) (Act A))}

theorem ReturnsEarly.not_counted {m : Move (State A) (Act A)} (h : ReturnsEarly m)
    (hstep : step m.src m.act = some m.dst) : ¬CloseCounted m.dst := by
  obtain ⟨tx, call, id, generation, c, hact, hcall, hreq, hphase, hc, hpos⟩ := h
  rw [hact] at hstep
  simp only [step, State.requestStep, State.receiveCall, hcall, hphase, hreq, State.resumeStream,
    Request.answer, Option.some.injEq] at hstep
  intro hcounted
  obtain ⟨c', hc', hout⟩ := hcounted.uncounted id (by
    rw [← hstep]
    exact State.mem_closed.mpr ⟨tx, _, getElem?_set_self_of hcall, rfl⟩)
  rw [← hstep] at hc'
  obtain rfl := Option.some.inj (hc.symm.trans hc')
  rw [hpos] at hout
  cases hout

theorem close_counted_iff (hstart : Started cfg build s) (h : Path step s ms t) :
    (∀ u ∈ visited s ms, CloseCounted u) ↔ ∀ m ∈ ms, ¬ReturnsEarly m := by
  constructor
  · intro hall m hm hearly
    exact hearly.not_counted (h.step_eq hm) (hall _ (h.mem_visited hm).2)
  · intro hlate u hu
    obtain ⟨ps, hps, hsub⟩ := h.exists_path_to hu
    have hreturned : ReturnedInv u := by
      refine hps.invariant_of (C := fun m => ¬ReturnsEarly m) (fun m hm => hlate m (hsub m hm))
        hstart.returnedInv ?_
      exact fun _ _ _ hC hstep hu => hu.step hstep hC
    have hcounted : CountedInv u :=
      hps.invariant hstart.countedInv fun _ _ _ hstep hu => hu.step hstep
    refine ⟨hreturned.out, ?_⟩
    have hle := hreturned.closed_add_le
    have hactive := hcounted.active
    rw [currentActive_eq]
    omega

def Act.isReceive : Act A → Bool
  | .request (.receive _) => true
  | _ => false

def Position.isDecActive : Position A → Bool
  | .decActive => true
  | _ => false

/-- Two contexts, one of them closed, and a caller that looks after its `dec_active`. -/
theorem close_counted_late : ∃ ms t,
    Path step (echoStart { Config.default with num := 2 }) ms t ∧ t.closed = [0] ∧
      ∀ u ∈ visited (echoStart { Config.default with num := 2 }) ms, CloseCounted u := by
  obtain ⟨ms, t, hpath, _, hp, hq⟩ := exists_path_of_checkedRun step
    (echoStart { Config.default with num := 2 })
    [.context 0 0 (), .context 0 0 (), .context 1 0 (), .context 1 0 (),
      .request (.call 0 .closeOne), .request (.send 0), .context 0 0 (), .context 0 0 (),
      .context 0 0 (), .request (.receive 0)]
    (fun u act _ => !act.isReceive || u.contexts.all fun c => !c.pos.isDecActive)
    (fun t => t.closed == [0]) (by decide)
  refine ⟨ms, t, hpath, by simpa using hq, (close_counted_iff .start hpath).mpr ?_⟩
  rintro m hm ⟨tx, _, id, _, c, hact, _, _, _, hc, hpos⟩
  have hm := hp m hm
  simp only [hact, Act.isReceive, Bool.not_true, Bool.false_or, List.all_eq_true] at hm
  have hc := hm c (List.mem_of_getElem? hc)
  simp [hpos, Position.isDecActive] at hc

/-- The caller has its `Ok` and reads `current_active` before the context gets on. -/
theorem closed_context_still_counted : ¬∀ ms t,
    Path step (echoStart { Config.default with num := 2 }) ms t →
      ∀ u ∈ visited (echoStart { Config.default with num := 2 }) ms, CloseCounted u := by
  intro hall
  obtain ⟨ms, u, v, hpath, _, hp⟩ := exists_path_of_eval step
    (echoStart { Config.default with num := 2 })
    [.context 0 0 (), .context 0 0 (), .context 1 0 (), .context 1 0 (),
      .request (.call 0 .closeOne), .request (.send 0), .context 0 0 (), .context 0 0 ()]
    (.request (.receive 0))
    (fun _ v => v.currentActive == 2 && v.closed == [0] && v.cfg.num == 2) (by decide)
  simp only [Bool.and_eq_true, beq_iff_eq] at hp
  obtain ⟨⟨hactive, hclosed⟩, hnum⟩ := hp
  have hle := (hall _ v hpath v hpath.end_mem_visited).active
  rw [hactive, hclosed, hnum, List.length_singleton] at hle
  omega

end Runs

end ActixSend
