import ActixSend.Capacity
import ActixSend.IntervalLock
import ActixSend.Transition.Measure

/-! # When the contexts stand still

Handlers, boxed futures, closures and hooks may await whatever they like, also
what another context has to do first. Apart from them nothing keeps the contexts
of a set from their work: left to themselves they take finitely many steps, and
unless user code then waits in vain they all wait for messages or are gone: no
lock stays taken, no message stays in a hand, and no channel with a receiver has
one queued. A request that is still pending then can take its next step at once,
unless its message lies in a channel that has lost its last receiver.
-/

namespace ActixSend

open Transition
set_option autoImplicit false

variable {A : Actor}

def State.Still (s : State A) : Prop := ∀ i chan await, step s (.context i chan await) = none

/-- Context `i` is inside user code whose awaits have not come to an end; `ends`
says in which states they have. -/
def Awaits (ends : State A → Nat → Prop) (s : State A) (i : Nat) : Prop :=
  ∃ c, s.contexts[i]? = some c ∧ s.inUserCode c.pos = true ∧ ¬ends s i

/-- A step of a context that does not wait for its user code. -/
def Proceeds (ends : State A → Nat → Prop) (m : Move (State A) (Act A)) : Prop :=
  ∃ i chan await, m.act = .context i chan await ∧ ¬Awaits ends m.src i

/-- No context can take a step, but for those that wait for their user code. -/
def State.Halted (ends : State A → Nat → Prop) (s : State A) : Prop :=
  ∀ i chan await, ¬Awaits ends s i → step s (.context i chan await) = none

/-- User code does not await what only it keeps from happening: where the
contexts have nothing else to do, it ends. -/
def UserCodeEnds (ends : State A → Nat → Prop) (t : State A) : Prop :=
  ∀ ns u, Path step t ns u → u.Halted ends → ∀ i, ¬Awaits ends u i

/-- The message of the request waits in a channel that nobody will receive from
and that a sender keeps from being dropped. -/
def Orphaned (s : State A) (tx : Nat) : Prop :=
  ∃ call env, s.calls[tx]? = some call ∧ call.phase = .waiting none ∧
    env ∈ s.queue call.req.channel ∧ env.msg.tx = some tx ∧
    s.receiver call.req.channel = false ∧ s.sender call.req.channel = true

structure Settled (s : State A) : Prop where
  contexts : ∀ c ∈ s.contexts, c.pos.gone = true ∨ c.pos = .recv
  unlocked : s.futuresLock = none ∧ s.handlersLocked = false
  queues : ∀ chan, s.receiver chan = true → s.queue chan = []
  callers : ∀ tx call, s.calls[tx]? = some call → call.pending = true →
    (∃ u, step s (.request (.send tx)) = some u) ∨
      (∃ u, step s (.request (.receive tx)) = some u) ∨ Orphaned s tx

structure RestInv (s : State A) : Prop where
  guard : GuardInv s
  lock : LockHeld s
  shared : ∀ c ∈ s.contexts, c.rx = 0
  left : ∀ c ∈ s.contexts, c.pos = .decActive → c.manualShutdown = false → s.sharedSender = false

theorem LockHeld.stays {s t : State A} {act : Act A} (h : Moves s act t) (hs : LockHeld s) :
    LockHeld t := by
  by_cases hact : ∀ i, act ≠ .panic i
  · exact hs.step h hact
  · push Not at hact
    obtain ⟨i, rfl⟩ := hact
    cases h with
    | panic hc h =>
      cases h
      intro j hj
      have hheld : s.futuresLock = some j ∧ j ≠ i := by
        simp only [State.setContext] at hj
        split at hj
        · cases hj
        · rename_i hne
          refine ⟨hj, ?_⟩
          rintro rfl
          exact hne (by rw [hj]; exact beq_self_eq_true _)
      obtain ⟨c, env, index, hcj, hpos⟩ := hs j hheld.1
      exact ⟨c, env, index, by rwa [State.setContext, List.getElem?_set_ne (Ne.symm hheld.2)], hpos⟩

theorem Turn.left_closed {s : State A} {c c' : Context A} (h : Turn s c c') (hrx : c.rx = 0)
    (hpos : c'.pos = .decActive) (hmanual : c'.manualShutdown = false) :
    s.sharedSender = false := by
  cases h with
  | leave _ hended =>
    rw [hrx] at hended
    exact (ended_iff.mp hended).2
  | close => cases hmanual
  | hold _ hhand' =>
    simp only at hpos
    rw [hpos] at hhand'
    cases hhand'
  | _ => cases hpos

theorem RestInv.step {s t : State A} {act : Act A} (h : step s act = some t) (hs : RestInv s) :
    RestInv t := by
  have hmove := Moves.of_step h
  have hholder := hs.guard.oneshot.holder
  refine ⟨hs.guard.step h, hs.lock.stays hmove, ?_, ?_⟩
  · rcases hmove.contexts_cases with hsame | ⟨i, c, c', hc, _, hset, hrx, _⟩
    · rw [hsame]
      exact hs.shared
    · rw [hset]
      intro x hx
      rcases List.mem_or_eq_of_mem_set hx with hx | rfl
      · exact hs.shared x hx
      · rw [hrx]
        exact hs.shared c (List.mem_of_getElem? hc)
  · intro x hx hpos hmanual
    apply hmove.closed_stable hholder
    rcases hmove.contexts_cases with
      hsame | ⟨i, c, c', hc, _, hset, _, _, ⟨_, _, _, hctx⟩ | ⟨_, hpanic⟩⟩
    · rw [hsame] at hx
      exact hs.left x hx hpos hmanual
    · obtain ⟨c'', hset', hturn⟩ := hctx.turn
      rw [hset'] at hx
      rcases List.mem_or_eq_of_mem_set hx with hx | rfl
      · exact hs.left x hx hpos hmanual
      · exact hturn.left_closed (hs.shared c (List.mem_of_getElem? hc)) hpos hmanual
    · cases hpanic
      rcases List.mem_or_eq_of_mem_set hx with hx | rfl
      · exact hs.left x hx hpos hmanual
      · cases hpos

theorem Started.restInv {cfg : Config} {build : Nat → A.State} {s : State A}
    (h : Started cfg build s) : RestInv s := by
  have hguard := h.guardInv
  obtain ⟨w, rfl, hnew⟩ := h.exists_wiring
  refine ⟨hguard, nofun, ?_, ?_⟩
  · intro c hc
    obtain ⟨_, _, _, _, rfl, _⟩ := hnew c hc
    rfl
  · intro c hc hpos
    obtain ⟨_, _, _, _, rfl, rfl | rfl⟩ := hnew c hc <;> cases hpos

theorem recv_eq_none {s : State A} {i chan : Nat} {c : Context A} (hpos : c.pos = .recv)
    (hlistens : c.ListensOn chan) (h : s.recv i c chan = none) : s.queue chan = [] := by
  have hreceives : c.receives chan = true := receives_iff.mpr ⟨by rw [hpos]; rfl, hlistens⟩
  simp only [State.recv, if_pos hreceives] at h
  split at h
  · cases h
  · assumption

theorem RestInv.still_unlocked {s : State A} (hs : RestInv s) (await : A.Await)
    (hstill : s.Still) : s.futuresLock = none := by
  cases hlock : s.futuresLock with
  | none => rfl
  | some j =>
    obtain ⟨c, env, index, hc, hpos⟩ := hs.lock j hlock
    have hnone := hstill j 0 await
    simp only [ActixSend.step, State.contextStep, hc, hpos] at hnone
    cases hnone

theorem RestInv.still_contexts {s : State A} (hs : RestInv s) (await : A.Await)
    (hstill : s.Still) {c : Context A} (hc : c ∈ s.contexts) :
    c.pos.gone = true ∨ c.pos = .recv := by
  obtain ⟨i, hi⟩ := List.mem_iff_getElem?.mp hc
  have hnone := hstill i 0 await
  by_cases hhand : c.pos.hand.isSome = true
  · obtain ⟨u, hu⟩ := hand_enabled hs.guard.unlocked hi hhand
      (fun _ => hs.still_unlocked await hstill) 0 await
    rw [hnone] at hu
    cases hu
  · simp only [ActixSend.step, State.contextStep, hi] at hnone
    cases hpos : c.pos with
    | recv => exact .inr rfl
    | stopped | panicked => exact .inl rfl
    | build | onStart | incActive | decActive | onStop =>
      rw [hpos] at hnone
      cases hnone
    | handle | insert | pushCheck | pushExtend | reply | intervalRun =>
      rw [hpos] at hhand
      exact absurd rfl hhand

theorem RestInv.still_queues {s : State A} (hs : RestInv s) (await : A.Await) (hstill : s.Still)
    {chan : Nat} (hopen : s.receiver chan = true) : s.queue chan = [] := by
  obtain ⟨c, hc, hreceives⟩ := List.any_eq_true.mp hopen
  obtain ⟨hgone, hlistens⟩ := receives_iff.mp hreceives
  have hpos : c.pos = .recv := by
    rcases hs.still_contexts await hstill hc with hgone' | hpos
    · rw [hgone] at hgone'
      cases hgone'
    · exact hpos
  obtain ⟨i, hi⟩ := List.mem_iff_getElem?.mp hc
  have hnone := hstill i chan await
  simp only [ActixSend.step, State.contextStep, hi, hpos] at hnone
  exact recv_eq_none hpos hlistens hnone

theorem RestInv.still_orphaned {s : State A} (hs : RestInv s) (await : A.Await)
    (hstill : s.Still) {tx : Nat} {call : Call A} (hcall : s.calls[tx]? = some call)
    (hphase : call.phase = .waiting none) (hheld : s.oneShotSender tx = true) :
    Orphaned s tx := by
  simp only [State.oneShotSender, hcall, hphase, Bool.false_or, Bool.or_eq_true,
    Bool.and_eq_true, List.any_eq_true, Option.any_eq_true, beq_iff_eq] at hheld
  rcases hheld with ⟨hkept, env, henv, htx⟩ | ⟨c, hc, env, hhand, _⟩
  · have hclosed : s.receiver call.req.channel = false := by
      by_contra hopen
      rw [Bool.not_eq_false] at hopen
      rw [hs.still_queues await hstill hopen] at henv
      cases henv
    rw [hclosed] at hkept
    exact ⟨call, env, hcall, hphase, henv, htx, hclosed, hkept.resolve_right Bool.false_ne_true⟩
  · rcases hs.still_contexts await hstill hc with hgone | hpos
    · rw [gone_of_hand hhand] at hgone
      cases hgone
    · rw [hpos] at hhand
      cases hhand

theorem receive_enabled {s : State A} {tx : Nat} {call : Call A} (hcall : s.calls[tx]? = some call)
    (hphase : (∃ reply, call.phase = .waiting (some reply)) ∨
      call.phase = .waiting none ∧ s.oneShotSender tx = false) :
    ∃ u, step s (.request (.receive tx)) = some u := by
  rcases hphase with ⟨reply, hphase⟩ | ⟨hphase, hdropped⟩
  · simp only [step, State.requestStep, State.receiveCall, hcall, hphase]
    exact ⟨_, rfl⟩
  · simp only [step, State.requestStep, State.receiveCall, hcall, hphase, hdropped]
    exact ⟨_, rfl⟩

theorem RestInv.settled {s : State A} (hs : RestInv s) {num : Nat} {group : Option (List Nat)}
    (hcap : CapacityInv num group s) (hnum : s.contexts.length = num) (await : A.Await)
    (hstill : s.Still) : Settled s := by
  refine ⟨fun c => hs.still_contexts await hstill, ⟨hs.still_unlocked await hstill,
    hs.guard.unlocked⟩, fun chan => hs.still_queues await hstill, ?_⟩
  intro tx call hcall hpending
  obtain ⟨address, req, phase⟩ := call
  cases phase with
  | sending =>
    left
    apply send_enabled hcall rfl
    intro hopen
    rw [Bool.eq_false_iff]
    intro hfull
    obtain ⟨cap, hchan, hle⟩ := (Option.any_eq_true _ _).mp hfull
    rw [hs.still_queues await hstill hopen, hcap.cap _ _ hchan] at hle
    have hzero : num = 0 := by simpa using hle
    obtain ⟨c, hc, _⟩ := List.any_eq_true.mp hopen
    have hpos := List.length_pos_of_mem hc
    omega
  | waiting reply =>
    cases reply with
    | some reply => exact .inr (.inl (receive_enabled hcall (.inl ⟨reply, rfl⟩)))
    | none =>
      cases hheld : s.oneShotSender tx with
      | false => exact .inr (.inl (receive_enabled hcall (.inr ⟨rfl, hheld⟩)))
      | true => exact .inr (.inr (hs.still_orphaned await hstill hcall rfl hheld))
  | done | abandoned => cases hpending

theorem ContextMove.tasks_extend {s t : State A} {i : Nat} {c : Context A}
    (h : ContextMove s i c t) : ∃ new, t.tasks = s.tasks ++ new := by
  cases h with
  | delayed | insert => exact ⟨_, rfl⟩
  | close | reply =>
    rw [sendReply_frame]
    exact ⟨[], (List.append_nil _).symm⟩
  | static | dynamic =>
    rw [sendReplyTo_frame]
    exact ⟨[], (List.append_nil _).symm⟩
  | pushRefused | pushExtend =>
    simp only [State.afterPush]
    split <;> exact ⟨[], (List.append_nil _).symm⟩
  | intervalRun =>
    simp only [State.runInterval]
    split <;> exact ⟨[], (List.append_nil _).symm⟩
  | _ => exact ⟨[], (List.append_nil _).symm⟩

theorem ContextMove.sharedSender_kept {s t : State A} {i : Nat} {c : Context A}
    (h : ContextMove s i c t) (hopen : s.sharedSender = true) : t.sharedSender = true := by
  obtain ⟨new, hnew⟩ := h.tasks_extend
  have hframe := h.frame
  have haddresses : t.addresses = s.addresses := by rw [hframe]
  have hupgrades : t.upgrades = s.upgrades := by rw [hframe]
  have hstreams : t.streams = s.streams := by rw [hframe]
  simp only [State.sharedSender, Bool.or_eq_true] at hopen ⊢
  rw [haddresses, hupgrades, hstreams, hnew, List.any_append, Bool.or_eq_true]
  exact hopen.imp id .inl

theorem ContextMove.work_lt {s t : State A} {i : Nat} {c : Context A} (h : ContextMove s i c t)
    (hc : s.contexts[i]? = some c) (hle : t.taken.length ≤ t.accepted.length)
    (hstay : ¬(c.pos = .decActive ∧ s.cfg.restartOnErr = true ∧ c.manualShutdown = false)) :
    t.work < s.work := by
  have haccepted : t.accepted = s.accepted := by rw [h.frame]
  obtain ⟨c', hset, hrank⟩ := h.rank_cases.resolve_right hstay
  have hsum := sum_map_set (b := c') (f := fun c => c.pos.rank) hc
  rw [← hset] at hsum
  simp only [State.work, haccepted] at hle ⊢
  rcases hrank with ⟨hrank, htaken⟩ | ⟨hrank, x, htaken⟩
  · rw [htaken]
    omega
  · rw [htaken, List.length_append, List.length_singleton] at hle ⊢
    omega

/-- The contexts do not restart for ever on a closed channel. -/
structure Tame (s : State A) : Prop where
  rest : RestInv s
  tame : s.cfg.restartOnErr = false ∨ s.sharedSender = true

theorem Tame.move {s t : State A} {act : Act A} (hact : act.isContext = true)
    (h : step s act = some t) (hs : Tame s) : Tame t ∧ t.work < s.work := by
  have hrest := hs.rest.step h
  cases Moves.of_step h with
  | @context i chan await c _ hc hmove =>
    refine ⟨⟨hrest, ?_⟩, hmove.work_lt hc hrest.guard.oneshot.channel.taken_le ?_⟩
    · have hcfg : t.cfg = s.cfg := by rw [hmove.frame]
      rw [hcfg]
      exact hs.tame.imp id hmove.sharedSender_kept
    · rintro ⟨hpos, hrestart, hmanual⟩
      have hclosed := hs.rest.left c (List.mem_of_getElem? hc) hpos hmanual
      rcases hs.tame with hcfg | hopen
      · rw [hcfg] at hrestart
        cases hrestart
      · rw [hclosed] at hopen
        cases hopen
  | _ => cases hact

theorem ContextMove.futures_locked {s t : State A} {i j : Nat} {c : Context A}
    (h : ContextMove s i c t) (hlock : s.futuresLock = some j)
    (hpos : ∀ env index, c.pos ≠ .intervalRun env index) : t.futures = s.futures := by
  cases h with
  | remove _ _ hfree | insert _ hfree | insertPanic _ hfree =>
    rw [hlock] at hfree
    cases hfree
  | intervalRun hpos' => exact absurd hpos' (hpos _ _)
  | close | reply =>
    rw [sendReply_frame]
    rfl
  | static | dynamic =>
    rw [sendReplyTo_frame]
    rfl
  | pushRefused | pushExtend =>
    simp only [State.afterPush]
    split <;> rfl
  | _ => rfl

theorem RunsClosure.step {s t : State A} {act : Act A} {i index : Nat}
    (h : step s act = some t) (hact : act.isOf i = false) (hinv : GuardInv s)
    (hs : RunsClosure s i index) : RunsClosure t i index := by
  obtain ⟨c, env, hc, hpos, hsome⟩ := hs
  have hlock := hinv.held i ⟨c, env, index, hc, hpos⟩
  have hmove := Moves.of_step h
  have hfutures : t.futures = s.futures := by
    cases hmove with
    | address h | request h | poll h => rw [h.frame]
    | elapseDelayed | elapseInterval => rfl
    | @context k _ _ ck _ hck h =>
      refine h.futures_locked hlock fun env' index' hpos' => ?_
      have hheld := hinv.held k ⟨ck, env', index', hck, hpos'⟩
      obtain rfl := Option.some.inj (hlock.symm.trans hheld)
      simp [isOf_context] at hact
    | panic _ h =>
      cases h
      rfl
  exact ⟨c, env, (hmove.other hact).1.trans hc, hpos, by rwa [hfutures]⟩

/-- Left to themselves the contexts leave a closure awaiting that a deadlock holds. -/
theorem Deadlock.awaits_on {ends : State A → Nat → Prop} {t u : State A} {i index tx : Nat}
    (hdead : Deadlock t i tx) (hinv : GuardInv t) (hruns : RunsClosure t i index)
    (hends : ∀ u, ends u i → u.answered tx = true) {ns : List (Move (State A) (Act A))}
    (h : Path ActixSend.step t ns u) (hns : ∀ n ∈ ns, Proceeds ends n) : Awaits ends u i := by
  have hawaits : ∀ {v : State A} {ps : List (Move (State A) (Act A))}, RunsClosure v i index →
      Path ActixSend.step t ps v → (∀ n ∈ ps, n.act.isOf i = false) → Awaits ends v i := by
    rintro v ps ⟨c, env, hc, hpos, hsome⟩ hv hps
    refine ⟨c, hc, by rw [hpos]; exact hsome, fun hended => ?_⟩
    exact Bool.false_ne_true ((hdead.stuck ps v hv hps).symm.trans (hends v hended))
  have hkept : GuardInv u ∧ RunsClosure u i index ∧ ∀ n ∈ ns, n.act.isOf i = false := by
    induction h with
    | nil => exact ⟨hinv, hruns, List.forall_mem_nil _⟩
    | @snoc ps v w act hv hstep ih =>
      obtain ⟨hguard, hruns', hps⟩ := ih fun n hn => hns n (List.mem_append_left _ hn)
      obtain ⟨j, chan, await, heq, hnot⟩ := hns ⟨v, act, w⟩ List.mem_concat_self
      have heq : act = .context j chan await := heq
      have hji : j ≠ i := by
        rintro rfl
        exact hnot (hawaits hruns' hv hps)
      have hact : act.isOf i = false := by
        rw [heq, isOf_context]
        exact beq_false_of_ne hji
      refine ⟨hguard.step hstep, hruns'.step hstep hact hguard, fun n hn => ?_⟩
      rcases List.mem_append.mp hn with hn | hn
      · exact hps n hn
      · rw [List.mem_singleton.mp hn]
        exact hact
  exact hawaits hkept.2.1 h hkept.2.2

structure ComesToRest (ends : State A → Nat → Prop) (t : State A) : Prop where
  bounded : ∀ ns u, Path step t ns u → (∀ n ∈ ns, Proceeds ends n) → ns.length ≤ t.work
  reached : ∃ ns u, Path step t ns u ∧ (∀ n ∈ ns, Proceeds ends n) ∧ u.Halted ends
  settled : UserCodeEnds ends t → ∀ ns u, Path step t ns u → u.Halted ends → Settled u

theorem Proceeds.isContext {ends : State A → Nat → Prop} {m : Move (State A) (Act A)}
    (h : Proceeds ends m) : m.act.isContext = true := by
  obtain ⟨i, chan, await, hact, _⟩ := h
  rw [hact]
  rfl

theorem State.Halted.still {ends : State A → Nat → Prop} {s : State A} (h : s.Halted ends)
    (hends : ∀ i, ¬Awaits ends s i) : s.Still :=
  fun i chan await => h i chan await (hends i)

section Runs
variable {cfg : Config} {build : Nat → A.State} {s t : State A} {ms : List (Move (State A) (Act A))}

theorem Tame.bounded {ends : State A → Nat → Prop} (ht : Tame t)
    {ns : List (Move (State A) (Act A))} {u : State A} (h : Path step t ns u)
    (hns : ∀ n ∈ ns, Proceeds ends n) : ns.length ≤ t.work := by
  have hle := h.length_add_le (μ := State.work) (C := Proceeds ends) hns ht
    (fun _ _ _ hact hstep hu => (hu.move hact.isContext hstep).1)
    (fun _ _ _ hact hstep hu => (hu.move hact.isContext hstep).2)
  omega

theorem Tame.reached (ends : State A → Nat → Prop) (ht : Tame t) :
    ∃ ns u, Path step t ns u ∧ (∀ n ∈ ns, Proceeds ends n) ∧ u.Halted ends := by
  obtain ⟨ns, u, hpath, hns, hend⟩ := exists_path_to_end (ActixSend.step) (μ := State.work)
    (C := Proceeds ends) ht
    (fun _ _ _ hact hstep hu => (hu.move hact.isContext hstep).1)
    (fun _ _ _ hact hstep hu => (hu.move hact.isContext hstep).2)
  refine ⟨ns, u, hpath, hns, ?_⟩
  intro i chan await hawaits
  cases hstep : step u (.context i chan await) with
  | none => rfl
  | some v => exact absurd ⟨i, chan, await, rfl, hawaits⟩ (hend _ v hstep)

theorem settled_of_path (await : A.Await) (hstart : Started cfg build s) (h : Path step s ms t)
    (hstill : t.Still) : Settled t := by
  obtain ⟨group, hcap⟩ := exists_capacityInv_of_path hstart h
  have hrest : RestInv t := h.invariant hstart.restInv fun _ _ _ hstep hu => hu.step hstep
  have hlength : t.contexts.length = s.contexts.length :=
    h.invariant (I := fun u => u.contexts.length = s.contexts.length) rfl
      fun _ _ _ hstep hu => (Moves.of_step hstep).length_contexts.trans hu
  exact hrest.settled hcap (hlength.trans hstart.length_contexts) await hstill

theorem tame_of_path (hstart : Started cfg build s) (h : Path step s ms t)
    (hcfg : cfg.restartOnErr = false ∨ t.sharedSender = true) : Tame t := by
  refine ⟨h.invariant hstart.restInv fun _ _ _ hstep hu => hu.step hstep, ?_⟩
  obtain ⟨w, rfl, _⟩ := hstart.exists_wiring
  rwa [cfg_of_path h]

/-- No deadlock but among the awaits of user code: if these end, the contexts come
to rest with nothing left to do, provided they do not restart on a closed channel. -/
theorem comes_to_rest (await : A.Await) (hstart : Started cfg build s) (h : Path step s ms t)
    (hcfg : cfg.restartOnErr = false ∨ t.sharedSender = true) (ends : State A → Nat → Prop) :
    ComesToRest ends t := by
  have htame := tame_of_path hstart h hcfg
  refine ⟨fun _ _ => htame.bounded, htame.reached ends, fun hends ns u hns hhalted => ?_⟩
  exact settled_of_path await hstart (h.trans hns) (hhalted.still (hends ns u hns hhalted))

theorem comes_to_rest_request : ∃ ms t, Path step (echoStart Config.default) ms t ∧
    t.accepted.length = 1 ∧ t.handled.length = 0 ∧ UserCodeEnds (fun _ _ => True) t ∧
    ComesToRest (fun _ _ => True) t := by
  obtain ⟨ms, t, hpath, _, _, hq⟩ := exists_path_of_checkedRun step (echoStart Config.default)
    [.request (.call 0 (.send (true, 7))), .request (.send 0)]
    (fun _ _ _ => true) (fun t => t.accepted.length == 1 && t.handled.length == 0) (by decide)
  simp only [Bool.and_eq_true, beq_iff_eq] at hq
  refine ⟨ms, t, hpath, hq.1, hq.2, ?_, comes_to_rest () .start hpath (.inl rfl) _⟩
  rintro ns u _ _ i ⟨_, _, _, hnot⟩
  exact hnot trivial

/-- A closure that awaits its own registration is no user code that ends. -/
theorem Deadlock.not_userCodeEnds (hstart : Started cfg build s) (h : Path step s ms t)
    (hcfg : cfg.restartOnErr = false ∨ t.sharedSender = true) {ends : State A → Nat → Prop}
    {i index tx : Nat} (hdead : Deadlock t i tx) (hruns : RunsClosure t i index)
    (hends : ∀ u, ends u i → u.answered tx = true) : ¬UserCodeEnds ends t := by
  intro hall
  have htame := tame_of_path hstart h hcfg
  obtain ⟨ns, u, hpath, hns, hhalted⟩ := htame.reached ends
  exact hall ns u hpath hhalted i (hdead.awaits_on htame.rest.guard hruns hends hpath hns)

end Runs

end ActixSend
