import ActixSend.Calls

/-! # Requests and their oneshots

A message that carries a oneshot is the message of one request, and no other
accepted message carries the same. So only the context that holds a request's
own message can answer it.

The oneshot of an accepted request is dropped with the message, and a channel
keeps its messages as long as it has a sender or a receiver. A context that
stops before the channel is closed may leave requests behind in it: nobody will
answer them, and their callers wait for as long as some sender lives.
-/

namespace ActixSend

open Function Transition
set_option autoImplicit false

variable {A : Actor}

def Task.Unawaited (task : Task A) : Prop :=
  ∀ msg, task.message = some msg → msg.tx = none

def Position.Fits : Position A → Prop
  | .insert env _ _ => ∃ tx fut dur, env.msg = .interval (.register tx fut dur)
  | .pushCheck env _ => (∃ msg, env.msg = .delayed msg) ∨
      ∃ tx fut dur, env.msg = .interval (.register tx fut dur)
  | .pushExtend env _ => (∃ msg, env.msg = .delayed msg) ∨
      ∃ tx fut dur, env.msg = .interval (.register tx fut dur)
  | .reply env tx _ => ∃ fut dur, env.msg = .interval (.register tx fut dur)
  | .intervalRun env index => env.msg = .interval (.run index)
  | _ => True

structure RequestInv (s : State A) : Prop where
  sent : ∀ chan env, (chan, env) ∈ s.accepted → ∀ tx, env.msg.tx = some tx →
    ∃ call : Call A, s.calls[tx]? = some call ∧ call.req.channel = chan ∧
      env.msg = call.req.message tx ∧ call.phase ≠ .sending
  once : ∀ x ∈ s.accepted, ∀ y ∈ s.accepted, ∀ tx, x.2.msg.tx = some tx →
    y.2.msg.tx = some tx → x = y
  tasks : ∀ task ∈ s.tasks, task.Unawaited
  fits : ∀ c ∈ s.contexts, c.pos.Fits

theorem unawaited_finished : (Task.finished : Task A).Unawaited := by
  intro msg hmsg
  cases hmsg

theorem unawaited_interval (cell index : Nat) (ticked holding : Bool) :
    (Task.interval cell index ticked holding : Task A).Unawaited := by
  intro msg hmsg
  cases hmsg
  rfl

theorem unawaited_snoc {l : List (Task A)} {task : Task A} (hl : ∀ x ∈ l, x.Unawaited)
    (htask : task.Unawaited) : ∀ x ∈ l ++ [task], x.Unawaited := by
  intro x hx
  rcases List.mem_append.mp hx with hx | hx
  · exact hl x hx
  · obtain rfl := List.mem_singleton.mp hx
    exact htask

theorem unawaited_set {l : List (Task A)} {k : Nat} {task : Task A} (hl : ∀ x ∈ l, x.Unawaited)
    (htask : task.Unawaited) : ∀ x ∈ l.set k task, x.Unawaited := by
  intro x hx
  rcases List.mem_or_eq_of_mem_set hx with hx | rfl
  · exact hl x hx
  · exact htask

theorem cancelHandler_unawaited {s : State A} {h : FutureHandler}
    (hs : ∀ x ∈ s.tasks, x.Unawaited) : ∀ x ∈ (s.cancelHandler h).tasks, x.Unawaited := by
  simp only [State.cancelHandler]
  split
  · split
    · apply unawaited_snoc hs
      intro msg hmsg
      cases hmsg
      rfl
    · exact hs
  · exact hs

theorem sendShared_tasks (s : State A) (msg : ContextMessage A) :
    (s.sendShared msg).tasks = s.tasks := by
  rw [sendShared_frame]

theorem ContextMove.unawaited {s t : State A} {i : Nat} {c : Context A} (h : ContextMove s i c t)
    (hs : ∀ x ∈ s.tasks, x.Unawaited) : ∀ x ∈ t.tasks, x.Unawaited := by
  cases h with
  | close | reply =>
    rw [sendReply_frame]
    exact hs
  | static | dynamic =>
    rw [sendReplyTo_frame]
    exact hs
  | @delayed _ msg =>
    apply unawaited_snoc hs
    intro msg' hmsg'
    cases hmsg'
    exact msg.toInstant_tx
  | insert => exact unawaited_snoc hs (unawaited_interval _ _ _ _)
  | pushRefused | pushExtend =>
    simp only [State.afterPush]
    split <;> exact hs
  | intervalRun =>
    simp only [State.runInterval]
    split <;> exact hs
  | _ => exact hs

theorem Moves.unawaited {s t : State A} {act : Act A} (h : Moves s act t)
    (hs : ∀ x ∈ s.tasks, x.Unawaited) : ∀ x ∈ t.tasks, x.Unawaited := by
  cases h with
  | address h =>
    cases h with
    | cancel => exact cancelHandler_unawaited hs
    | _ => exact hs
  | request h =>
    cases h with
    | doSend | doRun =>
      apply unawaited_snoc hs
      intro msg hmsg
      cases hmsg
      rfl
    | @answer _ call | @canceled _ call =>
      obtain ⟨address, req, phase⟩ := call
      cases req <;> exact hs
    | cancel => exact cancelHandler_unawaited hs
    | _ => exact hs
  | poll h =>
    cases h with
    | send | delayedSend =>
      simp only [State.setTask, sendShared_tasks]
      exact unawaited_set hs unawaited_finished
    | intervalSend =>
      simp only [State.setTask, sendShared_tasks]
      exact unawaited_set hs (unawaited_interval _ _ _ _)
    | delayedDrop | intervalEnd => exact unawaited_set hs unawaited_finished
    | intervalUpgrade => exact unawaited_set hs (unawaited_interval _ _ _ _)
    | delayedWait | intervalWait => exact hs
  | elapseDelayed hk =>
    exact unawaited_set hs fun msg hmsg => hs _ (List.mem_of_getElem? hk) msg hmsg
  | elapseInterval => exact unawaited_set hs (unawaited_interval _ _ _ _)
  | context hc h => exact h.unawaited hs
  | panic hc h =>
    cases h
    exact hs

theorem fits_set {l : List (Context A)} {i : Nat} {c : Context A} (hl : ∀ x ∈ l, x.pos.Fits)
    (hc : c.pos.Fits) : ∀ x ∈ l.set i c, x.pos.Fits := by
  intro x hx
  rcases List.mem_or_eq_of_mem_set hx with hx | rfl
  · exact hl x hx
  · exact hc

theorem afterPush_fits {s : State A} {i : Nat} {c : Context A} {env : Envelope A}
    {h : FutureHandler} (hs : ∀ x ∈ s.contexts, x.pos.Fits) :
    ∀ x ∈ (s.afterPush i c env h).contexts, x.pos.Fits := by
  simp only [State.afterPush]
  split
  · rename_i tx fut dur hmsg
    exact fits_set hs ⟨fut, dur, hmsg⟩
  · exact fits_set hs trivial

theorem ContextMove.fits {s t : State A} {i : Nat} {c : Context A} (h : ContextMove s i c t)
    (hc : s.contexts[i]? = some c) (hs : ∀ x ∈ s.contexts, x.pos.Fits) :
    ∀ x ∈ t.contexts, x.pos.Fits := by
  have hfits := hs c (List.mem_of_getElem? hc)
  cases h with
  | close | reply =>
    rw [sendReply_frame]
    exact fits_set hs trivial
  | static | dynamic =>
    rw [sendReplyTo_frame]
    exact fits_set hs trivial
  | delayed hpos hmsg => exact fits_set hs (.inl ⟨_, hmsg⟩)
  | lockRun hpos hmsg => exact fits_set hs hmsg
  | @register env tx dur fut hpos hmsg =>
    apply fits_set hs
    split
    · exact ⟨tx, fut, dur, hmsg⟩
    · trivial
  | insert hpos =>
    rw [hpos] at hfits
    exact fits_set hs (.inr hfits)
  | pushCheck hpos =>
    rw [hpos] at hfits
    exact fits_set hs hfits
  | pushRefused | pushExtend => exact afterPush_fits hs
  | intervalRun =>
    simp only [State.runInterval]
    split <;> exact fits_set hs trivial
  | build | onStart | incActive | take | leave | closeRefused | delayedLost | remove | insertPanic
  | restart | stop | onStop => exact fits_set hs trivial

theorem Moves.fits {s t : State A} {act : Act A} (h : Moves s act t)
    (hs : ∀ x ∈ s.contexts, x.pos.Fits) : ∀ x ∈ t.contexts, x.pos.Fits := by
  rcases h.contexts_cases with hsame | ⟨i, c, _, hc, _, _, _, _, ⟨_, _, _, hmove⟩ | ⟨_, hmove⟩⟩
  · rwa [hsame]
  · exact hmove.fits hc hs
  · cases hmove
    exact fits_set hs trivial

def Continues (calls calls' : List (Call A)) : Prop :=
  ∀ (n : Nat) (call : Call A), calls[n]? = some call → ∃ call' : Call A, calls'[n]? = some call' ∧
    call'.req = call.req ∧ (call'.phase = .sending → call.phase = .sending)

theorem continues_refl (calls : List (Call A)) : Continues calls calls :=
  fun _ call hn => ⟨call, hn, rfl, id⟩

theorem continues_append (calls new : List (Call A)) : Continues calls (calls ++ new) := by
  intro n call hn
  obtain ⟨hlt, _⟩ := List.getElem?_eq_some_iff.mp hn
  exact ⟨call, by rwa [List.getElem?_append_left hlt], rfl, id⟩

theorem continues_set {calls : List (Call A)} {c : Nat} {call : Call A} {phase : CallPhase A}
    (hc : calls[c]? = some call) (hphase : phase ≠ .sending) :
    Continues calls (calls.set c { call with phase := phase }) := by
  intro n x hn
  by_cases hnc : n = c
  · subst hnc
    obtain rfl := Option.some.inj (hc.symm.trans hn)
    exact ⟨_, getElem?_set_self_of hc, rfl, fun h => absurd h hphase⟩
  · exact ⟨x, by rwa [List.getElem?_set_ne (Ne.symm hnc)], rfl, id⟩

theorem Moves.continues {s t : State A} {act : Act A} (h : Moves s act t) :
    Continues s.calls t.calls := by
  rcases h.calls_cases with ⟨_, _, hreq⟩ | ⟨_, hsame | ⟨_, _, _, hanswer⟩⟩
  · cases hreq with
    | call | broadcast | item | itemRefused => exact continues_append _ _
    | refuse hc | timeout hc | abandon hc | dropWaiting _ hc =>
      exact continues_set hc (by simp)
    | send hc => exact continues_set hc (by split <;> simp)
    | answer hc | canceled hc =>
      rw [resumeStream_calls]
      exact continues_set hc (by simp)
    | cancel =>
      rw [cancelHandler_frame]
      exact continues_refl _
    | doSend | doRun | stream | dropIdle =>
      exact continues_refl _
  · rw [hsame]
    exact continues_refl _
  · obtain ⟨_, hc, _, hset⟩ := hanswer.waiting
    rw [hset]
    exact continues_set hc (by simp)

theorem Moves.calls_length {s t : State A} {act : Act A} (h : Moves s act t) :
    s.calls.length ≤ t.calls.length := by
  by_contra hlt
  have hget : s.calls[t.calls.length]? = some _ := List.getElem?_eq_getElem (by omega)
  obtain ⟨call', hcall', _⟩ := h.continues _ _ hget
  rw [List.getElem?_eq_none (Nat.le_refl _)] at hcall'
  cases hcall'

theorem sends_awaited {s t : State A} {chan tx : Nat} {msg : ContextMessage A}
    (h : Sends s t chan msg) (hs : RequestInv s) (htx : msg.tx = some tx) :
    (∀ call : Call A, s.calls[tx]? = some call → call.phase = .sending) ∧
      ∃ call : Call A, t.calls[tx]? = some call ∧ call.req.channel = chan ∧
        msg = call.req.message tx ∧ call.phase = .waiting none := by
  cases h with
  | task hk hmsg =>
    rw [hs.tasks _ (List.mem_of_getElem? hk) msg hmsg] at htx
    cases htx
  | @call c call phase hc hphase hnext hcalls =>
    rw [Request.message_tx] at htx
    split at htx
    · rename_i hawaits
      cases htx
      rw [if_pos hawaits] at hnext
      refine ⟨?_, { call with phase := phase }, ?_, rfl, rfl, hnext⟩
      swap
      · rw [hcalls, getElem?_set_self_of hc]
      intro call' hc'
      obtain rfl := Option.some.inj (hc.symm.trans hc')
      exact hphase
    · cases htx
  | item hst hcalls =>
    cases htx
    refine ⟨?_, _, by rw [hcalls, List.getElem?_concat_length], rfl, rfl, rfl⟩
    intro call' hc'
    rw [List.getElem?_eq_none (Nat.le_refl _)] at hc'
    cases hc'

theorem ChannelMove.accepted_cases {s t : State A} {act : Act A} (h : ChannelMove s act t) :
    t.accepted = s.accepted ∨ ∃ chan msg, Sends s t chan msg ∧
      t.accepted = s.accepted ++ [(chan, ⟨s.nextId, msg⟩)] := by
  cases h with
  | same h => exact .inl (congrArg Ledger.accepted h)
  | accept hopen hsends hhandled hnext h =>
    exact .inr ⟨_, _, hsends, congrArg Ledger.accepted h⟩
  | context hact hc hmove h => exact .inl h.accepted_eq
  | panic hact hc hmove hhandled hnext h => exact .inl (congrArg Ledger.accepted h)

theorem RequestInv.step {s t : State A} {act : Act A} (h : step s act = some t)
    (hs : RequestInv s) : RequestInv t := by
  have hmove := Moves.of_step h
  have hold : ∀ chan env, (chan, env) ∈ s.accepted → ∀ tx, env.msg.tx = some tx →
      ∃ call : Call A, t.calls[tx]? = some call ∧ call.req.channel = chan ∧
        env.msg = call.req.message tx ∧ call.phase ≠ .sending := by
    intro chan env henv tx htx
    obtain ⟨call, hcall, hchan, hmsg, hphase⟩ := hs.sent chan env henv tx htx
    obtain ⟨call', hcall', hreq, hback⟩ := hmove.continues tx call hcall
    exact ⟨call', hcall', by rw [hreq, hchan], by rw [hreq, hmsg], fun h => hphase (hback h)⟩
  rcases hmove.channelMove.accepted_cases with hsame | ⟨chan, msg, hsends, haccepted⟩
  · refine ⟨?_, ?_, hmove.unawaited hs.tasks, hmove.fits hs.fits⟩
    · rw [hsame]
      exact hold
    · rw [hsame]
      exact hs.once
  · -- an older message with the same oneshot would have its request past sending
    have hnew : ∀ x ∈ s.accepted, ∀ tx, x.2.msg.tx = some tx → msg.tx ≠ some tx := by
      intro x hx tx htx htx'
      obtain ⟨call, hcall, _, _, hphase⟩ := hs.sent x.1 x.2 hx tx htx
      exact hphase ((sends_awaited hsends hs htx').1 call hcall)
    refine ⟨?_, ?_, hmove.unawaited hs.tasks, hmove.fits hs.fits⟩
    · intro chan' env henv tx htx
      rw [haccepted] at henv
      rcases List.mem_append.mp henv with henv | henv
      · exact hold chan' env henv tx htx
      · obtain ⟨rfl, rfl⟩ := Prod.mk.inj (List.mem_singleton.mp henv)
        obtain ⟨_, call, hcall, hchan, hmsg, hphase⟩ := sends_awaited hsends hs htx
        exact ⟨call, hcall, hchan, hmsg, by simp [hphase]⟩
    · intro x hx y hy tx htx hty
      rw [haccepted] at hx hy
      rcases List.mem_append.mp hx with hx | hx <;> rcases List.mem_append.mp hy with hy | hy
      · exact hs.once x hx y hy tx htx hty
      · obtain rfl := List.mem_singleton.mp hy
        exact absurd hty (hnew x hx tx htx)
      · obtain rfl := List.mem_singleton.mp hx
        exact absurd htx (hnew y hy tx hty)
      · obtain rfl := List.mem_singleton.mp hx
        exact (List.mem_singleton.mp hy).symm

theorem Started.requestInv {cfg : Config} {build : Nat → A.State} {s : State A}
    (h : Started cfg build s) : RequestInv s := by
  obtain ⟨w, rfl, hnew⟩ := h.exists_wiring
  constructor
  · simp [Wiring.finish]
  · simp [Wiring.finish]
  · simp [Wiring.finish]
  · intro c hc
    obtain ⟨_, _, _, pos, rfl, rfl | rfl⟩ := hnew c hc <;> trivial

def CallPhase.answered : CallPhase A → Bool
  | .waiting (some _) => true
  | .done _ => true
  | _ => false

/-- The oneshot of request `tx` has resolved or can be resolved by its caller. -/
def State.answered (s : State A) (tx : Nat) : Bool :=
  s.calls[tx]?.any fun call => call.phase.answered

theorem Answers.hand_tx {s t : State A} {i tx : Nat} {reply : Reply A}
    (h : Answers s t i tx reply) (hs : RequestInv s) :
    ∃ (c : Context A) (env : Envelope A), s.contexts[i]? = some c ∧ c.pos.hand = some env ∧
      env.msg.tx = some tx ∧ t.handled = s.handled ++ [⟨i, env, some reply⟩] := by
  obtain ⟨c, env, hc, hhand, htx, hhandled⟩ := h.hand
  refine ⟨c, env, hc, hhand, ?_, hhandled⟩
  rcases htx with htx | ⟨handler, hpos⟩
  · exact htx
  · have hfits := hs.fits c (List.mem_of_getElem? hc)
    rw [hpos] at hfits
    obtain ⟨fut, dur, hmsg⟩ := hfits
    rw [hmsg]
    rfl

/-- A request gets its answer from the context that holds its message, or from
its own oneshot when nobody holds the other end any more. -/
theorem Moves.answered_cases {s t : State A} {act : Act A} (hmove : Moves s act t)
    (hs : RequestInv s) {tx : Nat} (h : t.answered tx = true) :
    s.answered tx = true ∨
      (∃ (i : Nat) (c : Context A) (env : Envelope A), s.contexts[i]? = some c ∧
        c.pos.hand = some env ∧ env.msg.tx = some tx) ∨
      (∀ call : Call A, s.calls[tx]? = some call → call.phase = .sending) ∨
      s.oneShotSender tx = false := by
  obtain ⟨call', hcall', hanswered⟩ := (Option.any_eq_true _ _).mp h
  cases hmove.callOrigin hcall' with
  | new hlen | item hlen =>
    refine .inr (.inr (.inl fun call hcall => ?_))
    exact absurd (List.getElem?_eq_some_iff.mp hcall).1 (Nat.not_lt.mpr hlen)
  | @old call hcall hturn =>
    have hsending : call.phase = .sending →
        ∀ call : Call A, s.calls[tx]? = some call → call.phase = .sending := by
      intro hphase call' hcall'
      rwa [← Option.some.inj (hcall.symm.trans hcall')]
    cases hturn with
    | keep => exact .inl ((Option.any_eq_true _ _).mpr ⟨_, hcall, hanswered⟩)
    | refuse hphase | send hphase | timeout hphase => exact .inr (.inr (.inl (hsending hphase)))
    | answered _ hanswers =>
      obtain ⟨c, env, hc, hhand, htx, _⟩ := hanswers.hand_tx hs
      exact .inr (.inl ⟨_, c, env, hc, hhand, htx⟩)
    | receive _ hphase =>
      exact .inl ((Option.any_eq_true _ _).mpr ⟨call, hcall, by rw [hphase]; rfl⟩)
    | canceled _ hheld => exact .inr (.inr (.inr hheld))
    | abandon => cases hanswered

def Context.ListensOn (c : Context A) (chan : Nat) : Prop := c.rx = chan ∨ c.selector = some chan

theorem receives_iff {c : Context A} {chan : Nat} :
    c.receives chan = true ↔ c.pos.gone = false ∧ c.ListensOn chan := by
  simp [Context.receives, Context.ListensOn]

structure OneshotInv (s : State A) : Prop where
  channel : ChannelInv s
  holder : HolderInv s
  request : RequestInv s
  listens : ∀ i chan env, (i, chan, env) ∈ s.ledger.taken →
    ∃ c : Context A, s.contexts[i]? = some c ∧ c.ListensOn chan
  queued : ∀ chan env tx, env ∈ s.queue chan → env.msg.tx = some tx →
    (s.sender chan || s.receiver chan) = true → s.answered tx = false

theorem ChannelMove.taken_cases {s t : State A} {act : Act A} (h : ChannelMove s act t) :
    t.ledger.taken = s.ledger.taken ∨ ∃ (i : Nat) (c : Context A) (chan : Nat) (env : Envelope A),
      s.contexts[i]? = some c ∧ c.receives chan = true ∧
      t.ledger.taken = s.ledger.taken ++ [(i, chan, env)] := by
  cases h with
  | same h | accept _ _ _ _ h | panic _ _ _ _ _ h =>
    rw [h]
    exact .inl rfl
  | context hact hc hmove h =>
    cases h with
    | same h | finish _ _ h | lose _ h =>
      rw [h]
      exact .inl rfl
    | take hpos hrecv hqueue h => exact .inr ⟨_, _, _, _, hc, hrecv, congrArg Ledger.taken h⟩

theorem ChannelMove.queue_cases {s t : State A} {act : Act A} (h : ChannelMove s act t)
    {chan : Nat} {env : Envelope A} (henv : env ∈ t.queue chan) :
    env ∈ s.queue chan ∨ s.receiver chan = true ∧
      ∃ msg, Sends s t chan msg ∧ env = ⟨s.nextId, msg⟩ := by
  cases h with
  | same h =>
    rw [show t.queue = s.queue from congrArg Ledger.queue h] at henv
    exact .inl henv
  | @accept chan' msg hopen hsends hhandled hnext h =>
    rw [show t.queue = _ from congrArg Ledger.queue h] at henv
    by_cases hchan : chan = chan'
    · subst hchan
      have hmem : env ∈ s.queue chan ∨ env = ⟨s.nextId, msg⟩ := by
        simpa [Ledger.accept] using henv
      exact hmem.imp id fun heq => ⟨hopen, msg, hsends, heq⟩
    · exact .inl (by simpa [Ledger.accept, hchan] using henv)
  | context hact hc hmove h =>
    cases h with
    | same h | finish _ _ h | lose _ h =>
      rw [show t.queue = s.queue from congrArg Ledger.queue h] at henv
      exact .inl henv
    | @take chan' env' rest hpos hrecv hqueue h =>
      rw [show t.queue = _ from congrArg Ledger.queue h] at henv
      by_cases hchan : chan = chan'
      · subst hchan
        have hrest : env ∈ rest := by simpa [Ledger.take] using henv
        exact .inl (by simpa [hqueue] using Or.inr hrest)
      · exact .inl (by simpa [Ledger.take, hchan] using henv)
  | panic hact hc hmove hhandled hnext h =>
    rw [show t.queue = s.queue from congrArg Ledger.queue h] at henv
    exact .inl henv

theorem Moves.listens {s t : State A} {act : Act A} (h : Moves s act t) {i chan : Nat}
    (hs : ∃ c : Context A, s.contexts[i]? = some c ∧ c.ListensOn chan) :
    ∃ c : Context A, t.contexts[i]? = some c ∧ c.ListensOn chan := by
  obtain ⟨c, hc, hlistens⟩ := hs
  rcases h.contexts_cases with hsame | ⟨j, cj, c', hcj, _, hset, hrx, hselector, _⟩
  · exact ⟨c, by rwa [hsame], hlistens⟩
  · by_cases hij : i = j
    · subst hij
      obtain rfl := Option.some.inj (hc.symm.trans hcj)
      refine ⟨c', by rw [hset, getElem?_set_self_of hc], ?_⟩
      rwa [Context.ListensOn, hrx, hselector]
    · exact ⟨c, by rwa [hset, List.getElem?_set_ne (Ne.symm hij)], hlistens⟩

theorem OneshotInv.hand_not_queued {s : State A} (hs : OneshotInv s) {i chan tx : Nat}
    {c : Context A} {env env' : Envelope A} (hc : s.contexts[i]? = some c)
    (hhand : c.pos.hand = some env') (htx' : env'.msg.tx = some tx) (henv : env ∈ s.queue chan) :
    env.msg.tx ≠ some tx := by
  intro htx
  have hbusy : s.ledger.worker i = .busy env' := by
    rw [ledger_worker hc, worker_of_hand hhand]
  obtain ⟨chan', htaken⟩ := hs.channel.sound.taken_of_busy hbusy
  have haccepted : (chan', env') ∈ s.accepted := hs.channel.sound.accepted_of_taken htaken
  have haccepted' : (chan, env) ∈ s.accepted := hs.channel.sound.accepted_of_queue henv
  cases hs.request.once _ haccepted _ haccepted' tx htx' htx
  exact hs.channel.sound.not_taken_of_queue henv htaken

theorem OneshotInv.step {s t : State A} {act : Act A} (h : step s act = some t)
    (hs : OneshotInv s) : OneshotInv t := by
  have hmove := Moves.of_step h
  refine ⟨hs.channel.step h, hs.holder.step h, hs.request.step h, ?_, ?_⟩
  · intro i chan env htaken
    rcases hmove.channelMove.taken_cases with hsame | ⟨j, c, chan', env', hc, hrecv, hsnoc⟩
    · rw [hsame] at htaken
      exact hmove.listens (hs.listens i chan env htaken)
    · rw [hsnoc] at htaken
      rcases List.mem_append.mp htaken with htaken | htaken
      · exact hmove.listens (hs.listens i chan env htaken)
      · cases List.mem_singleton.mp htaken
        exact hmove.listens ⟨c, hc, (receives_iff.mp hrecv).2⟩
  · intro chan env tx henv htx hopen
    have hopen' : (s.sender chan || s.receiver chan) = true := by
      rw [Bool.or_eq_true] at hopen ⊢
      exact hopen.imp (hmove.sender_stable hs.holder) hmove.receiver_stable
    rcases hmove.channelMove.queue_cases henv with henv | ⟨_, msg, hsends, rfl⟩
    · have haccepted : (chan, env) ∈ s.accepted := hs.channel.sound.accepted_of_queue henv
      obtain ⟨call, hcall, hchan, _, hphase⟩ := hs.request.sent chan env haccepted tx htx
      by_contra hanswered
      rcases hmove.answered_cases hs.request (by simpa using hanswered) with
        hbefore | ⟨i, c, env', hc, hhand, htx'⟩ | hsending | hdropped
      · simp [hs.queued chan env tx henv htx hopen'] at hbefore
      · exact hs.hand_not_queued hc hhand htx' henv htx
      · exact hphase (hsending call hcall)
      · have hany : ((s.queue chan).any fun env => env.msg.tx == some tx) = true :=
          List.any_eq_true.mpr ⟨env, henv, by simp [htx]⟩
        simp [State.oneShotSender, hcall, hchan, hopen', hany] at hdropped
    · obtain ⟨_, call, hcall, _, _, hphase⟩ := sends_awaited hsends hs.request htx
      simp [State.answered, hcall, hphase, CallPhase.answered]

theorem Started.oneshotInv {cfg : Config} {build : Nat → A.State} {s : State A}
    (h : Started cfg build s) : OneshotInv s := by
  have hchannel := h.channelInv
  have hholder := h.holderInv
  have hrequest := h.requestInv
  obtain ⟨w, rfl, _⟩ := h.exists_wiring
  refine ⟨hchannel, hholder, hrequest, ?_, ?_⟩
  · intro i chan env htaken
    simp [State.ledger, Wiring.finish] at htaken
  · intro chan env tx henv
    cases henv

end ActixSend
