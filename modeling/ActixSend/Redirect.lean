import ActixSend.Subscribe

/-! # Calls through another address

An address is a bundle of handles, and what a call does depends on what they
refer to. Redirecting the calls of one address to another that refers to the
same things changes a step in nothing but whom the calls borrow.
-/

namespace ActixSend

open Transition Function
set_option autoImplicit false

section Redirect
variable {A : Actor} {s : State A} {n a b : Nat}

def redirect (a b c : Nat) : Nat := if c = a then b else c

def RequestAct.redirect (a b : Nat) : RequestAct A → RequestAct A
  | .call c req => .call (ActixSend.redirect a b c) req
  | .broadcast c msg => .broadcast (ActixSend.redirect a b c) msg
  | .doSend c msg => .doSend (ActixSend.redirect a b c) msg
  | .doRun c fut => .doRun (ActixSend.redirect a b c) fut
  | .stream c => .stream (ActixSend.redirect a b c)
  | act => act

def Act.redirect (a b : Nat) : Act A → Act A
  | .request act => .request (act.redirect a b)
  | act => act

/-- A call of address `a` from the `n`th on, as a call of address `b`. -/
def Call.redirect (n a b k : Nat) (call : Call A) : Call A :=
  if n ≤ k ∧ call.address = some a then { call with address := some b } else call

def State.redirect (n a b : Nat) (s : State A) : State A :=
  { s with calls := s.calls.mapIdx (Call.redirect n a b) }

@[simp] theorem Call.redirect_req (n a b k : Nat) (call : Call A) :
    (call.redirect n a b k).req = call.req := by
  unfold Call.redirect
  split <;> rfl

@[simp] theorem Call.redirect_phase (n a b k : Nat) (call : Call A) :
    (call.redirect n a b k).phase = call.phase := by
  unfold Call.redirect
  split <;> rfl

@[simp] theorem Call.redirect_pending (n a b k : Nat) (call : Call A) :
    (call.redirect n a b k).pending = call.pending := by
  simp [Call.pending]

@[simp] theorem Call.redirect_isSome (n a b k : Nat) (call : Call A) :
    (call.redirect n a b k).address.isSome = call.address.isSome := by
  unfold Call.redirect
  split
  · rename_i h
    simp [h.2]
  · rfl

theorem Call.redirect_with (n a b k : Nat) (call : Call A) (phase : CallPhase A) :
    ⟨(call.redirect n a b k).address, call.req, phase⟩ =
      ({ call with phase := phase } : Call A).redirect n a b k := by
  unfold Call.redirect
  split <;> rfl

theorem Call.redirect_other {c : Nat} (ha : c ≠ a) (hb : c ≠ b) (k : Nat) (call : Call A) :
    ((call.redirect n a b k).address == some c) = (call.address == some c) := by
  unfold Call.redirect
  split
  · rename_i h
    rw [h.2]
    simp [Ne.symm ha, Ne.symm hb]
  · rfl

@[simp] theorem redirect_getElem? (c : Nat) :
    (s.redirect n a b).calls[c]? = (s.calls[c]?).map (Call.redirect n a b c) :=
  List.getElem?_mapIdx

theorem redirect_setCall (c : Nat) (call : Call A) :
    (s.setCall c call).redirect n a b =
      (s.redirect n a b).setCall c (call.redirect n a b c) := by
  simp [State.redirect, State.setCall]

theorem redirect_setCall_with (c : Nat) (call : Call A) (phase : CallPhase A) :
    (s.redirect n a b).setCall c ⟨(call.redirect n a b c).address, call.req, phase⟩ =
      (s.setCall c { call with phase := phase }).redirect n a b := by
  rw [Call.redirect_with, redirect_setCall]

theorem redirect_sendReply (tx : Nat) (reply : Reply A) :
    (s.redirect n a b).sendReply tx reply = (s.sendReply tx reply).redirect n a b := by
  simp only [State.sendReply, redirect_getElem?]
  cases s.calls[tx]? with
  | none => rfl
  | some call =>
    simp only [Option.map_some, Call.redirect_phase, Call.redirect_req]
    split
    · exact redirect_setCall_with tx call _
    · rfl

theorem redirect_sendReplyTo (tx : Option Nat) (reply : Reply A) :
    (s.redirect n a b).sendReplyTo tx reply = (s.sendReplyTo tx reply).redirect n a b := by
  cases tx with
  | none => rfl
  | some tx => exact redirect_sendReply tx reply

theorem redirect_sendShared (msg : ContextMessage A) :
    (s.redirect n a b).sendShared msg = (s.sendShared msg).redirect n a b := by
  have hopen : (s.redirect n a b).receiver 0 = s.receiver 0 := rfl
  simp only [State.sendShared, hopen]
  split <;> rfl

theorem redirect_cancelHandler (h : FutureHandler) :
    (s.redirect n a b).cancelHandler h = (s.cancelHandler h).redirect n a b := by
  simp only [State.cancelHandler]
  cases h.index with
  | none => rfl
  | some index =>
    simp only
    rw [apply_ite (State.redirect n a b)]
    rfl

theorem redirect_oneShotSender (tx : Nat) :
    (s.redirect n a b).oneShotSender tx = s.oneShotSender tx := by
  simp only [State.oneShotSender, redirect_getElem?]
  cases s.calls[tx]? with
  | none => rfl
  | some call =>
    simp only [Option.map_some, Call.redirect_phase, Call.redirect_req]
    rfl

theorem redirect_oneShotOpen (tx : Nat) :
    (s.redirect n a b).oneShotOpen tx = s.oneShotOpen tx := by
  simp only [State.oneShotOpen, redirect_getElem?]
  cases s.calls[tx]? with
  | none => rfl
  | some call => simp only [Option.map_some, Call.redirect_phase]

theorem redirect_unborrowed {c : Nat} (ha : c ≠ a) (hb : c ≠ b) :
    (s.redirect n a b).unborrowed c = s.unborrowed c := by
  rw [State.unborrowed, State.unborrowed, Bool.eq_iff_iff, List.all_eq_true, List.all_eq_true]
  constructor
  · intro h call hcall
    obtain ⟨k, hk⟩ := List.mem_iff_getElem?.mp hcall
    have hk' : (s.redirect n a b).calls[k]? = some (call.redirect n a b k) := by
      rw [redirect_getElem?, hk, Option.map_some]
    have hfree := h _ (List.mem_of_getElem? hk')
    rwa [Call.redirect_other ha hb, Call.redirect_pending] at hfree
  · intro h call' hcall'
    obtain ⟨k, hk⟩ := List.mem_iff_getElem?.mp hcall'
    rw [redirect_getElem?] at hk
    obtain ⟨call, hcall, rfl⟩ := Option.map_eq_some_iff.mp hk
    rw [Call.redirect_other ha hb, Call.redirect_pending]
    exact h call (List.mem_of_getElem? hcall)

theorem redirect_handleMsg (i : Nat) (c : Context A) (env : Envelope A) (await : A.Await) :
    (s.redirect n a b).handleMsg i c env await =
      (s.handleMsg i c env await).map (State.redirect n a b) := by
  simp only [State.handleMsg]
  cases env.msg with
  | manualShutDown tx =>
    simp only [redirect_oneShotOpen, redirect_sendReply]
    split <;> rfl
  | instant msg =>
    cases msg <;> simp only [State.handleInstantMsg, redirect_sendReplyTo] <;> rfl
  | delayed msg =>
    have hsender : (s.redirect n a b).sharedSender = s.sharedSender := rfl
    simp only [State.handleDelayedMsg, hsender]
    split <;> rfl
  | interval msg =>
    have hlock : (s.redirect n a b).futuresLock = s.futuresLock := rfl
    cases msg <;> simp only [State.handleIntervalMsg, hlock]
    · rfl
    · split <;> rfl
    · split <;> rfl

theorem redirect_afterPush (i : Nat) (c : Context A) (env : Envelope A) (h : FutureHandler) :
    (s.redirect n a b).afterPush i c env h = (s.afterPush i c env h).redirect n a b := by
  simp only [State.afterPush]
  split <;> rfl

theorem redirect_recv (i : Nat) (c : Context A) (chan : Nat) :
    (s.redirect n a b).recv i c chan = (s.recv i c chan).map (State.redirect n a b) := by
  have hqueue : (s.redirect n a b).queue = s.queue := rfl
  have hended : (s.redirect n a b).ended = s.ended := rfl
  simp only [State.recv, hqueue, hended]
  split
  · split
    · rfl
    · split <;> rfl
  · rfl

theorem redirect_contextStep (i chan : Nat) (await : A.Await) :
    (s.redirect n a b).contextStep i chan await =
      (s.contextStep i chan await).map (State.redirect n a b) := by
  simp only [State.contextStep]
  have hcontexts : (s.redirect n a b).contexts = s.contexts := rfl
  rw [hcontexts]
  cases s.contexts[i]? with
  | none => rfl
  | some c =>
    simp only
    cases c.pos with
    | recv => exact redirect_recv i c chan
    | handle env => exact redirect_handleMsg i c env await
    | insert env fut key =>
      have hlock : (s.redirect n a b).futuresLock = s.futuresLock := rfl
      simp only [State.insertInterval, hlock]
      split
      · rfl
      · split <;> rfl
    | pushCheck env h =>
      have hrunning : (s.redirect n a b).isRunning = s.isRunning := rfl
      simp only [hrunning, redirect_afterPush]
      split <;> rfl
    | pushExtend env h =>
      have hlocked : (s.redirect n a b).handlersLocked = s.handlersLocked := rfl
      simp only [hlocked]
      split
      · rfl
      · exact congrArg some
          (redirect_afterPush (s := { s with handlers := s.handlers ++ [h] }) i c env h)
    | reply env tx h =>
      simp only [redirect_sendReply]
      rfl
    | intervalRun env index =>
      have hfutures : (s.redirect n a b).futures = s.futures := rfl
      simp only [State.runInterval, hfutures]
      split <;> rfl
    | decActive =>
      simp only [State.leaveLoop]
      have hactive : (s.redirect n a b).active = s.active := rfl
      have hcfg : (s.redirect n a b).cfg = s.cfg := rfl
      simp only [hactive, hcfg]
      split <;> rfl
    | build | onStart | incActive | onStop | stopped | panicked => rfl

theorem redirect_panicStep (i : Nat) :
    (s.redirect n a b).panicStep i = (s.panicStep i).map (State.redirect n a b) := by
  have hcontexts : (s.redirect n a b).contexts = s.contexts := rfl
  have huser : (s.redirect n a b).inUserCode = s.inUserCode := rfl
  simp only [State.panicStep, hcontexts, huser]
  cases s.contexts[i]? with
  | none => rfl
  | some c =>
    simp only
    split <;> rfl

theorem redirect_pollTask (t : Nat) :
    (s.redirect n a b).pollTask t = (s.pollTask t).map (State.redirect n a b) := by
  have htasks : (s.redirect n a b).tasks = s.tasks := rfl
  have hcells : (s.redirect n a b).cells = s.cells := rfl
  have hcfg : (s.redirect n a b).cfg = s.cfg := rfl
  have hsent : ∀ (cells : List CancelCell) (msg : ContextMessage A),
      some ((({ s.redirect n a b with cells := cells } : State A).sendShared msg).setTask t
          .finished) =
        some (((({ s with cells := cells } : State A).sendShared msg).setTask t
          .finished).redirect n a b) := fun cells msg =>
    congrArg (fun u => some (State.setTask u t .finished))
      (redirect_sendShared (s := { s with cells := cells }) msg)
  simp only [State.pollTask, htasks, redirect_sendShared]
  cases s.tasks[t]? with
  | none => rfl
  | some task =>
    cases task with
    | send msg => rfl
    | finished => rfl
    | delayed cell msg elapsed =>
      simp only [hcells]
      cases s.cells[cell]? with
      | none => rfl
      | some cancel =>
        simp only [hcfg]
        split
        · split
          · exact hsent _ _
          · rfl
        · split
          · exact hsent _ _
          · rfl
    | interval cell index ticked holding =>
      simp only [hcells]
      split
      · rfl
      · cases s.cells[cell]? with
        | none => rfl
        | some cancel =>
          simp only
          split
          · rfl
          · split
            · rw [apply_ite (Option.map (State.redirect n a b))]
              rfl
            · rfl

theorem redirect_elapseTask (t : Nat) :
    (s.redirect n a b).elapseTask t = (s.elapseTask t).map (State.redirect n a b) := by
  have htasks : (s.redirect n a b).tasks = s.tasks := rfl
  simp only [State.elapseTask, htasks]
  cases s.tasks[t]? with
  | none => rfl
  | some task => cases task <;> rfl

theorem redirect_shutdownStep (c : Nat) (addr : Address) (pos : Shutdown) :
    (s.redirect n a b).shutdownStep c addr pos =
      (s.shutdownStep c addr pos).map (State.redirect n a b) := by
  cases pos with
  | marker => rfl
  | lock =>
    have hlocked : (s.redirect n a b).handlersLocked = s.handlersLocked := rfl
    simp only [State.shutdownStep, hlocked]
    split <;> rfl
  | cancel rest =>
    cases rest with
    | nil => rfl
    | cons h rest =>
      simp only [State.shutdownStep, redirect_cancelHandler]
      rfl

theorem redirect_addressStep {act : AddressAct} (ha : act ≠ .drop a) (hb : act ≠ .drop b) :
    (s.redirect n a b).addressStep act = (s.addressStep act).map (State.redirect n a b) := by
  have haddresses : (s.redirect n a b).addresses = s.addresses := rfl
  have hweaks : (s.redirect n a b).weaks = s.weaks := rfl
  have hupgrades : (s.redirect n a b).upgrades = s.upgrades := rfl
  cases act with
  | clone c =>
    simp only [State.addressStep, State.cloneAddress, haddresses]
    split
    · split <;> rfl
    · rfl
  | drop c =>
    have hca : c ≠ a := fun h => ha (by rw [h])
    have hcb : c ≠ b := fun h => hb (by rw [h])
    simp only [State.addressStep, State.dropAddress, haddresses, redirect_unborrowed hca hcb]
    split
    · split <;> rfl
    · rfl
  | shutdown c =>
    simp only [State.addressStep, State.shutdown, haddresses]
    split
    · split
      · exact redirect_shutdownStep c _ _
      · rfl
    · rfl
  | release c =>
    simp only [State.addressStep, State.releaseAddress, haddresses]
    split
    · split <;> rfl
    · rfl
  | downgrade c =>
    simp only [State.addressStep, State.downgrade, haddresses]
    split
    · split <;> rfl
    · rfl
  | upgradeSender w =>
    have hsender : (s.redirect n a b).sharedSender = s.sharedSender := rfl
    simp only [State.addressStep, State.upgradeSender, hweaks, hsender]
    split
    · split <;> rfl
    · rfl
  | upgradeCount u =>
    simp only [State.addressStep, State.upgradeCount, hupgrades]
    split
    · split <;> rfl
    · rfl
  | upgradeGroup u =>
    have halive : (s.redirect n a b).groupAlive = s.groupAlive := rfl
    simp only [State.addressStep, State.upgradeGroup, hupgrades, halive]
    split
    · split
      · split <;> rfl
      · rfl
    · rfl

theorem Call.redirect_new {k : Nat} (hk : n ≤ k) (c : Nat) (req : Request A)
    (phase : CallPhase A) :
    Call.redirect n a b k ⟨some c, req, phase⟩ = ⟨some (ActixSend.redirect a b c), req, phase⟩ := by
  simp only [Call.redirect, hk, true_and, Option.some.injEq, ActixSend.redirect]
  split <;> rfl

theorem redirect_newCall (hn : n ≤ s.calls.length) (c : Nat) (req : Request A)
    (phase : CallPhase A) :
    (s.redirect n a b).newCall (some (redirect a b c)) req phase =
      (s.newCall (some c) req phase).redirect n a b := by
  simp only [State.newCall, State.redirect, List.mapIdx_concat, Call.redirect_new hn]

theorem redirect_itemCall (req : Request A) (phase : CallPhase A) :
    (s.redirect n a b).newCall none req phase = (s.newCall none req phase).redirect n a b := by
  simp only [State.newCall, State.redirect, List.mapIdx_concat]
  simp [Call.redirect]

theorem redirect_lookup {addr : Address} (ha : s.addresses[a]? = some addr)
    (hb : s.addresses[b]? = some addr) (c : Nat) :
    (s.redirect n a b).addresses[redirect a b c]? = s.addresses[c]? := by
  simp only [State.redirect, redirect]
  split
  · rename_i hc
    rw [hc, ha, hb]
  · rfl

theorem redirect_resumeStream (req : Request A) :
    (s.redirect n a b).resumeStream req = (s.resumeStream req).redirect n a b := by
  cases req <;> rfl

theorem redirect_length : (s.redirect n a b).calls.length = s.calls.length :=
  List.length_mapIdx

theorem redirect_batch (hn : n ≤ s.calls.length) (c : Nat) (group : List Nat) (msg : A.Message) :
    ({ s.redirect n a b with calls := (s.redirect n a b).calls ++ group.map fun chan =>
        ⟨some (redirect a b c), .entry (s.redirect n a b).calls.length chan msg, .sending⟩ } :
      State A) =
      ({ s with calls := s.calls ++ group.map fun chan =>
        ⟨some c, .entry s.calls.length chan msg, .sending⟩ } : State A).redirect n a b := by
  have hnew : (group.map fun chan => (⟨some (redirect a b c),
      .entry s.calls.length chan msg, .sending⟩ : Call A)) =
      (group.map fun chan => (⟨some c, .entry s.calls.length chan msg, .sending⟩ : Call A)).mapIdx
        fun k => Call.redirect n a b (k + s.calls.length) := by
    apply List.ext_getElem?
    intro k
    rw [List.getElem?_mapIdx, List.getElem?_map, List.getElem?_map, Option.map_map]
    congr 1
    funext chan
    exact (Call.redirect_new (by omega) c _ _).symm
  simp only [State.redirect, List.mapIdx_append, List.length_mapIdx, hnew]

theorem redirect_call {addr : Address} (ha : s.addresses[a]? = some addr)
    (hb : s.addresses[b]? = some addr) (hn : n ≤ s.calls.length) (c : Nat) (req : Request A) :
    (s.redirect n a b).call (redirect a b c) req = (s.call c req).map (State.redirect n a b) := by
  simp only [State.call, redirect_lookup ha hb, redirect_newCall hn]
  split
  · split <;> rfl
  · rfl

theorem redirect_broadcast {addr : Address} (ha : s.addresses[a]? = some addr)
    (hb : s.addresses[b]? = some addr) (hn : n ≤ s.calls.length) (c : Nat) (msg : A.Message) :
    (s.redirect n a b).broadcast (redirect a b c) msg =
      (s.broadcast c msg).map (State.redirect n a b) := by
  simp only [State.broadcast, redirect_lookup ha hb]
  split
  · split
    · split
      · exact congrArg some (redirect_batch hn c _ _)
      · rfl
    · rfl
  · rfl

theorem redirect_spawnSend {addr : Address} (ha : s.addresses[a]? = some addr)
    (hb : s.addresses[b]? = some addr) (c : Nat) (msg : InstantMessage A) :
    (s.redirect n a b).spawnSend (redirect a b c) msg =
      (s.spawnSend c msg).map (State.redirect n a b) := by
  simp only [State.spawnSend, redirect_lookup ha hb]
  split
  · split <;> rfl
  · rfl

theorem redirect_sendStream {addr : Address} (ha : s.addresses[a]? = some addr)
    (hb : s.addresses[b]? = some addr) (c : Nat) :
    (s.redirect n a b).sendStream (redirect a b c) =
      (s.sendStream c).map (State.redirect n a b) := by
  simp only [State.sendStream, redirect_lookup ha hb]
  split
  · split <;> rfl
  · rfl

theorem redirect_sendCall (c : Nat) :
    (s.redirect n a b).sendCall c = (s.sendCall c).map (State.redirect n a b) := by
  have hopen : (s.redirect n a b).receiver = s.receiver := rfl
  have hfull : (s.redirect n a b).full = s.full := rfl
  simp only [State.sendCall, redirect_getElem?, hopen, hfull]
  cases s.calls[c]? with
  | none => rfl
  | some call =>
    simp only [Option.map_some, Call.redirect_phase, Call.redirect_req]
    split
    · split
      · exact congrArg some (redirect_setCall_with c call _)
      · split
        · rfl
        · exact congrArg some (redirect_setCall_with (s := s.enqueue _ _) c call _)
    · rfl

theorem redirect_timeoutCall (c : Nat) :
    (s.redirect n a b).timeoutCall c = (s.timeoutCall c).map (State.redirect n a b) := by
  have hopen : (s.redirect n a b).receiver = s.receiver := rfl
  have hfull : (s.redirect n a b).full = s.full := rfl
  simp only [State.timeoutCall, redirect_getElem?, hopen, hfull]
  cases s.calls[c]? with
  | none => rfl
  | some call =>
    simp only [Option.map_some, Call.redirect_phase, Call.redirect_req]
    split
    · split
      · exact congrArg some (redirect_setCall_with c call _)
      · rfl
    · rfl

theorem redirect_receiveCall (c : Nat) :
    (s.redirect n a b).receiveCall c = (s.receiveCall c).map (State.redirect n a b) := by
  simp only [State.receiveCall, redirect_getElem?, redirect_oneShotSender]
  cases s.calls[c]? with
  | none => rfl
  | some call =>
    simp only [Option.map_some, Call.redirect_phase, Call.redirect_req, redirect_setCall_with,
      redirect_resumeStream]
    split
    · rfl
    · split <;> rfl
    · rfl

theorem redirect_abandonCall (c : Nat) :
    (s.redirect n a b).abandonCall c = (s.abandonCall c).map (State.redirect n a b) := by
  simp only [State.abandonCall, redirect_getElem?]
  cases s.calls[c]? with
  | none => rfl
  | some call =>
    simp only [Option.map_some, Call.redirect_pending, Call.redirect_isSome, Call.redirect_req,
      redirect_setCall_with]
    split <;> rfl

theorem redirect_streamItem (st : Nat) (msg : A.Message) :
    (s.redirect n a b).streamItem st msg = (s.streamItem st msg).map (State.redirect n a b) := by
  have hopen : (s.redirect n a b).receiver = s.receiver := rfl
  have hstreams : (s.redirect n a b).streams = s.streams := rfl
  simp only [State.streamItem, hstreams, hopen, redirect_itemCall, redirect_length]
  split
  · split
    · exact congrArg (fun u : State A =>
        some { u with streams := s.streams.set st (.last s.calls.length) })
        (redirect_itemCall (s := s.enqueue _ _) _ _)
    · rfl
  · rfl

theorem redirect_dropStream (st : Nat) :
    (s.redirect n a b).dropStream st = (s.dropStream st).map (State.redirect n a b) := by
  have hstreams : (s.redirect n a b).streams = s.streams := rfl
  simp only [State.dropStream, hstreams, redirect_getElem?]
  split
  · rfl
  · rename_i c _
    cases s.calls[c]? with
    | none => rfl
    | some call =>
      simp only [Option.map_some, Call.redirect_req, redirect_setCall_with]
      rfl
  · rfl

theorem redirect_cancelCall (c : Nat) :
    (s.redirect n a b).cancelCall c = (s.cancelCall c).map (State.redirect n a b) := by
  simp only [State.cancelCall, redirect_getElem?, redirect_cancelHandler]
  cases s.calls[c]? with
  | none => rfl
  | some call =>
    simp only [Option.map_some, Call.redirect_phase]
    split <;> rfl

theorem redirect_requestStep {addr : Address} (ha : s.addresses[a]? = some addr)
    (hb : s.addresses[b]? = some addr) (hn : n ≤ s.calls.length) (act : RequestAct A) :
    (s.redirect n a b).requestStep (act.redirect a b) =
      (s.requestStep act).map (State.redirect n a b) := by
  cases act with
  | call c req => exact redirect_call ha hb hn c req
  | broadcast c msg => exact redirect_broadcast ha hb hn c msg
  | doSend c msg | doRun c msg => exact redirect_spawnSend ha hb c _
  | stream c => exact redirect_sendStream ha hb c
  | send c => exact redirect_sendCall c
  | timeout c => exact redirect_timeoutCall c
  | receive c => exact redirect_receiveCall c
  | abandon c => exact redirect_abandonCall c
  | item st msg => exact redirect_streamItem st msg
  | dropStream st => exact redirect_dropStream st
  | cancel c => exact redirect_cancelCall c

theorem redirect_step {addr : Address} (ha : s.addresses[a]? = some addr)
    (hb : s.addresses[b]? = some addr) (hn : n ≤ s.calls.length) {act : Act A}
    (hda : act ≠ .address (.drop a)) (hdb : act ≠ .address (.drop b)) :
    step (s.redirect n a b) (act.redirect a b) = (step s act).map (State.redirect n a b) := by
  cases act with
  | address act =>
    exact redirect_addressStep (fun h => hda (by rw [h])) (fun h => hdb (by rw [h]))
  | request act => exact redirect_requestStep ha hb hn act
  | poll t => exact redirect_pollTask t
  | elapse t => exact redirect_elapseTask t
  | context i chan await => exact redirect_contextStep i chan await
  | panic i => exact redirect_panicStep i

end Redirect

section World
variable {N : Network} {w : World N} {n m i a b : Nat}

/-- A call through address `a` of set `i`, from the `m`th on, as one through address `b`. -/
def SubCall.redirect (m i a b k : Nat) (call : SubCall N) : SubCall N :=
  if m ≤ k ∧ call.set = i ∧ call.address = a then { call with address := b } else call

def World.redirect (n m i a b : Nat) (w : World N) : World N :=
  { w with
    sets := update w.sets i ((w.sets i).redirect n a b)
    subCalls := w.subCalls.mapIdx (SubCall.redirect m i a b) }

def redirectAt (i a b j c : Nat) : Nat := if j = i then redirect a b c else c

def WorldAct.redirect (i a b : Nat) : WorldAct N → WorldAct N
  | .set j act => .set j (if j = i then act.redirect a b else act)
  | .subscribeWith j c k d ty => .subscribeWith j (redirectAt i a b j c) k d ty
  | .sendSubscribe j c ty msg => .sendSubscribe j (redirectAt i a b j c) ty msg
  | act => act

@[simp] theorem SubCall.redirect_set (m i a b k : Nat) (call : SubCall N) :
    (call.redirect m i a b k).set = call.set := by
  unfold SubCall.redirect
  split <;> rfl

@[simp] theorem SubCall.redirect_other (m i a b k : Nat) (call : SubCall N) :
    (call.redirect m i a b k).other = call.other := by
  unfold SubCall.redirect
  split <;> rfl

@[simp] theorem SubCall.redirect_list (m i a b k : Nat) (call : SubCall N) :
    (call.redirect m i a b k).list = call.list := by
  unfold SubCall.redirect
  split <;> rfl

@[simp] theorem SubCall.redirect_phase (m i a b k : Nat) (call : SubCall N) :
    (call.redirect m i a b k).phase = call.phase := by
  unfold SubCall.redirect
  split <;> rfl

theorem SubCall.redirect_borrows {j c : Nat} (hc : ¬(j = i ∧ (c = a ∨ c = b))) (k : Nat)
    (call : SubCall N) : (call.redirect m i a b k).borrows j c = call.borrows j c := by
  simp only [SubCall.borrows, SubCall.redirect_phase, SubCall.redirect_set,
    SubCall.redirect_other]
  unfold SubCall.redirect
  split
  · rename_i h
    obtain ⟨_, hset, haddress⟩ := h
    rw [hset, haddress]
    by_cases hj : j = i
    · have hac : (a == c) = false := beq_eq_false_iff_ne.mpr fun h => hc ⟨hj, .inl h.symm⟩
      have hbc : (b == c) = false := beq_eq_false_iff_ne.mpr fun h => hc ⟨hj, .inr h.symm⟩
      simp only [hac, hbc]
    · have hij : (i == j) = false := beq_eq_false_iff_ne.mpr (Ne.symm hj)
      simp only [hij, Bool.false_and]
  · rfl

theorem redirect_setSubCall (c : Nat) (call : SubCall N) (phase : SubPhase N) :
    (w.redirect n m i a b).setSubCall c ⟨call.set, (call.redirect m i a b c).address, call.other,
      call.list, phase⟩ = (w.setSubCall c { call with phase := phase }).redirect n m i a b := by
  have hcall : ⟨call.set, (call.redirect m i a b c).address, call.other, call.list, phase⟩ =
      ({ call with phase := phase } : SubCall N).redirect m i a b c := by
    unfold SubCall.redirect
    split <;> rfl
  simp only [World.setSubCall, World.redirect, List.mapIdx_set, hcall]

@[simp] theorem redirect_subCall (c : Nat) :
    (w.redirect n m i a b).subCalls[c]? = (w.subCalls[c]?).map (SubCall.redirect m i a b c) :=
  List.getElem?_mapIdx

theorem redirect_newSubCall (hm : m ≤ w.subCalls.length) (j c : Nat) (other : Option (Nat × Nat))
    (list : Option Nat) (phase : SubPhase N) :
    (w.redirect n m i a b).newSubCall ⟨j, redirectAt i a b j c, other, list, phase⟩ =
      (w.newSubCall ⟨j, c, other, list, phase⟩).redirect n m i a b := by
  have hcall : SubCall.redirect m i a b w.subCalls.length ⟨j, c, other, list, phase⟩ =
      ⟨j, redirectAt i a b j c, other, list, phase⟩ := by
    by_cases hj : j = i
    · by_cases hc : c = a <;> simp [SubCall.redirect, redirectAt, redirect, hm, hj, hc]
    · simp [SubCall.redirect, redirectAt, hj]
  simp only [World.newSubCall, World.redirect, List.mapIdx_concat, hcall]

theorem redirect_any {p : SubCall N → Bool} (hp : ∀ k call, p (call.redirect m i a b k) = p call) :
    ((w.redirect n m i a b).subCalls.any p) = w.subCalls.any p := by
  rw [Bool.eq_iff_iff, List.any_eq_true, List.any_eq_true]
  constructor
  · rintro ⟨call', hcall', hp'⟩
    obtain ⟨k, hk⟩ := List.mem_iff_getElem?.mp hcall'
    rw [redirect_subCall] at hk
    obtain ⟨call, hcall, rfl⟩ := Option.map_eq_some_iff.mp hk
    exact ⟨call, List.mem_of_getElem? hcall, by rwa [hp] at hp'⟩
  · rintro ⟨call, hcall, hp'⟩
    obtain ⟨k, hk⟩ := List.mem_iff_getElem?.mp hcall
    have hk' : (w.redirect n m i a b).subCalls[k]? = some (call.redirect m i a b k) := by
      rw [redirect_subCall, hk, Option.map_some]
    exact ⟨_, List.mem_of_getElem? hk', by rwa [hp]⟩

theorem redirect_listLocked (j l : Nat) :
    (w.redirect n m i a b).listLocked j l = w.listLocked j l :=
  redirect_any fun k call => by simp

theorem redirect_borrowed {j c : Nat} (hc : ¬(j = i ∧ (c = a ∨ c = b))) :
    (w.redirect n m i a b).borrowed j c = w.borrowed j c :=
  redirect_any fun k call => call.redirect_borrows hc k

theorem redirect_set_self : (w.redirect n m i a b).sets i = (w.sets i).redirect n a b :=
  update_self _ _ _

theorem redirect_set_other {j : Nat} (hj : j ≠ i) : (w.redirect n m i a b).sets j = w.sets j :=
  update_of_ne hj _ _

theorem redirect_setSet_self (s : State (N.actor i)) :
    (w.redirect n m i a b).setSet i (s.redirect n a b) = (w.setSet i s).redirect n m i a b := by
  simp [World.setSet, World.redirect]

theorem redirect_setSet_other {j : Nat} (hj : j ≠ i) (s : State (N.actor j)) :
    (w.redirect n m i a b).setSet j s = (w.setSet j s).redirect n m i a b := by
  simp only [World.setSet, World.redirect, update_of_ne (Ne.symm hj)]
  rw [update_comm (Ne.symm hj)]

theorem redirect_addresses (j : Nat) :
    ((w.redirect n m i a b).sets j).addresses = (w.sets j).addresses := by
  by_cases hj : j = i
  · subst hj
    rw [redirect_set_self]
    rfl
  · rw [redirect_set_other hj]

theorem redirect_lookupAt {addr : Address} (ha : (w.sets i).addresses[a]? = some addr)
    (hb : (w.sets i).addresses[b]? = some addr) (j c : Nat) :
    (w.sets j).addresses[redirectAt i a b j c]? = (w.sets j).addresses[c]? := by
  by_cases hj : j = i
  · subst hj
    rw [redirectAt, if_pos rfl]
    exact redirect_lookup (n := 0) ha hb c
  · rw [redirectAt, if_neg hj]

theorem redirect_deliver (sub : Subscriber N) (ty : N.Ty) (msg : N.Val ty) :
    (w.redirect n m i a b).deliver sub ty msg =
      ((w.deliver sub ty msg).1.redirect n m i a b, (w.deliver sub ty msg).2) := by
  simp only [World.deliver]
  by_cases hset : sub.set = i
  · subst hset
    have hsender : ((w.sets sub.set).redirect n a b).sharedSender =
        (w.sets sub.set).sharedSender := rfl
    have hopen : ((w.sets sub.set).redirect n a b).receiver 0 = (w.sets sub.set).receiver 0 := rfl
    rw [redirect_set_self, hsender, hopen]
    split
    · split
      · exact Prod.ext (redirect_setSet_self ((w.sets sub.set).enqueue 0 _)) rfl
      · rfl
    · rfl
  · rw [redirect_set_other hset, redirect_setSet_other hset]
    split
    · split <;> rfl
    · rfl

theorem redirect_setStep {addr : Address} (ha : (w.sets i).addresses[a]? = some addr)
    (hb : (w.sets i).addresses[b]? = some addr) (hn : n ≤ (w.sets i).calls.length) (j : Nat)
    (act : Act (N.actor j)) (hda : WorldAct.set j act ≠ .set i (.address (.drop a)))
    (hdb : WorldAct.set j act ≠ .set i (.address (.drop b))) :
    (w.redirect n m i a b).setStep j (if j = i then act.redirect a b else act) =
      (w.setStep j act).map (World.redirect n m i a b) := by
  by_cases hdrop : ∃ c, act = .address (.drop c)
  · obtain ⟨c, rfl⟩ := hdrop
    have hc : ¬(j = i ∧ (c = a ∨ c = b)) := by
      rintro ⟨rfl, rfl | rfl⟩
      · exact hda rfl
      · exact hdb rfl
    have hact : (if j = i then (Act.address (.drop c)).redirect a b else .address (.drop c)) =
        (Act.address (.drop c) : Act (N.actor j)) := by split <;> rfl
    rw [hact]
    simp only [World.setStep, redirect_borrowed hc]
    split
    · rfl
    · by_cases hj : j = i
      · subst hj
        have hca : AddressAct.drop c ≠ .drop a := fun h => hc ⟨rfl, .inl (by cases h; rfl)⟩
        have hcb : AddressAct.drop c ≠ .drop b := fun h => hc ⟨rfl, .inr (by cases h; rfl)⟩
        rw [redirect_set_self, redirect_addressStep hca hcb, Option.map_map, Option.map_map]
        exact congrArg (Option.map · _) (funext redirect_setSet_self)
      · rw [redirect_set_other hj, Option.map_map]
        exact congrArg (Option.map · _) (funext (redirect_setSet_other hj))
  · have hstep : ∀ (u : World N) (act' : Act (N.actor j)), (∀ c, act' ≠ .address (.drop c)) →
        u.setStep j act' = (step (u.sets j) act').map fun s => u.setSet j s := by
      intro u act' h
      unfold World.setStep
      split
      · exact absurd rfl (h _)
      · rfl
    have hact : ∀ c, act ≠ .address (.drop c) := fun c h => hdrop ⟨c, h⟩
    rw [hstep w act hact]
    by_cases hj : j = i
    · subst hj
      have hact' : ∀ c, act.redirect a b ≠ .address (.drop c) := by
        intro c h
        cases act <;> cases h
        exact hact c rfl
      rw [if_pos rfl, hstep _ _ hact', redirect_set_self, redirect_step ha hb hn (hact a) (hact b),
        Option.map_map, Option.map_map]
      exact congrArg (Option.map · _) (funext redirect_setSet_self)
    · rw [if_neg hj, hstep _ _ hact, redirect_set_other hj, Option.map_map]
      exact congrArg (Option.map · _) (funext (redirect_setSet_other hj))

theorem redirect_pollSub (c : Nat) :
    (w.redirect n m i a b).pollSub c = (w.pollSub c).map (World.redirect n m i a b) := by
  simp only [World.pollSub, redirect_subCall]
  cases w.subCalls[c]? with
  | none => rfl
  | some call =>
    simp only [Option.map_some, SubCall.redirect_phase, SubCall.redirect_list,
      SubCall.redirect_set, SubCall.redirect_other, redirect_listLocked, redirect_setSubCall]
    split
    · split
      · rfl
      · rename_i sub l _ _ _
        exact congrArg some (redirect_setSubCall (w := w.pushSub call.set l sub) c call _)
    · split <;> rfl
    · split <;> rfl
    · rfl

theorem redirect_pollEntry (c k : Nat) :
    (w.redirect n m i a b).pollEntry c k = (w.pollEntry c k).map (World.redirect n m i a b) := by
  simp only [World.pollEntry, redirect_subCall, redirect_deliver]
  cases w.subCalls[c]? with
  | none => rfl
  | some call =>
    simp only [Option.map_some, SubCall.redirect_phase, SubCall.redirect_list,
      SubCall.redirect_set, SubCall.redirect_other, redirect_setSubCall]
    split
    · split
      · split <;> rfl
      · rfl
    · rfl

theorem redirect_abandonSub (c : Nat) :
    (w.redirect n m i a b).abandonSub c = (w.abandonSub c).map (World.redirect n m i a b) := by
  simp only [World.abandonSub, redirect_subCall]
  cases w.subCalls[c]? with
  | none => rfl
  | some call =>
    simp only [Option.map_some, SubCall.redirect_phase, SubCall.redirect_list,
      SubCall.redirect_set, SubCall.redirect_other, redirect_setSubCall]
    split <;> rfl

theorem redirect_worldStep {addr : Address} (ha : (w.sets i).addresses[a]? = some addr)
    (hb : (w.sets i).addresses[b]? = some addr) (hn : n ≤ (w.sets i).calls.length)
    (hm : m ≤ w.subCalls.length) {act : WorldAct N} (hda : act ≠ .set i (.address (.drop a)))
    (hdb : act ≠ .set i (.address (.drop b))) :
    (w.redirect n m i a b).step (act.redirect i a b) =
      (w.step act).map (World.redirect n m i a b) := by
  cases act with
  | set j act => exact redirect_setStep ha hb hn j act hda hdb
  | subscribeWith j c k d ty =>
    simp only [WorldAct.redirect, World.step, World.subscribeWith, redirect_addresses,
      redirect_lookupAt ha hb, redirect_newSubCall hm]
    split
    · split <;> rfl
    · rfl
  | sendSubscribe j c ty msg =>
    simp only [WorldAct.redirect, World.step, World.sendSubscribe, redirect_addresses,
      redirect_lookupAt ha hb, redirect_newSubCall hm]
    split
    · split <;> rfl
    · rfl
  | poll c => exact redirect_pollSub c
  | entry c k => exact redirect_pollEntry c k
  | abandon c => exact redirect_abandonSub c

end World

end ActixSend
