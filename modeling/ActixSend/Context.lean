import ActixSend.Primitive

/-! # Contexts

`ActorContext::spawn_loop` with everything `handle_msg` calls, one action from
an access to shared state or an await to the next. `yield_now` is left out: it
only gives the scheduler a turn. A select polls its two receivers in an order
that alternates; here either may be asked first. The lock of the interval futures
goes to the waiting contexts in the order in which they came; here it may go to any,
so the runs that keep to the order are among those of this model.
-/

namespace ActixSend

open Function

variable {A : Actor}

namespace State

/-- `recv` without a broadcast receiver and the selector's `next` with one; the
loop ends when no receiver of the context can yield a message any more. -/
def recv (s : State A) (i : Nat) (c : Context A) (chan : Nat) : Option (State A) :=
  if c.receives chan then
    match s.queue chan with
    | env :: rest =>
      some { s.setContext i { c with pos := .handle env } with
        queue := update s.queue chan rest
        taken := s.taken ++ [⟨i, chan, env⟩] }
    | [] =>
      if s.ended c.rx && c.selector.all fun chan => s.ended chan then
        some (s.setContext i { c with pos := .decActive })
      else none
  else none

def handleInstantMsg (s : State A) (i : Nat) (c : Context A) (env : Envelope A) (await : A.Await) :
    InstantMessage A → State A
  | .static tx msg =>
    let (actor, res) := A.handle c.actor msg await
    (s.sendReplyTo tx (.result res)).finish i { c with actor := actor, pos := .recv } env
      (some (.result res))
  | .dynamic tx fut =>
    let (actor, _, res) := A.runFuture c.actor fut await
    (s.sendReplyTo tx (.object res)).finish i { c with actor := actor, pos := .recv } env
      (some (.object res))

/-- The task is spawned before its handler is pushed. -/
def handleDelayedMsg (s : State A) (i : Nat) (c : Context A) (env : Envelope A)
    (msg : DelayedMessage A) : State A :=
  if s.sharedSender then
    (s.spawnCancelable fun cell => .delayed cell msg.toInstant false).setContext i
      { c with pos := .pushCheck env ⟨s.cells.length, none⟩ }
  else s.finish i { c with pos := .recv } env none

/-- `handle_interval_msg` up to its first await. `IntervalFutureSet::insert`
takes the key and asserts on it before it waits for the lock. -/
def handleIntervalMsg (s : State A) (i : Nat) (c : Context A) (env : Envelope A) :
    IntervalMessage A → Option (State A)
  | .run index =>
    if s.futuresLock.isSome then none
    else some ({ s with futuresLock := some i }.setContext i
      { c with pos := .intervalRun env index })
  | .remove index =>
    if s.futuresLock.isSome then none
    else some ({ s with futures := update s.futures index none }.finish i { c with pos := .recv }
      env none)
  | .register _ fut _ =>
    let key := s.nextKey
    let pos := if key < usizeMax then .insert env fut key else .panicked
    some ({ s with nextKey := (key + 1) % 2 ^ 64 }.setContext i { c with pos := pos })

def handleMsg (s : State A) (i : Nat) (c : Context A) (env : Envelope A) (await : A.Await) :
    Option (State A) :=
  match env.msg with
  | .manualShutDown tx =>
    let reply := .contextState c.id c.generation
    if s.oneShotOpen tx then
      some ((s.sendReply tx reply).finish i { c with manualShutdown := true, pos := .decActive }
        env (some reply))
    else some (s.finish i { c with pos := .recv } env none)
  | .instant msg => some (s.handleInstantMsg i c env await msg)
  | .delayed msg => some (s.handleDelayedMsg i c env msg)
  | .interval msg => s.handleIntervalMsg i c env msg

/-- The insertion under the lock, then the interval's task and its handler.
`runtime::interval` asserts that the period is not zero. -/
def insertInterval (s : State A) (i : Nat) (c : Context A) (env : Envelope A) (fut : A.Future)
    (key : Nat) : Option (State A) :=
  if s.futuresLock.isSome then none
  else
    let s' := { s with futures := update s.futures key (some fut) }
    if env.msg.zeroPeriod then some (s'.setContext i { c with pos := .panicked })
    else some ((s'.spawnCancelable fun cell => .interval cell key false false).setContext i
      { c with pos := .pushCheck env ⟨s.cells.length, some key⟩ })

/-- What follows `push_handler`: a registration sends its handler back. -/
def afterPush (s : State A) (i : Nat) (c : Context A) (env : Envelope A) (h : FutureHandler) :
    State A :=
  match env.msg with
  | .interval (.register tx _ _) => s.setContext i { c with pos := .reply env tx h }
  | _ => s.finish i { c with pos := .recv } env none

def runInterval (s : State A) (i : Nat) (c : Context A) (env : Envelope A) (index : Nat)
    (await : A.Await) : State A :=
  let s := { s with futuresLock := none }
  match s.futures index with
  | some fut =>
    let (actor, fut, res) := A.runFuture c.actor fut await
    { s with futures := update s.futures index (some fut) }.finish i
      { c with actor := actor, pos := .recv } env (some (.object res))
  | none => s.finish i { c with pos := .recv } env none

/-- The decision after the loop: a restart runs `spawn_loop` again on the same
receivers. -/
def leaveLoop (s : State A) (i : Nat) (c : Context A) : State A :=
  let (ok, active) := decActive s.active
  let s := { s with active := active }
  if ok && s.cfg.restartOnErr && !c.manualShutdown then
    s.setContext i { c with generation := c.generation + 1, pos := .onStart }
  else s.setContext i { c with pos := .onStop }

def contextStep (s : State A) (i chan : Nat) (await : A.Await) : Option (State A) :=
  match s.contexts[i]? with
  | none => none
  | some c =>
    match c.pos with
    | .build => some (s.setContext i { c with pos := .onStart })
    | .onStart => some (s.setContext i { c with pos := .incActive, starts := c.starts + 1 })
    | .incActive =>
      some ({ s with active := (incActive s.active).2 }.setContext i { c with pos := .recv })
    | .recv => s.recv i c chan
    | .handle env => s.handleMsg i c env await
    | .insert env fut key => s.insertInterval i c env fut key
    | .pushCheck env h =>
      if s.isRunning then some (s.setContext i { c with pos := .pushExtend env h })
      else some (s.afterPush i c env h)
    | .pushExtend env h =>
      if s.handlersLocked then none
      else some ({ s with handlers := s.handlers ++ [h] }.afterPush i c env h)
    | .reply env tx h =>
      some ((s.sendReply tx (.handler h)).finish i { c with pos := .recv } env (some (.handler h)))
    | .intervalRun env index => some (s.runInterval i c env index await)
    | .decActive => some (s.leaveLoop i c)
    | .onStop => some (s.setContext i { c with pos := .stopped, stops := c.stops + 1 })
    | .stopped => none
    | .panicked => none

/-- The context is inside code of the user's, which may panic. -/
def inUserCode (s : State A) (pos : Position A) : Bool :=
  match pos with
  | .build => true
  | .onStart => true
  | .onStop => true
  | .handle env =>
    match env.msg with
    | .instant _ => true
    | _ => false
  | .intervalRun _ index => (s.futures index).isSome
  | _ => false

/-- The runtime catches a panic at the task's boundary. The context is dropped
with what it has in hand, and a guard it holds is released. -/
def panicStep (s : State A) (i : Nat) : Option (State A) :=
  match s.contexts[i]? with
  | none => none
  | some c =>
    if s.inUserCode c.pos then
      let lock := if s.futuresLock == some i then none else s.futuresLock
      some ({ s with futuresLock := lock }.setContext i { c with pos := .panicked })
    else none

end State

end ActixSend
