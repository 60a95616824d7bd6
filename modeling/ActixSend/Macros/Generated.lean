import ActixSend.Macros.Agreement
import ActixSend.Sequential

/-! # A generated actor at work

The actor type that either macro writes, in an actor set. Every message that
the set handles runs the body the user wrote for it, and a caller gets what that
body yields.
-/

namespace ActixSend.Macros

open Function Transition
set_option autoImplicit false

variable {U : User}

/-- What boxed futures do to the actor, which the macros have no part in. -/
structure Futures (U : User) where
  Future : Type
  Object : Type
  Return : Type
  run : U.State → Future → U.Await → U.State × Future × Object
  unpack : Return → Object → Option U.Val

namespace Expansion
variable (x : Expansion U)

structure Message where
  value : EnumValue U.Val
  accepted : x.messageEnum.accepts value.path (fun ty => U.tyOf value.arg == ty) = true

def sourceOf (path : VariantPath) : Option Path :=
  (x.froms.find? fun imp => imp.expr == path).map FromImpl.source

/-- What a caller makes of the result; a body that panics leaves none. -/
def mapOf (ty : Option Path) (res : Except Fault (EnumValue (Value U))) :
    Option (Except ActixSendError U.Val) :=
  match ty, res with
  | some ty, .ok value => (x.runMap ty value).toOption
  | _, _ => none

def actor (rt : Runtime) (futs : Futures U) : Actor where
  State := U.State
  Message := x.Message
  Result := Except Fault (EnumValue (Value U))
  Kind := Option Path
  Output := U.Val
  Future := futs.Future
  Object := futs.Object
  Return := futs.Return
  Await := U.Await
  kind msg := x.sourceOf msg.value.path
  handle s msg await := x.runHandle rt msg.value s await
  map ty res := x.mapOf ty res
  runFuture := futs.run
  unpack := futs.unpack

end Expansion

section Expansion
variable {actor : Ident} {hs : List (UserHandler U)} {h : UserHandler U}

theorem exists_handler {msg : EnumValue U.Val}
    (haccepts : (expansion actor hs).messageEnum.accepts msg.path
      (fun ty => U.tyOf msg.arg == ty) = true) :
    ∃ h ∈ hs, msg.path = h.messagePath actor ∧ U.tyOf msg.arg = .path h.path := by
  obtain ⟨⟨enum, name⟩, arg⟩ := msg
  simp only [ItemEnum.accepts, Bool.and_eq_true, beq_iff_eq, Option.any_eq_true] at haccepts
  obtain ⟨rfl, variant, hfind, hty⟩ := haccepts
  have hname := List.find?_some hfind
  obtain ⟨h, hh, rfl⟩ := List.mem_map.mp (List.mem_of_find?_eq_some hfind)
  obtain rfl : h.message = name := beq_iff_eq.mp hname
  exact ⟨h, hh, rfl, hty⟩

theorem sourceOf_messagePath (hnodup : (hs.map UserHandler.message).Nodup) (hh : h ∈ hs) :
    (expansion actor hs).sourceOf (h.messagePath actor) = some h.path := by
  have hfind : (expansion actor hs).froms.find? (fun imp => imp.expr == h.messagePath actor) =
      some (h.fromImpl actor) :=
    find?_item FromImpl.expr _ (variantPath_injective _) (fun _ => rfl) hnodup hh
  rw [Expansion.sourceOf, hfind]
  rfl

theorem handle_generated (hnodup : (hs.map UserHandler.message).Nodup) (rt : Runtime)
    (futs : Futures U) (msg : (expansion actor hs).Message) :
    ∃ h ∈ hs, (expansion actor hs).runFrom h.path msg.value.arg = .ok msg.value ∧ ∀ s await,
      (((expansion actor hs).actor rt futs).handle s msg await).1 =
        (h.block.run msg.value.arg s await).1 ∧
      (expansion actor hs).mapOf ((expansion actor hs).sourceOf msg.value.path)
        (((expansion actor hs).actor rt futs).handle s msg await).2 =
          h.answer rt (h.block.run msg.value.arg s await).2 := by
  obtain ⟨h, hh, hpath, hty⟩ := exists_handler msg.accepted
  obtain ⟨e, hfrom, hdispatch⟩ := expansion_dispatches hnodup hh rt msg.value.arg hty
  have hvalue : e = msg.value := by
    rw [runFrom_expansion hnodup hh hty, ← hpath] at hfrom
    exact (Except.ok.inj hfrom).symm
  subst hvalue
  refine ⟨h, hh, hfrom, fun s await => ?_⟩
  obtain ⟨hstate, hresult⟩ := hdispatch s await
  refine ⟨hstate, ?_⟩
  rw [hpath, sourceOf_messagePath hnodup hh]
  cases hanswer : h.answer rt (h.block.run msg.value.arg s await).2 with
  | some res =>
    rw [hanswer] at hresult
    obtain ⟨o, ho, hmap⟩ := hresult
    simp only [Expansion.actor, Expansion.mapOf, ho, hmap]
    rfl
  | none =>
    rw [hanswer] at hresult
    simp only [Expansion.actor, Expansion.mapOf, hresult]

end Expansion

def staticMessage {A : Actor} : Request A → Option A.Message
  | .send msg => some msg
  | .entry _ _ msg => some msg
  | .item _ msg => some msg
  | _ => none

/-- What this history makes of the actors and of the stored closures when the
bodies of the messages run one after the other, and boxed futures between them. -/
inductive Bodies (hs : List (UserHandler U)) (x : Expansion U) (rt : Runtime) (futs : Futures U)
    (build : Nat → U.State) : List (Serial.Event (x.actor rt futs)) → (Nat → U.State) →
      (Nat → Option futs.Future) → Prop
  | start : Bodies hs x rt futs build [] build fun _ => none
  | accepted {es : List (Serial.Event (x.actor rt futs))} {actors : Nat → U.State}
      {store : Nat → Option futs.Future} {chan : Nat} {env : Envelope (x.actor rt futs)}
      (before : Bodies hs x rt futs build es actors store) :
      Bodies hs x rt futs build (es ++ [.accepted chan env]) actors store
  | taken {es : List (Serial.Event (x.actor rt futs))} {actors : Nat → U.State}
      {store : Nat → Option futs.Future} {y : Taken (x.actor rt futs)}
      (before : Bodies hs x rt futs build es actors store) :
      Bodies hs x rt futs build (es ++ [.taken y]) actors store
  | stored {es : List (Serial.Event (x.actor rt futs))} {actors : Nat → U.State}
      {store : Nat → Option futs.Future} {key : Nat} {fut : futs.Future}
      (before : Bodies hs x rt futs build es actors store) :
      Bodies hs x rt futs build (es ++ [.stored key fut]) actors (update store key (some fut))
  | body {es : List (Serial.Event (x.actor rt futs))} {actors : Nat → U.State}
      {store : Nat → Option futs.Future} {y : Handled (x.actor rt futs)} {tx : Option Nat}
      {msg : x.Message} {h : UserHandler U} (await : U.Await)
      (before : Bodies hs x rt futs build es actors store)
      (static : y.env.msg = .instant (.static tx msg)) (mem : h ∈ hs)
      (made : x.runFrom h.path msg.value.arg = .ok msg.value) :
      Bodies hs x rt futs build (es ++ [.handled y])
        (update actors y.context (h.block.run msg.value.arg (actors y.context) await).1) store
  | future {es : List (Serial.Event (x.actor rt futs))} {actors : Nat → U.State}
      {store store' : Nat → Option futs.Future} {y : Handled (x.actor rt futs)} {b : U.State}
      {await : U.Await} (before : Bodies hs x rt futs build es actors store)
      (other : ∀ tx msg, y.env.msg ≠ .instant (.static tx msg))
      (served : (x.actor rt futs).serve (actors y.context) store await y.env.msg =
        some (b, store', y.reply)) :
      Bodies hs x rt futs build (es ++ [.handled y]) (update actors y.context b) store'
  | settled {es : List (Serial.Event (x.actor rt futs))} {actors : Nat → U.State}
      {store : Nat → Option futs.Future} {y : Handled (x.actor rt futs)}
      (before : Bodies hs x rt futs build es actors store)
      (settles : y.env.msg.settles y.reply = true) :
      Bodies hs x rt futs build (es ++ [.handled y]) actors store

/-- The actors are what the bodies have made of them, and so are the answers to
the messages sent, broadcast or streamed that are not the channels' own. -/
structure RunsBodies (hs : List (UserHandler U)) (x : Expansion U) (rt : Runtime)
    (futs : Futures U) (build : Nat → U.State) (es : List (Serial.Event (x.actor rt futs)))
    (t : State (x.actor rt futs)) : Prop where
  handled : es.filterMap Serial.Event.isHandled = t.handled
  actors : ∃ actors, Bodies hs x rt futs build es actors t.futures ∧
    ∀ i c, t.contexts[i]? = some c → c.actor = actors i
  answers : ∀ (tx : Nat) (call : Call (x.actor rt futs)) (msg : x.Message)
      (out : Outcome (x.actor rt futs)), t.calls[tx]? = some call →
    staticMessage call.req = some msg → call.phase = .done out → out.ofChannel = false →
    ∃ h ∈ hs, x.runFrom h.path msg.value.arg = .ok msg.value ∧ ∃ before y after actors store await,
      es = before ++ .handled y :: after ∧ y.env.msg = call.req.message tx ∧
      Bodies hs x rt futs build before actors store ∧
      out = .ofMap (h.answer rt (h.block.run msg.value.arg (actors y.context) await).2)

/-- What either macro makes of the handlers, in the form it reads them in. -/
inductive Expands (actor : Ident) (hs : List (UserHandler U)) (x : Expansion U) : Prop
  | actorMod {hs₁ : List (UserHandler U)} {methods : List (Method U)}
      (handles : List.Forall₂ Method.IsHandle methods hs₁) (perm : hs₁.Perm hs)
      (expands : actorMod actor (hs.map UserHandler.messageParam) methods = some x)
  | handlerV2 {methods : List (Method U)} (handles : List.Forall₂ Method.IsHandleV2 methods hs)
      (expands : handlerV2 actor methods = some x)

section Runs
variable {actor : Ident} {hs : List (UserHandler U)} {x : Expansion U} {rt : Runtime}
  {futs : Futures U}

theorem Expands.eq (h : Expands actor hs x) (hnodup : (hs.map UserHandler.message).Nodup) :
    x = expansion actor hs := by
  cases h with
  | actorMod handles perm expands =>
    rw [actorMod_eq hnodup handles perm] at expands
    exact (Option.some.inj expands).symm
  | handlerV2 handles expands =>
    rw [handlerV2_eq handles] at expands
    exact (Option.some.inj expands).symm

theorem bodies_of_works (hnodup : (hs.map UserHandler.message).Nodup) {build : Nat → U.State}
    {es : List (Serial.Event ((expansion actor hs).actor rt futs))} {actors : Nat → U.State}
    {store : Nat → Option futs.Future}
    (h : Works ((expansion actor hs).actor rt futs) build es actors store) :
    Bodies hs (expansion actor hs) rt futs build es actors store := by
  induction h with
  | start => exact .start
  | accepted _ ih => exact .accepted ih
  | taken _ ih => exact .taken ih
  | stored _ ih => exact .stored ih
  | @serve es actors store store' y b await _ hserve ih =>
    by_cases hstatic : ∃ tx msg, y.env.msg = .instant (.static tx msg)
    · obtain ⟨tx, msg, hmsg⟩ := hstatic
      obtain ⟨h, hh, hmade, hhandle⟩ := handle_generated hnodup rt futs msg
      rw [hmsg] at hserve
      simp only [Actor.serve, Option.some.injEq, Prod.mk.injEq] at hserve
      obtain ⟨rfl, rfl, _⟩ := hserve
      rw [(hhandle (actors y.context) await).1]
      exact .body await ih hmsg hh hmade
    · exact .future ih (fun tx msg hmsg => hstatic ⟨tx, msg, hmsg⟩) hserve
  | settle _ hsettles ih => exact .settled ih hsettles

theorem staticMessage_forActor {A : Actor} {req : Request A} {msg : A.Message}
    (h : staticMessage req = some msg) :
    req.forActor = true ∧ (∀ tx, req.message tx = .instant (.static (some tx) msg)) ∧
      ∀ r, req.answer (.result r) = .ofMap (A.map (A.kind msg) r) := by
  cases req with
  | send | entry | item =>
    cases h
    exact ⟨rfl, fun _ => rfl, fun _ => rfl⟩
  | run | sendLater | runLater | runInterval | closeOne => cases h

/-- The actors that a macro generates run the user's bodies, through the whole of
the set's machinery. -/
theorem generated_runs_bodies (hx : Expands actor hs x)
    (hnodup : (hs.map UserHandler.message).Nodup) {cfg : Config} {build : Nat → U.State}
    {s t : State (x.actor rt futs)}
    {ms : List (Move (State (x.actor rt futs)) (Act (x.actor rt futs)))}
    (hstart : Started cfg build s) (h : Transition.Path step s ms t) :
    RunsBodies hs x rt futs build (ms.flatMap history) t := by
  obtain rfl := hx.eq hnodup
  refine ⟨hstart.handled_history h, ?_, ?_⟩
  · obtain ⟨ns, hpath, hshows⟩ := hstart.exists_serial h
    obtain ⟨actors, hactors, hworks⟩ := Serial.works hpath
    rw [hshows] at hworks
    exact ⟨actors, bodies_of_works hnodup hworks,
      fun i c hc => (hactors i _ _ (serial_actor hc)).symm⟩
  · intro tx call msg out hc hmsg hphase hout
    obtain ⟨hreq, hmessage, hanswer⟩ := staticMessage_forActor hmsg
    obtain ⟨h', hh, hmade, hhandle⟩ := handle_generated hnodup rt futs msg
    rcases (outcomeInv_of_path hstart h).answered_or_dead hc (forActor_awaits hreq) hphase with
      ⟨y, hy, hymsg, reply, hreply, rfl⟩ | ⟨hchannel, _⟩
    · have hsettles : y.env.msg.settles y.reply = false := by
        rw [hymsg]
        exact forActor_serves hreq
      obtain ⟨before, after, actors, store, await, actor', store', hsplit, hworks, hserve⟩ :=
        hstart.exists_served h hy hsettles
      rw [hymsg, hmessage, hreply] at hserve
      simp only [Actor.serve, Option.some.injEq, Prod.mk.injEq] at hserve
      obtain ⟨_, _, rfl⟩ := hserve
      refine ⟨h', hh, hmade, before, y, after, actors, store, await, hsplit, hymsg,
        bodies_of_works hnodup hworks, ?_⟩
      rw [hanswer, ← (hhandle (actors y.context) await).2]
      rfl
    · rw [hchannel] at hout
      cases hout

def noFutures (U : User) : Futures U where
  Future := Empty
  Object := Unit
  Return := Unit
  run _ fut _ := fut.elim
  unpack _ _ := none

def counterExpansion : Expansion counterUser := expansion "Counter" [pingHandler, hashHandler]

abbrev counterActor : Actor := counterExpansion.actor .tokio (noFutures counterUser)

def pingMessage : counterExpansion.Message :=
  ⟨⟨⟨"CounterMessage", "Ping"⟩, ("Ping", (0 : Nat))⟩, by decide⟩

def hashMessage : counterExpansion.Message :=
  ⟨⟨⟨"CounterMessage", "Hash"⟩, ("Hash", (7 : Nat))⟩, by decide⟩

def counterStart : State counterActor := Builder.start Config.default fun _ => (5 : Nat)

def gotValue (v : Ident × Nat) (call : Call counterActor) : Bool :=
  match call.phase with
  | .done (.ok (.output o)) =>
    let o : Ident × Nat := o
    o == v
  | _ => false

/-- The count before the first of two pings, and a hash from the blocking handler. -/
theorem generated_runs_bodies_counter : ∃ ms t, Transition.Path step counterStart ms t ∧
    (t.calls.map (gotValue ("u8", 5))) = [true, false] ∧
    (t.calls.map (gotValue ("u64", 7))) = [false, true] ∧
    RunsBodies [pingHandler, hashHandler] counterExpansion .tokio (noFutures counterUser)
      (fun _ => (5 : Nat)) (ms.flatMap history) t := by
  obtain ⟨ms, t, hpath, _, _, hq⟩ := exists_path_of_checkedRun step counterStart
    [.context 0 0 (), .context 0 0 (), .request (.call 0 (.send pingMessage)),
      .request (.send 0), .request (.call 0 (.send hashMessage)), .request (.send 1),
      .context 0 0 (), .context 0 0 (), .context 0 0 (), .context 0 0 (), .request (.receive 0),
      .request (.receive 1)]
    (fun _ _ _ => true)
    (fun t => t.calls.map (gotValue ("u8", 5)) == [true, false] &&
      t.calls.map (gotValue ("u64", 7)) == [false, true]) (by decide)
  rw [Bool.and_eq_true, beq_iff_eq, beq_iff_eq] at hq
  have hhandles : List.Forall₂ Method.IsHandleV2 [pingHandler.method, hashHandler.method]
      [pingHandler, hashHandler] :=
    .cons ⟨⟨rfl, rfl⟩, rfl, rfl⟩ (.cons ⟨⟨rfl, rfl⟩, rfl, rfl⟩ .nil)
  have hexpands : Expands "Counter" [pingHandler, hashHandler] counterExpansion :=
    .handlerV2 hhandles (handlerV2_eq hhandles)
  exact ⟨ms, t, hpath, hq.1, hq.2, generated_runs_bodies hexpands (by decide) .start hpath⟩

end Runs

end ActixSend.Macros
