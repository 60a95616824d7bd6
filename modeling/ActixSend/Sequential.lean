import ActixSend.Serial

/-! # Runs of an actor set as runs of its actors

The answers that callers get are those of actors that serve one message after
the other, and an actor is what its own messages have made of it, through
restarts of its context and next to all the others.
-/

namespace ActixSend

open Function Transition
set_option autoImplicit false

variable {A : Actor}

namespace Serial

def Event.isAccepted : Event A → Option (Nat × Envelope A)
  | .accepted chan env => some (chan, env)
  | _ => none

def Event.isTaken : Event A → Option (Taken A)
  | .taken x => some x
  | _ => none

def Event.isHandled : Event A → Option (Handled A)
  | .handled x => some x
  | _ => none

theorem handled_of_step {u v : Serial A} {b : Act A} {x : Handled A} (h : step u b = some v)
    (hx : .handled x ∈ seen ⟨u, b, v⟩) :
    ∃ actor actor', u.actors[x.context]? = some (.busy x.env, actor) ∧
      seen ⟨u, b, v⟩ = [.handled x] ∧
      ((∃ await store, A.serve actor u.store await x.env.msg = some (actor', store, x.reply)) ∨
        x.env.msg.settles x.reply = true) := by
  cases b with
  | post chan env => simp [seen] at hx
  | take i chan => simp [seen] at hx
  | put i key | putLose i key =>
    simp only [seen] at hx
    split at hx <;> simp at hx
  | lose i => simp [seen] at hx
  | serve i await =>
    simp only [step] at h
    split at h
    · rename_i env actor hi
      obtain ⟨⟨actor', store, reply⟩, hserve, rfl⟩ := Option.map_eq_some_iff.mp h
      simp only [seen, hi, hserve, Option.toList_some, List.map_singleton, List.mem_singleton,
        Event.handled.injEq] at hx ⊢
      subst hx
      exact ⟨actor, actor', hi, rfl, .inl ⟨await, store, hserve⟩⟩
    · cases h
  | settle i reply =>
    simp only [step] at h
    split at h
    · rename_i env actor hi
      split at h
      · rename_i hsettles
        cases h
        simp only [seen, hi, List.mem_singleton, Event.handled.injEq] at hx ⊢
        subst hx
        exact ⟨actor, actor, hi, rfl, .inr hsettles⟩
      · cases h
    · cases h

end Serial

/-- What this history makes of the actors and of the stored closures: an actor
serves its own messages one after the other, and a message that runs or removes
a closure finds what the history has stored by then. -/
inductive Works (A : Actor) (build : Nat → A.State) :
    List (Serial.Event A) → (Nat → A.State) → (Nat → Option A.Future) → Prop
  | start : Works A build [] build fun _ => none
  | accepted {es : List (Serial.Event A)} {actors : Nat → A.State} {store : Nat → Option A.Future}
      {chan : Nat} {env : Envelope A} (h : Works A build es actors store) :
      Works A build (es ++ [.accepted chan env]) actors store
  | taken {es : List (Serial.Event A)} {actors : Nat → A.State} {store : Nat → Option A.Future}
      {x : Taken A} (h : Works A build es actors store) :
      Works A build (es ++ [.taken x]) actors store
  | stored {es : List (Serial.Event A)} {actors : Nat → A.State} {store : Nat → Option A.Future}
      {key : Nat} {fut : A.Future} (h : Works A build es actors store) :
      Works A build (es ++ [.stored key fut]) actors (update store key (some fut))
  | serve {es : List (Serial.Event A)} {actors : Nat → A.State}
      {store store' : Nat → Option A.Future} {x : Handled A} {actor : A.State} {await : A.Await}
      (h : Works A build es actors store)
      (hx : A.serve (actors x.context) store await x.env.msg = some (actor, store', x.reply)) :
      Works A build (es ++ [.handled x]) (update actors x.context actor) store'
  | settle {es : List (Serial.Event A)} {actors : Nat → A.State} {store : Nat → Option A.Future}
      {x : Handled A} (h : Works A build es actors store)
      (hx : x.env.msg.settles x.reply = true) : Works A build (es ++ [.handled x]) actors store

namespace Serial

def Has (u : Serial A) (actors : Nat → A.State) : Prop :=
  ∀ i worker actor, u.actors[i]? = some (worker, actor) → actors i = actor

theorem Has.setActor {u : Serial A} {actors : Nat → A.State} (hu : u.Has actors) {i : Nat}
    {worker worker' : Worker (Envelope A)} {actor : A.State}
    (hi : u.actors[i]? = some (worker, actor)) : (u.setActor i worker' actor).Has actors := by
  intro j w a hj
  rcases getElem?_set_cases hj with ⟨rfl, heq⟩ | ⟨_, hj⟩
  · cases heq
    exact hu _ worker _ hi
  · exact hu j w a hj

theorem Has.update {u : Serial A} {actors : Nat → A.State} (hu : u.Has actors) {i : Nat}
    {worker : Worker (Envelope A)} {actor : A.State} :
    (u.setActor i worker actor).Has (Function.update actors i actor) := by
  intro j w a hj
  rcases getElem?_set_cases hj with ⟨rfl, heq⟩ | ⟨hne, hj⟩
  · cases heq
    rw [update_self]
  · rw [update_of_ne hne]
    exact hu j w a hj

theorem works_step {build actors : Nat → A.State} {es : List (Event A)} {u v : Serial A}
    {b : Act A} (h : step u b = some v) (hu : u.Has actors)
    (hworks : Works A build es actors u.store) :
    ∃ actors', v.Has actors' ∧ Works A build (es ++ seen ⟨u, b, v⟩) actors' v.store := by
  cases b with
  | post chan env =>
    cases h
    exact ⟨actors, hu, hworks.accepted⟩
  | take i chan =>
    simp only [step] at h
    split at h
    · rename_i actor env rest hi hmail
      cases h
      simp only [seen, hmail]
      exact ⟨actors, Has.setActor (u := { u with mail := _ }) hu hi, hworks.taken⟩
    · cases h
  | put i key =>
    simp only [step] at h
    split at h
    · rename_i hi
      cases h
      simp only [seen, hi]
      exact ⟨actors, hu, hworks.stored⟩
    · cases h
  | serve i await =>
    simp only [step] at h
    split at h
    · rename_i env actor hi
      obtain ⟨⟨actor', store, reply⟩, hserve, rfl⟩ := Option.map_eq_some_iff.mp h
      obtain rfl := hu i _ _ hi
      simp only [seen, hi, hserve]
      exact ⟨_, Has.update (u := { u with store := store }) hu,
        hworks.serve (x := ⟨i, env, reply⟩) hserve⟩
    · cases h
  | settle i reply =>
    simp only [step] at h
    split at h
    · rename_i env actor hi
      split at h
      · rename_i hsettles
        cases h
        simp only [seen, hi]
        exact ⟨actors, hu.setActor hi, hworks.settle (x := ⟨i, env, reply⟩) hsettles⟩
      · cases h
    · cases h
  | putLose i key =>
    simp only [step] at h
    split at h
    · rename_i hi
      cases h
      simp only [seen, hi]
      exact ⟨actors, Has.setActor (u := { u with store := _ }) hu hi, hworks.stored⟩
    · cases h
  | lose i =>
    simp only [step] at h
    split at h
    · rename_i worker actor hi
      cases h
      refine ⟨actors, hu.setActor hi, ?_⟩
      rwa [seen, List.append_nil]
    · cases h

theorem has_start (cfg : Config) (build : Nat → A.State) : (start cfg build).Has build := by
  intro i worker actor hi
  simp only [start, List.getElem?_map, Option.map_eq_some_iff] at hi
  obtain ⟨j, hj, heq⟩ := hi
  obtain ⟨_, rfl⟩ := List.getElem?_eq_some_iff.mp hj
  rw [List.getElem_range] at heq
  exact congrArg Prod.snd heq

theorem works {cfg : Config} {build : Nat → A.State} {u : Serial A}
    {ns : List (Move (Serial A) (Act A))} (h : Path step (start cfg build) ns u) :
    ∃ actors, u.Has actors ∧ Works A build (ns.flatMap seen) actors u.store := by
  induction h with
  | nil => exact ⟨build, has_start cfg build, .start⟩
  | snoc _ hstep ih =>
    obtain ⟨actors, hu, hworks⟩ := ih
    obtain ⟨actors', hv, hworks'⟩ := works_step hstep hu hworks
    rw [List.flatMap_append, List.flatMap_singleton]
    exact ⟨actors', hv, hworks'⟩

end Serial

theorem Started.serial_eq {cfg : Config} {build : Nat → A.State} {s : State A}
    (h : Started cfg build s) : s.serial = .start cfg build := by
  have hwired : ∀ (pos : Position A), pos.worker = .idle →
      ((wired cfg build pos cfg.num).finish cfg).serial = .start cfg build := by
    intro pos hpos
    simp only [State.serial, Serial.start, Wiring.finish, wired_contexts, List.map_map,
      Function.comp_def, Context.new, hpos]
  cases h with
  | start => rw [start_eq, hwired .onStart rfl]
  | startWithArbiters h =>
    unfold Builder.startWithArbiters at h
    split at h
    · rename_i hnum
      split at h
      · cases h
        simp only [Serial.start, hnum]
        rfl
      · cases h
    · simp only at h
      split at h
      · cases h
        exact hwired .build rfl
      · cases h

theorem Moves.accepted_extends {s t : State A} {act : Act A} (h : Moves s act t) :
    s.accepted <+: t.accepted := by
  rcases h.channelMove.accepted_cases with hsame | ⟨_, _, _, hsnoc⟩
  · exact ⟨[], by rw [hsame, List.append_nil]⟩
  · exact ⟨_, hsnoc.symm⟩

theorem Moves.taken_extends {s t : State A} {act : Act A} (h : Moves s act t) :
    s.taken <+: t.taken := by
  have hinj : Injective fun x : Taken A => (x.context, x.chan, x.env) := by
    rintro ⟨i, chan, env⟩ ⟨i', chan', env'⟩ heq
    cases heq
    rfl
  rcases h.channelMove.taken_cases with hsame | ⟨i, c, chan, env, _, _, hsnoc⟩
  · exact ⟨[], by rw [List.append_nil, List.map_injective_iff.mpr hinj hsame]⟩
  · have heq : t.taken.map (fun x : Taken A => (x.context, x.chan, x.env)) =
        (s.taken ++ [Taken.mk i chan env]).map fun x : Taken A => (x.context, x.chan, x.env) := by
      rw [List.map_append]
      exact hsnoc
    exact ⟨[⟨i, chan, env⟩], (List.map_injective_iff.mpr hinj heq).symm⟩

theorem history_filterMap {ε : Type} {f : Serial.Event A → Option ε} {log : State A → List ε}
    {ms : List (Move (State A) (Act A))}
    (hf : ∀ m : Move (State A) (Act A), (history m).filterMap f = added log m) :
    (ms.flatMap history).filterMap f = ms.flatMap (added log) := by
  induction ms with
  | nil => rfl
  | cons m ms ih =>
    rw [List.flatMap_cons, List.flatMap_cons, List.filterMap_append, ih, hf]

theorem history_accepted (m : Move (State A) (Act A)) :
    (history m).filterMap Serial.Event.isAccepted = added State.accepted m := by
  simp [history, List.filterMap_append, List.filterMap_map, Function.comp_def,
    Serial.Event.isAccepted]

theorem history_taken (m : Move (State A) (Act A)) :
    (history m).filterMap Serial.Event.isTaken = added State.taken m := by
  simp [history, List.filterMap_append, List.filterMap_map, Function.comp_def,
    Serial.Event.isTaken]

theorem history_handled (m : Move (State A) (Act A)) :
    (history m).filterMap Serial.Event.isHandled = added State.handled m := by
  simp [history, List.filterMap_append, List.filterMap_map, Function.comp_def,
    Serial.Event.isHandled]

section Runs
variable {cfg : Config} {build : Nat → A.State} {s t : State A}
  {ms : List (Move (State A) (Act A))}

theorem Started.serialInv (h : Started cfg build s) : SerialInv s := by
  refine ⟨h.oneshotInv.request, ?_⟩
  obtain ⟨w, rfl, hnew⟩ := h.exists_wiring
  intro c hc
  obtain ⟨_, _, _, pos, rfl, rfl | rfl⟩ := hnew c hc
  · trivial
  · trivial

theorem Started.exists_serial (hstart : Started cfg build s) (h : Path step s ms t) :
    ∃ ns, Path Serial.step (.start cfg build) ns t.serial ∧
      ns.flatMap Serial.seen = ms.flatMap history := by
  have hpath := actors_refine.exists_path hstart.serialInv h
  rwa [hstart.serial_eq] at hpath

theorem Started.handled_history (hstart : Started cfg build s) (h : Path step s ms t) :
    (ms.flatMap history).filterMap Serial.Event.isHandled = t.handled := by
  have hlog := h.log_eq State.handled fun _ _ _ hstep =>
    (Moves.of_step hstep).handled_extends
  obtain ⟨w, rfl, _⟩ := hstart.exists_wiring
  rw [history_filterMap history_handled, hlog]
  rfl

def Request.forActor : Request A → Bool
  | .send _ => true
  | .run _ _ => true
  | .entry _ _ _ => true
  | .item _ _ => true
  | _ => false

theorem forActor_awaits {req : Request A} (h : req.forActor = true) :
    req.awaitsReply = true := by
  cases req with
  | send | run | entry | item => rfl
  | sendLater | runLater | runInterval | closeOne => cases h

theorem forActor_serves {req : Request A} {tx : Nat} {reply : Option (Reply A)}
    (h : req.forActor = true) : (req.message tx).settles reply = false := by
  cases req with
  | send | run | entry | item => rfl
  | sendLater | runLater | runInterval | closeOne => cases h

/-- An actor that adds up the numbers it is sent; a future adds its own number,
one more each time. -/
def tallyActor : Actor where
  State := Nat
  Message := Nat
  Result := Nat
  Kind := Unit
  Output := Nat
  Future := Nat
  Object := Nat
  Return := Unit
  Await := Unit
  kind _ := ()
  handle total n _ := (total + n, total + n)
  map _ res := some (.ok res)
  runFuture total fut _ := (total + fut, fut + 1, total + fut)
  unpack _ obj := some obj

def tallyStart : State tallyActor := Builder.start Config.default fun _ => (0 : Nat)

def tallyActs : List (Act tallyActor) :=
  [.context 0 0 (), .context 0 0 (), .request (.call 0 (.send (3 : Nat))),
    .request (.call 0 (.send (4 : Nat))), .request (.send 1), .request (.send 0), .context 0 0 (),
    .context 0 0 (), .context 0 0 (), .context 0 0 (), .request (.receive 0)]

def gotTotal (total : Nat) (call : Call tallyActor) : Bool :=
  match call.req, call.phase with
  | .send _, .done (.ok (.output o)) => Nat.beq o total
  | _, _ => false

theorem gotTotal_iff {total : Nat} {call : Call tallyActor} (h : gotTotal total call = true) :
    call.req.forActor = true ∧ call.phase = .done (.ok (.output total)) := by
  unfold gotTotal at h
  split at h
  · rename_i o hreq hphase
    rw [hreq, hphase, Nat.eq_of_beq_eq_true h]
    exact ⟨rfl, rfl⟩
  · cases h

theorem exists_tally_run : ∃ ms t, Path step tallyStart ms t ∧ t.handled.length = 2 ∧
    ∃ call, t.calls[0]? = some call ∧ gotTotal 7 call = true := by
  obtain ⟨ms, t, hpath, _, _, hq⟩ := exists_path_of_checkedRun step tallyStart tallyActs
    (fun _ _ _ => true)
    (fun t => t.handled.length == 2 && t.calls[0]?.any (gotTotal 7)) (by decide)
  rw [Bool.and_eq_true, beq_iff_eq] at hq
  obtain ⟨call, hcall, hgot⟩ := (Option.any_eq_true _ _).mp hq.2
  exact ⟨ms, t, hpath, hq.1, call, hcall, hgot⟩

/-- What a run of actors that serve one message at a time has to show for it. -/
structure SerialRun (cfg : Config) (build : Nat → A.State) (ms : List (Move (State A) (Act A)))
    (t : State A) (ns : List (Move (Serial A) (Serial.Act A))) : Prop where
  path : Path Serial.step (.start cfg build) ns t.serial
  shows : ns.flatMap Serial.seen = ms.flatMap history
  accepted : (ns.flatMap Serial.seen).filterMap Serial.Event.isAccepted = t.accepted
  taken : (ns.flatMap Serial.seen).filterMap Serial.Event.isTaken = t.taken
  handled : (ns.flatMap Serial.seen).filterMap Serial.Event.isHandled = t.handled

theorem runs_serially (hstart : Started cfg build s) (h : Path step s ms t) :
    ∃ ns, SerialRun cfg build ms t ns := by
  obtain ⟨ns, hpath, hshows⟩ := hstart.exists_serial h
  have haccepted := h.log_eq State.accepted fun _ _ _ hstep =>
    (Moves.of_step hstep).accepted_extends
  have htaken := h.log_eq State.taken fun _ _ _ hstep =>
    (Moves.of_step hstep).taken_extends
  have hhandled := hstart.handled_history h
  obtain ⟨w, rfl, _⟩ := hstart.exists_wiring
  refine ⟨ns, hpath, hshows, ?_, ?_, by rw [hshows, hhandled]⟩
  · rw [hshows, history_filterMap history_accepted, haccepted]
    rfl
  · rw [hshows, history_filterMap history_taken, htaken]
    rfl

theorem runs_serially_tally : ∃ ms t, Path step tallyStart ms t ∧ t.handled.length = 2 ∧
    ∃ ns, SerialRun Config.default (fun _ => (0 : Nat)) ms t ns := by
  obtain ⟨ms, t, hpath, hhandled, _, _, _⟩ := exists_tally_run
  exact ⟨ms, t, hpath, hhandled, runs_serially .start hpath⟩

/-- The actors of the contexts and the interval closures are what the messages
handled in this order have made of them. -/
theorem actor_works (hstart : Started cfg build s) (h : Path step s ms t) :
    ∃ actors, Works A build (ms.flatMap history) actors t.futures ∧
      (ms.flatMap history).filterMap Serial.Event.isHandled = t.handled ∧
      ∀ i c, t.contexts[i]? = some c → c.actor = actors i := by
  obtain ⟨ns, hpath, hshows⟩ := hstart.exists_serial h
  obtain ⟨actors, hactors, hworks⟩ := Serial.works hpath
  rw [hshows] at hworks
  exact ⟨actors, hworks, hstart.handled_history h,
    fun i c hc => (hactors i _ _ (serial_actor hc)).symm⟩

/-- An interval of 5 is started, and two ticks of it are handled. -/
def tallyIntervalActs : List (Act tallyActor) :=
  [.context 0 0 (), .context 0 0 (), .request (.call 0 (.runInterval 1 (5 : Nat))),
    .request (.send 0), .context 0 0 (), .context 0 0 (), .context 0 0 (), .context 0 0 (),
    .context 0 0 (), .context 0 0 (), .elapse 0, .poll 0, .poll 0, .context 0 0 (),
    .context 0 0 (), .context 0 0 (), .elapse 0, .poll 0, .poll 0, .context 0 0 (),
    .context 0 0 (), .context 0 0 ()]

def Handled.isRun (x : Handled A) : Bool :=
  match x.env.msg with
  | .interval (.run _) => true
  | _ => false

/-- The second run finds the closure as the first one has left it: 5, then 6. -/
theorem actor_works_tally : ∃ ms t, Path step tallyStart ms t ∧
    t.handled.countP Handled.isRun = 2 ∧
    (∃ c, t.contexts[0]? = some c ∧ c.actor = (11 : Nat)) ∧
    ∃ actors, Works tallyActor (fun _ => (0 : Nat)) (ms.flatMap history) actors t.futures ∧
      (ms.flatMap history).filterMap Serial.Event.isHandled = t.handled ∧
      ∀ i c, t.contexts[i]? = some c → c.actor = actors i := by
  obtain ⟨ms, t, hpath, _, _, hq⟩ := exists_path_of_checkedRun step tallyStart tallyIntervalActs
    (fun _ _ _ => true)
    (fun t => t.handled.countP Handled.isRun == 2 &&
      t.contexts[0]?.any fun c => Nat.beq c.actor 11) (by decide)
  rw [Bool.and_eq_true, beq_iff_eq] at hq
  obtain ⟨c, hc, hactor⟩ := (Option.any_eq_true _ _).mp hq.2
  exact ⟨ms, t, hpath, hq.1, ⟨c, hc, Nat.eq_of_beq_eq_true hactor⟩, actor_works .start hpath⟩

theorem Started.exists_served (hstart : Started cfg build s) (h : Path step s ms t)
    {x : Handled A} (hx : x ∈ t.handled) (hsettles : x.env.msg.settles x.reply = false) :
    ∃ before after actors store await actor' store',
      ms.flatMap history = before ++ .handled x :: after ∧ Works A build before actors store ∧
      A.serve (actors x.context) store await x.env.msg = some (actor', store', x.reply) := by
  obtain ⟨ns, hpath, hshows⟩ := hstart.exists_serial h
  rw [← hstart.handled_history h, ← hshows] at hx
  obtain ⟨e, he, hex⟩ := List.mem_filterMap.mp hx
  obtain ⟨m, hm, hseen⟩ := List.mem_flatMap.mp he
  obtain rfl : e = .handled x := by
    cases e <;> cases hex
    rfl
  obtain ⟨ps, qs, rfl, hps, hstep, _⟩ := hpath.exists_split hm
  obtain ⟨actor, actor', hat, hshown, hserve⟩ := Serial.handled_of_step hstep hseen
  rcases hserve with ⟨await, store', hserve⟩ | hsettled
  · obtain ⟨actors, hactors, hworks⟩ := Serial.works hps
    rw [← hactors _ _ _ hat] at hserve
    refine ⟨_, qs.flatMap Serial.seen, actors, m.src.store, await, actor', store', ?_, hworks,
      hserve⟩
    rw [← hshows, List.flatMap_append, List.flatMap_cons,
      show Serial.seen m = [.handled x] from hshown]
    rfl
  · rw [hsettled] at hsettles
    cases hsettles

theorem outcomeInv_of_path (hstart : Started cfg build s) (h : Path step s ms t) : OutcomeInv t :=
  h.invariant hstart.outcomeInv fun _ _ _ hstep hu => hu.step hstep

/-- A request ends with what the caller makes of a reply to its message, or with
an error of the channels. -/
theorem OutcomeInv.answered_or_dead (hs : OutcomeInv t) {tx : Nat} {call : Call A}
    {out : Outcome A} (hc : t.calls[tx]? = some call) (hawaits : call.req.awaitsReply = true)
    (hphase : call.phase = .done out) :
    (∃ x ∈ t.handled, x.env.msg = call.req.message tx ∧
      ∃ reply, x.reply = some reply ∧ out = call.req.answer reply) ∨
      out.ofChannel = true ∧ Dead t tx := by
  have hfate := hs.fate tx call hc hawaits
  simp only [Fate, hphase] at hfate
  rcases hfate with ⟨x, hx, htx, hreply⟩ | hdead
  · obtain ⟨chan, haccepted⟩ := hs.oneshot.accepted_of_handled hx
    obtain ⟨call', hc', _, hmsg, _⟩ := hs.oneshot.request.sent chan x.env haccepted tx htx
    obtain rfl := Option.some.inj (hc.symm.trans hc')
    exact .inl ⟨x, hx, hmsg, hreply⟩
  · exact .inr hdead

/-- Every answer that is not the channels' own is that of an actor that has
served, one after the other, what its context handled before. -/
theorem answers_served (hstart : Started cfg build s) (h : Path step s ms t) {tx : Nat}
    {call : Call A} {out : Outcome A} (hc : t.calls[tx]? = some call)
    (hreq : call.req.forActor = true) (hphase : call.phase = .done out)
    (hout : out.ofChannel = false) :
    ∃ before x after actors store await actor' store' reply,
      ms.flatMap history = before ++ .handled x :: after ∧
      t.handled = before.filterMap Serial.Event.isHandled ++
        x :: after.filterMap Serial.Event.isHandled ∧
      x.env.msg = call.req.message tx ∧ Works A build before actors store ∧
      A.serve (actors x.context) store await x.env.msg = some (actor', store', some reply) ∧
      out = call.req.answer reply := by
  have hs := outcomeInv_of_path hstart h
  rcases hs.answered_or_dead hc (forActor_awaits hreq) hphase with
    ⟨x, hx, hmsg, reply, hreply, hanswer⟩ | ⟨hchannel, _⟩
  · have hsettles : x.env.msg.settles x.reply = false := by
      rw [hmsg]
      exact forActor_serves hreq
    obtain ⟨before, after, actors, store, await, actor', store', hsplit, hworks, hserve⟩ :=
      hstart.exists_served h hx hsettles
    rw [hreply] at hserve
    refine ⟨before, x, after, actors, store, await, actor', store', reply, hsplit, ?_, hmsg,
      hworks, hserve, hanswer⟩
    rw [← hstart.handled_history h, hsplit, List.filterMap_append, List.filterMap_cons]
    rfl
  · rw [hchannel] at hout
    cases hout

theorem answers_served_tally : ∃ ms t, Path step tallyStart ms t ∧ ∃ call : Call tallyActor,
    t.calls[0]? = some call ∧ call.phase = .done (.ok (.output (7 : Nat))) ∧
    ∃ before x after actors store await actor' store' reply,
      ms.flatMap history = before ++ .handled x :: after ∧
      t.handled = before.filterMap Serial.Event.isHandled ++
        x :: after.filterMap Serial.Event.isHandled ∧
      x.env.msg = call.req.message 0 ∧
      Works tallyActor (fun _ => (0 : Nat)) before actors store ∧
      tallyActor.serve (actors x.context) store await x.env.msg =
        some (actor', store', some reply) ∧
      .ok (.output (7 : Nat)) = call.req.answer reply := by
  obtain ⟨ms, t, hpath, _, call, hcall, hgot⟩ := exists_tally_run
  obtain ⟨hreq, hphase⟩ := gotTotal_iff hgot
  exact ⟨ms, t, hpath, call, hcall, hphase, answers_served .start hpath hcall hreq hphase rfl⟩

end Runs

end ActixSend
