import ActixSend.Outcome
import ActixSend.Transition.Refinement

/-! # Actors that work one message at a time

What an actor set is for, without its locks, spawned tasks and awaits: mail
comes first in first out from every channel, each actor has at most one message
in hand, and serving it is one step that depends on nothing but the actor and
the stored interval closures. Every run of the actor set is a run of such
actors that accepts, takes and serves the same messages in the same order with
the same replies.
-/

namespace ActixSend

open Function Transition
set_option autoImplicit false

variable {A : Actor}

structure Serial (A : Actor) where
  mail : Nat → List (Envelope A)
  actors : List (Worker (Envelope A) × A.State)
  store : Nat → Option A.Future

/-- What serving a message leaves of the actor and of the stored closures, and
the reply; `none` for a message that is for the context and not for its actor. -/
def Actor.serve (A : Actor) (actor : A.State) (store : Nat → Option A.Future) (await : A.Await) :
    ContextMessage A → Option (A.State × (Nat → Option A.Future) × Option (Reply A))
  | .instant (.static _ msg) =>
    let (actor, res) := A.handle actor msg await
    some (actor, store, some (.result res))
  | .instant (.dynamic _ fut) =>
    let (actor, _, res) := A.runFuture actor fut await
    some (actor, store, some (.object res))
  | .interval (.run index) =>
    match store index with
    | some fut =>
      let (actor, fut, res) := A.runFuture actor fut await
      some (actor, update store index (some fut), some (.object res))
    | none => some (actor, store, none)
  | .interval (.remove index) => some (actor, update store index none, none)
  | _ => none

/-- The replies to a message that is for the context. -/
def ContextMessage.settles : ContextMessage A → Option (Reply A) → Bool
  | .manualShutDown _, none => true
  | .manualShutDown _, some (.contextState _ _) => true
  | .delayed _, none => true
  | .interval (.register _ _ _), some (.handler _) => true
  | _, _ => false

namespace Serial

inductive Act (A : Actor)
  | post (chan : Nat) (env : Envelope A)
  | take (i chan : Nat)
  | put (i key : Nat)
  | serve (i : Nat) (await : A.Await)
  | settle (i : Nat) (reply : Option (Reply A))
  | lose (i : Nat)
  | putLose (i key : Nat)

inductive Event (A : Actor)
  | accepted (chan : Nat) (env : Envelope A)
  | taken (x : Taken A)
  | handled (x : Handled A)
  | stored (key : Nat) (fut : A.Future)

def setActor (s : Serial A) (i : Nat) (worker : Worker (Envelope A)) (actor : A.State) : Serial A :=
  { s with actors := s.actors.set i (worker, actor) }

def step (s : Serial A) : Act A → Option (Serial A)
  | .post chan env => some { s with mail := update s.mail chan (s.mail chan ++ [env]) }
  | .take i chan =>
    match s.actors[i]?, s.mail chan with
    | some (.idle, actor), env :: rest =>
      some ({ s with mail := update s.mail chan rest }.setActor i (.busy env) actor)
    | _, _ => none
  | .put i key =>
    match s.actors[i]? with
    | some (.busy ⟨_, .interval (.register _ fut _)⟩, _) =>
      some { s with store := update s.store key (some fut) }
    | _ => none
  | .serve i await =>
    match s.actors[i]? with
    | some (.busy env, actor) =>
      (A.serve actor s.store await env.msg).map fun (actor, store, _) =>
        { s with store := store }.setActor i .idle actor
    | _ => none
  | .settle i reply =>
    match s.actors[i]? with
    | some (.busy env, actor) =>
      if env.msg.settles reply then some (s.setActor i .idle actor) else none
    | _ => none
  | .lose i =>
    match s.actors[i]? with
    | some (_, actor) => some (s.setActor i .lost actor)
    | none => none
  | .putLose i key =>
    match s.actors[i]? with
    | some (.busy ⟨_, .interval (.register _ fut _)⟩, actor) =>
      some ({ s with store := update s.store key (some fut) }.setActor i .lost actor)
    | _ => none

def seen (m : Move (Serial A) (Act A)) : List (Event A) :=
  match m.act with
  | .post chan env => [.accepted chan env]
  | .take i chan => (m.src.mail chan).head?.toList.map fun env => .taken ⟨i, chan, env⟩
  | .serve i await =>
    match m.src.actors[i]? with
    | some (.busy env, actor) =>
      (A.serve actor m.src.store await env.msg).toList.map fun r => .handled ⟨i, env, r.2.2⟩
    | _ => []
  | .settle i reply =>
    match m.src.actors[i]? with
    | some (.busy env, _) => [.handled ⟨i, env, reply⟩]
    | _ => []
  | .put i key | .putLose i key =>
    match m.src.actors[i]? with
    | some (.busy ⟨_, .interval (.register _ fut _)⟩, _) => [.stored key fut]
    | _ => []
  | .lose _ => []

def start (cfg : Config) (build : Nat → A.State) : Serial A where
  mail := fun _ => []
  actors := (List.range cfg.num).map fun i => (.idle, build i)
  store := fun _ => none

end Serial

def State.serial (s : State A) : Serial A where
  mail := s.queue
  actors := s.contexts.map fun c => (c.pos.worker, c.actor)
  store := s.futures

def Position.storing : Position A → List (Nat × A.Future)
  | .insert _ fut key => [(key, fut)]
  | _ => []

/-- The interval closure that a step puts into the set. -/
def State.storing (s : State A) : Act A → List (Nat × A.Future)
  | .context i _ _ => (s.contexts[i]?.map fun c => c.pos.storing).getD []
  | _ => []

def history (m : Move (State A) (Act A)) : List (Serial.Event A) :=
  (added State.accepted m).map (fun x => .accepted x.1 x.2) ++
    ((added State.taken m).map .taken ++ ((added State.handled m).map .handled ++
      (m.src.storing m.act).map fun x => .stored x.1 x.2))

theorem serial_set {s t : State A} {i : Nat} {c' : Context A}
    (h : t.contexts = s.contexts.set i c') :
    t.serial = ⟨t.queue, s.serial.actors.set i (c'.pos.worker, c'.actor), t.futures⟩ := by
  simp only [State.serial, h, List.map_set]

theorem serial_actor {s : State A} {i : Nat} {c : Context A} (hc : s.contexts[i]? = some c) :
    s.serial.actors[i]? = some (c.pos.worker, c.actor) := by
  rw [State.serial, List.getElem?_map, hc, Option.map_some]

theorem storing_context {s : State A} {i : Nat} {c : Context A} (hc : s.contexts[i]? = some c)
    (chan : Nat) (await : A.Await) : s.storing (.context i chan await) = c.pos.storing := by
  rw [State.storing, hc, Option.map_some, Option.getD_some]

theorem history_eq {s t : State A} {act : Act A} {accepted : List (Nat × Envelope A)}
    {taken : List (Taken A)} {handled : List (Handled A)}
    (haccepted : t.accepted = s.accepted ++ accepted) (htaken : t.taken = s.taken ++ taken)
    (hhandled : t.handled = s.handled ++ handled) :
    history ⟨s, act, t⟩ = accepted.map (fun x => .accepted x.1 x.2) ++
      (taken.map .taken ++ (handled.map .handled ++
        (s.storing act).map fun x => .stored x.1 x.2)) := by
  rw [history, added_of_eq haccepted, added_of_eq htaken, added_of_eq hhandled]

theorem history_stored {s t : State A} {act : Act A} (haccepted : t.accepted = s.accepted)
    (htaken : t.taken = s.taken) (hhandled : t.handled = s.handled) :
    history ⟨s, act, t⟩ = (s.storing act).map fun x => .stored x.1 x.2 :=
  history_eq (haccepted.trans (List.append_nil _).symm) (htaken.trans (List.append_nil _).symm)
    (hhandled.trans (List.append_nil _).symm)

theorem history_nil {s t : State A} {act : Act A} (hstoring : s.storing act = [])
    (haccepted : t.accepted = s.accepted) (htaken : t.taken = s.taken)
    (hhandled : t.handled = s.handled) : history ⟨s, act, t⟩ = [] := by
  rw [history_stored haccepted htaken hhandled, hstoring, List.map_nil]

/-- The step is one of the actors that shows the same, or none. -/
def Simulated (s : State A) (act : Act A) (t : State A) : Prop :=
  t.serial = s.serial ∧ history ⟨s, act, t⟩ = [] ∨
    ∃ b, Serial.step s.serial b = some t.serial ∧
      Serial.seen ⟨s.serial, b, t.serial⟩ = history ⟨s, act, t⟩

section Contexts
variable {s t : State A} {act : Act A} {i : Nat} {c c' : Context A} {env : Envelope A}

theorem simulated_quiet (hc : s.contexts[i]? = some c) (hstoring : s.storing act = [])
    (hset : t.contexts = s.contexts.set i c') (hworker : c'.pos.worker = c.pos.worker)
    (hactor : c'.actor = c.actor)
    (hqueue : t.queue = s.queue) (hfutures : t.futures = s.futures)
    (haccepted : t.accepted = s.accepted) (htaken : t.taken = s.taken)
    (hhandled : t.handled = s.handled) : Simulated s act t := by
  refine .inl ⟨?_, history_nil hstoring haccepted htaken hhandled⟩
  rw [serial_set hset, hworker, hactor, hqueue, hfutures, set_eq_self_of (serial_actor hc)]
  rfl

theorem simulated_take {chan : Nat} {rest : List (Envelope A)} (hc : s.contexts[i]? = some c)
    (hstoring : s.storing act = []) (hidle : c.pos.worker = .idle)
    (hmail : s.queue chan = env :: rest)
    (hset : t.contexts = s.contexts.set i c') (hworker : c'.pos.worker = .busy env)
    (hactor : c'.actor = c.actor) (hqueue : t.queue = update s.queue chan rest)
    (hfutures : t.futures = s.futures) (haccepted : t.accepted = s.accepted)
    (htaken : t.taken = s.taken ++ [⟨i, chan, env⟩]) (hhandled : t.handled = s.handled) :
    Simulated s act t := by
  have hmail' : s.serial.mail chan = env :: rest := hmail
  have hat := serial_actor hc
  rw [hidle] at hat
  refine .inr ⟨.take i chan, ?_, ?_⟩
  · rw [serial_set hset, hworker, hactor, hqueue, hfutures]
    simp only [Serial.step, hat, hmail']
    rfl
  · rw [history_eq (haccepted.trans (List.append_nil _).symm) htaken
      (hhandled.trans (List.append_nil _).symm), hstoring]
    simp only [Serial.seen, hmail']
    rfl

theorem simulated_serve (await : A.Await) {store : Nat → Option A.Future}
    {reply : Option (Reply A)} (hc : s.contexts[i]? = some c) (hstoring : s.storing act = [])
    (hbusy : c.pos.worker = .busy env)
    (hserve : A.serve c.actor s.futures await env.msg = some (c'.actor, store, reply))
    (hset : t.contexts = s.contexts.set i c') (hworker : c'.pos.worker = .idle)
    (hqueue : t.queue = s.queue) (hfutures : t.futures = store)
    (haccepted : t.accepted = s.accepted) (htaken : t.taken = s.taken)
    (hhandled : t.handled = s.handled ++ [⟨i, env, reply⟩]) : Simulated s act t := by
  have hserve' : A.serve c.actor s.serial.store await env.msg = some (c'.actor, store, reply) :=
    hserve
  have hat := serial_actor hc
  rw [hbusy] at hat
  refine .inr ⟨.serve i await, ?_, ?_⟩
  · rw [serial_set hset, hworker, hqueue, hfutures]
    simp only [Serial.step, hat, hserve', Option.map_some]
    rfl
  · rw [history_eq (haccepted.trans (List.append_nil _).symm)
      (htaken.trans (List.append_nil _).symm) hhandled, hstoring]
    simp only [Serial.seen, hat, hserve']
    rfl

theorem simulated_settle {reply : Option (Reply A)} (hc : s.contexts[i]? = some c)
    (hstoring : s.storing act = []) (hbusy : c.pos.worker = .busy env)
    (hsettles : env.msg.settles reply = true)
    (hset : t.contexts = s.contexts.set i c') (hworker : c'.pos.worker = .idle)
    (hactor : c'.actor = c.actor) (hqueue : t.queue = s.queue) (hfutures : t.futures = s.futures)
    (haccepted : t.accepted = s.accepted) (htaken : t.taken = s.taken)
    (hhandled : t.handled = s.handled ++ [⟨i, env, reply⟩]) : Simulated s act t := by
  have hat := serial_actor hc
  rw [hbusy] at hat
  refine .inr ⟨.settle i reply, ?_, ?_⟩
  · rw [serial_set hset, hworker, hactor, hqueue, hfutures]
    simp only [Serial.step, hat, if_pos hsettles]
    rfl
  · rw [history_eq (haccepted.trans (List.append_nil _).symm)
      (htaken.trans (List.append_nil _).symm) hhandled, hstoring]
    simp only [Serial.seen, hat]
    rfl

theorem simulated_put {tx dur key : Nat} {fut : A.Future} (hc : s.contexts[i]? = some c)
    (hstoring : s.storing act = [(key, fut)])
    (hbusy : c.pos.worker = .busy env) (hmsg : env.msg = .interval (.register tx fut dur))
    (hset : t.contexts = s.contexts.set i c') (hworker : c'.pos.worker = .busy env)
    (hactor : c'.actor = c.actor) (hqueue : t.queue = s.queue)
    (hfutures : t.futures = update s.futures key (some fut))
    (haccepted : t.accepted = s.accepted) (htaken : t.taken = s.taken)
    (hhandled : t.handled = s.handled) : Simulated s act t := by
  obtain ⟨id, msg⟩ := env
  obtain rfl : msg = .interval (.register tx fut dur) := hmsg
  have hat := serial_actor hc
  rw [hbusy] at hat
  refine .inr ⟨.put i key, ?_, ?_⟩
  · rw [serial_set hset, hworker, hactor, hqueue, hfutures, set_eq_self_of hat]
    simp only [Serial.step, hat]
    rfl
  · rw [history_stored haccepted htaken hhandled, hstoring]
    simp only [Serial.seen, hat]
    rfl

theorem simulated_lose (hc : s.contexts[i]? = some c) (hstoring : s.storing act = [])
    (hset : t.contexts = s.contexts.set i c') (hworker : c'.pos.worker = .lost)
    (hactor : c'.actor = c.actor) (hqueue : t.queue = s.queue)
    (hfutures : t.futures = s.futures) (haccepted : t.accepted = s.accepted)
    (htaken : t.taken = s.taken) (hhandled : t.handled = s.handled) : Simulated s act t := by
  refine .inr ⟨.lose i, ?_, (history_nil hstoring haccepted htaken hhandled).symm⟩
  rw [serial_set hset, hworker, hactor, hqueue, hfutures]
  simp only [Serial.step, serial_actor hc]
  rfl

/-- The insertion is done when the timer of a period of zero cannot be made. -/
theorem simulated_putLose {tx dur key : Nat} {fut : A.Future} (hc : s.contexts[i]? = some c)
    (hstoring : s.storing act = [(key, fut)])
    (hbusy : c.pos.worker = .busy env) (hmsg : env.msg = .interval (.register tx fut dur))
    (hset : t.contexts = s.contexts.set i c') (hworker : c'.pos.worker = .lost)
    (hactor : c'.actor = c.actor) (hqueue : t.queue = s.queue)
    (hfutures : t.futures = update s.futures key (some fut))
    (haccepted : t.accepted = s.accepted) (htaken : t.taken = s.taken)
    (hhandled : t.handled = s.handled) : Simulated s act t := by
  obtain ⟨id, msg⟩ := env
  obtain rfl : msg = .interval (.register tx fut dur) := hmsg
  have hat := serial_actor hc
  rw [hbusy] at hat
  refine .inr ⟨.putLose i key, ?_, ?_⟩
  · rw [serial_set hset, hworker, hactor, hqueue, hfutures]
    simp only [Serial.step, hat]
    rfl
  · rw [history_stored haccepted htaken hhandled, hstoring]
    simp only [Serial.seen, hat]
    rfl

end Contexts

def Position.Carries : Position A → Prop
  | .insert env fut _ => ∃ tx dur, env.msg = .interval (.register tx fut dur)
  | _ => True

theorem afterPush_simulated {s : State A} {act : Act A} {i : Nat} {c : Context A}
    {env : Envelope A} {h : FutureHandler} {handlers : List FutureHandler}
    (hc : s.contexts[i]? = some c) (hstoring : s.storing act = []) (hhand : c.pos.hand = some env)
    (hfits : (∃ msg, env.msg = .delayed msg) ∨
      ∃ tx fut dur, env.msg = .interval (.register tx fut dur)) :
    Simulated s act ({ s with handlers := handlers }.afterPush i c env h) := by
  have hbusy := worker_of_hand hhand
  simp only [State.afterPush]
  split
  · exact simulated_quiet hc hstoring rfl hbusy.symm rfl rfl rfl rfl rfl rfl
  · rename_i hother
    rcases hfits with ⟨msg, hmsg⟩ | ⟨tx, fut, dur, hmsg⟩
    · exact simulated_settle hc hstoring hbusy (by rw [hmsg]; rfl) rfl rfl rfl rfl rfl rfl rfl rfl
    · exact absurd hmsg (hother tx fut dur)

theorem ContextMove.simulated {s t : State A} {act : Act A} {i : Nat} {c : Context A}
    (h : ContextMove s i c t) (hc : s.contexts[i]? = some c) (hfits : c.pos.Fits)
    (hcarries : c.pos.Carries) (hstoring : s.storing act = c.pos.storing) (await : A.Await) :
    Simulated s act t := by
  cases h with
  | take hpos hrecv hqueue =>
    exact simulated_take hc (by rw [hstoring, hpos]; rfl) (by rw [hpos]; rfl) hqueue rfl rfl rfl rfl
      rfl rfl rfl rfl
  | close hpos hmsg =>
    rw [sendReply_frame]
    exact simulated_settle hc (by rw [hstoring, hpos]; rfl) (by rw [hpos]; rfl) (by rw [hmsg]; rfl)
      rfl rfl rfl rfl rfl rfl rfl
      rfl
  | closeRefused hpos hmsg | delayedLost hpos hmsg =>
    exact simulated_settle hc (by rw [hstoring, hpos]; rfl) (by rw [hpos]; rfl) (by rw [hmsg]; rfl)
      rfl rfl rfl rfl rfl rfl rfl
      rfl
  | @static env tx msg await hpos hmsg | @dynamic env tx fut await hpos hmsg =>
    rw [sendReplyTo_frame]
    refine simulated_serve await hc (by rw [hstoring, hpos]; rfl) (by rw [hpos]; rfl) ?_ rfl rfl rfl
      rfl rfl rfl rfl
    rw [hmsg]
    rfl
  | @remove env index hpos hmsg =>
    refine simulated_serve await hc (by rw [hstoring, hpos]; rfl) (by rw [hpos]; rfl) ?_ rfl rfl rfl
      rfl rfl rfl rfl
    rw [hmsg]
    rfl
  | register hpos hmsg =>
    by_cases hkey : s.nextKey < usizeMax
    · rw [if_pos hkey]
      exact simulated_quiet hc (by rw [hstoring, hpos]; rfl) rfl (by rw [hpos]; rfl) rfl rfl rfl rfl
        rfl rfl
    · rw [if_neg hkey]
      exact simulated_lose hc (by rw [hstoring, hpos]; rfl) rfl rfl rfl rfl rfl rfl rfl rfl
  | @insert env fut key hpos hlock =>
    rw [hpos] at hcarries
    obtain ⟨tx, dur, hmsg⟩ := hcarries
    exact simulated_put hc (by rw [hstoring, hpos]; rfl) (by rw [hpos]; rfl) hmsg rfl rfl rfl rfl
      rfl rfl rfl rfl
  | insertPanic hpos =>
    rw [hpos] at hcarries
    obtain ⟨tx, dur, hmsg⟩ := hcarries
    exact simulated_putLose hc (by rw [hstoring, hpos]; rfl) (by rw [hpos]; rfl) hmsg rfl rfl rfl
      rfl rfl rfl rfl rfl
  | pushRefused hpos | pushExtend hpos =>
    rw [hpos] at hfits
    exact afterPush_simulated hc (by rw [hstoring, hpos]; rfl) (by rw [hpos]; rfl) hfits
  | reply hpos =>
    rw [hpos] at hfits
    obtain ⟨fut, dur, hmsg⟩ := hfits
    rw [sendReply_frame]
    exact simulated_settle hc (by rw [hstoring, hpos]; rfl) (by rw [hpos]; rfl) (by rw [hmsg]; rfl)
      rfl rfl rfl rfl rfl rfl rfl
      rfl
  | @intervalRun env index await hpos =>
    rw [hpos] at hfits
    obtain ⟨id, msg⟩ := env
    obtain rfl : msg = .interval (.run index) := hfits
    simp only [State.runInterval]
    split
    · rename_i fut hfut
      refine simulated_serve await hc (by rw [hstoring, hpos]; rfl) (by rw [hpos]; rfl) ?_ rfl rfl
        rfl rfl rfl rfl rfl
      simp only [Actor.serve, show s.futures index = some fut from hfut]
      rfl
    · rename_i hnone
      refine simulated_serve await hc (by rw [hstoring, hpos]; rfl) (by rw [hpos]; rfl) ?_ rfl rfl
        rfl rfl rfl rfl rfl
      simp only [Actor.serve, show s.futures index = none from hnone]
      rfl
  | build hpos | onStart hpos | incActive hpos | leave hpos | delayed hpos | lockRun hpos
  | pushCheck hpos | restart hpos | stop hpos | onStop hpos =>
    exact simulated_quiet hc (by rw [hstoring, hpos]; rfl) rfl (by rw [hpos]; rfl) rfl rfl rfl rfl
      rfl rfl

theorem serial_same {s t : State A} (hqueue : t.queue = s.queue)
    (hcontexts : t.contexts = s.contexts)
    (hfutures : t.futures = s.futures) : t.serial = s.serial := by
  simp only [State.serial, hqueue, hcontexts, hfutures]

/-- What the clients and the runtime do is seen by the actors as mail. -/
theorem ChannelMove.simulated {s t : State A} {act : Act A} (h : ChannelMove s act t)
    (hcontexts : t.contexts = s.contexts) (hfutures : t.futures = s.futures)
    (hcontext : ∀ i chan await, act ≠ .context i chan await) (hpanic : ∀ i, act ≠ .panic i)
    (htaken : t.taken = s.taken) : Simulated s act t := by
  have hstoring : s.storing act = [] := by
    cases act with
    | context i chan await => exact absurd rfl (hcontext i chan await)
    | _ => rfl
  cases h with
  | same hledger hhandled =>
    have hqueue : t.queue = s.queue := congrArg Ledger.queue hledger
    exact .inl ⟨serial_same hqueue hcontexts hfutures,
      history_nil hstoring (congrArg Ledger.accepted hledger) htaken hhandled⟩
  | @accept chan msg _ _ hhandled _ hledger =>
    have hqueue : t.queue = update s.queue chan (s.queue chan ++ [⟨s.nextId, msg⟩]) :=
      congrArg Ledger.queue hledger
    have haccepted : t.accepted = s.accepted ++ [(chan, ⟨s.nextId, msg⟩)] :=
      congrArg Ledger.accepted hledger
    refine .inr ⟨.post chan ⟨s.nextId, msg⟩, ?_, ?_⟩
    · simp only [Serial.step, State.serial, hqueue, hcontexts, hfutures]
    · rw [history_eq haccepted (htaken.trans (List.append_nil _).symm)
        (hhandled.trans (List.append_nil _).symm), hstoring]
      rfl
  | context hact => exact absurd hact (hcontext _ _ _)
  | panic hact => exact absurd hact (hpanic _)

theorem Moves.simulated {s t : State A} {act : Act A} (h : Moves s act t)
    (hfits : ∀ c ∈ s.contexts, c.pos.Fits) (hcarries : ∀ c ∈ s.contexts, c.pos.Carries) :
    Simulated s act t := by
  have hchannel := h.channelMove
  cases h with
  | address h | request h | poll h =>
    refine hchannel.simulated ?_ ?_ (by simp) (by simp) ?_ <;> rw [h.frame]
  | elapseDelayed | elapseInterval => exact hchannel.simulated rfl rfl (by simp) (by simp) rfl
  | @context i chan await c _ hc h =>
    have hmem := List.mem_of_getElem? hc
    exact h.simulated hc (hfits c hmem) (hcarries c hmem) (storing_context hc chan await) await
  | panic hc h =>
    cases h
    exact simulated_lose hc rfl rfl rfl rfl rfl rfl rfl rfl rfl

theorem carries_set {l : List (Context A)} {i : Nat} {c : Context A}
    (hl : ∀ x ∈ l, x.pos.Carries) (hc : c.pos.Carries) : ∀ x ∈ l.set i c, x.pos.Carries := by
  intro x hx
  rcases List.mem_or_eq_of_mem_set hx with hx | rfl
  · exact hl x hx
  · exact hc

theorem afterPush_carries {s : State A} {i : Nat} {c : Context A} {env : Envelope A}
    {h : FutureHandler} (hs : ∀ x ∈ s.contexts, x.pos.Carries) :
    ∀ x ∈ (s.afterPush i c env h).contexts, x.pos.Carries := by
  simp only [State.afterPush]
  split <;> exact carries_set hs trivial

theorem ContextMove.carries {s t : State A} {i : Nat} {c : Context A} (h : ContextMove s i c t)
    (hs : ∀ x ∈ s.contexts, x.pos.Carries) : ∀ x ∈ t.contexts, x.pos.Carries := by
  cases h with
  | close | reply =>
    rw [sendReply_frame]
    exact carries_set hs trivial
  | static | dynamic =>
    rw [sendReplyTo_frame]
    exact carries_set hs trivial
  | @register env tx dur fut hpos hmsg =>
    apply carries_set hs
    split
    · exact ⟨tx, dur, hmsg⟩
    · trivial
  | pushRefused | pushExtend => exact afterPush_carries hs
  | intervalRun =>
    simp only [State.runInterval]
    split <;> exact carries_set hs trivial
  | build | onStart | incActive | take | leave | closeRefused | delayed | delayedLost | lockRun
  | remove | insert | insertPanic | pushCheck | restart | stop | onStop =>
    exact carries_set hs trivial

theorem Moves.carries {s t : State A} {act : Act A} (h : Moves s act t)
    (hs : ∀ x ∈ s.contexts, x.pos.Carries) : ∀ x ∈ t.contexts, x.pos.Carries := by
  cases h with
  | address h | request h | poll h =>
    rw [h.frame]
    exact hs
  | elapseDelayed | elapseInterval => exact hs
  | context _ h => exact h.carries hs
  | panic _ h =>
    cases h
    exact carries_set hs trivial

structure SerialInv (s : State A) : Prop where
  request : RequestInv s
  carries : ∀ c ∈ s.contexts, c.pos.Carries

theorem actors_refine :
    Refines (step (A := A)) Serial.step State.serial SerialInv history Serial.seen := by
  constructor
  · intro u act v hstep hu
    exact ⟨hu.request.step hstep, (Moves.of_step hstep).carries hu.carries⟩
  · intro u act v hstep hu
    exact (Moves.of_step hstep).simulated hu.request.fits hu.carries

end ActixSend
