import ActixSend.Accounts
import ActixSend.ManualShutdown
import ActixSend.SendErrors
import ActixSend.Sequential

/-! # The sets of a network

What a subscription delivers comes into an actor set from outside. To the set it
is one more message that nobody awaits, so every set of a network runs as a set
that is open to such messages, and what holds of a set alone holds of each.
-/

namespace ActixSend

open Function Transition
set_option autoImplicit false

variable {A : Actor} {N : Network}

inductive OpenAct (A : Actor)
  | own (act : Act A)
  | put (msg : A.Message)

/-- The steps of a set, and the messages that others put into its shared channel. -/
def openStep (s : State A) : OpenAct A → Option (State A)
  | .own act => step s act
  | .put msg => some (s.enqueue 0 (.instant (.static none msg)))

theorem World.open_step {w v : World N} {act : WorldAct N} (h : w.step act = some v) (i : Nat) :
    v.sets i = w.sets i ∨ ∃ b, openStep (w.sets i) b = some (v.sets i) := by
  cases WorldMove.of_step h with
  | @set j act s hs =>
    by_cases hij : i = j
    · subst hij
      exact .inr ⟨.own act, by rw [setSet_self, openStep, hs]⟩
    · exact .inl (setSet_other hij s)
  | @entry c k _ _ ty msg _ sub =>
    have houtcome := deliver_outcome w sub ty msg
    generalize (w.deliver sub ty msg).2 = res at houtcome
    cases houtcome with
    | other _ hsets | closed _ _ hsets => exact .inl (congrFun hsets i)
    | received hty hopen hsets =>
      rw [World.setSubCall, hsets]
      by_cases hij : i = sub.set
      · subst hij
        exact .inr ⟨.put (N.into sub.set ty msg), by rw [update_self]; rfl⟩
      · exact .inl (update_of_ne hij _ _)
  | _ => exact .inl rfl

theorem World.exists_open {w v : World N} {ms : List (Move (World N) (WorldAct N))}
    (h : Path World.step w ms v) (i : Nat) :
    ∃ ns, Path openStep (w.sets i) ns (v.sets i) := by
  induction h with
  | nil => exact ⟨[], .nil⟩
  | snoc h hstep ih =>
    obtain ⟨ns, hns⟩ := ih
    rcases World.open_step hstep i with hsame | ⟨b, hb⟩
    · exact ⟨ns, hsame ▸ hns⟩
    · exact ⟨_, hns.snoc hb⟩

theorem RequestInv.put {s : State A} (hs : RequestInv s) (msg : A.Message) :
    RequestInv (s.enqueue 0 (.instant (.static none msg))) := by
  have hold : ∀ x ∈ (s.enqueue 0 (.instant (.static none msg))).accepted, ∀ tx,
      x.2.msg.tx = some tx → x ∈ s.accepted := by
    intro x hx tx htx
    rcases List.mem_append.mp hx with hx | hx
    · exact hx
    · obtain rfl := List.mem_singleton.mp hx
      cases htx
  refine ⟨fun chan env henv tx htx => ?_, fun x hx y hy tx htx hty => ?_, hs.tasks, hs.fits⟩
  · exact hs.sent chan env (hold _ henv tx htx) tx htx
  · exact hs.once x (hold x hx tx htx) y (hold y hy tx hty) tx htx hty

structure OpenInv (s : State A) : Prop where
  channel : ChannelInv s
  few : s.ledger.Few
  taken : ∀ x ∈ s.ledger.taken, x.1 < s.contexts.length
  serial : SerialInv s

theorem OpenInv.step {s t : State A} {b : OpenAct A} (h : openStep s b = some t)
    (hs : OpenInv s) : OpenInv t := by
  cases b with
  | own act =>
    have hmove := Moves.of_step h
    have hevent := hmove.channelMove.event fun _ => hs.channel.lt_nextId
    refine ⟨hs.channel.step h, hevent.few hs.channel.sound hs.few, fun x hx => ?_,
      hs.serial.request.step h, hmove.carries hs.serial.carries⟩
    rw [hmove.length_contexts]
    rcases hmove.channelMove.taken_cases with hsame | ⟨i, c, chan, env, hc, _, hsnoc⟩
    · rw [hsame] at hx
      exact hs.taken x hx
    · rw [hsnoc] at hx
      rcases List.mem_append.mp hx with hx | hx
      · exact hs.taken x hx
      · obtain rfl := List.mem_singleton.mp hx
        exact (List.getElem?_eq_some_iff.mp hc).1
  | put msg =>
    cases h
    exact ⟨hs.channel.enqueue 0 _, hs.few, hs.taken, hs.serial.request.put msg, hs.serial.carries⟩

structure Records (s : State A) (xs : List (Serial.Event A)) : Prop where
  accepted : xs.filterMap Serial.Event.isAccepted = s.accepted
  taken : xs.filterMap Serial.Event.isTaken = s.taken
  handled : xs.filterMap Serial.Event.isHandled = s.handled

theorem Records.own {s t : State A} {act : Act A} {xs : List (Serial.Event A)}
    (hs : Records s xs) (h : step s act = some t) :
    Records t (xs ++ history ⟨s, act, t⟩) := by
  have hmove := Moves.of_step h
  constructor
  · rw [List.filterMap_append, history_accepted, hs.accepted]
    exact added_append State.accepted ⟨s, act, t⟩ hmove.accepted_extends
  · rw [List.filterMap_append, history_taken, hs.taken]
    exact added_append State.taken ⟨s, act, t⟩ hmove.taken_extends
  · rw [List.filterMap_append, history_handled, hs.handled]
    exact added_append State.handled ⟨s, act, t⟩ hmove.handled_extends

theorem Records.put {s : State A} {xs : List (Serial.Event A)} (hs : Records s xs)
    (msg : A.Message) : Records (s.enqueue 0 (.instant (.static none msg)))
      (xs ++ [.accepted 0 ⟨s.nextId, .instant (.static none msg)⟩]) := by
  constructor
  · rw [List.filterMap_append, hs.accepted]
    rfl
  · rw [List.filterMap_append, hs.taken]
    exact List.append_nil _
  · rw [List.filterMap_append, hs.handled]
    exact List.append_nil _

theorem open_serial {s t : State A} {ns : List (Move (State A) (OpenAct A))}
    (h : Path openStep s ns t) (hs : OpenInv s) (hrecords : Records s []) :
    OpenInv t ∧ ∃ ps, Path Serial.step s.serial ps t.serial ∧
      Records t (ps.flatMap Serial.seen) := by
  induction h with
  | nil => exact ⟨hs, [], .nil, hrecords⟩
  | @snoc ns u v b _ hstep ih =>
    obtain ⟨hu, ps, hps, hlog⟩ := ih
    refine ⟨hu.step hstep, ?_⟩
    cases b with
    | own act =>
      have hnext := hlog.own hstep
      rcases actors_refine.simulates u act v hstep hu.serial with ⟨hsame, hnone⟩ | ⟨b, hb, hseen⟩
      · refine ⟨ps, hsame ▸ hps, ?_⟩
        rwa [hnone, List.append_nil] at hnext
      · refine ⟨_, hps.snoc hb, ?_⟩
        rw [List.flatMap_append, List.flatMap_singleton, hseen]
        exact hnext
    | put msg =>
      cases hstep
      have hb : Serial.step u.serial (.post 0 ⟨u.nextId, .instant (.static none msg)⟩) =
          some (u.enqueue 0 (.instant (.static none msg))).serial := rfl
      refine ⟨_, hps.snoc hb, ?_⟩
      rw [List.flatMap_append, List.flatMap_singleton]
      exact hlog.put msg

theorem Started.openInv {cfg : Config} {build : Nat → A.State} {s : State A}
    (h : Started cfg build s) : OpenInv s ∧ Records s [] := by
  have hchannel := h.channelInv
  have hserial := h.serialInv
  obtain ⟨w, rfl, _⟩ := h.exists_wiring
  exact ⟨⟨hchannel, fun _ => Nat.zero_le _, fun _ hx => absurd hx List.not_mem_nil, hserial⟩,
    rfl, rfl, rfl⟩

/-- What a set that others send to has in common with a set of its own: its
messages are accounted for and handled in order, and its actors serve them one
after the other. -/
structure SetLaws (cfg : Config) (build : Nat → A.State) (s : State A) : Prop where
  accounted : ∃ lost, Accounted s lost
  inOrder : InOrder s
  serial : ∃ ps, Path Serial.step (.start cfg build) ps s.serial ∧
    Records s (ps.flatMap Serial.seen) ∧
    ∃ actors, Works A build (ps.flatMap Serial.seen) actors s.futures ∧
      ∀ i c, s.contexts[i]? = some c → c.actor = actors i

/-- Whatever the subscriptions of a network deliver, each of its sets runs as a
serial machine with mailboxes does, and loses nothing but to panics. -/
theorem network_sets_run_serially {w v : World N} {cfg : Nat → Config}
    {build : (i : Nat) → Nat → (N.actor i).State} {ms : List (Move (World N) (WorldAct N))}
    (hstart : World.Started cfg build w) (h : Path World.step w ms v) (i : Nat) :
    SetLaws (cfg i) (build i) (v.sets i) := by
  obtain ⟨ns, hns⟩ := World.exists_open h i
  obtain ⟨hopen, hrecords⟩ := (hstart.sets i).openInv
  obtain ⟨hinv, ps, hps, hlog⟩ := open_serial hns hopen hrecords
  rw [(hstart.sets i).serial_eq] at hps
  obtain ⟨actors, hactors, hworks⟩ := Serial.works hps
  exact ⟨hinv.channel.accounted hinv.taken hinv.few, hinv.channel.inOrder, ps, hps, hlog, actors,
    hworks, fun j c hc => (hactors j _ _ (serial_actor hc)).symm⟩

/-- The set that subscribed twice has handled both messages. -/
theorem network_sets_run_serially_typed : ∃ ms v, Path World.step typedWorld ms v ∧
    (v.sets 1).handled.length = 2 ∧
    SetLaws { Config.default with allowSubscribe := true } (fun _ => ()) (v.sets 1) := by
  obtain ⟨ms, v, hpath, _, _, hq⟩ := exists_path_of_checkedRun World.step typedWorld
    (subscribeActs ++ [.set 1 (.context 0 0 ()), .set 1 (.context 0 0 ()),
      .set 1 (.context 0 0 ()), .set 1 (.context 0 0 ()), .set 1 (.context 0 0 ()),
      .set 1 (.context 0 0 ())])
    (fun _ _ _ => true) (fun v => (v.sets 1).handled.length == 2) (by decide)
  exact ⟨ms, v, hpath, beq_iff_eq.mp hq,
    network_sets_run_serially (World.started_start _ _) hpath 1⟩

end ActixSend
