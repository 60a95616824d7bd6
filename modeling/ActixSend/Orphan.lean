import ActixSend.Oneshot

/-! # Requests left behind

A context that leaves by `ManualShutDown` drops its receivers with whatever is
still queued. The last one to do so strands the requests in the queue: as long
as some sender lives the channel keeps them, and with them the oneshots their
callers wait for.
-/

namespace ActixSend

open Transition
set_option autoImplicit false

variable {A : Actor}

/-- With its last receiver gone, an accepted request has its answer or has lost
the oneshot that could answer it. -/
def NoOrphan (s : State A) : Prop :=
  ∀ chan env tx, (chan, env) ∈ s.accepted → env.msg.tx = some tx → s.receiver chan = false →
    s.answered tx = true ∨ s.oneShotSender tx = false

def Leaves (m : Move (State A) (Act A)) (i : Nat) (c : Context A) : Prop :=
  m.src.contexts[i]? = some c ∧ (m.act = .panic i ∨
    ∃ chan await, m.act = .context i chan await ∧ (c.pos = .onStop ∨ AtAssertion m.src c))

/-- The last context on a channel ends while a sender of the channel lives and
a request is in its queue. -/
def Strands (m : Move (State A) (Act A)) : Prop :=
  ∃ i c chan, Leaves m i c ∧ c.receives chan = true ∧
    (∀ (j : Nat) (c' : Context A), m.src.contexts[j]? = some c' → c'.receives chan = true → j = i) ∧
    m.src.sender chan = true ∧ ∃ env ∈ m.src.queue chan, env.msg.tx.isSome = true

def Drained (s : State A) : Prop :=
  ∀ chan env, s.receiver chan = false → s.sender chan = true → env ∈ s.queue chan →
    env.msg.tx = none

theorem Turn.gone_cases {s : State A} {c c' : Context A} (h : Turn s c c')
    (hgone : c'.pos.gone = true) : c.pos = .onStop ∨ AtAssertion s c := by
  cases h with
  | onStop hpos => exact .inl hpos
  | lose hassert => exact .inr hassert
  | hold _ hhand' =>
    rw [gone_of_hand hhand'] at hgone
    cases hgone
  | _ => cases hgone

/-- A channel loses its last receiver by the end of the last context on it. -/
theorem leaves_of_receiver_lost {s t : State A} {act : Act A} {chan : Nat} (h : Moves s act t)
    (hbefore : s.receiver chan = true) (hafter : t.receiver chan = false) :
    ∃ i c, Leaves ⟨s, act, t⟩ i c ∧ c.receives chan = true ∧
      ∀ (j : Nat) (c' : Context A), s.contexts[j]? = some c' → c'.receives chan = true → j = i := by
  rcases h.contexts_cases with hsame | ⟨i, c, c', hc, hgone, hset, hrx, hselector, hact⟩
  · rw [State.receiver, hsame] at hafter
    rw [State.receiver, hafter] at hbefore
    cases hbefore
  · have hnone : ∀ (j : Nat) (cj : Context A), t.contexts[j]? = some cj →
        ¬cj.receives chan = true := by
      intro j cj hcj hreceives
      have hany : t.receiver chan = true :=
        List.any_eq_true.mpr ⟨cj, List.mem_of_getElem? hcj, hreceives⟩
      rw [hafter] at hany
      cases hany
    have hothers : ∀ (j : Nat) (cj : Context A), s.contexts[j]? = some cj →
        cj.receives chan = true → j = i := by
      intro j cj hcj hreceives
      by_contra hji
      exact hnone j cj (by rwa [hset, List.getElem?_set_ne (Ne.symm hji)]) hreceives
    obtain ⟨x, hx, hreceives⟩ := List.any_eq_true.mp hbefore
    obtain ⟨j, hj⟩ := List.mem_iff_getElem?.mp hx
    obtain rfl := hothers j x hj hreceives
    obtain rfl := Option.some.inj (hc.symm.trans hj)
    have hlistens := (receives_iff.mp hreceives).2
    have hgone' : c'.pos.gone = true := by
      by_contra hstays
      refine hnone j c' (by rw [hset, getElem?_set_self_of hc]) (receives_iff.mpr ⟨?_, ?_⟩)
      · simpa using hstays
      · rwa [Context.ListensOn, hrx, hselector]
    refine ⟨j, c, ⟨hc, ?_⟩, hreceives, hothers⟩
    rcases hact with ⟨chan', await, rfl, hmove⟩ | ⟨rfl, _⟩
    · obtain ⟨c'', hset', hturn⟩ := hmove.turn
      have hsame : c'' = c' := by
        have hget : (s.contexts.set j c'')[j]? = (s.contexts.set j c')[j]? := by
          rw [← hset', hset]
        rw [getElem?_set_self_of hc, getElem?_set_self_of hc] at hget
        exact Option.some.inj hget
      rw [hsame] at hturn
      exact .inr ⟨chan', await, rfl, hturn.gone_cases hgone'⟩
    · exact .inl rfl

theorem leaves_effect {s t : State A} {act : Act A} {i : Nat} {c : Context A}
    (h : step s act = some t) (hleaves : Leaves ⟨s, act, t⟩ i c) :
    t.queue = s.queue ∧ (∀ chan, t.sender chan = s.sender chan) ∧
      ∃ c' : Context A, c'.pos.gone = true ∧ t.contexts = s.contexts.set i c' := by
  obtain ⟨hc, hact⟩ := hleaves
  simp only at hc hact
  rcases hact with rfl | ⟨chan, await, rfl, hpos | hassert⟩
  · obtain ⟨c', hc', hmove⟩ := PanicMove.of_step h
    cases hmove
    exact ⟨rfl, fun _ => rfl, _, rfl, rfl⟩
  · simp only [step, State.contextStep, hc, hpos] at h
    cases h
    exact ⟨rfl, fun _ => rfl, _, rfl, rfl⟩
  · rw [hassert.effect hc h]
    exact ⟨rfl, fun _ => rfl, _, rfl, rfl⟩

theorem receiver_lost_of_leaves {s t : State A} {act : Act A} {i chan : Nat} {c : Context A}
    (h : step s act = some t) (hleaves : Leaves ⟨s, act, t⟩ i c)
    (hlast : ∀ (j : Nat) (c' : Context A), s.contexts[j]? = some c' → c'.receives chan = true →
      j = i) : t.receiver chan = false := by
  obtain ⟨_, _, c', hgone, hset⟩ := leaves_effect h hleaves
  rw [State.receiver, List.any_eq_false]
  intro x hx
  obtain ⟨j, hj⟩ := List.mem_iff_getElem?.mp hx
  rw [hset] at hj
  rcases getElem?_set_cases hj with ⟨_, rfl⟩ | ⟨hji, hj⟩
  · simp [Context.receives, hgone]
  · exact fun hreceives => hji (hlast j x hj hreceives)

theorem Drained.step {s t : State A} {act : Act A} (h : step s act = some t)
    (hquiet : ¬Strands ⟨s, act, t⟩) (hinv : OneshotInv s) (hs : Drained s) : Drained t := by
  have hmove := Moves.of_step h
  intro chan env hafter hsender henv
  have hsender' := hmove.sender_stable hinv.holder hsender
  by_cases hbefore : s.receiver chan = true
  · obtain ⟨i, c, hleaves, hreceives, hlast⟩ := leaves_of_receiver_lost hmove hbefore hafter
    rw [(leaves_effect h hleaves).1] at henv
    by_contra htx
    exact hquiet ⟨i, c, chan, hleaves, hreceives, hlast, hsender', env, henv,
      Option.isSome_iff_ne_none.mpr htx⟩
  · rcases hmove.channelMove.queue_cases henv with henv | ⟨hopen, _⟩
    · exact hs chan env (by simpa using hbefore) hsender' henv
    · exact absurd hopen hbefore

theorem Drained.noOrphan {s : State A} (hs : Drained s) (hinv : OneshotInv s) : NoOrphan s := by
  intro chan env tx haccepted htx hclosed
  obtain ⟨call, hcall, hchan, _, hphase⟩ := hinv.request.sent chan env haccepted tx htx
  refine .inr ?_
  by_contra hheld
  rw [Bool.not_eq_false] at hheld
  simp only [State.oneShotSender, hcall, hchan, hclosed, Bool.or_false, Bool.or_eq_true,
    Bool.and_eq_true, List.any_eq_true, Option.any_eq_true, beq_iff_eq] at hheld
  rcases hheld with (hsending | ⟨hsender, env', henv', htx'⟩) | ⟨c, hc, env', hhand, htx'⟩
  · cases hsending
  · rw [hs chan env' hclosed hsender henv'] at htx'
    cases htx'
  · obtain ⟨i, hi⟩ := List.mem_iff_getElem?.mp hc
    have hbusy : s.ledger.worker i = .busy env' := by
      rw [ledger_worker hi, worker_of_hand hhand]
    obtain ⟨chan', htaken⟩ := hinv.channel.sound.taken_of_busy hbusy
    have haccepted' : (chan', env') ∈ s.accepted := hinv.channel.sound.accepted_of_taken htaken
    cases hinv.request.once _ haccepted _ haccepted' tx htx htx'
    obtain ⟨c', hc', hlistens⟩ := hinv.listens i chan env htaken
    obtain rfl := Option.some.inj (hi.symm.trans hc')
    have hreceives := receives_iff.mpr ⟨gone_of_hand hhand, hlistens⟩
    have hopen : s.receiver chan = true := List.any_eq_true.mpr ⟨c, hc, hreceives⟩
    rw [hclosed] at hopen
    cases hopen

theorem not_noOrphan_of_strands {s t : State A} {act : Act A} (h : step s act = some t)
    (hinv : OneshotInv s) (hstrands : Strands ⟨s, act, t⟩) : ¬NoOrphan t := by
  obtain ⟨i, c, chan, hleaves, hreceives, hlast, hsender, env, henv, htx⟩ := hstrands
  simp only at hlast hsender henv
  have hinv' := hinv.step h
  have hclosed := receiver_lost_of_leaves h hleaves hlast
  obtain ⟨hqueue, hsame, _⟩ := leaves_effect h hleaves
  rw [← hqueue] at henv
  rw [← hsame] at hsender
  obtain ⟨tx, htx⟩ := Option.isSome_iff_exists.mp htx
  have haccepted : (chan, env) ∈ t.accepted := hinv'.channel.sound.accepted_of_queue henv
  obtain ⟨call, hcall, hchan, _, _⟩ := hinv'.request.sent chan env haccepted tx htx
  intro hnone
  rcases hnone chan env tx haccepted htx hclosed with hanswered | hdropped
  · rw [hinv'.queued chan env tx henv htx (by simp [hsender])] at hanswered
    cases hanswered
  · have hany : ((t.queue chan).any fun env => env.msg.tx == some tx) = true :=
      List.any_eq_true.mpr ⟨env, henv, by simp [htx]⟩
    simp [State.oneShotSender, hcall, hchan, hsender, hany] at hdropped

section Runs
variable {cfg : Config} {build : Nat → A.State} {s t : State A} {ms : List (Move (State A) (Act A))}

theorem Started.drained (h : Started cfg build s) : Drained s := by
  obtain ⟨w, rfl, _⟩ := h.exists_wiring
  intro chan env _ _ henv
  cases henv

theorem no_orphan_iff (hstart : Started cfg build s) (h : Path step s ms t) :
    (∀ u ∈ visited s ms, NoOrphan u) ↔ ∀ m ∈ ms, ¬Strands m := by
  constructor
  · intro hall m hm hstrands
    obtain ⟨ps, _, _, hps, hstep⟩ := h.exists_prefix hm
    have hinv : OneshotInv m.src :=
      hps.invariant hstart.oneshotInv fun _ _ _ hstep hu => hu.step hstep
    exact not_noOrphan_of_strands hstep hinv hstrands (hall m.dst (h.mem_visited hm).2)
  · intro hquiet u hu
    obtain ⟨ps, hps, hsub⟩ := h.exists_path_to hu
    have hinv : OneshotInv u ∧ Drained u :=
      hps.invariant_of (I := fun v => OneshotInv v ∧ Drained v) (C := fun m => ¬Strands m)
        (fun m hm => hquiet m (hsub m hm)) ⟨hstart.oneshotInv, hstart.drained⟩
        fun _ _ _ hC hstep hv => ⟨hv.1.step hstep, hv.2.step hstep hC hv.1⟩
    exact hinv.2.noOrphan hinv.1

/-- The only context of a set is closed with nothing behind the `ManualShutDown`. -/
theorem no_orphan_closed :
    ∃ ms t, Path step (echoStart .default) ms t ∧ t.receiver 0 = false ∧
      ∀ u ∈ visited (echoStart .default) ms, NoOrphan u := by
  obtain ⟨ms, t, hpath, _, hp, hclosed⟩ := exists_path_of_checkedRun step
    (echoStart .default)
    [.context 0 0 (), .context 0 0 (), .request (.call 0 .closeOne), .request (.send 0),
      .context 0 0 (), .context 0 0 (), .context 0 0 (), .context 0 0 ()]
    (fun u act _ => (u.contexts.all fun c => c.rx == 0 && c.selector.isNone) &&
      ((u.queue 0).isEmpty || (!act matches .panic _) &&
        u.contexts.all fun c => !u.failsAssertion c.pos && !c.pos matches .onStop))
    (fun t => !t.receiver 0) (by decide)
  refine ⟨ms, t, hpath, by simpa using hclosed, (no_orphan_iff .start hpath).mpr ?_⟩
  rintro m hm ⟨i, c, chan, ⟨hc, hact⟩, hreceives, _, _, env, henv, _⟩
  have hm := hp m hm
  rw [Bool.and_eq_true, List.all_eq_true] at hm
  obtain ⟨hrx, hquiet⟩ := hm
  have hc' := List.mem_of_getElem? hc
  have hlistens := (receives_iff.mp hreceives).2
  have hchan : chan = 0 := by
    have hshared := hrx c hc'
    rw [Bool.and_eq_true, beq_iff_eq, Option.isNone_iff_eq_none] at hshared
    rcases hlistens with hlistens | hlistens
    · rw [← hlistens, hshared.1]
    · rw [hshared.2] at hlistens
      cases hlistens
  subst hchan
  have hnonempty : (m.src.queue 0).isEmpty = false := by
    cases hq : m.src.queue 0 with
    | nil => simp [hq] at henv
    | cons => rfl
  rw [hnonempty, Bool.false_or, Bool.and_eq_true, List.all_eq_true] at hquiet
  have hcontext := hquiet.2 c hc'
  rw [Bool.and_eq_true] at hcontext
  rcases hact with hact | ⟨_, _, _, hpos | hassert⟩
  · simp [hact] at hquiet
  · simpa [hpos] using hcontext.2
  · rw [show m.src.failsAssertion c.pos = true from hassert] at hcontext
    cases hcontext.1

/-- A request is accepted behind a `ManualShutDown`, and the address lives on. -/
theorem request_behind_shutdown_is_orphaned :
    ¬∀ (ms : List (Move (State echoActor) (Act echoActor))) (t : State echoActor),
      Path step (echoStart .default) ms t → ∀ u ∈ visited (echoStart .default) ms, NoOrphan u := by
  intro hall
  obtain ⟨ms, u, v, hpath, _, hp⟩ := exists_path_of_eval step (echoStart .default)
    [.context 0 0 (), .context 0 0 (), .request (.call 0 .closeOne),
      .request (.call 0 (.send (true, 7))), .request (.send 0), .request (.send 1),
      .context 0 0 (), .context 0 0 (), .context 0 0 ()]
    (.context 0 0 ())
    (fun _ v => v.accepted.any (fun x => x.1 == 0 && x.2.msg.tx == some 1) &&
      !v.receiver 0 && !v.answered 1 && v.oneShotSender 1 && v.liveAddresses == 1) (by decide)
  simp only [Bool.and_eq_true, Bool.not_eq_true', List.any_eq_true, beq_iff_eq] at hp
  obtain ⟨⟨⟨⟨⟨⟨chan, env⟩, haccepted, hchan, htx⟩, hclosed⟩, hanswered⟩, hheld⟩, _⟩ := hp
  simp only at hchan htx
  subst hchan
  rcases hall _ v hpath v hpath.end_mem_visited 0 env 1 haccepted htx hclosed with h | h
  · rw [hanswered] at h
    cases h
  · rw [hheld] at h
    cases h

end Runs

end ActixSend
