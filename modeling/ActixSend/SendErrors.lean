import ActixSend.Broadcast
import ActixSend.SendSubscribe

/-! # Errors of the sending stage

Whatever a channel accepts has been put there by a request, by a subscriber's
entry or by a task. A request or an entry gets past its sending stage once:
either it puts its message into the channel or it fails, and what has failed
never comes to a context.
-/

namespace ActixSend

open Function Transition
set_option autoImplicit false

variable {N : Network}

/-- Who puts a message into a channel of a set: a request of the set, entry `k`
of a `send_subscribe`, or a task of the set. -/
inductive Source
  | call (c : Nat)
  | entry (c k : Nat)
  | task (k : Nat)
  deriving DecidableEq, Repr

def Source.isTask : Source → Bool
  | .task _ => true
  | _ => false

def World.source (w : World N) (i : Nat) : WorldAct N → Option Source
  | .set j (.request (.send c)) => if j = i then some (.call c) else none
  | .set j (.request (.item _ _)) => if j = i then some (.call (w.sets i).calls.length) else none
  | .set j (.poll k) => if j = i then some (.task k) else none
  | .entry c k => some (.entry c k)
  | _ => none

/-- The message that a channel of set `i` accepts by the move, by its number,
and who has put it there. -/
def putAt (i : Nat) (m : Move (World N) (WorldAct N)) : Option (Source × Nat) :=
  (m.dst.sets i).accepted[(m.src.sets i).accepted.length]?.bind fun x =>
    (m.src.source i m.act).map fun src => (src, x.2.id)

def provenance (i : Nat) (ms : List (Move (World N) (WorldAct N))) : List (Source × Nat) :=
  ms.filterMap (putAt i)

def Spawns (i : Nat) (m : Move (World N) (WorldAct N)) (id k : Nat) : Prop :=
  ∃ j chan await c env, m.act = .set i (.context j chan await) ∧
    (m.src.sets i).contexts[j]? = some c ∧ c.pos.hand = some env ∧ env.id = id ∧
    (m.src.sets i).tasks.length ≤ k ∧ k < (m.dst.sets i).tasks.length

def Begins (i : Nat) (m : Move (World N) (WorldAct N)) (k : Nat) : Prop :=
  ((∃ act, m.act = .set i (.address act)) ∨ ∃ act, m.act = .set i (.request act)) ∧
    (m.src.sets i).tasks.length ≤ k ∧ k < (m.dst.sets i).tasks.length

/-- The message is the copy that `src` has put into a channel, or it comes from
a task that such a message has started. -/
inductive Derived (i : Nat) (ms : List (Move (World N) (WorldAct N))) (src : Source) : Nat → Prop
  | copy {id : Nat} (h : (src, id) ∈ provenance i ms) : Derived i ms src id
  | task {m : Move (World N) (WorldAct N)} {id id' k : Nat} (hid : Derived i ms src id)
      (hm : m ∈ ms) (hspawns : Spawns i m id k) (hput : (.task k, id') ∈ provenance i ms) :
      Derived i ms src id'

def Rooted (i : Nat) (ms : List (Move (World N) (WorldAct N))) (id : Nat) : Prop :=
  ∃ src, Derived i ms src id ∧ ∀ k, src = .task k → ∃ m ∈ ms, Begins i m k

/-- The move ends the sending stage of a request of set `i` or of an entry with
`Err(Closed)` or `Err(Timeout)`. -/
inductive Fails (i : Nat) (m : Move (World N) (WorldAct N)) : Source → Prop
  | call {c : Nat} {call : Call (N.actor i)} {e : ActixSendError}
      (hsending : ∀ call, (m.src.sets i).calls[c]? = some call → call.phase = .sending)
      (hcall : (m.dst.sets i).calls[c]? = some call) (hphase : call.phase = .done (.err e))
      (he : e = .closed ∨ e = .timeout) : Fails i m (.call c)
  | entry {c k : Nat} {call : SubCall N} {subs : List (Subscriber N)} {ty : N.Ty} {msg : N.Val ty}
      {results : List (Nat × Option (Except ActixSendError Unit))} {e : ActixSendError}
      (hact : m.act = .entry c k) (hcall : m.dst.subCalls[c]? = some call)
      (hphase : call.phase = .sending subs ty msg results) (hres : (k, some (.error e)) ∈ results)
      (he : e = .closed ∨ e = .timeout) : Fails i m (.entry c k)

def State.Met {A : Actor} (s : State A) (env : Envelope A) : Prop :=
  (∃ x ∈ s.taken, x.env = env) ∨ (∃ c ∈ s.contexts, c.pos.hand = some env) ∨
    ∃ h ∈ s.handled, h.env = env

/-- The outcomes of the request are those of the sending stage, of the receiving
end or plain results of its message. -/
def Request.Plain {A : Actor} : Request A → Prop
  | .send msg => MapsPlainly A (A.kind msg)
  | .entry _ _ msg => MapsPlainly A (A.kind msg)
  | .item _ msg => MapsPlainly A (A.kind msg)
  | _ => True

structure SendErrorLaws (ms : List (Move (World N) (WorldAct N))) (v : World N) : Prop where
  accounted : ∀ i env, (v.sets i).Met env → Rooted i ms env.id
  failed : ∀ m ∈ ms, ∀ i src, Fails i m src → ∀ env, (v.sets i).Met env →
    ¬Derived i ms src env.id
  yields : ∀ i c (call : Call (N.actor i)) e, (v.sets i).calls[c]? = some call →
    call.phase = .done (.err e) → e = .closed ∨ e = .timeout → call.req.Plain →
    ∃ m ∈ ms, Fails i m (.call c)
  reports : ∀ i c (call : SubCall N) res e, v.subCalls[c]? = some call → call.phase = .sent res →
    .error e ∈ res → e = .closed ∨ e = .timeout → ∃ k, ∃ m ∈ ms, Fails i m (.entry c k)
  once : ∀ i src, src.isTask = false →
    ((v.sets i).taken.countP fun x => (src, x.env.id) ∈ provenance i ms) ≤ 1 ∧
    ((v.sets i).handled.countP fun h => (src, h.env.id) ∈ provenance i ms) ≤ 1

section Sets
variable {A : Actor} {s t : State A}

/-- Who puts a message into a channel, and what becomes of a request by it. -/
inductive PutsOne (s t : State A) : Act A → Source → Prop
  | task {k : Nat} (hk : k < s.tasks.length) : PutsOne s t (.poll k) (.task k)
  | call {c : Nat} {call call' : Call A} (hc : s.calls[c]? = some call)
      (hphase : call.phase = .sending) (hc' : t.calls[c]? = some call')
      (hphase' : call'.phase = .waiting none ∨ call'.phase = .done (.ok .unit)) :
      PutsOne s t (.request (.send c)) (.call c)
  | item {st : Nat} {msg : A.Message} {call' : Call A} (hc' : t.calls[s.calls.length]? = some call')
      (hphase' : call'.phase = .waiting none) :
      PutsOne s t (.request (.item st msg)) (.call s.calls.length)

theorem sendShared_accepted (s : State A) (msg : ContextMessage A) :
    (s.sendShared msg).accepted = s.accepted ∨
      (s.sendShared msg).accepted = s.accepted ++ [(0, ⟨s.nextId, msg⟩)] := by
  unfold State.sendShared
  split
  · exact .inr rfl
  · exact .inl rfl

theorem Moves.accepted_cases {act : Act A} (h : Moves s act t) :
    t.accepted = s.accepted ∨
      ∃ x src, t.accepted = s.accepted ++ [x] ∧ PutsOne s t act src := by
  cases h with
  | address h =>
    rw [h.frame]
    exact .inl rfl
  | elapseDelayed | elapseInterval => exact .inl rfl
  | context _ h =>
    rw [h.frame]
    exact .inl rfl
  | panic _ h =>
    rw [h.frame]
    exact .inl rfl
  | poll h =>
    cases h with
    | send ht | delayedSend ht | intervalSend ht =>
      rcases sendShared_accepted (A := A) _ _ with hsame | hmore
      · exact .inl hsame
      · exact .inr ⟨_, _, hmore, .task (List.getElem?_eq_some_iff.mp ht).1⟩
    | delayedDrop | delayedWait | intervalEnd | intervalUpgrade | intervalWait => exact .inl rfl
  | request h =>
    cases h with
    | send hc hphase =>
      refine .inr ⟨_, _, rfl, .call hc hphase (getElem?_set_self_of hc) ?_⟩
      simp only
      split
      · exact .inl rfl
      · exact .inr rfl
    | item => exact .inr ⟨_, _, rfl, .item List.getElem?_concat_length rfl⟩
    | @answer _ call | @canceled _ call =>
      obtain ⟨address, req, phase⟩ := call
      cases req <;> exact .inl rfl
    | cancel =>
      rw [cancelHandler_frame]
      exact .inl rfl
    | _ => exact .inl rfl

theorem ContextMove.hand_of_tasks {j : Nat} {c : Context A} (h : ContextMove s j c t)
    (hmore : s.tasks.length < t.tasks.length) : ∃ env, c.pos.hand = some env := by
  cases h with
  | delayed hpos | insert hpos => exact ⟨_, by rw [hpos]; rfl⟩
  | close | reply =>
    rw [sendReply_frame] at hmore
    exact absurd hmore (Nat.lt_irrefl _)
  | static | dynamic =>
    rw [sendReplyTo_frame] at hmore
    exact absurd hmore (Nat.lt_irrefl _)
  | pushRefused | pushExtend =>
    simp only [State.afterPush] at hmore
    split at hmore <;> exact absurd hmore (Nat.lt_irrefl _)
  | intervalRun =>
    simp only [State.runInterval] at hmore
    split at hmore <;> exact absurd hmore (Nat.lt_irrefl _)
  | _ => exact absurd hmore (Nat.lt_irrefl _)

theorem Moves.starts_cases {act : Act A} (h : Moves s act t)
    (hmore : s.tasks.length < t.tasks.length) :
    (∃ j chan await c env, act = .context j chan await ∧ s.contexts[j]? = some c ∧
      c.pos.hand = some env) ∨
    (∃ act', act = .address act') ∨ ∃ act', act = .request act' := by
  cases h with
  | address => exact .inr (.inl ⟨_, rfl⟩)
  | request => exact .inr (.inr ⟨_, rfl⟩)
  | @context j chan await c _ hc h =>
    obtain ⟨env, hhand⟩ := h.hand_of_tasks hmore
    exact .inl ⟨j, chan, await, c, env, rfl, hc, hhand⟩
  | poll h =>
    cases h with
    | send | delayedSend | intervalSend =>
      rw [sendShared_frame] at hmore
      simp [State.setTask] at hmore
    | _ => simp [State.setTask] at hmore
  | elapseDelayed | elapseInterval => simp [State.setTask] at hmore
  | panic _ h =>
    cases h
    exact absurd hmore (Nat.lt_irrefl _)

theorem ChannelInv.enqueue (hs : ChannelInv s) (chan : Nat) (msg : ContextMessage A) :
    ChannelInv (s.enqueue chan msg) := by
  constructor
  · simp only [State.enqueue, List.map_append, hs.ids, List.range_succ]
    rfl
  · refine hs.sound.accept (k := chan) (e := (⟨s.nextId, msg⟩ : Envelope A)) ?_
    intro x hx heq
    have hlt := hs.lt_nextId hx
    rw [heq] at hlt
    exact Nat.lt_irrefl _ hlt

end Sets

section Steps
variable {w v : World N}

theorem World.sets_cases {act : WorldAct N} (h : w.step act = some v) (i : Nat) :
    (∃ act', act = .set i act' ∧ ActixSend.step (w.sets i) act' = some (v.sets i)) ∨
    (∃ c k msg, act = .entry c k ∧ v.sets i = (w.sets i).enqueue 0 msg) ∨
    v.sets i = w.sets i := by
  cases WorldMove.of_step h with
  | @set j act s hs =>
    by_cases hij : i = j
    · subst hij
      exact .inl ⟨act, rfl, by rw [setSet_self, hs]⟩
    · exact .inr (.inr (setSet_other hij s))
  | @entry c k _ _ ty msg _ sub =>
    right
    have houtcome := deliver_outcome w sub ty msg
    generalize (w.deliver sub ty msg).2 = res at houtcome
    cases houtcome with
    | other _ hsets | closed _ _ hsets =>
      right
      exact congrFun hsets i
    | received hty hopen hsets =>
      by_cases hij : i = sub.set
      · subst hij
        refine .inl ⟨c, k, .instant (.static none (N.into sub.set ty msg)), rfl, ?_⟩
        rw [World.setSubCall, hsets]
        exact update_self _ _ _
      · refine .inr ?_
        rw [World.setSubCall, hsets]
        exact update_of_ne hij _ _
  | _ => exact .inr (.inr rfl)

inductive PutsAt (w v : World N) (i : Nat) : WorldAct N → Source → Prop
  | own {act : Act (N.actor i)} {src : Source} (h : PutsOne (w.sets i) (v.sets i) act src) :
      PutsAt w v i (.set i act) src
  | entry {c k : Nat} : PutsAt w v i (.entry c k) (.entry c k)

theorem PutsAt.source_eq {act : WorldAct N} {i : Nat} {src : Source} (h : PutsAt w v i act src) :
    w.source i act = some src := by
  cases h with
  | own h =>
    cases h with
    | task _ | call | item => exact if_pos rfl
  | entry => rfl

theorem World.accepted_cases {act : WorldAct N} (h : w.step act = some v) (i : Nat) :
    ((v.sets i).accepted = (w.sets i).accepted ∧ putAt i ⟨w, act, v⟩ = none) ∨
    ∃ x src, (v.sets i).accepted = (w.sets i).accepted ++ [x] ∧ PutsAt w v i act src ∧
      putAt i ⟨w, act, v⟩ = some (src, x.2.id) := by
  have hnone : (v.sets i).accepted = (w.sets i).accepted → putAt i ⟨w, act, v⟩ = none := by
    intro hsame
    simp [putAt, hsame]
  have hsome : ∀ x src, (v.sets i).accepted = (w.sets i).accepted ++ [x] →
      PutsAt w v i act src → putAt i ⟨w, act, v⟩ = some (src, x.2.id) := by
    intro x src hmore hputs
    simp [putAt, hmore, hputs.source_eq]
  rcases World.sets_cases h i with ⟨act', rfl, hstep⟩ | ⟨c, k, msg, rfl, hmore⟩ | hsame
  · rcases (Moves.of_step hstep).accepted_cases with hsame | ⟨x, src, hmore, hputs⟩
    · exact .inl ⟨hsame, hnone hsame⟩
    · exact .inr ⟨x, src, hmore, .own hputs, hsome x src hmore (.own hputs)⟩
  · have haccepted : (v.sets i).accepted =
        (w.sets i).accepted ++ [(0, ⟨(w.sets i).nextId, msg⟩)] := by
      rw [hmore]
      rfl
    exact .inr ⟨_, _, haccepted, .entry, hsome _ _ haccepted .entry⟩
  · have haccepted : (v.sets i).accepted = (w.sets i).accepted := by rw [hsame]
    exact .inl ⟨haccepted, hnone haccepted⟩

theorem World.putsAt {act : WorldAct N} (h : w.step act = some v) {i id : Nat} {src : Source}
    (hput : putAt i ⟨w, act, v⟩ = some (src, id)) : PutsAt w v i act src := by
  rcases World.accepted_cases h i with ⟨_, hnone⟩ | ⟨x, src', _, hputs, hsome⟩
  · rw [hnone] at hput
    cases hput
  · rw [hsome] at hput
    cases hput
    exact hputs

theorem World.channelInv {act : WorldAct N} (h : w.step act = some v) {i : Nat}
    (hw : ChannelInv (w.sets i)) : ChannelInv (v.sets i) := by
  rcases World.sets_cases h i with ⟨act', rfl, hstep⟩ | ⟨c, k, msg, rfl, hmore⟩ | hsame
  · exact hw.step hstep
  · rw [hmore]
    exact hw.enqueue 0 msg
  · rwa [hsame]

def World.Past (w : World N) (i c : Nat) : Prop :=
  ∃ call : Call (N.actor i), (w.sets i).calls[c]? = some call ∧ call.phase ≠ .sending

theorem World.past_kept {act : WorldAct N} (h : w.step act = some v) {i c : Nat}
    (hw : w.Past i c) : v.Past i c := by
  obtain ⟨call, hc, hphase⟩ := hw
  rcases World.step_cases h i with ⟨act', rfl, hstep⟩ | hsame
  · obtain ⟨call', hc', _, hsending⟩ := (Moves.of_step hstep).continues c call hc
    exact ⟨call', hc', fun h => hphase (hsending h)⟩
  · exact ⟨call, by rw [hsame.calls, hc], hphase⟩

def SubPhase.entryPast (k : Nat) : SubPhase N → Bool
  | .sending _ _ _ results => results.any fun res => res.1 == k
  | .sent _ => true
  | .abandoned => true
  | _ => false

def World.EntryPast (w : World N) (c k : Nat) : Prop :=
  ∃ call : SubCall N, w.subCalls[c]? = some call ∧ call.phase.entryPast k = true

theorem World.entryPast_kept {act : WorldAct N} (h : w.step act = some v) {c k : Nat}
    (hw : w.EntryPast c k) : v.EntryPast c k := by
  obtain ⟨call, hc, hpast⟩ := hw
  have hset : ∀ {c₀ : Nat} {call₀ new : SubCall N}, w.subCalls[c₀]? = some call₀ →
      (call₀.phase.entryPast k = true → new.phase.entryPast k = true) →
      ∃ call, (w.subCalls.set c₀ new)[c]? = some call ∧ call.phase.entryPast k = true := by
    intro c₀ call₀ new hc₀ hnew
    by_cases hcc : c₀ = c
    · subst hcc
      obtain rfl := Option.some.inj (hc.symm.trans hc₀)
      exact ⟨new, getElem?_set_self_of hc, hnew hpast⟩
    · exact ⟨call, by rw [List.getElem?_set_ne hcc, hc], hpast⟩
  cases WorldMove.of_step h with
  | set => exact ⟨call, hc, hpast⟩
  | subscribeWith | sendSubscribe => exact ⟨call, getElem?_append_of hc, hpast⟩
  | push hc₀ hphase | lock hc₀ hphase =>
    refine hset hc₀ fun hpast => ?_
    rw [hphase] at hpast
    cases hpast
  | collect hc₀ | abandon hc₀ => exact hset hc₀ fun _ => rfl
  | entry hc₀ hphase =>
    rw [World.EntryPast, World.setSubCall, deliver_subCalls]
    refine hset hc₀ fun hpast => ?_
    rw [hphase, SubPhase.entryPast] at hpast
    rw [SubPhase.entryPast, List.any_append, hpast, Bool.true_or]

theorem World.entry_cases {c k : Nat} (h : w.step (.entry c k) = some v) :
    ¬w.EntryPast c k ∧ v.EntryPast c k ∧ ∃ before call subs ty msg results res sub,
      w.subCalls[c]? = some before ∧ before.phase = .sending subs ty msg results ∧
      v.subCalls = w.subCalls.set c call ∧ v.subCalls[c]? = some call ∧
      call.phase = .sending subs ty msg (results ++ [(k, res)]) ∧ (∀ r ∈ results, r.1 ≠ k) ∧
      EntryOutcome w sub ty msg v res := by
  cases WorldMove.of_step h with
  | @entry _ _ before subs ty msg results sub hc hphase hk hnew =>
    let call : SubCall N := { before with
      phase := .sending subs ty msg (results ++ [(k, (w.deliver sub ty msg).2)]) }
    have hset : ((w.deliver sub ty msg).1.setSubCall c call).subCalls =
        w.subCalls.set c call := by
      rw [World.setSubCall, deliver_subCalls]
    have hcall : ((w.deliver sub ty msg).1.setSubCall c call).subCalls[c]? = some call := by
      rw [hset]
      exact getElem?_set_self_of hc
    refine ⟨?_, ⟨call, hcall, by simp [call, SubPhase.entryPast]⟩, before, call, subs, ty, msg,
      results, _, sub, hc, hphase, hset, hcall, rfl, ?_, (deliver_outcome w sub ty msg).of_sets rfl⟩
    · rintro ⟨call', hc', hpast⟩
      obtain rfl := Option.some.inj (hc.symm.trans hc')
      rw [hphase, SubPhase.entryPast, hnew] at hpast
      cases hpast
    · intro r hr heq
      exact absurd (List.any_eq_false.mp hnew r hr) (by simp [heq])

def World.SourcePast (w : World N) (i : Nat) : Source → Prop
  | .call c => w.Past i c
  | .entry c k => w.EntryPast c k
  | .task _ => True

theorem World.sourcePast_kept {act : WorldAct N} (h : w.step act = some v) {i : Nat} {src : Source}
    (hw : w.SourcePast i src) : v.SourcePast i src := by
  cases src with
  | call c => exact World.past_kept h hw
  | entry c k => exact World.entryPast_kept h hw
  | task k => trivial

theorem PutsOne.call_phase {A : Actor} {s t : State A} {act : Act A} {c : Nat}
    (h : PutsOne s t act (.call c)) :
    (∀ call, s.calls[c]? = some call → call.phase = .sending) ∧ ∃ call', t.calls[c]? = some call' ∧
      (call'.phase = .waiting none ∨ call'.phase = .done (.ok .unit)) := by
  cases h with
  | call hc hphase hc' hphase' =>
    refine ⟨fun call hcall => ?_, _, hc', hphase'⟩
    obtain rfl := Option.some.inj (hc.symm.trans hcall)
    exact hphase
  | item hc' hphase' =>
    refine ⟨fun call hcall => ?_, _, hc', .inl hphase'⟩
    exact absurd (List.getElem?_eq_some_iff.mp hcall).1 (Nat.lt_irrefl _)

theorem PutsAt.past {act : WorldAct N} {i : Nat} {src : Source} (h : PutsAt w v i act src)
    (hstep : w.step act = some v) (hsrc : src.isTask = false) :
    ¬w.SourcePast i src ∧ v.SourcePast i src := by
  cases h with
  | @own act src h =>
    cases src with
    | call c =>
      obtain ⟨hsending, call', hc', hphase'⟩ := h.call_phase
      refine ⟨?_, call', hc', ?_⟩
      · rintro ⟨call, hc, hpast⟩
        exact hpast (hsending call hc)
      · rcases hphase' with hphase' | hphase' <;> rw [hphase'] <;> nofun
    | entry c k => cases h
    | task k => cases hsrc
  | entry =>
    obtain ⟨hbefore, hafter, _⟩ := World.entry_cases hstep
    exact ⟨hbefore, hafter⟩

theorem Fails.past {m : Move (World N) (WorldAct N)} {i : Nat} {src : Source} (h : Fails i m src)
    (hstep : m.src.step m.act = some m.dst) :
    ¬m.src.SourcePast i src ∧ m.dst.SourcePast i src := by
  cases h with
  | call hsending hcall hphase =>
    refine ⟨?_, _, hcall, by rw [hphase]; nofun⟩
    rintro ⟨call, hc, hpast⟩
    exact hpast (hsending call hc)
  | entry hact =>
    rw [hact] at hstep
    obtain ⟨hbefore, hafter, _⟩ := World.entry_cases hstep
    exact ⟨hbefore, hafter⟩

theorem Fails.put_ne {m : Move (World N) (WorldAct N)} {i id : Nat} {src : Source}
    (h : Fails i m src) (hstep : m.src.step m.act = some m.dst) : putAt i m ≠ some (src, id) := by
  intro hput
  obtain ⟨w, act, v⟩ := m
  cases h with
  | call hsending hcall hphase =>
    cases World.putsAt hstep hput with
    | own h =>
      obtain ⟨_, call', hc', hphase'⟩ := h.call_phase
      obtain rfl := Option.some.inj (hcall.symm.trans hc')
      rw [hphase] at hphase'
      rcases hphase' with hphase' | hphase' <;> cases hphase'
  | @entry c k _ _ _ _ _ e hact hcall hphase hres =>
    obtain rfl : act = .entry c k := hact
    obtain ⟨_, _, _, call', _, _, _, results, res, sub, _, _, _, hc', hphase', hnew, houtcome⟩ :=
      World.entry_cases hstep
    obtain rfl := Option.some.inj (hcall.symm.trans hc')
    rw [hphase'] at hphase
    cases hphase
    rcases List.mem_append.mp hres with hres | hres
    · exact hnew _ hres rfl
    · obtain rfl : some (.error e) = res := congrArg Prod.snd (List.mem_singleton.mp hres)
      cases houtcome with
      | closed _ _ hsets =>
        have hsame : v.sets = w.sets := hsets
        have hnone : putAt i ⟨w, .entry c k, v⟩ = none := by simp [putAt, hsame]
        rw [hnone] at hput
        cases hput

end Steps

theorem ChannelInv.accepted_of_met {A : Actor} {s : State A} (hs : ChannelInv s) {env : Envelope A}
    (h : s.Met env) : ∃ chan, (chan, env) ∈ s.accepted := by
  rcases h with ⟨x, hx, rfl⟩ | ⟨c, hc, hhand⟩ | ⟨x, hx, rfl⟩
  · exact ⟨x.chan, hs.sound.accepted_of_taken (List.mem_map.mpr ⟨x, hx, rfl⟩)⟩
  · obtain ⟨i, hi⟩ := List.getElem?_of_mem hc
    have hbusy : s.ledger.worker i = .busy env := by rw [ledger_worker hi, worker_of_hand hhand]
    obtain ⟨chan, htaken⟩ := hs.sound.taken_of_busy hbusy
    exact ⟨chan, hs.sound.accepted_of_taken htaken⟩
  · obtain ⟨chan, _, haccepted⟩ := hs.accepted_of_handled hx
    exact ⟨chan, haccepted⟩

theorem Request.Plain.answer {A : Actor} {req : Request A} (h : req.Plain) {reply : Reply A}
    {e : ActixSendError} (hanswer : req.answer reply = .err e) : e ≠ .closed ∧ e ≠ .timeout := by
  have hplain : ∀ {kind : A.Kind} {r : A.Result}, MapsPlainly A kind →
      Outcome.ofMap (A.map kind r) = .err e → e ≠ .closed ∧ e ≠ .timeout := by
    intro kind r hmap hanswer
    have hclean : e.ofChannel = false := by
      refine hmap r e ?_
      unfold Outcome.ofMap at hanswer
      split at hanswer <;> cases hanswer
      assumption
    constructor <;> rintro rfl <;> cases hclean
  cases req with
  | send | entry | item =>
    cases reply with
    | result => exact hplain h hanswer
    | _ => cases hanswer
  | run =>
    cases reply with
    | object =>
      simp only [Request.answer] at hanswer
      split at hanswer <;> cases hanswer
      simp
    | _ => cases hanswer
  | sendLater | runLater | runInterval | closeOne => cases reply <;> cases hanswer

section Runs
variable {w v : World N} {ms ns : List (Move (World N) (WorldAct N))} {i : Nat} {src : Source}

theorem exists_copy_of_derived {id : Nat} (h : Derived i ms src id) :
    ∃ id, (src, id) ∈ provenance i ms := by
  induction h with
  | copy h => exact ⟨_, h⟩
  | task _ _ _ _ ih => exact ih

theorem mem_provenance_append {x : Source × Nat} (h : x ∈ provenance i ms) :
    x ∈ provenance i (ms ++ ns) := by
  rw [provenance, List.filterMap_append]
  exact List.mem_append_left _ h

theorem mem_provenance_last {m : Move (World N) (WorldAct N)} {x : Source × Nat}
    (h : putAt i m = some x) : x ∈ provenance i (ms ++ [m]) :=
  List.mem_filterMap.mpr ⟨m, List.mem_concat_self, h⟩

theorem Derived.append {id : Nat} (h : Derived i ms src id) : Derived i (ms ++ ns) src id := by
  induction h with
  | copy h => exact .copy (mem_provenance_append h)
  | task _ hm hspawns hput ih =>
    exact .task ih (List.mem_append_left _ hm) hspawns (mem_provenance_append hput)

theorem Rooted.append {id : Nat} (h : Rooted i ms id) : Rooted i (ms ++ ns) id := by
  obtain ⟨src, hderived, hroot⟩ := h
  refine ⟨src, hderived.append, fun k hk => ?_⟩
  obtain ⟨m, hm, hbegins⟩ := hroot k hk
  exact ⟨m, List.mem_append_left _ hm, hbegins⟩

def RootedTask (i : Nat) (ms : List (Move (World N) (WorldAct N))) (k : Nat) : Prop :=
  (∃ m ∈ ms, Begins i m k) ∨ ∃ m ∈ ms, ∃ id, Spawns i m id k ∧ Rooted i ms id

theorem RootedTask.append {k : Nat} (h : RootedTask i ms k) : RootedTask i (ms ++ ns) k := by
  rcases h with ⟨m, hm, hbegins⟩ | ⟨m, hm, id, hspawns, hroot⟩
  · exact .inl ⟨m, List.mem_append_left _ hm, hbegins⟩
  · exact .inr ⟨m, List.mem_append_left _ hm, id, hspawns, hroot.append⟩

theorem RootedTask.puts {k id : Nat} (h : RootedTask i ms k)
    (hput : (.task k, id) ∈ provenance i ms) : Rooted i ms id := by
  rcases h with ⟨m, hm, hbegins⟩ | ⟨m, hm, _, hspawns, src, hderived, hroot⟩
  · refine ⟨.task k, .copy hput, fun k' hk => ?_⟩
    cases hk
    exact ⟨m, hm, hbegins⟩
  · exact ⟨src, .task hderived hm hspawns hput, hroot⟩

structure SourceInv (v : World N) (ms : List (Move (World N) (WorldAct N))) (i : Nat) : Prop where
  channel : ChannelInv (v.sets i)
  accepted : ∀ x ∈ (v.sets i).accepted, Rooted i ms x.2.id
  tasks : ∀ k < (v.sets i).tasks.length, RootedTask i ms k

theorem SourceInv.met (h : SourceInv v ms i) {env : Envelope (N.actor i)}
    (hmet : (v.sets i).Met env) : Rooted i ms env.id := by
  obtain ⟨chan, haccepted⟩ := h.channel.accepted_of_met hmet
  exact h.accepted _ haccepted

theorem SourceInv.puts {act : WorldAct N} (hw : SourceInv w ms i) (h : PutsAt w v i act src)
    {id : Nat} (hput : (src, id) ∈ provenance i (ms ++ [⟨w, act, v⟩])) :
    Rooted i (ms ++ [⟨w, act, v⟩]) id := by
  cases h with
  | own h =>
    cases h with
    | task hk => exact (hw.tasks _ hk).append.puts hput
    | call | item => exact ⟨_, .copy hput, nofun⟩
  | entry => exact ⟨_, .copy hput, nofun⟩

theorem SourceInv.starts {act : WorldAct N} (hw : SourceInv w ms i) (h : w.step act = some v)
    {k : Nat} (hk : (w.sets i).tasks.length ≤ k) (hk' : k < (v.sets i).tasks.length) :
    RootedTask i (ms ++ [⟨w, act, v⟩]) k := by
  have hlast : (⟨w, act, v⟩ : Move _ _) ∈ ms ++ [⟨w, act, v⟩] :=
    List.mem_concat_self
  have hmore : (w.sets i).tasks.length < (v.sets i).tasks.length := Nat.lt_of_le_of_lt hk hk'
  rcases World.sets_cases h i with ⟨act', rfl, hstep⟩ | ⟨_, _, msg, _, hsame⟩ | hsame
  · rcases (Moves.of_step hstep).starts_cases hmore with
      ⟨j, chan, await, c, env, rfl, hc, hhand⟩ | ⟨_, rfl⟩ | ⟨_, rfl⟩
    · have hmet : (w.sets i).Met env := .inr (.inl ⟨c, List.mem_of_getElem? hc, hhand⟩)
      exact .inr ⟨_, hlast, env.id, ⟨j, chan, await, c, env, rfl, hc, hhand, rfl, hk, hk'⟩,
        (hw.met hmet).append⟩
    · exact .inl ⟨_, hlast, .inl ⟨_, rfl⟩, hk, hk'⟩
    · exact .inl ⟨_, hlast, .inr ⟨_, rfl⟩, hk, hk'⟩
  · rw [hsame] at hmore
    exact absurd hmore (Nat.lt_irrefl _)
  · rw [hsame] at hmore
    exact absurd hmore (Nat.lt_irrefl _)

theorem SourceInv.step {act : WorldAct N} (h : w.step act = some v) (hw : SourceInv w ms i) :
    SourceInv v (ms ++ [⟨w, act, v⟩]) i := by
  refine ⟨World.channelInv h hw.channel, ?_, ?_⟩
  · intro x hx
    rcases World.accepted_cases h i with ⟨hsame, _⟩ | ⟨y, src, hmore, hputs, hsome⟩
    · rw [hsame] at hx
      exact (hw.accepted x hx).append
    · rw [hmore] at hx
      rcases List.mem_append.mp hx with hx | hx
      · exact (hw.accepted x hx).append
      · obtain rfl := List.mem_singleton.mp hx
        exact hw.puts hputs (mem_provenance_last hsome)
  · intro k hk
    rcases Nat.lt_or_ge k (w.sets i).tasks.length with hlt | hge
    · exact (hw.tasks k hlt).append
    · exact hw.starts h hge hk

theorem World.Started.sourceInv {cfg : Nat → Config}
    {build : (i : Nat) → Nat → (N.actor i).State} (h : w.Started cfg build) (i : Nat) :
    SourceInv w [] i := by
  obtain ⟨wiring, heq, _⟩ := (h.sets i).exists_wiring
  refine ⟨(h.sets i).channelInv, ?_, ?_⟩
  · rw [heq]
    exact List.forall_mem_nil _
  · rw [heq]
    exact fun k hk => absurd hk (Nat.not_lt_zero k)

theorem SourceInv.path {u : World N} (h : Path World.step w ms u) (hw : SourceInv w [] i) :
    SourceInv u ms i := by
  induction h with
  | nil => exact hw
  | snoc _ hstep ih => exact ih.step hstep

/-- A source puts its message into a channel once. -/
theorem provenance_unique (h : Path World.step w ms v) (hsrc : src.isTask = false) {id id' : Nat}
    (hid : (src, id) ∈ provenance i ms) (hid' : (src, id') ∈ provenance i ms) : id = id' := by
  obtain ⟨m, hm, hput⟩ := List.mem_filterMap.mp hid
  obtain ⟨n, hn, hput'⟩ := List.mem_filterMap.mp hid'
  have hpast := (World.putsAt (h.step_eq hm) hput).past (h.step_eq hm) hsrc
  have hpast' := (World.putsAt (h.step_eq hn) hput').past (h.step_eq hn) hsrc
  obtain rfl := h.eq_of_establish (Q := fun u => u.SourcePast i src)
    (fun _ _ _ hstep => World.sourcePast_kept hstep) hm hn hpast hpast'
  rw [hput] at hput'
  cases hput'
  rfl

theorem Fails.not_derived {m : Move (World N) (WorldAct N)} (h : Path World.step w ms v)
    (hm : m ∈ ms) (hfails : Fails i m src) (id : Nat) : ¬Derived i ms src id := by
  intro hderived
  obtain ⟨id', hid⟩ := exists_copy_of_derived hderived
  obtain ⟨n, hn, hput⟩ := List.mem_filterMap.mp hid
  have hsrc : src.isTask = false := by cases hfails <;> rfl
  have hpast := hfails.past (h.step_eq hm)
  have hpast' := (World.putsAt (h.step_eq hn) hput).past (h.step_eq hn) hsrc
  obtain rfl := h.eq_of_establish (Q := fun u => u.SourcePast i src)
    (fun _ _ _ hstep => World.sourcePast_kept hstep) hm hn hpast hpast'
  exact hfails.put_ne (h.step_eq hm) hput

theorem exists_failure {cfg : Nat → Config} {build : (i : Nat) → Nat → (N.actor i).State}
    (hstart : w.Started cfg build) (h : Path World.step w ms v) {c : Nat}
    {call : Call (N.actor i)} {e : ActixSendError} (hc : (v.sets i).calls[c]? = some call)
    (hphase : call.phase = .done (.err e)) (he : e = .closed ∨ e = .timeout)
    (hplain : call.req.Plain) : ∃ m ∈ ms, Fails i m (.call c) := by
  induction h generalizing call with
  | nil =>
    obtain ⟨wiring, heq, _⟩ := (hstart.sets i).exists_wiring
    rw [heq] at hc
    cases hc
  | @snoc ms u v act _ hstep ih =>
    have hkept : (u.sets i).calls[c]? = some call →
        ∃ m ∈ ms ++ [⟨u, act, v⟩], Fails i m (.call c) := by
      intro hc
      obtain ⟨m, hm, hfails⟩ := ih hc hphase hplain
      exact ⟨m, List.mem_append_left _ hm, hfails⟩
    have hlast : (∀ call, (u.sets i).calls[c]? = some call → call.phase = .sending) →
        ∃ m ∈ ms ++ [⟨u, act, v⟩], Fails i m (.call c) := by
      intro hsending
      exact ⟨_, List.mem_concat_self, .call hsending hc hphase he⟩
    rcases World.step_cases hstep i with ⟨act', rfl, hown⟩ | hsame
    · cases (Moves.of_step hown).callOrigin hc with
      | @old before hbefore hturn =>
        have hsending : before.phase = .sending →
            ∀ call, (u.sets i).calls[c]? = some call → call.phase = .sending := by
          intro hphase call hcall
          rw [hbefore] at hcall
          cases hcall
          exact hphase
        cases hturn with
        | keep => exact hkept hbefore
        | refuse hsend | timeout hsend => exact hlast (hsending hsend)
        | send =>
          simp only at hphase
          split at hphase <;> cases hphase
        | receive =>
          obtain ⟨hclosed, htimeout⟩ := hplain.answer (CallPhase.done.inj hphase)
          rcases he with rfl | rfl
          · exact absurd rfl hclosed
          · exact absurd rfl htimeout
        | canceled =>
          cases hphase
          rcases he with he | he <;> cases he
        | answered | abandon => cases hphase
      | new _ hnew =>
        rw [hnew] at hphase
        cases hphase
      | item hlen =>
        refine hlast fun call hcall => ?_
        exact absurd (List.getElem?_eq_some_iff.mp hcall).1 (Nat.not_lt.mpr hlen)
    · exact hkept (by rw [← hsame.calls, hc])

/-- The errors among the results of a call's entries are those of moves. -/
def Reported (i c : Nat) (ms : List (Move (World N) (WorldAct N))) : SubPhase N → Prop
  | .sending _ _ _ results => ∀ k e, (k, some (.error e)) ∈ results → e = .closed ∨ e = .timeout →
      ∃ m ∈ ms, Fails i m (.entry c k)
  | .sent res => ∀ e, .error e ∈ res → e = .closed ∨ e = .timeout →
      ∃ k, ∃ m ∈ ms, Fails i m (.entry c k)
  | _ => True

theorem Reported.append {c : Nat} {phase : SubPhase N} (h : Reported i c ms phase) :
    Reported i c (ms ++ ns) phase := by
  cases phase with
  | sending =>
    intro k e hres he
    obtain ⟨m, hm, hfails⟩ := h k e hres he
    exact ⟨m, List.mem_append_left _ hm, hfails⟩
  | sent =>
    intro e hres he
    obtain ⟨k, m, hm, hfails⟩ := h e hres he
    exact ⟨k, m, List.mem_append_left _ hm, hfails⟩
  | _ => trivial

theorem Reported.entry {c k : Nat} (h : w.step (.entry c k) = some v)
    (hw : ∀ call : SubCall N, w.subCalls[c]? = some call → Reported i c ms call.phase)
    {call : SubCall N} (hc : v.subCalls[c]? = some call) :
    Reported i c (ms ++ [⟨w, .entry c k, v⟩]) call.phase := by
  obtain ⟨_, _, before, _, _, _, _, _, _, _, hbefore, hphase, _, hcall, hphase', _⟩ :=
    World.entry_cases h
  obtain rfl := Option.some.inj (hcall.symm.trans hc)
  have hold := hw before hbefore
  rw [hphase] at hold
  rw [hphase']
  intro k' e hres he
  rcases List.mem_append.mp hres with hmem | hmem
  · obtain ⟨m, hm, hfails⟩ := hold k' e hmem he
    exact ⟨m, List.mem_append_left _ hm, hfails⟩
  · obtain ⟨rfl, _⟩ := Prod.mk.inj (List.mem_singleton.mp hmem)
    exact ⟨_, List.mem_concat_self, .entry rfl hcall hphase' hres he⟩

theorem Reported.step {act : WorldAct N} (h : w.step act = some v)
    (hw : ∀ c (call : SubCall N), w.subCalls[c]? = some call → Reported i c ms call.phase) :
    ∀ c (call : SubCall N), v.subCalls[c]? = some call →
      Reported i c (ms ++ [⟨w, act, v⟩]) call.phase := by
  intro c call hc
  have hset : ∀ (c₀ : Nat) (new : SubCall N), v.subCalls = w.subCalls.set c₀ new →
      Reported i c₀ (ms ++ [⟨w, act, v⟩]) new.phase →
      Reported i c (ms ++ [⟨w, act, v⟩]) call.phase := by
    intro c₀ new hv hnew
    rw [hv] at hc
    rcases getElem?_set_cases hc with ⟨rfl, rfl⟩ | ⟨_, hc⟩
    · exact hnew
    · exact (hw c call hc).append
  have happend : ∀ new : SubCall N, v.subCalls = w.subCalls ++ [new] →
      Reported i c (ms ++ [⟨w, act, v⟩]) new.phase →
      Reported i c (ms ++ [⟨w, act, v⟩]) call.phase := by
    intro new hv hnew
    rw [hv] at hc
    rcases getElem?_append_cases hc with ⟨_, rfl⟩ | hc
    · exact hnew
    · exact (hw c call hc).append
  cases WorldMove.of_step h with
  | set => exact (hw c call hc).append
  | subscribeWith =>
    refine happend _ rfl ?_
    simp only
    split <;> trivial
  | sendSubscribe =>
    refine happend _ rfl ?_
    simp only
    split
    · trivial
    · intro e hres he
      cases List.mem_singleton.mp hres
      rcases he with he | he <;> cases he
  | push | abandon => exact hset _ _ rfl trivial
  | lock => exact hset _ _ rfl fun k e hres => absurd hres List.not_mem_nil
  | collect hc₀ hphase =>
    refine hset _ _ rfl fun e hres he => ?_
    obtain ⟨⟨k, _⟩, hmem, rfl⟩ := List.mem_filterMap.mp hres
    have hbefore := hw _ _ hc₀
    rw [hphase] at hbefore
    obtain ⟨m, hm, hfails⟩ := hbefore k e hmem he
    exact ⟨k, m, List.mem_append_left _ hm, hfails⟩
  | @entry c₀ k =>
    by_cases hcc : c₀ = c
    · subst hcc
      exact Reported.entry h (hw c₀) hc
    · obtain ⟨_, _, _, new, _, _, _, _, _, _, _, _, hv, _⟩ := World.entry_cases h
      rw [hv, List.getElem?_set_ne hcc] at hc
      exact (hw c call hc).append

theorem Reported.path {u : World N} (h : Path World.step w ms u) (hw : w.subCalls = []) :
    ∀ c (call : SubCall N), u.subCalls[c]? = some call → Reported i c ms call.phase := by
  induction h with
  | nil =>
    intro c call hc
    rw [hw] at hc
    cases hc
  | snoc _ hstep ih => exact Reported.step hstep ih

theorem once_of_path (h : Path World.step w ms v) (hchannel : ChannelInv (v.sets i))
    (hsrc : src.isTask = false) :
    ((v.sets i).taken.countP fun x => (src, x.env.id) ∈ provenance i ms) ≤ 1 ∧
    ((v.sets i).handled.countP fun h => (src, h.env.id) ∈ provenance i ms) ≤ 1 := by
  have hunique : ∀ {env env' : Envelope (N.actor i)}, (v.sets i).Met env → (v.sets i).Met env' →
      (src, env.id) ∈ provenance i ms → (src, env'.id) ∈ provenance i ms → env = env' := by
    intro env env' hmet hmet' hput hput'
    obtain ⟨_, haccepted⟩ := hchannel.accepted_of_met hmet
    obtain ⟨_, haccepted'⟩ := hchannel.accepted_of_met hmet'
    exact congrArg Prod.snd
      (hchannel.eq_of_id haccepted haccepted' (provenance_unique h hsrc hput hput'))
  constructor
  · refine countP_le_one_of_nodup (f := Taken.env) ?_ fun x hx y hy hpx hpy => ?_
    · simpa [State.ledger, comp_def] using hchannel.sound.taken_nodup
    · exact hunique (.inl ⟨x, hx, rfl⟩) (.inl ⟨y, hy, rfl⟩) (of_decide_eq_true hpx)
        (of_decide_eq_true hpy)
  · refine countP_le_one_of_nodup (f := Handled.env) ?_ fun x hx y hy hpx hpy => ?_
    · simpa [State.ledger, comp_def] using hchannel.sound.handled_nodup
    · exact hunique (.inr (.inr ⟨x, hx, rfl⟩)) (.inr (.inr ⟨y, hy, rfl⟩)) (of_decide_eq_true hpx)
        (of_decide_eq_true hpy)

/-- An error of the sending stage means no effect, whoever sends. -/
theorem send_error_laws {cfg : Nat → Config} {build : (i : Nat) → Nat → (N.actor i).State}
    (hstart : w.Started cfg build) (h : Path World.step w ms v) : SendErrorLaws ms v := by
  have hinv : ∀ i, SourceInv v ms i := fun i => (hstart.sourceInv i).path h
  constructor
  · exact fun i env hmet => (hinv i).met hmet
  · exact fun m hm i src hfails env _ => hfails.not_derived h hm env.id
  · exact fun i c call e hc hphase he hplain => exists_failure hstart h hc hphase he hplain
  · intro i c call res e hc hphase hres he
    have hreported : Reported i c ms call.phase := Reported.path h hstart.subCalls c call hc
    rw [hphase] at hreported
    exact hreported e hres he
  · exact fun i src hsrc => once_of_path h (hinv i).channel hsrc

end Runs

def SubPhase.refused (k : Nat) : SubPhase N → Bool
  | .sending _ _ _ results => results.contains (k, some (.error .closed))
  | _ => false

theorem Fails.of_refused {i c k : Nat} {u v : World N} {call : SubCall N}
    (hcall : v.subCalls[c]? = some call) (hphase : call.phase.refused k = true) :
    Fails i ⟨u, .entry c k, v⟩ (.entry c k) := by
  cases hsending : call.phase with
  | sending subs ty msg results =>
    rw [hsending, SubPhase.refused, List.contains_iff_mem] at hphase
    exact .entry rfl hcall hsending hphase (.inl rfl)
  | _ =>
    rw [hsending] at hphase
    cases hphase

/-- The entry of the set that is gone fails. -/
theorem send_error_laws_typed : ∃ ms v, Path World.step typedWorld ms v ∧
    (∃ m ∈ ms, Fails 2 m (.entry 4 1)) ∧ SendErrorLaws ms v := by
  obtain ⟨ms, u, v, hpath, _, hp⟩ := exists_path_of_eval World.step typedWorld
    (subscribeActs.take 15) (.entry 4 1)
    (fun _ v => v.subCalls[4]?.any fun call => call.phase.refused 1) (by decide)
  obtain ⟨call, hcall, hphase⟩ := (Option.any_eq_true _ _).mp hp
  exact ⟨_, v, hpath, ⟨_, List.mem_concat_self, .of_refused hcall hphase⟩,
    send_error_laws (World.started_start _ _) hpath⟩

end ActixSend
