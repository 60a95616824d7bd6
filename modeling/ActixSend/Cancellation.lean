import ActixSend.Channel
import ActixSend.Transition.Registry

/-! # Shutdown and the tasks of an actor set

`push_handler` reads `MARKER` and then takes the lock; `shutdown` writes
`MARKER` and then takes the lock for one pass over the handlers. A context that
has spawned a task is between the two for a while. If it finds `MARKER` set it
throws the handler away, and if it is late with the lock it stores the handler
behind the pass: either way the task is not cancelled. No drop calls
`shutdown`, so the call is put beside a set that has run for any time.
-/

namespace ActixSend

open Function Transition
set_option autoImplicit false

variable {A : Actor}

def Position.pushing : Position A → Option FutureHandler
  | .pushCheck _ h => some h
  | .pushExtend _ h => some h
  | _ => none

def AddressPhase.pass : AddressPhase → Pass
  | .live => .before
  | .shutdown .marker => .before
  | .shutdown .lock => .before
  | .shutdown (.cancel rest) => .during (rest.map FutureHandler.cell)
  | .fields => .after
  | .dropped => .after

namespace State

/-- The state in which a call of `ActorState::shutdown` begins, made while an
address that has no clone left in the count is dropped. -/
def callShutdown (s : State A) : State A :=
  { s with addresses := s.addresses ++ [⟨none, none, .shutdown .marker⟩] }

def pass (s : State A) (a : Nat) : Pass :=
  match s.addresses[a]? with
  | some addr => addr.phase.pass
  | none => .before

def registry (s : State A) (pass : Pass) : Registry Nat where
  flags := s.cells.map CancelCell.flag
  stored := s.handlers.map FutureHandler.cell
  held i := ((s.contexts[i]?).bind fun c => c.pos.pushing).map FutureHandler.cell
  pass := pass

end State

/-- `push_handler` finds `MARKER` clear, and takes the lock before the pass. -/
def Position.InTime (s : State A) (pass : Pass) : Position A → Prop
  | .pushCheck _ _ => s.isRunning = true
  | .pushExtend _ _ => pass = .before
  | _ => True

def PushedInTime (a : Nat) (m : Move (State A) (Act A)) : Prop :=
  ∀ (i chan : Nat) (await : A.Await) (c : Context A), m.act = .context i chan await →
    m.src.contexts[i]? = some c → c.pos.InTime m.src (m.src.pass a)

def CancelsOwn (m : Move (State A) (Act A)) : Prop := ∃ c, m.act = .request (.cancel c)

/-- Every task is cancelled, and none of the delayed messages still waiting for
its time gets into the channel. -/
structure ShutDown (s : State A) : Prop where
  cancelled : ∀ cell ∈ s.cells, cell.flag = true
  silenced : s.cfg.handleDelayedOnShutdown = false →
    ∀ (k cell : Nat) (msg : InstantMessage A), s.tasks[k]? = some (.delayed cell msg false) →
      ∀ ms t, Path step s ms t → ∀ m ∈ ms, m.act = .poll k → m.dst.accepted = m.src.accepted

theorem registry_held {s t : State A} {pass : Pass} {i : Nat} {c c' : Context A}
    (hc : s.contexts[i]? = some c) (ht : t.contexts = s.contexts.set i c') :
    (t.registry pass).held =
      update (s.registry pass).held i (c'.pos.pushing.map FutureHandler.cell) := by
  funext j
  by_cases hji : j = i
  · subst hji
    rw [update_self]
    simp [State.registry, ht, getElem?_set_self_of hc]
  · rw [update_of_ne hji]
    simp [State.registry, ht, List.getElem?_set_ne (Ne.symm hji)]

theorem held_eq {s : State A} {pass : Pass} {i : Nat} {c : Context A}
    (hc : s.contexts[i]? = some c) :
    (s.registry pass).held i = c.pos.pushing.map FutureHandler.cell := by
  simp [State.registry, hc]

theorem registry_same {s t : State A} {pass : Pass} {i : Nat} {c c' : Context A}
    (hc : s.contexts[i]? = some c) (ht : t.contexts = s.contexts.set i c')
    (hpushing : c'.pos.pushing = c.pos.pushing) (hcells : t.cells = s.cells)
    (hhandlers : t.handlers = s.handlers) : t.registry pass = s.registry pass := by
  refine Registry.ext ?_ ?_ ?_ rfl
  · simp [State.registry, hcells]
  · simp [State.registry, hhandlers]
  · rw [registry_held hc ht, hpushing, ← held_eq hc, update_eq_self]

theorem registry_spawn {s t : State A} {pass : Pass} {i : Nat} {c c' : Context A}
    {index : Option Nat} (hc : s.contexts[i]? = some c) (ht : t.contexts = s.contexts.set i c')
    (hpushing : c'.pos.pushing = some ⟨s.cells.length, index⟩)
    (hcells : t.cells = s.cells ++ [.new]) (hhandlers : t.handlers = s.handlers) :
    t.registry pass = (s.registry pass).spawn i := by
  refine Registry.ext ?_ ?_ ?_ rfl
  · simp [State.registry, hcells, Registry.spawn, CancelCell.new]
  · simp [State.registry, hhandlers, Registry.spawn]
  · rw [registry_held hc ht, hpushing]
    simp [Registry.spawn, State.registry]

theorem registry_discard {s t : State A} {pass : Pass} {i : Nat} {c c' : Context A}
    (hc : s.contexts[i]? = some c) (ht : t.contexts = s.contexts.set i c')
    (hpushing : c'.pos.pushing = none) (hcells : t.cells = s.cells)
    (hhandlers : t.handlers = s.handlers) :
    t.registry pass = (s.registry pass).discard i := by
  refine Registry.ext ?_ ?_ ?_ rfl
  · simp [State.registry, hcells, Registry.discard]
  · simp [State.registry, hhandlers, Registry.discard]
  · rw [registry_held hc ht, hpushing]
    rfl

theorem afterPush_registry (s : State A) {pass : Pass} {i : Nat} {c : Context A}
    {env : Envelope A} {h : FutureHandler} (hc : s.contexts[i]? = some c) :
    (s.afterPush i c env h).registry pass = (s.registry pass).discard i := by
  simp only [State.afterPush]
  split <;> exact registry_discard hc rfl rfl rfl rfl

theorem ContextMove.event {s t : State A} {i : Nat} {c : Context A} (h : ContextMove s i c t)
    (hc : s.contexts[i]? = some c) (pass : Pass) :
    c.pos.InTime s pass ∧ Registry.Event (s.registry pass) .timely (t.registry pass) ∨
      ¬c.pos.InTime s pass ∧ Registry.Event (s.registry pass) .late (t.registry pass) := by
  have hsame : ∀ {t : State A}, t.registry pass = s.registry pass →
      Registry.Event (s.registry pass) .timely (t.registry pass) := by
    intro t ht
    rw [ht]
    exact .same
  have hspawn : ∀ {t : State A}, t.registry pass = (s.registry pass).spawn i →
      c.pos.pushing = none → Registry.Event (s.registry pass) .timely (t.registry pass) := by
    intro t ht hnone
    rw [ht]
    exact .spawn (by rw [held_eq hc, hnone]; rfl)
  cases h with
  | delayed hpos | insert hpos =>
    exact .inl ⟨by rw [hpos]; trivial,
      hspawn (registry_spawn hc rfl rfl rfl rfl) (by rw [hpos]; rfl)⟩
  | pushCheck hpos hrunning =>
    refine .inl ⟨by rw [hpos]; exact hrunning, hsame ?_⟩
    exact registry_same hc rfl (by rw [hpos]; rfl) rfl rfl
  | @pushRefused _ handler hpos hrunning =>
    refine .inr ⟨by rw [hpos]; simp [Position.InTime, hrunning], ?_⟩
    rw [afterPush_registry s hc]
    exact .discard (k := handler.cell) (by rw [held_eq hc, hpos]; rfl)
  | @pushExtend _ handler hpos hlock =>
    have hheld : (s.registry pass).held i = some handler.cell := by
      rw [held_eq hc, hpos]
      rfl
    have hstore : ({ s with handlers := s.handlers ++ [handler] }.registry pass).discard i =
        (s.registry pass).store i handler.cell := by
      simp [State.registry, Registry.discard, Registry.store]
    rw [hpos, afterPush_registry { s with handlers := s.handlers ++ [handler] } hc, hstore]
    by_cases hpass : pass = .before
    · exact .inl ⟨hpass, .store hheld hpass⟩
    · exact .inr ⟨hpass, .storeLate hheld hpass⟩
  | close hpos | reply hpos =>
    refine .inl ⟨by rw [hpos]; trivial, hsame ?_⟩
    rw [sendReply_frame]
    exact registry_same hc rfl (by rw [hpos]; rfl) rfl rfl
  | static hpos | dynamic hpos =>
    refine .inl ⟨by rw [hpos]; trivial, hsame ?_⟩
    rw [sendReplyTo_frame]
    exact registry_same hc rfl (by rw [hpos]; rfl) rfl rfl
  | register hpos =>
    refine .inl ⟨by rw [hpos]; trivial, hsame (registry_same hc rfl ?_ rfl rfl)⟩
    rw [hpos]
    dsimp only
    split <;> rfl
  | intervalRun hpos =>
    refine .inl ⟨by rw [hpos]; trivial, hsame ?_⟩
    simp only [State.runInterval]
    split <;> exact registry_same hc rfl (by rw [hpos]; rfl) rfl rfl
  | build hpos | onStart hpos | incActive hpos | take hpos | leave hpos | closeRefused hpos
  | delayedLost hpos | lockRun hpos | remove hpos | insertPanic hpos | restart hpos | stop hpos
  | onStop hpos =>
    exact .inl ⟨by rw [hpos]; trivial, hsame (registry_same hc rfl (by rw [hpos]; rfl) rfl rfl)⟩

theorem flags_poll {cells : List CancelCell} {cell t : Nat} {cancel : CancelCell}
    (hcell : cells[cell]? = some cancel) :
    (cells.set cell (cancel.poll t).2).map CancelCell.flag = cells.map CancelCell.flag := by
  rw [List.map_set, CancelCell.poll_flag]
  apply List.ext_getElem?
  intro k
  by_cases hk : cell = k
  · subst hk
    obtain ⟨hlt, rfl⟩ := List.getElem?_eq_some_iff.mp hcell
    simp [hlt]
  · rw [List.getElem?_set_ne hk]

theorem TaskMove.registry {s u : State A} {t : Nat} (h : TaskMove s t u) (pass : Pass) :
    u.registry pass = s.registry pass := by
  have hpoll : ∀ {cell : Nat} {cancel : CancelCell} {u : State A},
      s.cells[cell]? = some cancel → u.cells = s.cells.set cell (cancel.poll t).2 →
      u.handlers = s.handlers → u.contexts = s.contexts →
      u.registry pass = s.registry pass := by
    intro cell cancel u hcell hcells hhandlers hcontexts
    simp only [State.registry, hcells, hhandlers, hcontexts, flags_poll hcell]
  cases h with
  | send | intervalSend =>
    rw [sendShared_frame]
    rfl
  | delayedSend _ hcell =>
    rw [sendShared_frame]
    exact hpoll hcell rfl rfl rfl
  | delayedDrop _ hcell | delayedWait _ hcell | intervalEnd _ hcell | intervalUpgrade _ hcell
  | intervalWait _ hcell => exact hpoll hcell rfl rfl rfl

theorem cancelHandler_registry (s : State A) (h : FutureHandler) (pass : Pass) :
    (s.cancelHandler h).registry pass = (s.registry pass).cancel h.cell := by
  have hcells : (s.cancelHandler h).cells =
      s.cells.modify h.cell fun cell => cell.cancel.1 := by
    simp only [State.cancelHandler]
    split
    · split <;> rfl
    · rfl
  have hflags : (s.cells.modify h.cell fun cell => cell.cancel.1).map CancelCell.flag =
      (s.cells.map CancelCell.flag).set h.cell true := by
    apply List.ext_getElem?
    intro k
    by_cases hk : h.cell = k
    · subst hk
      rcases Nat.lt_or_ge h.cell s.cells.length with hlt | hge
      · simp [hlt, CancelCell.cancel]
      · simp [hge]
    · simp [List.getElem?_set_ne hk, hk]
  rw [cancelHandler_frame] at hcells ⊢
  refine Registry.ext ?_ rfl rfl rfl
  simp only [State.registry, Registry.cancel]
  rw [← hflags, ← hcells]

theorem pass_congr {s t : State A} {a : Nat} (h : t.addresses[a]? = s.addresses[a]?) :
    t.pass a = s.pass a := by
  simp only [State.pass, h]

theorem pushing_of_user {s : State A} {pos : Position A} (h : s.inUserCode pos = true) :
    pos.pushing = none := by
  cases pos <;> first | rfl | cases h

theorem Moves.registry_cases {s t : State A} {act : Act A} (h : Moves s act t) (pass : Pass) :
    (∃ ract, act = .address ract ∧ AddressMove s ract t) ∨
      t.addresses = s.addresses ∧
        ∃ kind, Registry.Event (s.registry pass) kind (t.registry pass) ∧
          (kind = .own → CancelsOwn ⟨s, act, t⟩) ∧
          (kind = .late ↔ ∃ (i chan : Nat) (await : A.Await) (c : Context A),
            act = .context i chan await ∧ s.contexts[i]? = some c ∧ ¬c.pos.InTime s pass) := by
  have hother : ∀ {act : Act A} {t : State A}, t.registry pass = s.registry pass →
      t.addresses = s.addresses → (∀ i chan await, act ≠ .context i chan await) →
      t.addresses = s.addresses ∧
        ∃ kind, Registry.Event (s.registry pass) kind (t.registry pass) ∧
          (kind = .own → CancelsOwn ⟨s, act, t⟩) ∧
          (kind = .late ↔ ∃ (i chan : Nat) (await : A.Await) (c : Context A),
            act = .context i chan await ∧ s.contexts[i]? = some c ∧ ¬c.pos.InTime s pass) := by
    intro act t ht haddresses hact
    refine ⟨haddresses, .timely, ?_, nofun, nofun, ?_⟩
    · rw [ht]
      exact .same
    · rintro ⟨i, chan, await, c, heq, _⟩
      exact absurd heq (hact i chan await)
  cases h with
  | address h => exact .inl ⟨_, rfl, h⟩
  | request h =>
    right
    cases h with
    | cancel =>
      refine ⟨by rw [cancelHandler_frame], .own, ?_, fun _ => ⟨_, rfl⟩, nofun, nofun⟩
      rw [cancelHandler_registry]
      exact .own
    | @answer _ call | @canceled _ call =>
      obtain ⟨address, req, phase⟩ := call
      cases req <;> exact hother rfl rfl nofun
    | _ => exact hother rfl rfl nofun
  | poll h =>
    refine .inr (hother (h.registry pass) ?_ nofun)
    rw [h.frame]
  | elapseDelayed | elapseInterval => exact .inr (hother rfl rfl nofun)
  | @context i chan await c _ hc h =>
    right
    refine ⟨by rw [h.frame], ?_⟩
    rcases h.event hc pass with ⟨htime, hevent⟩ | ⟨hlate, hevent⟩
    · refine ⟨_, hevent, nofun, nofun, ?_⟩
      rintro ⟨j, _, _, c', heq, hc', hlate⟩
      cases heq
      obtain rfl := Option.some.inj (hc.symm.trans hc')
      exact absurd htime hlate
    · exact ⟨_, hevent, nofun, fun _ => ⟨i, chan, await, c, rfl, hc, hlate⟩, fun _ => rfl⟩
  | panic hc h =>
    right
    cases h with
    | panic huser =>
      refine hother (registry_same hc rfl (pushing_of_user huser).symm rfl rfl) rfl nofun

/-- Address `a`, and no other, is in a shutdown or past it. -/
structure ShutdownInv (s : State A) (a : Nat) : Prop where
  count : s.strongCount = s.addressValues + s.leakedUpgrades
  only : ∀ (b : Nat) (addr : Address) (pos : Shutdown), s.addresses[b]? = some addr →
    addr.phase = .shutdown pos → b = a
  begun : ∃ addr : Address, s.addresses[a]? = some addr ∧ addr.phase ≠ .live

theorem AddressMove.begun {s t : State A} {act : AddressAct} {a : Nat} (h : AddressMove s act t)
    (hs : ∃ addr : Address, s.addresses[a]? = some addr ∧ addr.phase ≠ .live) :
    ∃ addr : Address, t.addresses[a]? = some addr ∧ addr.phase ≠ .live := by
  obtain ⟨addr, ha, hdead⟩ := hs
  have hset : ∀ {b : Nat} {addr' : Address} {phase : AddressPhase},
      s.addresses[b]? = some addr' → phase ≠ .live →
      ∃ addr : Address, (s.addresses.set b { addr' with phase := phase })[a]? = some addr ∧
        addr.phase ≠ .live := by
    intro b addr' phase hb hphase
    by_cases hba : b = a
    · subst hba
      exact ⟨_, getElem?_set_self_of hb, hphase⟩
    · exact ⟨addr, by rwa [List.getElem?_set_ne hba], hdead⟩
  cases h with
  | clone | upgradeReturn => exact ⟨addr, getElem?_append_of ha, hdead⟩
  | drop hb => exact hset hb (by split <;> simp)
  | cancel hb =>
    rw [cancelHandler_frame]
    exact hset hb (by simp)
  | marker hb | lock hb | unlock hb | release hb => exact hset hb (by simp)
  | downgrade | upgradeSender | upgradeCount | upgradePanic => exact ⟨addr, ha, hdead⟩

theorem ShutdownInv.step {s t : State A} {act : Act A} {a : Nat} (h : step s act = some t)
    (hs : ShutdownInv s a) : ShutdownInv t a := by
  have hmove := Moves.of_step h
  refine ⟨hmove.count hs.count, ?_, ?_⟩
  · intro b addr pos hb hphase
    obtain ⟨addr', pos', hb', hphase'⟩ := hmove.shutdown_cases hs.count hb hphase
    exact hs.only b addr' pos' hb' hphase'
  · rcases hmove.address_or_same with ⟨_, _, hmove⟩ | ⟨_, haddresses, _⟩
    · exact hmove.begun hs.begun
    · rw [haddresses]
      exact hs.begun

theorem CountInv.callShutdown {s : State A} (hs : CountInv s) :
    ShutdownInv s.callShutdown s.addresses.length := by
  refine ⟨?_, ?_, ⟨none, none, .shutdown .marker⟩, by simp [State.callShutdown], by simp⟩
  · have hcount := hs.count
    simpa [State.callShutdown, State.addressValues, State.liveAddresses, State.countedUpgrades,
      State.leakedUpgrades, List.countP_append, Address.isLive] using hcount
  · intro b addr pos hb hphase
    rcases getElem?_append_cases hb with ⟨hlast, _⟩ | hb
    · exact hlast
    · exact absurd hphase (hs.noShutdown addr (List.mem_of_getElem? hb) pos)

theorem pass_of {s : State A} {a : Nat} {addr : Address} (ha : s.addresses[a]? = some addr) :
    s.pass a = addr.phase.pass := by
  simp only [State.pass, ha]

theorem pass_set {s t : State A} {a : Nat} {addr addr' : Address}
    (ha : s.addresses[a]? = some addr) (ht : t.addresses = s.addresses.set a addr') :
    t.pass a = addr'.phase.pass :=
  pass_of (by rw [ht, getElem?_set_self_of ha])

theorem AddressMove.event {s t : State A} {act : AddressAct} {a : Nat} (h : AddressMove s act t)
    (hs : ShutdownInv s a) :
    Registry.Event (s.registry (s.pass a)) .timely (t.registry (t.pass a)) := by
  obtain ⟨addr, ha, hdead⟩ := hs.begun
  have hkept : ∀ {t : State A}, t.addresses[a]? = s.addresses[a]? →
      (∀ pass, t.registry pass = s.registry pass) →
      Registry.Event (s.registry (s.pass a)) .timely (t.registry (t.pass a)) := by
    intro t haddress hregistry
    rw [pass_congr haddress, hregistry]
    exact .same
  cases h with
  | clone | upgradeReturn =>
    exact hkept ((getElem?_append_of ha).trans ha.symm) fun _ => rfl
  | @drop b addr' hb hlive =>
    refine hkept (List.getElem?_set_ne ?_) fun _ => rfl
    rintro rfl
    obtain rfl := Option.some.inj (ha.symm.trans hb)
    exact hdead (phase_of_isLive hlive)
  | @marker b addr' hb hpos =>
    obtain rfl := hs.only b addr' _ hb hpos
    have hbefore : s.pass b = .before := by
      rw [pass_of hb, hpos]
      rfl
    rw [hbefore, pass_set hb rfl]
    exact .same
  | @lock b addr' hb hpos =>
    obtain rfl := hs.only b addr' _ hb hpos
    have hbefore : s.pass b = .before := by
      rw [pass_of hb, hpos]
      rfl
    rw [hbefore, pass_set hb rfl]
    exact .take rfl
  | @cancel b addr' handler rest hb hpos =>
    obtain rfl := hs.only b addr' _ hb hpos
    have hduring : s.pass b = .during (handler.cell :: rest.map FutureHandler.cell) := by
      rw [pass_of hb, hpos]
      rfl
    have hregistry : (s.cancelHandler handler).registry (.during (rest.map FutureHandler.cell)) =
        ((s.registry (s.pass b)).cancel handler.cell).withPass
          (.during (rest.map FutureHandler.cell)) := by
      rw [cancelHandler_registry]
      rfl
    have hpass : ((s.cancelHandler handler).setAddress b
        { addr' with phase := .shutdown (.cancel rest) }).pass b =
        .during (rest.map FutureHandler.cell) := by
      rw [cancelHandler_frame, pass_set hb rfl]
      rfl
    rw [hpass]
    change Registry.Event _ _ ((s.cancelHandler handler).registry _)
    rw [hregistry]
    exact .cancel hduring
  | @unlock b addr' hb hpos =>
    obtain rfl := hs.only b addr' _ hb hpos
    have hduring : s.pass b = .during [] := by
      rw [pass_of hb, hpos]
      rfl
    rw [hduring, pass_set hb rfl]
    exact .finish rfl
  | @release b addr' hb hpos =>
    by_cases hba : b = a
    · subst hba
      have hafter : s.pass b = .after := by
        rw [pass_of hb, hpos]
        rfl
      rw [hafter, pass_set hb rfl]
      exact .same
    · exact hkept (List.getElem?_set_ne hba) fun _ => rfl
  | downgrade | upgradeSender | upgradeCount | upgradePanic => exact hkept rfl fun _ => rfl

theorem Moves.event {s t : State A} {act : Act A} {a : Nat} (h : Moves s act t)
    (hs : ShutdownInv s a) :
    ∃ kind, Registry.Event (s.registry (s.pass a)) kind (t.registry (t.pass a)) ∧
      (kind = .own → CancelsOwn ⟨s, act, t⟩) ∧ (kind = .late ↔ ¬PushedInTime a ⟨s, act, t⟩) := by
  rcases h.registry_cases (s.pass a) with
    ⟨ract, rfl, hmove⟩ | ⟨haddresses, kind, hevent, hown, hlate⟩
  · refine ⟨.timely, hmove.event hs, nofun, nofun, fun hpushed => ?_⟩
    exact absurd (fun _ _ _ _ heq => by cases heq) hpushed
  · refine ⟨kind, ?_, hown, hlate.trans ?_⟩
    · have hpass : t.pass a = s.pass a := pass_congr (by rw [haddresses])
      rwa [hpass]
    · simp [PushedInTime]

theorem Moves.event_before {s t : State A} {act : Act A} (h : Moves s act t) (hs : CountInv s)
    (hrunning : s.isRunning = true) :
    ∃ kind, Registry.Event (s.registry .before) kind (t.registry .before) ∧
      (kind = .own → CancelsOwn ⟨s, act, t⟩) ∧ kind ≠ .late := by
  rcases h.registry_cases .before with ⟨ract, rfl, hmove⟩ | ⟨_, kind, hevent, hown, hlate⟩
  · refine ⟨.timely, ?_, nofun, nofun⟩
    cases hmove with
    | marker hb hpos | lock hb hpos | cancel hb hpos | unlock hb hpos =>
      exact absurd hpos (hs.noShutdown _ (List.mem_of_getElem? hb) _)
    | _ => exact .same
  · refine ⟨kind, hevent, hown, fun heq => ?_⟩
    obtain ⟨_, _, _, c, _, _, hintime⟩ := hlate.mp heq
    apply hintime
    cases c.pos with
    | pushCheck => exact hrunning
    | pushExtend => rfl
    | _ => trivial

def Task.cell : Task A → Option Nat
  | .delayed cell _ _ => some cell
  | .interval cell _ _ _ => some cell
  | _ => none

def CellsExist (s : State A) : Prop :=
  ∀ task ∈ s.tasks, ∀ cell, task.cell = some cell → cell < s.cells.length

inductive CancelHeld (s : State A) (h : FutureHandler) : Prop
  | shutdown {addr : Address} {rest : List FutureHandler} (ha : addr ∈ s.addresses)
      (hphase : addr.phase = .shutdown (.cancel rest)) (hh : h ∈ rest) : CancelHeld s h
  | caller {call : Call A} (hc : call ∈ s.calls)
      (hphase : call.phase = .done (.ok (.handler h))) : CancelHeld s h

inductive Spawned (s : State A) (act : Act A) (t : State A) : Task A → Prop
  | send (msg : InstantMessage A) : Spawned s act t (.send (.instant msg))
  | removal {h : FutureHandler} {index : Nat} (hheld : CancelHeld s h)
      (hindex : h.index = some index) : Spawned s act t (.send (.interval (.remove index)))
  | delayed {cell : Nat} (msg : InstantMessage A) (hcell : cell < t.cells.length) :
      Spawned s act t (.delayed cell msg false)
  | interval {i chan : Nat} {await : A.Await} {c : Context A} {env : Envelope A} {fut : A.Future}
      {key cell : Nat} (hact : act = .context i chan await) (hc : s.contexts[i]? = some c)
      (hpos : c.pos = .insert env fut key) (hcell : cell < t.cells.length) :
      Spawned s act t (.interval cell key false false)

theorem Spawned.cell_lt {s t : State A} {act : Act A} {task : Task A} (h : Spawned s act t task)
    {cell : Nat} (hcell : task.cell = some cell) : cell < t.cells.length := by
  cases h with
  | send | removal => cases hcell
  | delayed _ hlt =>
    cases hcell
    exact hlt
  | interval _ _ _ hlt =>
    cases hcell
    exact hlt

theorem cancelHandler_tasks (s : State A) (h : FutureHandler) :
    ∃ new, (s.cancelHandler h).tasks = s.tasks ++ new ∧
      ∀ task ∈ new, ∃ index, h.index = some index ∧ task = .send (.interval (.remove index)) := by
  simp only [State.cancelHandler]
  split
  · rename_i index hindex
    split
    · refine ⟨_, rfl, ?_⟩
      intro task htask
      obtain rfl := List.mem_singleton.mp htask
      exact ⟨index, hindex, rfl⟩
    · exact ⟨[], (List.append_nil _).symm, List.forall_mem_nil _⟩
  · exact ⟨[], (List.append_nil _).symm, List.forall_mem_nil _⟩

theorem cancelHandler_spawned {s t : State A} {act : Act A} {h : FutureHandler}
    (hheld : CancelHeld s h) (ht : t.tasks = (s.cancelHandler h).tasks) :
    ∃ new, t.tasks = s.tasks ++ new ∧ ∀ task ∈ new, Spawned s act t task := by
  obtain ⟨new, htasks, hnew⟩ := cancelHandler_tasks s h
  refine ⟨new, ht.trans htasks, ?_⟩
  intro task htask
  obtain ⟨index, hindex, rfl⟩ := hnew task htask
  exact .removal hheld hindex

theorem spawned_none {s t : State A} {act : Act A} (ht : t.tasks = s.tasks) :
    ∃ new, t.tasks = s.tasks ++ new ∧ ∀ task ∈ new, Spawned s act t task :=
  ⟨[], by rw [ht, List.append_nil], List.forall_mem_nil _⟩

theorem spawned_one {s t : State A} {act : Act A} {task : Task A}
    (ht : t.tasks = s.tasks ++ [task]) (htask : Spawned s act t task) :
    ∃ new, t.tasks = s.tasks ++ new ∧ ∀ task ∈ new, Spawned s act t task := by
  refine ⟨_, ht, ?_⟩
  intro task' htask'
  obtain rfl := List.mem_singleton.mp htask'
  exact htask

theorem AddressMove.spawned {s t : State A} {act : AddressAct} (h : AddressMove s act t) :
    ∃ new, t.tasks = s.tasks ++ new ∧ ∀ task ∈ new, Spawned s (.address act) t task := by
  cases h with
  | cancel ha hpos =>
    exact cancelHandler_spawned
      (.shutdown (List.mem_of_getElem? ha) hpos List.mem_cons_self) rfl
  | _ => exact spawned_none rfl

theorem RequestMove.spawned {s t : State A} {act : RequestAct A} (h : RequestMove s act t) :
    ∃ new, t.tasks = s.tasks ++ new ∧ ∀ task ∈ new, Spawned s (.request act) t task := by
  cases h with
  | cancel hc hphase =>
    exact cancelHandler_spawned (.caller (List.mem_of_getElem? hc) hphase) rfl
  | doSend | doRun => exact spawned_one rfl (.send _)
  | @answer _ call | @canceled _ call =>
    obtain ⟨address, req, phase⟩ := call
    cases req <;> exact spawned_none rfl
  | _ => exact spawned_none rfl

theorem TaskMove.task_cases {s t : State A} {k : Nat} (h : TaskMove s k t) :
    t.tasks = s.tasks ∨ ∃ task task' : Task A, s.tasks[k]? = some task ∧
      t.tasks = s.tasks.set k task' ∧
      (task' = .finished ∨ task'.cell = task.cell ∧ task'.message = task.message) := by
  cases h with
  | send ht | delayedSend ht =>
    rw [sendShared_frame]
    exact .inr ⟨_, _, ht, rfl, .inl rfl⟩
  | intervalSend ht =>
    rw [sendShared_frame]
    exact .inr ⟨_, _, ht, rfl, .inr ⟨rfl, rfl⟩⟩
  | delayedDrop ht | intervalEnd ht => exact .inr ⟨_, _, ht, rfl, .inl rfl⟩
  | intervalUpgrade ht => exact .inr ⟨_, _, ht, rfl, .inr ⟨rfl, rfl⟩⟩
  | delayedWait | intervalWait => exact .inl rfl

theorem ContextMove.spawned {s t : State A} {i chan : Nat} {await : A.Await} {c : Context A}
    (h : ContextMove s i c t) (hc : s.contexts[i]? = some c) :
    ∃ new, t.tasks = s.tasks ++ new ∧ ∀ task ∈ new, Spawned s (.context i chan await) t task := by
  have hcell : ∀ cells : List CancelCell, cells.length < (cells ++ [CancelCell.new]).length := by
    simp
  cases h with
  | delayed => exact spawned_one rfl (.delayed _ (hcell _))
  | insert hpos => exact spawned_one rfl (.interval rfl hc hpos (hcell _))
  | close | reply =>
    rw [sendReply_frame]
    exact spawned_none rfl
  | static | dynamic =>
    rw [sendReplyTo_frame]
    exact spawned_none rfl
  | pushRefused | pushExtend =>
    simp only [State.afterPush]
    split <;> exact spawned_none rfl
  | intervalRun =>
    simp only [State.runInterval]
    split <;> exact spawned_none rfl
  | _ => exact spawned_none rfl

theorem Moves.tasks_cases {s t : State A} {act : Act A} (h : Moves s act t) :
    (∃ new, t.tasks = s.tasks ++ new ∧ ∀ task ∈ new, Spawned s act t task) ∨
    ∃ (k : Nat) (task task' : Task A), s.tasks[k]? = some task ∧ t.tasks = s.tasks.set k task' ∧
      (act = .poll k ∧ task' = .finished ∨
        task'.cell = task.cell ∧ task'.message = task.message) := by
  cases h with
  | address h => exact .inl h.spawned
  | request h => exact .inl h.spawned
  | poll h =>
    rcases h.task_cases with hsame | ⟨task, task', htask, hset, hafter⟩
    · exact .inl (spawned_none hsame)
    · exact .inr ⟨_, task, task', htask, hset, hafter.imp (fun hend => ⟨rfl, hend⟩) id⟩
  | elapseDelayed hk | elapseInterval hk => exact .inr ⟨_, _, _, hk, rfl, .inr ⟨rfl, rfl⟩⟩
  | context hc h => exact .inl (h.spawned hc)
  | panic hc h =>
    cases h
    exact .inl (spawned_none rfl)

theorem Moves.cells_length {s t : State A} {act : Act A} (h : Moves s act t) :
    s.cells.length ≤ t.cells.length := by
  rcases h.registry_cases .before with ⟨ract, rfl, hmove⟩ | ⟨_, kind, hevent, _⟩
  · cases hmove with
    | @cancel _ _ handler =>
      have hflags := congrArg Registry.flags (cancelHandler_registry s handler .before)
      have hlength := congrArg List.length hflags
      simp only [State.registry, Registry.cancel, List.length_map, List.length_set] at hlength
      exact Nat.le_of_eq hlength.symm
    | _ => exact Nat.le_refl _
  · simpa [State.registry] using hevent.length_le

theorem CellsExist.step {s t : State A} {act : Act A} (h : step s act = some t)
    (hs : CellsExist s) : CellsExist t := by
  have hmove := Moves.of_step h
  have hlength := hmove.cells_length
  intro task htask cell hcell
  rcases hmove.tasks_cases with ⟨new, htasks, hnew⟩ | ⟨k, before, after, hk, htasks, hafter⟩
  · rw [htasks] at htask
    rcases List.mem_append.mp htask with htask | htask
    · exact Nat.lt_of_lt_of_le (hs task htask cell hcell) hlength
    · exact (hnew task htask).cell_lt hcell
  · rw [htasks] at htask
    rcases List.mem_or_eq_of_mem_set htask with htask | rfl
    · exact Nat.lt_of_lt_of_le (hs task htask cell hcell) hlength
    · rcases hafter with ⟨_, rfl⟩ | ⟨hsame, _⟩
      · cases hcell
      · rw [hsame] at hcell
        exact Nat.lt_of_lt_of_le (hs before (List.mem_of_getElem? hk) cell hcell) hlength

theorem Task.eq_delayed {task : Task A} {cell : Nat} {msg : InstantMessage A}
    (hcell : task.cell = some cell) (hmessage : task.message = some (.instant msg)) :
    ∃ elapsed, task = .delayed cell msg elapsed := by
  cases task with
  | delayed _ _ elapsed =>
    cases hcell
    cases hmessage
    exact ⟨elapsed, rfl⟩
  | interval => cases hmessage
  | send | finished => cases hcell

theorem Task.eq_finished {task : Task A} (hmessage : task.message = none) : task = .finished := by
  cases task with
  | finished => rfl
  | send | delayed | interval => cases hmessage

structure Silent (s : State A) (a k cell : Nat) (msg : InstantMessage A) : Prop where
  shutdown : ShutdownInv s a
  cfg : s.cfg.handleDelayedOnShutdown = false
  flag : ∀ pass, (s.registry pass).flags[cell]? = some true
  task : s.tasks[k]? = some .finished ∨ ∃ elapsed, s.tasks[k]? = some (.delayed cell msg elapsed)

theorem Silent.step {s t : State A} {act : Act A} {a k cell : Nat} {msg : InstantMessage A}
    (h : step s act = some t) (hs : Silent s a k cell msg) : Silent t a k cell msg := by
  have hmove := Moves.of_step h
  obtain ⟨hshutdown, hcfg, hflag, htask⟩ := hs
  refine ⟨hshutdown.step h, by rw [hmove.cfg_eq, hcfg], ?_, ?_⟩
  · intro pass
    obtain ⟨kind, hevent, _⟩ := hmove.event hshutdown
    exact hevent.cancelled_stable (hflag _)
  · rcases hmove.tasks_cases with ⟨new, htasks, _⟩ | ⟨k', before, after, hk', htasks, hafter⟩
    · have hkeep : ∀ task, s.tasks[k]? = some task → t.tasks[k]? = some task := by
        intro task hk
        rw [htasks, List.getElem?_append_left (List.getElem?_eq_some_iff.mp hk).1, hk]
      rcases htask with hk | ⟨elapsed, hk⟩
      · exact .inl (hkeep _ hk)
      · exact .inr ⟨elapsed, hkeep _ hk⟩
    · by_cases hne : k' = k
      · subst hne
        rw [htasks, getElem?_set_self_of hk']
        rcases hafter with ⟨_, rfl⟩ | ⟨hcell, hmessage⟩
        · exact .inl rfl
        · rcases htask with hk | ⟨elapsed, hk⟩
          · obtain rfl := Option.some.inj (hk'.symm.trans hk)
            exact .inl (congrArg some (Task.eq_finished hmessage))
          · obtain rfl := Option.some.inj (hk'.symm.trans hk)
            obtain ⟨elapsed', rfl⟩ := Task.eq_delayed hcell hmessage
            exact .inr ⟨elapsed', rfl⟩
      · rwa [htasks, List.getElem?_set_ne hne]

theorem accepted_of_silent {s t : State A} {a k cell : Nat} {msg : InstantMessage A}
    (h : step s (.poll k) = some t) (hs : Silent s a k cell msg) : t.accepted = s.accepted := by
  cases Moves.of_step h with
  | poll h =>
    cases h with
    | send ht | intervalSend ht =>
      rcases hs.task with hk | ⟨_, hk⟩ <;> cases hk.symm.trans ht
    | @delayedSend cell' _ _ cancel ht hcell hdue =>
      rcases hs.task with hk | ⟨_, hk⟩
      · cases hk.symm.trans ht
      · cases hk.symm.trans ht
        have hflag : cancel.flag = true := by simpa [State.registry, hcell] using hs.flag .before
        rw [hflag, if_pos rfl, hs.cfg] at hdue
        cases hdue
    | delayedDrop | delayedWait | intervalEnd | intervalUpgrade | intervalWait => rfl

theorem shutDown_of_cancelled {s : State A} {a : Nat} (hs : ShutdownInv s a) (hcells : CellsExist s)
    (hcancelled : ∀ cell ∈ s.cells, cell.flag = true) : ShutDown s := by
  refine ⟨hcancelled, ?_⟩
  intro hcfg k cell msg hk ms t h m hm hact
  have hlt : cell < s.cells.length := hcells _ (List.mem_of_getElem? hk) cell rfl
  have hsilent : Silent s a k cell msg := by
    refine ⟨hs, hcfg, fun pass => ?_, .inr ⟨false, hk⟩⟩
    simp [State.registry, hlt, hcancelled]
  obtain ⟨ps, _, _, hps, hstep⟩ := h.exists_prefix hm
  rw [hact] at hstep
  have hsrc : Silent m.src a k cell msg :=
    hps.invariant (I := fun u => Silent u a k cell msg) hsilent fun _ _ _ hstep hu => hu.step hstep
  exact accepted_of_silent hstep hsrc

section Runs
variable {cfg : Config} {build : Nat → A.State} {s₀ s t : State A}
  {ps ms : List (Move (State A) (Act A))}

theorem Started.registry_nil (h : Started cfg build s₀) (pass : Pass) :
    s₀.cells = [] ∧ s₀.tasks = [] ∧ s₀.handlers = [] ∧ ∀ i, (s₀.registry pass).held i = none := by
  obtain ⟨w, rfl, hnew⟩ := h.exists_wiring
  refine ⟨rfl, rfl, rfl, fun i => ?_⟩
  cases hc : (w.finish cfg).contexts[i]? with
  | none => simp [State.registry, hc]
  | some c =>
    obtain ⟨_, _, _, pos, rfl, rfl | rfl⟩ := hnew c (List.mem_of_getElem? hc) <;>
      simp [State.registry, hc, Context.new, Position.pushing]

theorem before_of_path (hstart : Started cfg build s₀) (h : Path step s₀ ps s) :
    CountInv s ∧ CellsExist s ∧ (s.registry .before).Covered ∧
      ((∀ m ∈ ps, ¬CancelsOwn m) → (s.registry .before).Fresh) := by
  obtain ⟨hcells, htasks, hhandlers, hheld⟩ := hstart.registry_nil .before
  refine ⟨countInv_of_path hstart h, ?_, ?_, fun hown => ?_⟩
  · apply h.invariant (I := CellsExist)
    · intro task htask
      rw [htasks] at htask
      cases htask
    · exact fun _ _ _ hstep hu => hu.step hstep
  · have hinv := h.invariant (I := fun u => CountInv u ∧ u.active % 2 = 0 ∧
      (u.registry .before).Covered) ⟨hstart.countInv, hstart.activeInv.even, ?_⟩ ?_
    · exact hinv.2.2
    · intro k hk
      simp [State.registry, hcells] at hk
    · rintro u act v hstep ⟨hcount, heven, hcovered⟩
      have hmove := Moves.of_step hstep
      obtain ⟨kind, hevent, _, hlate⟩ := hmove.event_before hcount ((isRunning_iff u).mpr heven)
      exact ⟨hcount.step hstep, hmove.running hcount heven, hevent.covered hlate hcovered⟩
  · have hinv := h.invariant_of (I := fun u => CountInv u ∧ u.active % 2 = 0 ∧
      (u.registry .before).Fresh) hown ⟨hstart.countInv, hstart.activeInv.even, ?_⟩ ?_
    · exact hinv.2.2
    · refine ⟨?_, ?_, ?_, ?_, ?_⟩
      · simp [State.registry, hhandlers]
      · simp [hheld]
      · simp [hheld]
      · simp [hheld]
      · simp [State.registry, hhandlers, Registry.pending]
    · rintro u act v hown hstep ⟨hcount, heven, hfresh⟩
      have hmove := Moves.of_step hstep
      obtain ⟨kind, hevent, hkind, _⟩ := hmove.event_before hcount ((isRunning_iff u).mpr heven)
      exact ⟨hcount.step hstep, hmove.running hcount heven,
        hevent.fresh (fun heq => hown (hkind heq)) hfresh⟩

theorem callShutdown_pass (s : State A) : s.callShutdown.pass s.addresses.length = .before := by
  have ha : s.callShutdown.addresses[s.addresses.length]? =
      some ⟨none, none, .shutdown .marker⟩ := by simp [State.callShutdown]
  rw [pass_of ha]
  rfl

/-- A push in time is cancelled; one that is late is not, unless its caller does. -/
theorem shutdown_cancels_iff (hstart : Started cfg build s₀) (hreach : Path step s₀ ps s)
    (h : Path step s.callShutdown ms t) (hreturned : t.pass s.addresses.length = .after)
    (hquiet : ∀ c ∈ t.contexts, c.pos.pushing = none) :
    ((∀ m ∈ ms, PushedInTime s.addresses.length m) → ShutDown t) ∧
      ((∀ m ∈ ps ++ ms, ¬CancelsOwn m) → ShutDown t →
        ∀ m ∈ ms, PushedInTime s.addresses.length m) := by
  obtain ⟨hcount, hexist, hcovered, hfresh⟩ := before_of_path hstart hreach
  have hcall := hcount.callShutdown
  have hregistry : s.callShutdown.registry (s.callShutdown.pass s.addresses.length) =
      s.registry .before := by
    rw [callShutdown_pass]
    rfl
  constructor
  · intro hms
    have hinv := h.invariant_of (I := fun u => ShutdownInv u s.addresses.length ∧ CellsExist u ∧
      (u.registry (u.pass s.addresses.length)).Covered) hms ⟨hcall, hexist, ?_⟩ ?_
    · obtain ⟨hshutdown, hexist, hcovered⟩ := hinv
      apply shutDown_of_cancelled hshutdown hexist
      intro cell hcell
      have hheld : ∀ i, (t.registry (t.pass s.addresses.length)).held i = none := by
        intro i
        cases hc : t.contexts[i]? with
        | none => simp [State.registry, hc]
        | some c => simp [State.registry, hc, hquiet c (List.mem_of_getElem? hc)]
      exact hcovered.cancelled hreturned hheld cell.flag (List.mem_map_of_mem hcell)
    · rwa [hregistry]
    · rintro u act v hpushed hstep ⟨hshutdown, hexist, hcovered⟩
      obtain ⟨kind, hevent, _, hlate⟩ := (Moves.of_step hstep).event hshutdown
      exact ⟨hshutdown.step hstep, hexist.step hstep,
        hevent.covered (fun heq => hlate.mp heq hpushed) hcovered⟩
  · intro hown hshut m hm
    by_contra hpushed
    obtain ⟨ps', qs, rfl, hps, hstep, hqs⟩ := h.exists_split hm
    have hsrc := hps.invariant_of (I := fun u => ShutdownInv u s.addresses.length ∧
      (u.registry (u.pass s.addresses.length)).Fresh) (C := fun m => ¬CancelsOwn m) ?_
      ⟨hcall, ?_⟩ ?_
    · obtain ⟨hshutdown, hfresh⟩ := hsrc
      obtain ⟨kind, hevent, _, hlate⟩ := (Moves.of_step hstep).event hshutdown
      obtain rfl := hlate.mpr hpushed
      obtain ⟨k, hescaped⟩ := hevent.escaped_of_late hfresh
      have hend := hqs.invariant_of (I := fun u => ShutdownInv u s.addresses.length ∧
        (u.registry (u.pass s.addresses.length)).Escaped k) (C := fun m => ¬CancelsOwn m) ?_
        ⟨hshutdown.step hstep, hescaped⟩ ?_
      · have hflag := List.mem_of_getElem? hend.2.running
        obtain ⟨cell, hcell, hfalse⟩ := List.mem_map.mp hflag
        rw [hshut.cancelled cell hcell] at hfalse
        cases hfalse
      · intro n hn
        exact hown n (by simp [hn])
      · rintro u act v hown hstep ⟨hshutdown, hescaped⟩
        obtain ⟨kind, hevent, hkind, _⟩ := (Moves.of_step hstep).event hshutdown
        exact ⟨hshutdown.step hstep, hevent.escaped (fun heq => hown (hkind heq)) hescaped⟩
    · intro n hn
      exact hown n (by simp [hn])
    · rw [hregistry]
      exact hfresh fun n hn => hown n (List.mem_append_left _ hn)
    · rintro u act v hown hstep ⟨hshutdown, hfresh⟩
      obtain ⟨kind, hevent, hkind, _⟩ := (Moves.of_step hstep).event hshutdown
      exact ⟨hshutdown.step hstep, hevent.fresh (fun heq => hown (hkind heq)) hfresh⟩

def Act.isAddress : Act A → Bool
  | .address _ => true
  | _ => false

theorem shutdown_cancels_pushed :
    ∃ (ps : List (Move (State echoActor) (Act echoActor))) (s : State echoActor)
      (ms : List (Move (State echoActor) (Act echoActor))) (t : State echoActor),
      Path step (echoStart .default) ps s ∧ Path step s.callShutdown ms t ∧ t.cells ≠ [] ∧
        ShutDown t := by
  obtain ⟨ps, s, hreach, _, _, hs⟩ := exists_path_of_checkedRun step
    (echoStart .default)
    [.request (.call 0 (.sendLater (true, 7))), .request (.send 0), .context 0 0 (),
      .context 0 0 (), .context 0 0 (), .context 0 0 (), .context 0 0 (), .context 0 0 ()]
    (fun _ _ _ => true)
    (fun s => (checkedRun step (fun _ act _ => act.isAddress) s.callShutdown
      [.address (.shutdown 1), .address (.shutdown 1), .address (.shutdown 1),
        .address (.shutdown 1)]).any fun t =>
      t.pass s.addresses.length == .after && !t.cells.isEmpty &&
        t.contexts.all fun c => c.pos.pushing.isNone) (by decide)
  obtain ⟨ms, t, h, _, hms, ht⟩ := exists_path_of_checkedRun _ _ _ _ _ hs
  simp only [Bool.and_eq_true, beq_iff_eq, List.all_eq_true, Option.isNone_iff_eq_none] at ht
  refine ⟨ps, s, ms, t, hreach, h, by simpa using ht.1.2, ?_⟩
  apply (shutdown_cancels_iff .start hreach h ht.1.1 ht.2).1
  intro m hm i chan await c hact
  have hp := hms m hm
  rw [hact] at hp
  cases hp

/-- The context has read `MARKER` when the shutdown sets it, and stores its
handler when the shutdown is over. -/
theorem late_handler_escapes_shutdown :
    ¬∀ (ps : List (Move (State echoActor) (Act echoActor))) (s : State echoActor)
      (ms : List (Move (State echoActor) (Act echoActor))) (t : State echoActor),
      Path step (echoStart .default) ps s → Path step s.callShutdown ms t →
      t.pass s.addresses.length = .after → (∀ c ∈ t.contexts, c.pos.pushing = none) →
      ShutDown t := by
  intro hall
  obtain ⟨ps, s, hreach, _, _, hs⟩ := exists_path_of_checkedRun step
    (echoStart .default)
    [.request (.call 0 (.sendLater (true, 7))), .request (.send 0), .context 0 0 (),
      .context 0 0 (), .context 0 0 (), .context 0 0 ()]
    (fun _ _ _ => true)
    (fun s => (checkedRun step (fun _ _ _ => true) s.callShutdown
      [.context 0 0 (), .address (.shutdown 1), .address (.shutdown 1), .address (.shutdown 1),
        .context 0 0 ()]).any fun t =>
      t.pass s.addresses.length == .after && (t.cells.any fun cell => !cell.flag) &&
        t.contexts.all fun c => c.pos.pushing.isNone) (by decide)
  obtain ⟨ms, t, h, _, _, ht⟩ := exists_path_of_checkedRun _ _ _ _ _ hs
  simp only [Bool.and_eq_true, beq_iff_eq, List.all_eq_true, List.any_eq_true,
    Bool.not_eq_true', Option.isNone_iff_eq_none] at ht
  obtain ⟨⟨hreturned, cell, hcell, hfalse⟩, hquiet⟩ := ht
  rw [(hall ps s ms t hreach h hreturned hquiet).cancelled cell hcell] at hfalse
  cases hfalse

end Runs

end ActixSend
