import ActixSend.System

/-! # What one action can do

The step functions turned into relations, one constructor for each way an
action can go, with the guards it passed. Every invariant is a case analysis on
these relations. The frame lemmas say which fields a party never writes.
-/

namespace ActixSend

open Function
set_option autoImplicit false

variable {A : Actor}

inductive AddressMove (s : State A) : AddressAct → State A → Prop
  | clone {a : Nat} {addr : Address} (ha : s.addresses[a]? = some addr)
      (hlive : addr.isLive = true) :
      AddressMove s (.clone a)
        { s with strongCount := s.strongCount + 1, addresses := s.addresses ++ [addr] }
  | drop {a : Nat} {addr : Address} (ha : s.addresses[a]? = some addr) (hlive : addr.isLive = true)
      (hfree : s.unborrowed a = true) :
      AddressMove s (.drop a) ({ s with strongCount := s.strongCount - 1 }.setAddress a
        { addr with phase := if s.strongCount == 0 then .shutdown .marker else .fields })
  | marker {a : Nat} {addr : Address} (ha : s.addresses[a]? = some addr)
      (hpos : addr.phase = .shutdown .marker) :
      AddressMove s (.shutdown a) ({ s with active := s.active ||| marker }.setAddress a
        { addr with phase := .shutdown .lock })
  | lock {a : Nat} {addr : Address} (ha : s.addresses[a]? = some addr)
      (hpos : addr.phase = .shutdown .lock) (hlock : s.handlersLocked = false) :
      AddressMove s (.shutdown a) ({ s with handlersLocked := true }.setAddress a
        { addr with phase := .shutdown (.cancel s.handlers) })
  | cancel {a : Nat} {addr : Address} {h : FutureHandler} {rest : List FutureHandler}
      (ha : s.addresses[a]? = some addr) (hpos : addr.phase = .shutdown (.cancel (h :: rest))) :
      AddressMove s (.shutdown a)
        ((s.cancelHandler h).setAddress a { addr with phase := .shutdown (.cancel rest) })
  | unlock {a : Nat} {addr : Address} (ha : s.addresses[a]? = some addr)
      (hpos : addr.phase = .shutdown (.cancel [])) :
      AddressMove s (.shutdown a)
        ({ s with handlersLocked := false }.setAddress a { addr with phase := .fields })
  | release {a : Nat} {addr : Address} (ha : s.addresses[a]? = some addr)
      (hpos : addr.phase = .fields) :
      AddressMove s (.release a) (s.setAddress a { addr with phase := .dropped })
  | downgrade {a : Nat} {addr : Address} (ha : s.addresses[a]? = some addr)
      (hlive : addr.isLive = true) :
      AddressMove s (.downgrade a) { s with weaks := s.weaks ++ [⟨addr.txSubs⟩] }
  | upgradeSender {w : Nat} {weak : WeakAddress} (hw : s.weaks[w]? = some weak)
      (hsender : s.sharedSender = true) :
      AddressMove s (.upgradeSender w) { s with upgrades := s.upgrades ++ [⟨weak, .sender⟩] }
  | upgradeCount {u : Nat} {up : Upgrade} (hu : s.upgrades[u]? = some up)
      (hphase : up.phase = .sender) :
      AddressMove s (.upgradeCount u) { s with
        strongCount := s.strongCount + 1
        upgrades := s.upgrades.set u { up with phase := .counted } }
  | upgradeReturn {u : Nat} {up : Upgrade} (hu : s.upgrades[u]? = some up)
      (hphase : up.phase = .counted)
      (hgroup : (up.weak.txSubs.all fun group => s.groupAlive group) = true) :
      AddressMove s (.upgradeGroup u) { s with
        upgrades := s.upgrades.set u { up with phase := .returned }
        addresses := s.addresses ++ [⟨up.weak.txSubs, none, .live⟩] }
  | upgradePanic {u : Nat} {up : Upgrade} (hu : s.upgrades[u]? = some up)
      (hphase : up.phase = .counted)
      (hgroup : (up.weak.txSubs.all fun group => s.groupAlive group) = false) :
      AddressMove s (.upgradeGroup u)
        { s with upgrades := s.upgrades.set u { up with phase := .panicked } }

theorem AddressMove.of_step {s t : State A} {act : AddressAct} (h : s.addressStep act = some t) :
    AddressMove s act t := by
  cases act with
  | clone a =>
    simp only [State.addressStep, State.cloneAddress] at h
    split at h
    · split at h
      · cases h
        exact .clone ‹_› ‹_›
      · cases h
    · cases h
  | drop a =>
    simp only [State.addressStep, State.dropAddress] at h
    split at h
    · split at h
      · rename_i hguard
        cases h
        rw [Bool.and_eq_true] at hguard
        exact .drop ‹_› hguard.1 hguard.2
      · cases h
    · cases h
  | shutdown a =>
    simp only [State.addressStep, State.shutdown] at h
    split at h
    · rename_i addr ha
      split at h
      · rename_i pos hpos
        cases pos with
        | marker =>
          cases h
          exact .marker ha hpos
        | lock =>
          simp only [State.shutdownStep] at h
          split at h
          · cases h
          · rename_i hlock
            cases h
            exact .lock ha hpos (Bool.eq_false_iff.mpr hlock)
        | cancel rest =>
          cases rest <;> cases h
          · exact .unlock ha hpos
          · exact .cancel ha hpos
      · cases h
    · cases h
  | release a =>
    simp only [State.addressStep, State.releaseAddress, beq_iff_eq] at h
    split at h
    · split at h
      · cases h
        exact .release ‹_› ‹_›
      · cases h
    · cases h
  | downgrade a =>
    simp only [State.addressStep, State.downgrade] at h
    split at h
    · split at h
      · cases h
        exact .downgrade ‹_› ‹_›
      · cases h
    · cases h
  | upgradeSender w =>
    simp only [State.addressStep, State.upgradeSender] at h
    split at h
    · split at h
      · cases h
        exact .upgradeSender ‹_› ‹_›
      · cases h
    · cases h
  | upgradeCount u =>
    simp only [State.addressStep, State.upgradeCount, beq_iff_eq] at h
    split at h
    · split at h
      · cases h
        exact .upgradeCount ‹_› ‹_›
      · cases h
    · cases h
  | upgradeGroup u =>
    simp only [State.addressStep, State.upgradeGroup, beq_iff_eq] at h
    split at h
    · split at h
      · split at h
        · cases h
          exact .upgradeReturn ‹_› ‹_› ‹_›
        · rename_i hgroup
          cases h
          exact .upgradePanic ‹_› ‹_› (Bool.eq_false_iff.mpr hgroup)
      · cases h
    · cases h

inductive RequestMove (s : State A) : RequestAct A → State A → Prop
  | call {a : Nat} {addr : Address} {req : Request A} (ha : s.addresses[a]? = some addr)
      (hlive : addr.isLive = true) (hreq : State.isRequest req = true) :
      RequestMove s (.call a req) (s.newCall (some a) req .sending)
  | broadcast {a : Nat} {addr : Address} {group : List Nat} {msg : A.Message}
      (ha : s.addresses[a]? = some addr) (hgroup : addr.txSubs = some group)
      (hlive : addr.isLive = true) :
      RequestMove s (.broadcast a msg) { s with
        calls := s.calls ++ group.map fun chan =>
          ⟨some a, .entry s.calls.length chan msg, .sending⟩ }
  | doSend {a : Nat} {addr : Address} {msg : A.Message} (ha : s.addresses[a]? = some addr)
      (hlive : addr.isLive = true) :
      RequestMove s (.doSend a msg)
        { s with tasks := s.tasks ++ [.send (.instant (.static none msg))] }
  | doRun {a : Nat} {addr : Address} {fut : A.Future} (ha : s.addresses[a]? = some addr)
      (hlive : addr.isLive = true) :
      RequestMove s (.doRun a fut)
        { s with tasks := s.tasks ++ [.send (.instant (.dynamic none fut))] }
  | refuse {c : Nat} {call : Call A} (hc : s.calls[c]? = some call) (hphase : call.phase = .sending)
      (hopen : s.receiver call.req.channel = false) :
      RequestMove s (.send c) (s.setCall c { call with phase := .done (.err .closed) })
  | send {c : Nat} {call : Call A} (hc : s.calls[c]? = some call) (hphase : call.phase = .sending)
      (hopen : s.receiver call.req.channel = true) (hfull : s.full call.req.channel = false) :
      RequestMove s (.send c)
        ((s.enqueue call.req.channel (call.req.message c)).setCall c { call with
          phase := if call.req.awaitsReply then .waiting none else .done (.ok .unit) })
  | timeout {c : Nat} {call : Call A} (hc : s.calls[c]? = some call)
      (hphase : call.phase = .sending)
      (hopen : s.receiver call.req.channel = true) (hfull : s.full call.req.channel = true) :
      RequestMove s (.timeout c) (s.setCall c { call with phase := .done (.err .timeout) })
  | answer {c : Nat} {call : Call A} {reply : Reply A} (hc : s.calls[c]? = some call)
      (hphase : call.phase = .waiting (some reply)) :
      RequestMove s (.receive c)
        ((s.setCall c { call with phase := .done (call.req.answer reply) }).resumeStream call.req)
  | canceled {c : Nat} {call : Call A} (hc : s.calls[c]? = some call)
      (hphase : call.phase = .waiting none) (hheld : s.oneShotSender c = false) :
      RequestMove s (.receive c)
        ((s.setCall c { call with phase := .done (.err .canceled) }).resumeStream call.req)
  | abandon {c : Nat} {call : Call A} (hc : s.calls[c]? = some call)
      (hpending : call.pending = true)
      (haddr : call.address.isSome = true) :
      RequestMove s (.abandon c) (s.setCall c { call with phase := .abandoned })
  | stream {a : Nat} {addr : Address} (ha : s.addresses[a]? = some addr)
      (hlive : addr.isLive = true) :
      RequestMove s (.stream a) { s with streams := s.streams ++ [.next] }
  | item {st : Nat} {msg : A.Message} (hst : s.streams[st]? = some .next)
      (hopen : s.receiver 0 = true) :
      RequestMove s (.item st msg)
        { (s.enqueue 0 ((Request.item st msg).message s.calls.length)).newCall none (.item st msg)
            (.waiting none) with
          streams := s.streams.set st (.last s.calls.length) }
  | itemRefused {st : Nat} {msg : A.Message} (hst : s.streams[st]? = some .next)
      (hopen : s.receiver 0 = false) :
      RequestMove s (.item st msg) (s.newCall none (.item st msg) (.done (.err .closed)))
  | dropIdle {st : Nat} (hst : s.streams[st]? = some .next) :
      RequestMove s (.dropStream st) { s with streams := s.streams.set st .dropped }
  | dropWaiting {st c : Nat} {call : Call A} (hst : s.streams[st]? = some (.last c))
      (hc : s.calls[c]? = some call) :
      RequestMove s (.dropStream st) { s.setCall c { call with phase := .abandoned } with
        streams := s.streams.set st .dropped }
  | cancel {c : Nat} {call : Call A} {h : FutureHandler} (hc : s.calls[c]? = some call)
      (hphase : call.phase = .done (.ok (.handler h))) :
      RequestMove s (.cancel c) (s.cancelHandler h)

theorem RequestMove.of_step {s t : State A} {act : RequestAct A}
    (h : s.requestStep act = some t) : RequestMove s act t := by
  cases act with
  | call a req =>
    simp only [State.requestStep, State.call] at h
    split at h
    · split at h
      · rename_i hguard
        cases h
        rw [Bool.and_eq_true] at hguard
        exact .call ‹_› hguard.1 hguard.2
      · cases h
    · cases h
  | broadcast a msg =>
    simp only [State.requestStep, State.broadcast] at h
    split at h
    · split at h
      · split at h
        · cases h
          exact .broadcast ‹_› ‹_› ‹_›
        · cases h
      · cases h
    · cases h
  | doSend a msg =>
    simp only [State.requestStep, State.spawnSend] at h
    split at h
    · split at h
      · cases h
        exact .doSend ‹_› ‹_›
      · cases h
    · cases h
  | doRun a fut =>
    simp only [State.requestStep, State.spawnSend] at h
    split at h
    · split at h
      · cases h
        exact .doRun ‹_› ‹_›
      · cases h
    · cases h
  | send c =>
    simp only [State.requestStep, State.sendCall, Bool.not_eq_true'] at h
    split at h
    · split at h
      · split at h
        · cases h
          exact .refuse ‹_› ‹_› ‹_›
        · rename_i hopen
          split at h
          · cases h
          · rename_i hfull
            cases h
            exact .send ‹_› ‹_› (Bool.not_eq_false _ ▸ hopen) (Bool.eq_false_iff.mpr hfull)
      · cases h
    · cases h
  | timeout c =>
    simp only [State.requestStep, State.timeoutCall] at h
    split at h
    · split at h
      · split at h
        · rename_i hguard
          cases h
          rw [Bool.and_eq_true] at hguard
          exact .timeout ‹_› ‹_› hguard.1 hguard.2
        · cases h
      · cases h
    · cases h
  | receive c =>
    simp only [State.requestStep, State.receiveCall] at h
    split at h
    · split at h
      · cases h
        exact .answer ‹_› ‹_›
      · split at h
        · cases h
        · rename_i hheld
          cases h
          exact .canceled ‹_› ‹_› (Bool.eq_false_iff.mpr hheld)
      · cases h
    · cases h
  | abandon c =>
    simp only [State.requestStep, State.abandonCall] at h
    split at h
    · split at h
      · rename_i hguard
        cases h
        rw [Bool.and_eq_true] at hguard
        exact .abandon ‹_› hguard.1 hguard.2
      · cases h
    · cases h
  | stream a =>
    simp only [State.requestStep, State.sendStream] at h
    split at h
    · split at h
      · cases h
        exact .stream ‹_› ‹_›
      · cases h
    · cases h
  | item st msg =>
    simp only [State.requestStep, State.streamItem] at h
    split at h
    · split at h
      · cases h
        exact .item ‹_› ‹_›
      · rename_i hopen
        cases h
        exact .itemRefused ‹_› (Bool.eq_false_iff.mpr hopen)
    · cases h
  | dropStream st =>
    simp only [State.requestStep, State.dropStream] at h
    split at h
    · cases h
      exact .dropIdle ‹_›
    · split at h
      · cases h
        exact .dropWaiting ‹_› ‹_›
      · cases h
    · cases h
  | cancel c =>
    simp only [State.requestStep, State.cancelCall] at h
    split at h
    · split at h
      · cases h
        exact .cancel ‹_› ‹_›
      · cases h
    · cases h

inductive TaskMove (s : State A) (t : Nat) : State A → Prop
  | send {msg : ContextMessage A} (ht : s.tasks[t]? = some (.send msg)) :
      TaskMove s t ((s.sendShared msg).setTask t .finished)
  | delayedSend {cell : Nat} {msg : InstantMessage A} {elapsed : Bool} {cancel : CancelCell}
      (ht : s.tasks[t]? = some (.delayed cell msg elapsed)) (hcell : s.cells[cell]? = some cancel)
      (hdue : if cancel.flag then s.cfg.handleDelayedOnShutdown = true else elapsed = true) :
      TaskMove s t (({ s with cells := s.cells.set cell (cancel.poll t).2 }.sendShared
        (.instant msg)).setTask t .finished)
  | delayedDrop {cell : Nat} {msg : InstantMessage A} {elapsed : Bool} {cancel : CancelCell}
      (ht : s.tasks[t]? = some (.delayed cell msg elapsed)) (hcell : s.cells[cell]? = some cancel)
      (hflag : cancel.flag = true) (hcfg : s.cfg.handleDelayedOnShutdown = false) :
      TaskMove s t ({ s with cells := s.cells.set cell (cancel.poll t).2 }.setTask t .finished)
  | delayedWait {cell : Nat} {msg : InstantMessage A} {cancel : CancelCell}
      (ht : s.tasks[t]? = some (.delayed cell msg false)) (hcell : s.cells[cell]? = some cancel)
      (hflag : cancel.flag = false) :
      TaskMove s t { s with cells := s.cells.set cell (cancel.poll t).2 }
  | intervalSend {cell index : Nat} {ticked : Bool}
      (ht : s.tasks[t]? = some (.interval cell index ticked true)) :
      TaskMove s t ((s.sendShared (.interval (.run index))).setTask t
        (.interval cell index false false))
  | intervalEnd {cell index : Nat} {ticked : Bool} {cancel : CancelCell}
      (ht : s.tasks[t]? = some (.interval cell index ticked false))
      (hcell : s.cells[cell]? = some cancel)
      (hend : cancel.flag = true ∨ ticked = true ∧ s.sharedSender = false) :
      TaskMove s t ({ s with cells := s.cells.set cell (cancel.poll t).2 }.setTask t .finished)
  | intervalUpgrade {cell index : Nat} {cancel : CancelCell}
      (ht : s.tasks[t]? = some (.interval cell index true false))
      (hcell : s.cells[cell]? = some cancel) (hflag : cancel.flag = false)
      (hsender : s.sharedSender = true) :
      TaskMove s t ({ s with cells := s.cells.set cell (cancel.poll t).2 }.setTask t
        (.interval cell index false true))
  | intervalWait {cell index : Nat} {cancel : CancelCell}
      (ht : s.tasks[t]? = some (.interval cell index false false))
      (hcell : s.cells[cell]? = some cancel) (hflag : cancel.flag = false) :
      TaskMove s t { s with cells := s.cells.set cell (cancel.poll t).2 }

theorem CancelCell.poll_fst (cell : CancelCell) (t : Nat) : (cell.poll t).1 = cell.flag := by
  unfold CancelCell.poll
  split <;> simp [*]

@[simp] theorem CancelCell.poll_flag (cell : CancelCell) (t : Nat) :
    (cell.poll t).2.flag = cell.flag := by
  unfold CancelCell.poll
  split <;> rfl

theorem TaskMove.of_step {s u : State A} {t : Nat} (h : s.pollTask t = some u) :
    TaskMove s t u := by
  unfold State.pollTask at h
  split at h
  · cases h
    exact .send ‹_›
  · rename_i cell msg elapsed ht
    split at h
    · rename_i cancel hcell
      simp only [CancelCell.poll_fst] at h
      split at h
      · rename_i hflag
        split at h
        · cases h
          exact .delayedSend ht hcell (by simpa [hflag])
        · rename_i hcfg
          cases h
          exact .delayedDrop ht hcell hflag (Bool.eq_false_iff.mpr hcfg)
      · rename_i hflag
        split at h
        · cases h
          exact .delayedSend ht hcell (by simpa [hflag])
        · rename_i helapsed
          cases h
          obtain rfl := Bool.eq_false_iff.mpr helapsed
          exact .delayedWait ht hcell (Bool.eq_false_iff.mpr hflag)
    · cases h
  · rename_i cell index ticked holding ht
    split at h
    · rename_i hholding
      cases h
      subst hholding
      exact .intervalSend ht
    · rename_i hholding
      obtain rfl := Bool.eq_false_iff.mpr hholding
      split at h
      · rename_i cancel hcell
        simp only [CancelCell.poll_fst] at h
        split at h
        · rename_i hflag
          cases h
          exact .intervalEnd ht hcell (.inl hflag)
        · rename_i hflag
          split at h
          · rename_i hticked
            subst hticked
            split at h
            · rename_i hsender
              cases h
              exact .intervalUpgrade ht hcell (Bool.eq_false_iff.mpr hflag) hsender
            · rename_i hsender
              cases h
              exact .intervalEnd ht hcell (.inr ⟨rfl, Bool.eq_false_iff.mpr hsender⟩)
          · rename_i hticked
            obtain rfl := Bool.eq_false_iff.mpr hticked
            cases h
            exact .intervalWait ht hcell (Bool.eq_false_iff.mpr hflag)
      · cases h
  · cases h

inductive ContextMove (s : State A) (i : Nat) (c : Context A) : State A → Prop
  | build (hpos : c.pos = .build) : ContextMove s i c (s.setContext i { c with pos := .onStart })
  | onStart (hpos : c.pos = .onStart) :
      ContextMove s i c (s.setContext i { c with pos := .incActive, starts := c.starts + 1 })
  | incActive (hpos : c.pos = .incActive) :
      ContextMove s i c
        ({ s with active := (incActive s.active).2 }.setContext i { c with pos := .recv })
  | take {chan : Nat} {env : Envelope A} {rest : List (Envelope A)} (hpos : c.pos = .recv)
      (hrecv : c.receives chan = true) (hqueue : s.queue chan = env :: rest) :
      ContextMove s i c { s.setContext i { c with pos := .handle env } with
        queue := update s.queue chan rest
        taken := s.taken ++ [⟨i, chan, env⟩] }
  | leave (hpos : c.pos = .recv) (hrx : s.ended c.rx = true)
      (hselector : (c.selector.all fun chan => s.ended chan) = true) :
      ContextMove s i c (s.setContext i { c with pos := .decActive })
  | close {env : Envelope A} {tx : Nat} (hpos : c.pos = .handle env)
      (hmsg : env.msg = .manualShutDown tx) (hopen : s.oneShotOpen tx = true) :
      ContextMove s i c ((s.sendReply tx (.contextState c.id c.generation)).finish i
        { c with manualShutdown := true, pos := .decActive } env
        (some (.contextState c.id c.generation)))
  | closeRefused {env : Envelope A} {tx : Nat} (hpos : c.pos = .handle env)
      (hmsg : env.msg = .manualShutDown tx) (hopen : s.oneShotOpen tx = false) :
      ContextMove s i c (s.finish i { c with pos := .recv } env none)
  | static {env : Envelope A} {tx : Option Nat} {msg : A.Message} {await : A.Await}
      (hpos : c.pos = .handle env) (hmsg : env.msg = .instant (.static tx msg)) :
      ContextMove s i c ((s.sendReplyTo tx (.result (A.handle c.actor msg await).2)).finish i
        { c with actor := (A.handle c.actor msg await).1, pos := .recv } env
        (some (.result (A.handle c.actor msg await).2)))
  | dynamic {env : Envelope A} {tx : Option Nat} {fut : A.Future} {await : A.Await}
      (hpos : c.pos = .handle env) (hmsg : env.msg = .instant (.dynamic tx fut)) :
      ContextMove s i c ((s.sendReplyTo tx (.object (A.runFuture c.actor fut await).2.2)).finish i
        { c with actor := (A.runFuture c.actor fut await).1, pos := .recv } env
        (some (.object (A.runFuture c.actor fut await).2.2)))
  | delayed {env : Envelope A} {msg : DelayedMessage A} (hpos : c.pos = .handle env)
      (hmsg : env.msg = .delayed msg) (hsender : s.sharedSender = true) :
      ContextMove s i c
        ((s.spawnCancelable fun cell => .delayed cell msg.toInstant false).setContext i
          { c with pos := .pushCheck env ⟨s.cells.length, none⟩ })
  | delayedLost {env : Envelope A} {msg : DelayedMessage A} (hpos : c.pos = .handle env)
      (hmsg : env.msg = .delayed msg) (hsender : s.sharedSender = false) :
      ContextMove s i c (s.finish i { c with pos := .recv } env none)
  | lockRun {env : Envelope A} {index : Nat} (hpos : c.pos = .handle env)
      (hmsg : env.msg = .interval (.run index)) (hlock : s.futuresLock = none) :
      ContextMove s i c ({ s with futuresLock := some i }.setContext i
        { c with pos := .intervalRun env index })
  | remove {env : Envelope A} {index : Nat} (hpos : c.pos = .handle env)
      (hmsg : env.msg = .interval (.remove index)) (hlock : s.futuresLock = none) :
      ContextMove s i c ({ s with futures := update s.futures index none }.finish i
        { c with pos := .recv } env none)
  | register {env : Envelope A} {tx dur : Nat} {fut : A.Future} (hpos : c.pos = .handle env)
      (hmsg : env.msg = .interval (.register tx fut dur)) :
      ContextMove s i c ({ s with nextKey := (s.nextKey + 1) % 2 ^ 64 }.setContext i
        { c with pos := if s.nextKey < usizeMax then .insert env fut s.nextKey else .panicked })
  | insert {env : Envelope A} {fut : A.Future} {key : Nat} (hpos : c.pos = .insert env fut key)
      (hlock : s.futuresLock = none) (hperiod : env.msg.zeroPeriod = false) :
      ContextMove s i c
        (({ s with futures := update s.futures key (some fut) }.spawnCancelable fun cell =>
          .interval cell key false false).setContext i
          { c with pos := .pushCheck env ⟨s.cells.length, some key⟩ })
  | insertPanic {env : Envelope A} {fut : A.Future} {key : Nat} (hpos : c.pos = .insert env fut key)
      (hlock : s.futuresLock = none) (hperiod : env.msg.zeroPeriod = true) :
      ContextMove s i c ({ s with futures := update s.futures key (some fut) }.setContext i
        { c with pos := .panicked })
  | pushCheck {env : Envelope A} {h : FutureHandler} (hpos : c.pos = .pushCheck env h)
      (hrunning : s.isRunning = true) :
      ContextMove s i c (s.setContext i { c with pos := .pushExtend env h })
  | pushRefused {env : Envelope A} {h : FutureHandler} (hpos : c.pos = .pushCheck env h)
      (hrunning : s.isRunning = false) : ContextMove s i c (s.afterPush i c env h)
  | pushExtend {env : Envelope A} {h : FutureHandler} (hpos : c.pos = .pushExtend env h)
      (hlock : s.handlersLocked = false) :
      ContextMove s i c ({ s with handlers := s.handlers ++ [h] }.afterPush i c env h)
  | reply {env : Envelope A} {tx : Nat} {h : FutureHandler} (hpos : c.pos = .reply env tx h) :
      ContextMove s i c
        ((s.sendReply tx (.handler h)).finish i { c with pos := .recv } env (some (.handler h)))
  | intervalRun {env : Envelope A} {index : Nat} {await : A.Await}
      (hpos : c.pos = .intervalRun env index) :
      ContextMove s i c (s.runInterval i c env index await)
  | restart (hpos : c.pos = .decActive) (hrunning : s.isRunning = true)
      (hcfg : s.cfg.restartOnErr = true) (hmanual : c.manualShutdown = false) :
      ContextMove s i c ({ s with active := s.active - unit }.setContext i
        { c with generation := c.generation + 1, pos := .onStart })
  | stop (hpos : c.pos = .decActive)
      (hstay : (s.isRunning && s.cfg.restartOnErr && !c.manualShutdown) = false) :
      ContextMove s i c
        ({ s with active := (decActive s.active).2 }.setContext i { c with pos := .onStop })
  | onStop (hpos : c.pos = .onStop) :
      ContextMove s i c (s.setContext i { c with pos := .stopped, stops := c.stops + 1 })

theorem decActive_fst (s : State A) : (decActive s.active).1 = s.isRunning := by
  simp only [decActive, modifyActive, State.isRunning]
  split <;> simp_all

theorem decActive_snd {s : State A} (h : s.isRunning = true) :
    (decActive s.active).2 = s.active - unit := by
  have hzero : s.active &&& marker = 0 := by simpa [State.isRunning] using h
  simp [decActive, modifyActive, hzero]

theorem insertInterval_enabled {s : State A} (hlock : s.futuresLock = none) (i : Nat)
    (c : Context A) (env : Envelope A) (fut : A.Future) (key : Nat) :
    ∃ t, s.insertInterval i c env fut key = some t := by
  unfold State.insertInterval
  rw [hlock, if_neg nofun]
  dsimp only
  split <;> exact ⟨_, rfl⟩

theorem ContextMove.of_handleMsg {s t : State A} {i : Nat} {c : Context A} {env : Envelope A}
    {await : A.Await} (hpos : c.pos = .handle env) (h : s.handleMsg i c env await = some t) :
    ContextMove s i c t := by
  unfold State.handleMsg at h
  split at h
  · rename_i tx hmsg
    split at h
    · cases h
      exact .close hpos hmsg ‹_›
    · rename_i hopen
      cases h
      exact .closeRefused hpos hmsg (Bool.eq_false_iff.mpr hopen)
  · rename_i msg hmsg
    cases msg <;> cases h
    · exact .static hpos hmsg
    · exact .dynamic hpos hmsg
  · rename_i msg hmsg
    simp only [State.handleDelayedMsg] at h
    split at h
    · cases h
      exact .delayed hpos hmsg ‹_›
    · rename_i hsender
      cases h
      exact .delayedLost hpos hmsg (Bool.eq_false_iff.mpr hsender)
  · rename_i msg hmsg
    unfold State.handleIntervalMsg at h
    split at h
    · split at h
      · cases h
      · rename_i hlock
        cases h
        exact .lockRun hpos hmsg (by simpa using hlock)
    · split at h
      · cases h
      · rename_i hlock
        cases h
        exact .remove hpos hmsg (by simpa using hlock)
    · cases h
      exact .register hpos hmsg

theorem ContextMove.of_recv {s t : State A} {i chan : Nat} {c : Context A} (hpos : c.pos = .recv)
    (h : s.recv i c chan = some t) : ContextMove s i c t := by
  unfold State.recv at h
  split at h
  · rename_i hrecv
    split at h
    · cases h
      exact .take hpos hrecv ‹_›
    · split at h
      · rename_i hguard
        cases h
        rw [Bool.and_eq_true] at hguard
        exact .leave hpos hguard.1 hguard.2
      · cases h
  · cases h

theorem ContextMove.of_leaveLoop (s : State A) {i : Nat} {c : Context A}
    (hpos : c.pos = .decActive) : ContextMove s i c (s.leaveLoop i c) := by
  simp only [State.leaveLoop, decActive_fst]
  split
  · rename_i hguard
    simp only [Bool.and_eq_true, Bool.not_eq_true'] at hguard
    obtain ⟨⟨hrunning, hcfg⟩, hmanual⟩ := hguard
    rw [decActive_snd hrunning]
    exact .restart hpos hrunning hcfg hmanual
  · rename_i hguard
    exact .stop hpos (Bool.eq_false_iff.mpr hguard)

theorem ContextMove.of_step {s t : State A} {i chan : Nat} {await : A.Await}
    (h : s.contextStep i chan await = some t) :
    ∃ c, s.contexts[i]? = some c ∧ ContextMove s i c t := by
  unfold State.contextStep at h
  split at h
  · cases h
  · rename_i c hc
    refine ⟨c, hc, ?_⟩
    split at h
    · cases h
      exact .build ‹_›
    · cases h
      exact .onStart ‹_›
    · cases h
      exact .incActive ‹_›
    · exact .of_recv ‹_› h
    · exact .of_handleMsg ‹_› h
    · unfold State.insertInterval at h
      split at h
      · cases h
      · rename_i hlock
        have hfree : s.futuresLock = none := by simpa using hlock
        split at h
        · cases h
          exact .insertPanic ‹_› hfree ‹_›
        · rename_i hperiod
          cases h
          exact .insert ‹_› hfree (Bool.eq_false_iff.mpr hperiod)
    · split at h
      · cases h
        exact .pushCheck ‹_› ‹_›
      · rename_i hrunning
        cases h
        exact .pushRefused ‹_› (Bool.eq_false_iff.mpr hrunning)
    · split at h
      · cases h
      · rename_i hlock
        cases h
        exact .pushExtend ‹_› (Bool.eq_false_iff.mpr hlock)
    · cases h
      exact .reply ‹_›
    · cases h
      exact .intervalRun ‹_›
    · cases h
      exact .of_leaveLoop s ‹_›
    · cases h
      exact .onStop ‹_›
    · cases h
    · cases h

inductive PanicMove (s : State A) (i : Nat) (c : Context A) : State A → Prop
  | panic (huser : s.inUserCode c.pos = true) :
      PanicMove s i c ({ s with
        futuresLock := if s.futuresLock == some i then none else s.futuresLock }.setContext i
        { c with pos := .panicked })

theorem PanicMove.of_step {s t : State A} {i : Nat} (h : s.panicStep i = some t) :
    ∃ c, s.contexts[i]? = some c ∧ PanicMove s i c t := by
  unfold State.panicStep at h
  split at h
  · cases h
  · rename_i c hc
    split at h
    · cases h
      exact ⟨c, hc, .panic ‹_›⟩
    · cases h

inductive Moves (s : State A) : Act A → State A → Prop
  | address {act : AddressAct} {t : State A} (h : AddressMove s act t) : Moves s (.address act) t
  | request {act : RequestAct A} {t : State A} (h : RequestMove s act t) : Moves s (.request act) t
  | poll {k : Nat} {t : State A} (h : TaskMove s k t) : Moves s (.poll k) t
  | elapseDelayed {k cell : Nat} {msg : InstantMessage A} {elapsed : Bool}
      (hk : s.tasks[k]? = some (.delayed cell msg elapsed)) :
      Moves s (.elapse k) (s.setTask k (.delayed cell msg true))
  | elapseInterval {k cell index : Nat} {ticked holding : Bool}
      (hk : s.tasks[k]? = some (.interval cell index ticked holding)) :
      Moves s (.elapse k) (s.setTask k (.interval cell index true holding))
  | context {i chan : Nat} {await : A.Await} {c : Context A} {t : State A}
      (hc : s.contexts[i]? = some c) (h : ContextMove s i c t) : Moves s (.context i chan await) t
  | panic {i : Nat} {c : Context A} {t : State A} (hc : s.contexts[i]? = some c)
      (h : PanicMove s i c t) : Moves s (.panic i) t

theorem Moves.of_step {s t : State A} {act : Act A} (h : step s act = some t) : Moves s act t := by
  cases act with
  | address act => exact .address (.of_step h)
  | request act => exact .request (.of_step h)
  | poll k => exact .poll (.of_step h)
  | elapse k =>
    simp only [step, State.elapseTask] at h
    split at h
    · cases h
      exact .elapseDelayed ‹_›
    · cases h
      exact .elapseInterval ‹_›
    · cases h
  | context i chan await =>
    obtain ⟨c, hc, hmove⟩ := ContextMove.of_step h
    exact .context hc hmove
  | panic i =>
    obtain ⟨c, hc, hmove⟩ := PanicMove.of_step h
    exact .panic hc hmove

theorem AddressMove.frame {s t : State A} {act : AddressAct} (h : AddressMove s act t) :
    t = { s with
      strongCount := t.strongCount, addresses := t.addresses, weaks := t.weaks
      upgrades := t.upgrades, active := t.active, handlersLocked := t.handlersLocked
      cells := t.cells, tasks := t.tasks } := by
  cases h with
  | @cancel _ _ h _ ha hpos =>
    simp only [State.cancelHandler]
    split
    · split <;> rfl
    · rfl
  | _ => rfl

theorem RequestMove.frame {s t : State A} {act : RequestAct A} (h : RequestMove s act t) :
    t = { s with
      queue := t.queue, nextId := t.nextId, accepted := t.accepted, calls := t.calls
      streams := t.streams, tasks := t.tasks, cells := t.cells } := by
  cases h with
  | @answer _ call | @canceled _ call =>
    obtain ⟨address, req, phase⟩ := call
    cases req <;> rfl
  | cancel =>
    simp only [State.cancelHandler]
    split
    · split <;> rfl
    · rfl
  | _ => rfl

theorem sendShared_frame (s : State A) (msg : ContextMessage A) :
    s.sendShared msg = { s with
      queue := (s.sendShared msg).queue, nextId := (s.sendShared msg).nextId
      accepted := (s.sendShared msg).accepted } := by
  unfold State.sendShared
  split <;> rfl

theorem TaskMove.frame {s u : State A} {t : Nat} (h : TaskMove s t u) :
    u = { s with
      queue := u.queue, nextId := u.nextId, accepted := u.accepted, tasks := u.tasks
      cells := u.cells } := by
  cases h with
  | send | intervalSend | delayedSend =>
    simp only [State.sendShared]
    split <;> rfl
  | _ => rfl

theorem sendReply_frame (s : State A) (tx : Nat) (reply : Reply A) :
    s.sendReply tx reply = { s with calls := (s.sendReply tx reply).calls } := by
  unfold State.sendReply
  split
  · split <;> rfl
  · rfl

theorem sendReplyTo_frame (s : State A) (tx : Option Nat) (reply : Reply A) :
    s.sendReplyTo tx reply = { s with calls := (s.sendReplyTo tx reply).calls } := by
  cases tx
  · rfl
  · exact sendReply_frame s _ reply

theorem ContextMove.frame {s t : State A} {i : Nat} {c : Context A} (h : ContextMove s i c t) :
    t = { s with
      queue := t.queue, active := t.active, handlers := t.handlers, cells := t.cells
      nextKey := t.nextKey, futures := t.futures, futuresLock := t.futuresLock
      contexts := t.contexts, calls := t.calls, tasks := t.tasks, taken := t.taken
      handled := t.handled } := by
  cases h with
  | close | reply =>
    rw [sendReply_frame]
    rfl
  | static | dynamic =>
    rw [sendReplyTo_frame]
    rfl
  | pushRefused | pushExtend =>
    simp only [State.afterPush]
    split <;> rfl
  | intervalRun =>
    simp only [State.runInterval]
    split <;> rfl
  | _ => rfl

theorem PanicMove.frame {s t : State A} {i : Nat} {c : Context A} (h : PanicMove s i c t) :
    t = { s with futuresLock := t.futuresLock, contexts := t.contexts } := by
  cases h
  rfl

/-- The next step fails an assertion: that of `insert` on an index, or that of
`runtime::interval` on the period. -/
def State.failsAssertion (s : State A) : Position A → Bool
  | .handle env =>
    match env.msg with
    | .interval (.register _ _ _) => usizeMax ≤ s.nextKey
    | _ => false
  | .insert env _ _ => s.futuresLock.isNone && env.msg.zeroPeriod
  | _ => false

def AtAssertion (s : State A) (c : Context A) : Prop := s.failsAssertion c.pos = true

instance (s : State A) (c : Context A) : Decidable (AtAssertion s c) :=
  inferInstanceAs (Decidable (_ = true))

theorem atAssertion_register {s : State A} {c : Context A} {env : Envelope A} {tx dur : Nat}
    {fut : A.Future} (hpos : c.pos = .handle env)
    (hmsg : env.msg = .interval (.register tx fut dur))
    (hkey : ¬s.nextKey < usizeMax) : AtAssertion s c := by
  simpa [AtAssertion, State.failsAssertion, hpos, hmsg] using hkey

theorem atAssertion_insert {s : State A} {c : Context A} {env : Envelope A} {fut : A.Future}
    {key : Nat} (hpos : c.pos = .insert env fut key) (hlock : s.futuresLock = none)
    (hperiod : env.msg.zeroPeriod = true) : AtAssertion s c := by
  simp [AtAssertion, State.failsAssertion, hpos, hlock, hperiod]

theorem AtAssertion.exists_hand {s : State A} {c : Context A} (h : AtAssertion s c) :
    ∃ env, c.pos.hand = some env ∧
      (c.pos = .handle env ∨ ∃ fut key, c.pos = .insert env fut key) := by
  unfold AtAssertion at h
  cases hpos : c.pos with
  | handle env => exact ⟨env, rfl, .inl rfl⟩
  | insert env fut key => exact ⟨env, rfl, .inr ⟨fut, key, rfl⟩⟩
  | _ =>
    rw [hpos] at h
    cases h

theorem AtAssertion.exists_register {s : State A} {c : Context A} (h : AtAssertion s c) :
    ∃ env tx fut dur, c.pos.hand = some env ∧ env.msg = .interval (.register tx fut dur) := by
  obtain ⟨env, hhand, hpos | ⟨fut, key, hpos⟩⟩ := h.exists_hand
  · simp only [AtAssertion, State.failsAssertion, hpos] at h
    split at h
    · exact ⟨env, _, _, _, hhand, ‹_›⟩
    · cases h
  · simp only [AtAssertion, State.failsAssertion, hpos, Bool.and_eq_true,
      ContextMessage.zeroPeriod] at h
    have hzero := h.2
    split at hzero
    · exact ⟨env, _, _, _, hhand, ‹_›⟩
    · cases hzero

/-- The context is lost with its message; the index is taken, or the future stored. -/
theorem AtAssertion.effect {s t : State A} {i chan : Nat} {await : A.Await} {c : Context A}
    (hassert : AtAssertion s c) (hc : s.contexts[i]? = some c)
    (h : step s (.context i chan await) = some t) :
    t = { s with
      nextKey := t.nextKey, futures := t.futures
      contexts := s.contexts.set i { c with pos := .panicked } } := by
  obtain ⟨env, _, hpos | ⟨fut, key, hpos⟩⟩ := hassert.exists_hand
  · simp only [AtAssertion, State.failsAssertion, hpos] at hassert
    split at hassert
    · rename_i hmsg
      have hkey : ¬s.nextKey < usizeMax := by simpa using hassert
      simp only [step, State.contextStep, hc, hpos, State.handleMsg, hmsg,
        State.handleIntervalMsg, if_neg hkey] at h
      cases h
      rfl
    · cases hassert
  · simp only [AtAssertion, State.failsAssertion, hpos, Bool.and_eq_true] at hassert
    simp only [step, State.contextStep, hc, hpos, State.insertInterval] at h
    split at h
    · cases h
    · rw [if_pos hassert.2] at h
      cases h
      rfl

/-- The context an action leaves behind; `hold` and `finish` stand for all the
steps of `handle_msg` that keep its message and that end it. -/
inductive Turn (s : State A) (c : Context A) : Context A → Prop
  | build (hpos : c.pos = .build) : Turn s c { c with pos := .onStart }
  | onStart (hpos : c.pos = .onStart) :
      Turn s c { c with pos := .incActive, starts := c.starts + 1 }
  | incActive (hpos : c.pos = .incActive) : Turn s c { c with pos := .recv }
  | take {chan : Nat} {env : Envelope A} {rest : List (Envelope A)} (hpos : c.pos = .recv)
      (hrecv : c.receives chan = true) (hqueue : s.queue chan = env :: rest) :
      Turn s c { c with pos := .handle env }
  | leave (hpos : c.pos = .recv) (hrx : s.ended c.rx = true)
      (hselector : (c.selector.all fun chan => s.ended chan) = true) :
      Turn s c { c with pos := .decActive }
  | close {env : Envelope A} {tx : Nat} (hpos : c.pos = .handle env)
      (hmsg : env.msg = .manualShutDown tx) (hopen : s.oneShotOpen tx = true) :
      Turn s c { c with manualShutdown := true, pos := .decActive }
  | hold {env : Envelope A} {pos : Position A} (hhand : c.pos.hand = some env)
      (hhand' : pos.hand = some env) : Turn s c { c with pos := pos }
  | finish {env : Envelope A} {actor : A.State} (hhand : c.pos.hand = some env) :
      Turn s c { c with actor := actor, pos := .recv }
  | lose (hassert : AtAssertion s c) : Turn s c { c with pos := .panicked }
  | restart (hpos : c.pos = .decActive) (hrunning : s.isRunning = true)
      (hcfg : s.cfg.restartOnErr = true) (hmanual : c.manualShutdown = false) :
      Turn s c { c with generation := c.generation + 1, pos := .onStart }
  | stop (hpos : c.pos = .decActive)
      (hstay : (s.isRunning && s.cfg.restartOnErr && !c.manualShutdown) = false) :
      Turn s c { c with pos := .onStop }
  | onStop (hpos : c.pos = .onStop) : Turn s c { c with pos := .stopped, stops := c.stops + 1 }

theorem afterPush_turn {s : State A} {i : Nat} {c : Context A} {env : Envelope A}
    {h : FutureHandler} {handlers : List FutureHandler} (hhand : c.pos.hand = some env) :
    ∃ c', ({ s with handlers := handlers }.afterPush i c env h).contexts = s.contexts.set i c' ∧
      Turn s c c' := by
  simp only [State.afterPush]
  split
  · exact ⟨_, rfl, .hold hhand rfl⟩
  · exact ⟨_, rfl, .finish hhand⟩

theorem ContextMove.turn {s t : State A} {i : Nat} {c : Context A} (h : ContextMove s i c t) :
    ∃ c', t.contexts = s.contexts.set i c' ∧ Turn s c c' := by
  cases h with
  | build hpos => exact ⟨_, rfl, .build hpos⟩
  | onStart hpos => exact ⟨_, rfl, .onStart hpos⟩
  | incActive hpos => exact ⟨_, rfl, .incActive hpos⟩
  | take hpos hrecv hqueue => exact ⟨_, rfl, .take hpos hrecv hqueue⟩
  | leave hpos hrx hselector => exact ⟨_, rfl, .leave hpos hrx hselector⟩
  | close hpos hmsg hopen =>
    rw [sendReply_frame]
    exact ⟨_, rfl, .close hpos hmsg hopen⟩
  | reply hpos =>
    rw [sendReply_frame]
    exact ⟨_, rfl, .finish (by rw [hpos]; rfl)⟩
  | static hpos | dynamic hpos =>
    rw [sendReplyTo_frame]
    exact ⟨_, rfl, .finish (by rw [hpos]; rfl)⟩
  | closeRefused hpos | delayedLost hpos | remove hpos =>
    exact ⟨_, rfl, .finish (by rw [hpos]; rfl)⟩
  | delayed hpos | lockRun hpos | insert hpos | pushCheck hpos =>
    exact ⟨_, rfl, .hold (by rw [hpos]; rfl) rfl⟩
  | insertPanic hpos hlock hperiod =>
    exact ⟨_, rfl, .lose (atAssertion_insert hpos hlock hperiod)⟩
  | register hpos hmsg =>
    by_cases hkey : s.nextKey < usizeMax
    · exact ⟨_, rfl, .hold (by rw [hpos]; rfl) (by rw [if_pos hkey]; rfl)⟩
    · rw [if_neg hkey]
      exact ⟨_, rfl, .lose (atAssertion_register hpos hmsg hkey)⟩
  | pushRefused hpos | pushExtend hpos => exact afterPush_turn (by rw [hpos]; rfl)
  | intervalRun hpos =>
    simp only [State.runInterval]
    split <;> exact ⟨_, rfl, .finish (by rw [hpos]; rfl)⟩
  | restart hpos hrunning hcfg hmanual => exact ⟨_, rfl, .restart hpos hrunning hcfg hmanual⟩
  | stop hpos hstay => exact ⟨_, rfl, .stop hpos hstay⟩
  | onStop hpos => exact ⟨_, rfl, .onStop hpos⟩

theorem Moves.cfg_eq {s t : State A} {act : Act A} (h : Moves s act t) : t.cfg = s.cfg := by
  cases h with
  | address h => rw [h.frame]
  | request h => rw [h.frame]
  | poll h => rw [h.frame]
  | elapseDelayed | elapseInterval => rfl
  | context _ h => rw [h.frame]
  | panic _ h => rw [h.frame]

theorem cfg_of_path {s t : State A} {ms : List (Transition.Move (State A) (Act A))}
    (h : Transition.Path step s ms t) : t.cfg = s.cfg :=
  h.invariant (I := fun u => u.cfg = s.cfg) rfl fun _ _ _ hstep hu =>
    (Moves.of_step hstep).cfg_eq.trans hu

end ActixSend
