import ActixSend.Builder
import ActixSend.System

/-! # Subscriptions

Several actor sets side by side. `subscribe_with` puts a weak sender of another
set's shared channel on the list of an address; `send_subscribe` makes a future
for each entry of the list and keeps the lock of the list until all of them are
done. The shared channels are unbounded, so such a future ends at its first poll.
-/

namespace ActixSend

open Function
set_option autoImplicit false

/-- The actor types of the sets and the message types between them; `into` is
the `Into<A::Message>` of a message type. -/
structure Network where
  actor : Nat → Actor
  Ty : Type
  [decEq : DecidableEq Ty]
  Val : Ty → Type
  into : (i : Nat) → (ty : Ty) → Val ty → (actor i).Message

attribute [instance] Network.decEq

section Tables
variable (N : Network)

/-- A `Subscriber`: a weak sender of the set's shared channel, and the type of
the messages it takes. -/
structure Subscriber where
  set : Nat
  ty : N.Ty

/-- How far a call of `subscribe_with` or `send_subscribe` has come. `results`
are in the order in which the futures were done, each with its entry's number. -/
inductive SubPhase
  | push (sub : Subscriber N)
  | lock (ty : N.Ty) (msg : N.Val ty)
  | sending (subs : List (Subscriber N)) (ty : N.Ty) (msg : N.Val ty)
      (results : List (Nat × Option (Except ActixSendError Unit)))
  | subscribed (res : Except ActixSendError Unit)
  | sent (res : List (Except ActixSendError Unit))
  | abandoned

/-- A call through the address `address` of set `set`, whose subscriber list is
`list`; `other` is the address that `subscribe_with` borrows besides. -/
structure SubCall where
  set : Nat
  address : Nat
  other : Option (Nat × Nat)
  list : Option Nat
  phase : SubPhase N

structure World where
  sets : (i : Nat) → State (N.actor i)
  lists : Nat → Nat → List (Subscriber N)
  subCalls : List (SubCall N)

inductive WorldAct
  | set (i : Nat) (act : Act (N.actor i))
  | subscribeWith (i a j b : Nat) (ty : N.Ty)
  | sendSubscribe (i a : Nat) (ty : N.Ty) (msg : N.Val ty)
  | poll (c : Nat)
  | entry (c k : Nat)
  | abandon (c : Nat)

end Tables

variable {N : Network}

def SubPhase.pending : SubPhase N → Bool
  | .push _ => true
  | .lock _ _ => true
  | .sending _ _ _ _ => true
  | _ => false

def SubPhase.hasGuard : SubPhase N → Bool
  | .sending _ _ _ _ => true
  | _ => false

def SubCall.borrows (call : SubCall N) (i a : Nat) : Bool :=
  call.phase.pending && (call.set == i && call.address == a || call.other == some (i, a))

namespace World

def setSet (w : World N) (i : Nat) (s : State (N.actor i)) : World N :=
  { w with sets := update w.sets i s }

def setSubCall (w : World N) (c : Nat) (call : SubCall N) : World N :=
  { w with subCalls := w.subCalls.set c call }

def newSubCall (w : World N) (call : SubCall N) : World N :=
  { w with subCalls := w.subCalls ++ [call] }

def pushSub (w : World N) (i l : Nat) (sub : Subscriber N) : World N :=
  { w with lists := update w.lists i (update (w.lists i) l (w.lists i l ++ [sub])) }

def listLocked (w : World N) (i l : Nat) : Bool :=
  w.subCalls.any fun call => call.set == i && call.list == some l && call.phase.hasGuard

def borrowed (w : World N) (i a : Nat) : Bool :=
  w.subCalls.any fun call => call.borrows i a

/-- An action of one set; an address that a call still borrows is not dropped. -/
def setStep (w : World N) (i : Nat) (act : Act (N.actor i)) : Option (World N) :=
  match act with
  | .address (.drop a) =>
    if w.borrowed i a then none
    else ((w.sets i).addressStep (.drop a)).map fun s => w.setSet i s
  | act => (ActixSend.step (w.sets i) act).map fun s => w.setSet i s

def subscribeWith (w : World N) (i a j b : Nat) (ty : N.Ty) : Option (World N) :=
  match (w.sets i).addresses[a]?, (w.sets j).addresses[b]? with
  | some addr, some other =>
    if addr.isLive && other.isLive then
      let phase := if addr.subs.isSome then .push ⟨j, ty⟩ else .subscribed (.error .subscribe)
      some (w.newSubCall ⟨i, a, some (j, b), addr.subs, phase⟩)
    else none
  | _, _ => none

def sendSubscribe (w : World N) (i a : Nat) (ty : N.Ty) (msg : N.Val ty) : Option (World N) :=
  match (w.sets i).addresses[a]? with
  | some addr =>
    if addr.isLive then
      let phase := if addr.subs.isSome then .lock ty msg else .sent [.error .subscribe]
      some (w.newSubCall ⟨i, a, none, addr.subs, phase⟩)
    else none
  | none => none

/-- A poll of a call that waits for the lock, or whose entries are all done. -/
def pollSub (w : World N) (c : Nat) : Option (World N) :=
  match w.subCalls[c]? with
  | some call =>
    match call.phase, call.list with
    | .push sub, some l =>
      if w.listLocked call.set l then none
      else
        some ((w.pushSub call.set l sub).setSubCall c { call with phase := .subscribed (.ok ()) })
    | .lock ty msg, some l =>
      if w.listLocked call.set l then none
      else some (w.setSubCall c { call with phase := .sending (w.lists call.set l) ty msg [] })
    | .sending subs _ _ results, _ =>
      if results.length = subs.length then
        some (w.setSubCall c { call with phase := .sent (results.filterMap Prod.snd) })
      else none
    | _, _ => none
  | none => none

/-- `SubscribeTrait::send`: nothing where the downcast fails, else `Subscriber::_send`. -/
def deliver (w : World N) (sub : Subscriber N) (ty : N.Ty) (msg : N.Val ty) :
    World N × Option (Except ActixSendError Unit) :=
  if sub.ty = ty then
    let s := w.sets sub.set
    if s.sharedSender && s.receiver 0 then
      (w.setSet sub.set (s.enqueue 0 (.instant (.static none (N.into sub.set ty msg)))),
        some (.ok ()))
    else (w, some (.error .closed))
  else (w, none)

def pollEntry (w : World N) (c k : Nat) : Option (World N) :=
  match w.subCalls[c]? with
  | some call =>
    match call.phase with
    | .sending subs ty msg results =>
      match subs[k]? with
      | some sub =>
        if results.any fun res => res.1 == k then none
        else
          let (w, res) := w.deliver sub ty msg
          some (w.setSubCall c { call with
            phase := .sending subs ty msg (results ++ [(k, res)]) })
      | none => none
    | _ => none
  | none => none

def abandonSub (w : World N) (c : Nat) : Option (World N) :=
  match w.subCalls[c]? with
  | some call =>
    if call.phase.pending then some (w.setSubCall c { call with phase := .abandoned }) else none
  | none => none

def step (w : World N) : WorldAct N → Option (World N)
  | .set i act => w.setStep i act
  | .subscribeWith i a j b ty => w.subscribeWith i a j b ty
  | .sendSubscribe i a ty msg => w.sendSubscribe i a ty msg
  | .poll c => w.pollSub c
  | .entry c k => w.pollEntry c k
  | .abandon c => w.abandonSub c

end World

def World.start (cfg : Nat → Config) (build : (i : Nat) → Nat → (N.actor i).State) : World N where
  sets i := Builder.start (cfg i) (build i)
  lists _ _ := []
  subCalls := []

/-- Sets of small actors that take each other's messages as they are. -/
def echoNetwork : Network where
  actor _ := echoActor
  Ty := Unit
  Val _ := Bool × Nat
  into _ _ msg := msg

def echoWorld (cfg : Config) : World echoNetwork := .start (fun _ => cfg) fun _ _ => ()

inductive WorldMove (w : World N) : WorldAct N → World N → Prop
  | set {i : Nat} {act : Act (N.actor i)} {s : State (N.actor i)}
      (hstep : step (w.sets i) act = some s)
      (hfree : ∀ a, act = .address (.drop a) → w.borrowed i a = false) :
      WorldMove w (.set i act) (w.setSet i s)
  | subscribeWith {i a j b : Nat} {ty : N.Ty} {addr other : Address}
      (ha : (w.sets i).addresses[a]? = some addr) (hlive : addr.isLive = true)
      (hb : (w.sets j).addresses[b]? = some other) (hother : other.isLive = true) :
      WorldMove w (.subscribeWith i a j b ty) (w.newSubCall ⟨i, a, some (j, b), addr.subs,
        if addr.subs.isSome then .push ⟨j, ty⟩ else .subscribed (.error .subscribe)⟩)
  | sendSubscribe {i a : Nat} {ty : N.Ty} {msg : N.Val ty} {addr : Address}
      (ha : (w.sets i).addresses[a]? = some addr) (hlive : addr.isLive = true) :
      WorldMove w (.sendSubscribe i a ty msg) (w.newSubCall ⟨i, a, none, addr.subs,
        if addr.subs.isSome then .lock ty msg else .sent [.error .subscribe]⟩)
  | push {c l : Nat} {call : SubCall N} {sub : Subscriber N} (hc : w.subCalls[c]? = some call)
      (hphase : call.phase = .push sub) (hlist : call.list = some l)
      (hfree : w.listLocked call.set l = false) :
      WorldMove w (.poll c)
        ((w.pushSub call.set l sub).setSubCall c { call with phase := .subscribed (.ok ()) })
  | lock {c l : Nat} {call : SubCall N} {ty : N.Ty} {msg : N.Val ty}
      (hc : w.subCalls[c]? = some call) (hphase : call.phase = .lock ty msg)
      (hlist : call.list = some l) (hfree : w.listLocked call.set l = false) :
      WorldMove w (.poll c)
        (w.setSubCall c { call with phase := .sending (w.lists call.set l) ty msg [] })
  | collect {c : Nat} {call : SubCall N} {subs : List (Subscriber N)} {ty : N.Ty} {msg : N.Val ty}
      {results : List (Nat × Option (Except ActixSendError Unit))}
      (hc : w.subCalls[c]? = some call) (hphase : call.phase = .sending subs ty msg results)
      (hall : results.length = subs.length) :
      WorldMove w (.poll c)
        (w.setSubCall c { call with phase := .sent (results.filterMap Prod.snd) })
  | entry {c k : Nat} {call : SubCall N} {subs : List (Subscriber N)} {ty : N.Ty} {msg : N.Val ty}
      {results : List (Nat × Option (Except ActixSendError Unit))} {sub : Subscriber N}
      (hc : w.subCalls[c]? = some call) (hphase : call.phase = .sending subs ty msg results)
      (hk : subs[k]? = some sub) (hnew : (results.any fun res => res.1 == k) = false) :
      WorldMove w (.entry c k) ((w.deliver sub ty msg).1.setSubCall c { call with
        phase := .sending subs ty msg (results ++ [(k, (w.deliver sub ty msg).2)]) })
  | abandon {c : Nat} {call : SubCall N} (hc : w.subCalls[c]? = some call)
      (hpending : call.phase.pending = true) :
      WorldMove w (.abandon c) (w.setSubCall c { call with phase := .abandoned })

theorem WorldMove.of_setStep {w v : World N} {i : Nat} {act : Act (N.actor i)}
    (h : w.setStep i act = some v) : WorldMove w (.set i act) v := by
  unfold World.setStep at h
  split at h
  · split at h
    · cases h
    · rename_i hfree
      obtain ⟨s, hs, rfl⟩ := Option.map_eq_some_iff.mp h
      refine .set hs fun a hact => ?_
      cases hact
      exact Bool.eq_false_iff.mpr hfree
  · rename_i hact
    obtain ⟨s, hs, rfl⟩ := Option.map_eq_some_iff.mp h
    exact .set hs fun a heq => absurd heq (hact a)

theorem WorldMove.of_step {w v : World N} {act : WorldAct N} (h : w.step act = some v) :
    WorldMove w act v := by
  cases act with
  | set i act => exact .of_setStep h
  | subscribeWith i a j b ty =>
    simp only [World.step, World.subscribeWith] at h
    split at h
    · split at h
      · rename_i hlive
        cases h
        rw [Bool.and_eq_true] at hlive
        exact .subscribeWith ‹_› hlive.1 ‹_› hlive.2
      · cases h
    · cases h
  | sendSubscribe i a ty msg =>
    simp only [World.step, World.sendSubscribe] at h
    split at h
    · split at h
      · cases h
        exact .sendSubscribe ‹_› ‹_›
      · cases h
    · cases h
  | poll c =>
    simp only [World.step, World.pollSub] at h
    split at h
    · split at h
      · split at h
        · cases h
        · rename_i hfree
          cases h
          exact .push ‹_› ‹_› ‹_› (Bool.eq_false_iff.mpr hfree)
      · split at h
        · cases h
        · rename_i hfree
          cases h
          exact .lock ‹_› ‹_› ‹_› (Bool.eq_false_iff.mpr hfree)
      · split at h
        · cases h
          exact .collect ‹_› ‹_› ‹_›
        · cases h
      · cases h
    · cases h
  | entry c k =>
    simp only [World.step, World.pollEntry] at h
    split at h
    · split at h
      · split at h
        · split at h
          · cases h
          · rename_i hnew
            cases h
            exact .entry ‹_› ‹_› ‹_› (Bool.eq_false_iff.mpr hnew)
        · cases h
      · cases h
    · cases h
  | abandon c =>
    simp only [World.step, World.abandonSub] at h
    split at h
    · split at h
      · cases h
        exact .abandon ‹_› ‹_›
      · cases h
    · cases h

end ActixSend
