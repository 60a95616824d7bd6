import ActixSend.Primitive

/-! # Addresses

`Clone`, `Drop` and `downgrade` of `Address`, `WeakAddress::upgrade`, and
`ActorState::shutdown`, which only `Drop` calls. An operation that touches two
shared objects takes two actions, with any other action in between. The clones
inside `Address::clone` need no action of their own: the borrowed address keeps
all it clones alive.
-/

namespace ActixSend

variable {A : Actor}

/-- What a holder of addresses does next. `drop` is `Drop::drop` up to its test
and `release` the drop of the fields after it. -/
inductive AddressAct
  | clone (a : Nat)
  | drop (a : Nat)
  | shutdown (a : Nat)
  | release (a : Nat)
  | downgrade (a : Nat)
  | upgradeSender (w : Nat)
  | upgradeCount (u : Nat)
  | upgradeGroup (u : Nat)
  deriving DecidableEq, Repr

namespace State

def cloneAddress (s : State A) (a : Nat) : Option (State A) :=
  match s.addresses[a]? with
  | some addr =>
    if addr.isLive then
      some { s with strongCount := s.strongCount + 1, addresses := s.addresses ++ [addr] }
    else none
  | none => none

/-- No request that borrows the address is in flight. -/
def unborrowed (s : State A) (a : Nat) : Bool :=
  s.calls.all fun call => !(call.address == some a && call.pending)

/-- `Drop for Address` up to its test: `fetch_sub` answers the value before. -/
def dropAddress (s : State A) (a : Nat) : Option (State A) :=
  match s.addresses[a]? with
  | some addr =>
    if addr.isLive && s.unborrowed a then
      let phase := if s.strongCount == 0 then .shutdown .marker else .fields
      some ({ s with strongCount := s.strongCount - 1 }.setAddress a { addr with phase := phase })
    else none
  | none => none

def shutdownStep (s : State A) (a : Nat) (addr : Address) : Shutdown → Option (State A)
  | .marker =>
    some ({ s with active := s.active ||| marker }.setAddress a
      { addr with phase := .shutdown .lock })
  | .lock =>
    if s.handlersLocked then none
    else some ({ s with handlersLocked := true }.setAddress a
      { addr with phase := .shutdown (.cancel s.handlers) })
  | .cancel (h :: rest) =>
    some ((s.cancelHandler h).setAddress a { addr with phase := .shutdown (.cancel rest) })
  | .cancel [] =>
    some ({ s with handlersLocked := false }.setAddress a { addr with phase := .fields })

/-- The next access of `ActorState::shutdown`, which `Drop::drop` is running. -/
def shutdown (s : State A) (a : Nat) : Option (State A) :=
  match s.addresses[a]? with
  | some addr =>
    match addr.phase with
    | .shutdown pos => s.shutdownStep a addr pos
    | _ => none
  | none => none

def releaseAddress (s : State A) (a : Nat) : Option (State A) :=
  match s.addresses[a]? with
  | some addr =>
    if addr.phase == .fields then some (s.setAddress a { addr with phase := .dropped }) else none
  | none => none

def downgrade (s : State A) (a : Nat) : Option (State A) :=
  match s.addresses[a]? with
  | some addr => if addr.isLive then some { s with weaks := s.weaks ++ [⟨addr.txSubs⟩] } else none
  | none => none

/-- `WeakAddress::upgrade` whose `self.tx.upgrade()` is `Some`; where it is
`None` the call returns `None` and leaves nothing behind. -/
def upgradeSender (s : State A) (w : Nat) : Option (State A) :=
  match s.weaks[w]? with
  | some weak =>
    if s.sharedSender then some { s with upgrades := s.upgrades ++ [⟨weak, .sender⟩] } else none
  | none => none

def upgradeCount (s : State A) (u : Nat) : Option (State A) :=
  match s.upgrades[u]? with
  | some up =>
    if up.phase == .sender then
      some { s with
        strongCount := s.strongCount + 1
        upgrades := s.upgrades.set u { up with phase := .counted } }
    else none
  | none => none

/-- The broadcast group is alive: some address still holds it. -/
def groupAlive (s : State A) (group : List Nat) : Bool :=
  s.addresses.any fun a => a.holdsFields && a.txSubs == some group

/-- The rest of `WeakAddress::upgrade`: the group's upgrade with its `expect`,
and the new address without subscribers. -/
def upgradeGroup (s : State A) (u : Nat) : Option (State A) :=
  match s.upgrades[u]? with
  | some up =>
    if up.phase == .counted then
      if up.weak.txSubs.all fun group => s.groupAlive group then
        some { s with
          upgrades := s.upgrades.set u { up with phase := .returned }
          addresses := s.addresses ++ [⟨up.weak.txSubs, none, .live⟩] }
      else some { s with upgrades := s.upgrades.set u { up with phase := .panicked } }
    else none
  | none => none

def addressStep (s : State A) : AddressAct → Option (State A)
  | .clone a => s.cloneAddress a
  | .drop a => s.dropAddress a
  | .shutdown a => s.shutdown a
  | .release a => s.releaseAddress a
  | .downgrade a => s.downgrade a
  | .upgradeSender w => s.upgradeSender w
  | .upgradeCount u => s.upgradeCount u
  | .upgradeGroup u => s.upgradeGroup u

end State

end ActixSend
