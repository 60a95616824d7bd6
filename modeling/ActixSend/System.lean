import ActixSend.Address
import ActixSend.Context
import ActixSend.Request
import ActixSend.Transition.Path

/-! # The actor set as a whole

The tasks on the runtime, and the step function that puts addresses, requests,
tasks and contexts together. A run is any order of actions, each by one party.
-/

namespace ActixSend

open Transition

variable {A : Actor}

namespace State

/-- A poll of the task `t`. `select` polls the finisher before the timer or the
interval loop; a delayed message is sent in the same poll that finishes the
select, an interval loop sends `Run` once it has upgraded its sender. -/
def pollTask (s : State A) (t : Nat) : Option (State A) :=
  match s.tasks[t]? with
  | some (.send msg) => some ((s.sendShared msg).setTask t .finished)
  | some (.delayed cell msg elapsed) =>
    match s.cells[cell]? with
    | some cancel =>
      let (canceled, cancel) := cancel.poll t
      let s := { s with cells := s.cells.set cell cancel }
      if canceled then
        if s.cfg.handleDelayedOnShutdown then
          some ((s.sendShared (.instant msg)).setTask t .finished)
        else some (s.setTask t .finished)
      else if elapsed then some ((s.sendShared (.instant msg)).setTask t .finished)
      else some s
    | none => none
  | some (.interval cell index ticked holding) =>
    if holding then
      some ((s.sendShared (.interval (.run index))).setTask t (.interval cell index false false))
    else
      match s.cells[cell]? with
      | some cancel =>
        let (canceled, cancel) := cancel.poll t
        let s := { s with cells := s.cells.set cell cancel }
        if canceled then some (s.setTask t .finished)
        else if ticked then
          if s.sharedSender then some (s.setTask t (.interval cell index false true))
          else some (s.setTask t .finished)
        else some s
      | none => none
  | _ => none

/-- The runtime's clock passes the deadline or the tick the task waits for. -/
def elapseTask (s : State A) (t : Nat) : Option (State A) :=
  match s.tasks[t]? with
  | some (.delayed cell msg _) => some (s.setTask t (.delayed cell msg true))
  | some (.interval cell index _ holding) => some (s.setTask t (.interval cell index true holding))
  | _ => none

end State

inductive Act (A : Actor)
  | address (act : AddressAct)
  | request (act : RequestAct A)
  | poll (t : Nat)
  | elapse (t : Nat)
  | context (i chan : Nat) (await : A.Await)
  | panic (i : Nat)

def step (s : State A) : Act A → Option (State A)
  | .address act => s.addressStep act
  | .request act => s.requestStep act
  | .poll t => s.pollTask t
  | .elapse t => s.elapseTask t
  | .context i chan await => s.contextStep i chan await
  | .panic i => s.panicStep i

end ActixSend
