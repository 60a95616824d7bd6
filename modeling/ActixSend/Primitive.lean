import ActixSend.State

/-! # Operations on the shared objects of an actor set

The counter word `active`, the cancel cells, the channels and the oneshots.
Each operation is one access as far as other threads can see it.
-/

namespace ActixSend

open Function

variable {A : Actor}

def modifyActive (active : Nat) (f : Nat → Nat) : Bool × Nat :=
  if active &&& marker ≠ 0 then (false, active) else (true, f active)

def incActive (active : Nat) : Bool × Nat := modifyActive active fun active => active + unit

def decActive (active : Nat) : Bool × Nat := modifyActive active fun active => active - unit

namespace CancelCell

def new : CancelCell := ⟨false, none⟩

def poll (cell : CancelCell) (waker : Nat) : Bool × CancelCell :=
  if cell.flag then (true, cell) else (false, { cell with waker := some waker })

def cancel (cell : CancelCell) : CancelCell × Option Nat :=
  ({ flag := true, waker := none }, cell.waker)

end CancelCell

namespace State

def setAddress (s : State A) (a : Nat) (addr : Address) : State A :=
  { s with addresses := s.addresses.set a addr }

def setContext (s : State A) (i : Nat) (c : Context A) : State A :=
  { s with contexts := s.contexts.set i c }

def setCall (s : State A) (c : Nat) (call : Call A) : State A :=
  { s with calls := s.calls.set c call }

def setTask (s : State A) (t : Nat) (task : Task A) : State A :=
  { s with tasks := s.tasks.set t task }

def enqueue (s : State A) (chan : Nat) (msg : ContextMessage A) : State A :=
  { s with
    queue := update s.queue chan (s.queue chan ++ [⟨s.nextId, msg⟩])
    nextId := s.nextId + 1
    accepted := s.accepted ++ [(chan, ⟨s.nextId, msg⟩)] }

/-- A send that never has to wait, on the unbounded shared channel; the caller
ignores a refusal. -/
def sendShared (s : State A) (msg : ContextMessage A) : State A :=
  if s.receiver 0 then s.enqueue 0 msg else s

def sendReply (s : State A) (tx : Nat) (reply : Reply A) : State A :=
  match s.calls[tx]? with
  | some call =>
    match call.phase with
    | .waiting none => s.setCall tx { call with phase := .waiting (some reply) }
    | _ => s
  | none => s

def sendReplyTo (s : State A) (tx : Option Nat) (reply : Reply A) : State A :=
  match tx with
  | some tx => s.sendReply tx reply
  | none => s

def finish (s : State A) (i : Nat) (c : Context A) (env : Envelope A) (reply : Option (Reply A)) :
    State A :=
  { s.setContext i c with handled := s.handled ++ [⟨i, env, reply⟩] }

/-- `spawn_cancelable`: the task made by `task` around a new cell. -/
def spawnCancelable (s : State A) (task : Nat → Task A) : State A :=
  { s with cells := s.cells ++ [.new], tasks := s.tasks ++ [task s.cells.length] }

def cancelHandler (s : State A) (h : FutureHandler) : State A :=
  let s := { s with cells := s.cells.modify h.cell fun cell => cell.cancel.1 }
  match h.index with
  | some index =>
    if s.sharedSender then { s with tasks := s.tasks ++ [.send (.interval (.remove index))] } else s
  | none => s

end State

end ActixSend
