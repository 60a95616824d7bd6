import ActixSend.Macros.Syntax

/-! # What the generated items do

`From::from`, `Handler::handle` and `MapResult::map` as their implementations
define them. Values carry their types: an enum takes a payload only as its
declaration has it, and what the compiler would refuse is a fault of its own.
-/

namespace ActixSend.Macros

set_option autoImplicit false

variable {U : User}

inductive Fault
  | rejected
  | unreachable
  | panicked
  deriving DecidableEq

inductive Runtime
  | tokio
  | asyncStd
  | actix
  deriving DecidableEq

/-- `spawn_blocking`, given what its thread is joined with. `tokio` reports a
lost thread, `async-std` goes on with the panic, and for `actix` it panics. -/
def spawnBlocking {α : Type} (rt : Runtime) (joined : Option α) :
    Option (Except ActixSendError α) :=
  match rt with
  | .tokio => some (joined.elim (.error .blocking) .ok)
  | .asyncStd => joined.map .ok
  | .actix => none

inductive Value (U : User)
  | plain (v : U.Val)
  | result (res : Except ActixSendError U.Val)

def Value.hasTy : Value U → Ty → Bool
  | .plain v, ty => U.tyOf v == ty
  | .result (.ok v), ty => ty == .result (U.tyOf v)
  | .result (.error _), .result _ => true
  | .result (.error _), _ => false

structure EnumValue (α : Type) where
  path : VariantPath
  arg : α

def ItemEnum.accepts (enum : ItemEnum) (path : VariantPath) (hasTy : Ty → Bool) : Bool :=
  path.enum == enum.ident &&
    (enum.variants.find? fun variant => variant.ident == path.variant).any fun variant =>
      hasTy variant.ty

def Block.run (block : Block U) (msg : U.Val) (s : U.State) (await : U.Await) :
    U.State × Option U.Val :=
  block.exec s (block.var.map fun _ => msg) await

def Block.names (block : Block U) (var : Ident) : Bool := block.var.all fun x => x == var

def Run.block : Run U → Block U
  | .async block => block
  | .blocking block => block

/-- `result.await`; `none` is a panic. A blocking block that used `self` would
not compile, so that the state it is run on is the state it leaves. -/
def Run.await (rt : Runtime) (run : Run U) (msg : U.Val) (s : U.State) (await : U.Await) :
    U.State × Option (Value U) :=
  match run with
  | .async block => ((block.run msg s await).1, (block.run msg s await).2.map .plain)
  | .blocking block =>
    ((block.run msg s await).1, (spawnBlocking rt (block.run msg s await).2).map .result)

def MapArm.matches (arm : MapArm) (path : VariantPath) : Bool :=
  match arm with
  | .variant path' _ => path' == path
  | .unreachable => true

namespace Expansion

def runFrom (x : Expansion U) (ty : Path) (msg : U.Val) : Except Fault (EnumValue U.Val) :=
  match x.froms.find? fun imp => imp.source == ty with
  | some imp =>
    if imp.enum == x.messageEnum.ident &&
        x.messageEnum.accepts imp.expr (fun ty => U.tyOf msg == ty) then
      .ok ⟨imp.expr, msg⟩
    else .error .rejected
  | none => .error .rejected

def runHandle (x : Expansion U) (rt : Runtime) (msg : EnumValue U.Val) (s : U.State)
    (await : U.Await) : U.State × Except Fault (EnumValue (Value U)) :=
  match x.arms.find? fun arm => arm.path == msg.path with
  | some arm =>
    if arm.run.block.names arm.var then
      match arm.run.await rt msg.arg s await with
      | (s, some v) =>
        if x.resultEnum.accepts arm.ret v.hasTy then (s, .ok ⟨arm.ret, v⟩)
        else (s, .error .rejected)
      | (s, none) => (s, .error .panicked)
    else (s, .error .rejected)
  | none => (s, .error .rejected)

def runMap (x : Expansion U) (ty : Path) (result : EnumValue (Value U)) :
    Except Fault (Except ActixSendError U.Val) :=
  match x.maps.find? fun imp => imp.message == ty with
  | some imp =>
    match imp.arms.find? fun arm => arm.matches result.path, result.arg with
    | some (.variant _ .ok), .plain v =>
      if imp.enum == x.resultEnum.ident && U.tyOf v == imp.output then .ok (.ok v)
      else .error .rejected
    | some (.variant _ .result), .result res =>
      if imp.enum == x.resultEnum.ident && (Value.result res).hasTy (.result imp.output) then
        .ok res
      else .error .rejected
    | some .unreachable, _ => .error .unreachable
    | _, _ => .error .rejected
  | none => .error .rejected

end Expansion

end ActixSend.Macros
