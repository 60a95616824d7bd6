import ActixSend.Message

/-! # What the attribute macros read and write

The items `actor_mod` and `handler_v2` take apart and the ones they build: the
two enums, the `From` and `MapResult` implementations and the arms of `handle`.
A block of the user's is kept as what it does.
-/

namespace ActixSend.Macros

set_option autoImplicit false

abbrev Ident := String

structure PathSegment where
  ident : Ident
  hasArguments : Bool
  deriving DecidableEq

structure Path where
  leadingColon : Bool
  segments : List PathSegment
  deriving DecidableEq

def Path.getIdent (path : Path) : Option Ident :=
  match path.leadingColon, path.segments with
  | false, [⟨ident, false⟩] => some ident
  | _, _ => none

def typePathFromIdents (idents : List Ident) : Path :=
  ⟨false, idents.map fun ident => ⟨ident, false⟩⟩

/-- A type as it is written; `result` is `Result<T, ActixSendError>`. -/
inductive Ty
  | path (path : Path)
  | unit
  | result (ty : Ty)
  | other (tokens : String)
  deriving DecidableEq

/-- What the user's items are about: the actor, the values of all types, and
what the awaits inside a block bring in. -/
structure User where
  State : Type
  Val : Type
  Await : Type
  tyOf : Val → Ty

section Items
variable (U : User)

/-- The statements of a `handle` method. They may name the message, by one
variable; a body that panics yields no value. -/
structure Block where
  var : Option Ident
  exec : U.State → Option U.Val → U.Await → U.State × Option U.Val

inductive ArgPat
  | ident (ident : Ident)
  | other

inductive FnArg
  | receiver
  | typed (pat : ArgPat) (ty : Ty)

structure Method where
  inputs : List FnArg
  output : Option Ty
  isAsync : Bool
  block : Block U

/-- One element of `message_params`: a type with a `message` attribute. -/
structure MessageParam where
  ident : Ident
  resultType : Ty
  isBlocking : Bool

structure Variant where
  ident : Ident
  ty : Ty
  deriving DecidableEq

structure ItemEnum where
  ident : Ident
  variants : List Variant

structure VariantPath where
  enum : Ident
  variant : Ident
  deriving DecidableEq

/-- `impl From<source> for enum { fn from(msg: source) -> enum { expr(msg) } }`. -/
structure FromImpl where
  source : Path
  enum : Ident
  expr : VariantPath

inductive MapBody
  | ok
  | result

/-- `path(result) => body` or `_ => unreachable!()`. -/
inductive MapArm
  | variant (path : VariantPath) (body : MapBody)
  | unreachable

/-- `impl MapResult<enum> for message`. -/
structure MapImpl where
  message : Path
  enum : Ident
  output : Ty
  arms : List MapArm

/-- The right side of `let result = ..`: `async move { .. }`, or
`actix_send_blocking(move || { .. })`. -/
inductive Run
  | async (block : Block U)
  | blocking (block : Block U)

/-- `path(var) => { let result = run; ret(result.await) }`. -/
structure HandleArm where
  path : VariantPath
  var : Ident
  run : Run U
  ret : VariantPath

/-- All that a macro writes besides the user's own items. -/
structure Expansion where
  messageEnum : ItemEnum
  resultEnum : ItemEnum
  froms : List FromImpl
  maps : List MapImpl
  arms : List (HandleArm U)

end Items

end ActixSend.Macros
