import ActixSend.Macros.Syntax

/-! # The two macros

`actor_mod` reads the messages off their attributes and the bodies off the
`Handler` implementations of the module; `handler_v2` reads both off the
methods of one implementation. Each builds its items in loops of its own.
-/

namespace ActixSend.Macros

set_option autoImplicit false

variable {U : User}

/-- The name the arm of `handle` binds the message to. -/
def ArgPat.argIdent : ArgPat → Ident
  | .ident x => x
  | .other => "_msg"

def fromTrait (sourceTypePath : Path) (sourceIdent messageEnumIdent : Ident) : FromImpl where
  source := sourceTypePath
  enum := messageEnumIdent
  expr := ⟨messageEnumIdent, sourceIdent⟩

def Expansion.addMessage (x : Expansion U) (param : MessageParam) : Expansion U :=
  let messageTypePath := typePathFromIdents [param.ident]
  let ty := if param.isBlocking then .result param.resultType else param.resultType
  let body := if param.isBlocking then .result else .ok
  { x with
    messageEnum := { x.messageEnum with
      variants := x.messageEnum.variants ++ [⟨param.ident, .path messageTypePath⟩] }
    resultEnum := { x.resultEnum with
      variants := x.resultEnum.variants ++ [⟨param.ident, ty⟩] }
    froms := x.froms ++ [fromTrait messageTypePath param.ident x.messageEnum.ident]
    maps := x.maps ++ [{
      message := messageTypePath
      enum := x.resultEnum.ident
      output := param.resultType
      arms := [.variant ⟨x.resultEnum.ident, param.ident⟩ body, .unreachable] }] }

/-- The second argument of a `handle` method, with its statements. -/
def handleMethod (method : Method U) : Option (Ident × Ident × Block U) :=
  match method.inputs.drop 1 with
  | .typed pat (.path path) :: _ =>
    path.segments.head?.map fun seg => (pat.argIdent, seg.ident, method.block)
  | _ => none

def handleArm (x : Expansion U) (handleMethods : List (Ident × Ident × Block U))
    (param : MessageParam) : Option (HandleArm U) := do
  let ident ← handleMethods.findSome? fun (argIdent, msgIdent, _) =>
    if msgIdent == param.ident then some argIdent else none
  let stmts ← handleMethods.findSome? fun (_, msgIdent, stmts) =>
    if msgIdent == param.ident then some stmts else none
  some {
    path := ⟨x.messageEnum.ident, param.ident⟩
    var := ident
    run := if param.isBlocking then .blocking stmts else .async stmts
    ret := ⟨x.resultEnum.ident, param.ident⟩ }

def Expansion.new (actorIdent : Ident) : Expansion U where
  messageEnum := ⟨actorIdent ++ "Message", []⟩
  resultEnum := ⟨actorIdent ++ "Result", []⟩
  froms := []
  maps := []
  arms := []

/-- `none` where the macro panics. -/
def actorMod (actorIdent : Ident) (messageParams : List MessageParam) (methods : List (Method U)) :
    Option (Expansion U) := do
  let x := messageParams.foldl Expansion.addMessage (.new actorIdent)
  let handleMethods ← methods.mapM handleMethod
  let arms ← messageParams.mapM (handleArm x handleMethods)
  some { x with arms := arms }

structure HandleMethodInfo (U : User) where
  messageVarIdent : Ident
  messageTypePath : Path
  messageReturnType : Option Ty
  methodBlock : Block U
  isAsync : Bool

namespace HandleMethodInfo

def new (method : Method U) : Option (HandleMethodInfo U) := do
  let (messageVarIdent, messageTypePath) ← method.inputs.findSome? fun arg =>
    match arg with
    | .typed pat (.path path) => some (pat.argIdent, path)
    | _ => none
  some {
    messageVarIdent := messageVarIdent
    messageTypePath := messageTypePath
    messageReturnType := method.output
    methodBlock := method.block
    isAsync := method.isAsync }

/-- A method without an arrow returns the empty tuple. -/
def resultType (handle : HandleMethodInfo U) : Ty := handle.messageReturnType.getD .unit

end HandleMethodInfo

namespace Expansion

def enumVariants (x : Expansion U) (handleInfo : List (HandleMethodInfo U)) :
    Option (Expansion U) :=
  handleInfo.foldlM (fun x handle => do
    let messageIdent ← handle.messageTypePath.getIdent
    let ty := if handle.isAsync then handle.resultType else .result handle.resultType
    some { x with
      messageEnum := { x.messageEnum with
        variants := x.messageEnum.variants ++ [⟨messageIdent, .path handle.messageTypePath⟩] }
      resultEnum := { x.resultEnum with
        variants := x.resultEnum.variants ++ [⟨messageIdent, ty⟩] } }) x

def fromTrait (x : Expansion U) (handleInfo : List (HandleMethodInfo U)) : Option (Expansion U) :=
  handleInfo.foldlM (fun x handle => do
    let messageIdent ← handle.messageTypePath.getIdent
    some { x with froms := x.froms ++ [{
      source := handle.messageTypePath
      enum := x.messageEnum.ident
      expr := ⟨x.messageEnum.ident, messageIdent⟩ }] }) x

def mapResultTrait (x : Expansion U) (handleInfo : List (HandleMethodInfo U)) :
    Option (Expansion U) :=
  handleInfo.foldlM (fun x handle => do
    let messageIdent ← handle.messageTypePath.getIdent
    let body := if handle.isAsync then .ok else .result
    some { x with maps := x.maps ++ [{
      message := handle.messageTypePath
      enum := x.resultEnum.ident
      output := handle.resultType
      arms := [.variant ⟨x.resultEnum.ident, messageIdent⟩ body, .unreachable] }] }) x

def handlerTrait (x : Expansion U) (handleInfo : List (HandleMethodInfo U)) :
    Option (Expansion U) := do
  let arms ← handleInfo.mapM fun handle => do
    let messageIdent ← handle.messageTypePath.getIdent
    some {
      path := ⟨x.messageEnum.ident, messageIdent⟩
      var := handle.messageVarIdent
      run := if handle.isAsync then .async handle.methodBlock else .blocking handle.methodBlock
      ret := ⟨x.resultEnum.ident, messageIdent⟩ }
  some { x with arms := arms }

end Expansion

/-- `none` where the macro panics. -/
def handlerV2 (actorIdent : Ident) (methods : List (Method U)) : Option (Expansion U) := do
  let handleInfo ← methods.mapM HandleMethodInfo.new
  let x ← (Expansion.new actorIdent).enumVariants handleInfo
  let x ← x.fromTrait handleInfo
  let x ← x.mapResultTrait handleInfo
  x.handlerTrait handleInfo

end ActixSend.Macros
