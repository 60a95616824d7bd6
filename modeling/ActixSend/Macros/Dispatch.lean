import Mathlib.Data.List.Nodup
import ActixSend.Macros.Eval
import ActixSend.Macros.Expand
import ActixSend.Transition.Lookup

/-! # The two macros dispatch alike

For messages of distinct types with one handler each, both macros write the same
items up to their order, and these run the user's body for the message.
-/

namespace ActixSend.Macros

open Transition
set_option autoImplicit false

variable {U : User}

/-- A handler of the user's. The compiler has checked the body: it names the
message by the parameter, if at all, and returns what the handler says. -/
structure UserHandler (U : User) where
  message : Ident
  param : ArgPat
  result : Ty
  isBlocking : Bool
  block : Block U
  named : ∀ x, block.var = some x → param = .ident x
  typed : ∀ msg s await v, U.tyOf msg = .path (typePathFromIdents [message]) →
    (block.run msg s await).2 = some v → U.tyOf v = result

namespace UserHandler

def path (h : UserHandler U) : Path := typePathFromIdents [h.message]

def messageParam (h : UserHandler U) : MessageParam := ⟨h.message, h.result, h.isBlocking⟩

/-- What the caller of the message gets when the body yields `r`; `none` is a panic. -/
def answer (h : UserHandler U) (rt : Runtime) (r : Option U.Val) :
    Option (Except ActixSendError U.Val) :=
  if h.isBlocking then spawnBlocking rt r else r.map .ok

end UserHandler

/-- The `handle` method of a `Handler` implementation in a module. -/
structure Method.IsHandle (method : Method U) (h : UserHandler U) : Prop where
  inputs : method.inputs = [.receiver, .typed h.param (.path h.path)]
  block : method.block = h.block

/-- The handler as a method for `handler_v2`, which takes one that is not
`async` for a blocking handler. -/
structure Method.IsHandleV2 (method : Method U) (h : UserHandler U) : Prop
    extends method.IsHandle h where
  output : method.output.getD .unit = h.result
  isAsync : method.isAsync = !h.isBlocking

/-- The items dispatch the messages of `h` to its body, and `unreachable!()` is
never reached on the way back. -/
def Dispatches (x : Expansion U) (rt : Runtime) (h : UserHandler U) : Prop :=
  ∀ msg, U.tyOf msg = .path h.path → ∃ e, x.runFrom h.path msg = .ok e ∧ ∀ s await,
    (x.runHandle rt e s await).1 = (h.block.run msg s await).1 ∧
    match h.answer rt (h.block.run msg s await).2 with
    | some res => ∃ o, (x.runHandle rt e s await).2 = .ok o ∧ x.runMap h.path o = .ok res
    | none => (x.runHandle rt e s await).2 = .error .panicked

structure SameDispatch (x y : Expansion U) : Prop where
  runFrom : ∀ ty msg, x.runFrom ty msg = y.runFrom ty msg
  runHandle : ∀ rt msg s await, x.runHandle rt msg s await = y.runHandle rt msg s await
  runMap : ∀ ty result, x.runMap ty result = y.runMap ty result

namespace UserHandler
variable (actor : Ident) (h : UserHandler U)

def messageVariant : Variant := ⟨h.message, .path h.path⟩

def resultTy : Ty := if h.isBlocking then .result h.result else h.result

def resultVariant : Variant := ⟨h.message, h.resultTy⟩

def messagePath : VariantPath := ⟨actor ++ "Message", h.message⟩

def resultPath : VariantPath := ⟨actor ++ "Result", h.message⟩

def fromImpl : FromImpl := ⟨h.path, actor ++ "Message", h.messagePath actor⟩

def mapImpl : MapImpl where
  message := h.path
  enum := actor ++ "Result"
  output := h.result
  arms := [.variant (h.resultPath actor) (if h.isBlocking then .result else .ok), .unreachable]

def run : Run U := if h.isBlocking then .blocking h.block else .async h.block

def arm : HandleArm U := ⟨h.messagePath actor, h.param.argIdent, h.run, h.resultPath actor⟩

end UserHandler

/-- What either macro writes for the handlers, in their order. -/
def expansion (actor : Ident) (hs : List (UserHandler U)) : Expansion U where
  messageEnum := ⟨actor ++ "Message", hs.map UserHandler.messageVariant⟩
  resultEnum := ⟨actor ++ "Result", hs.map UserHandler.resultVariant⟩
  froms := hs.map (UserHandler.fromImpl actor)
  maps := hs.map (UserHandler.mapImpl actor)
  arms := hs.map (UserHandler.arm actor)

section Lookup
variable {β κ : Type} [DecidableEq κ] {hs hs' : List (UserHandler U)} {f : UserHandler U → β}

theorem eq_of_message (hnodup : (hs.map UserHandler.message).Nodup) {h h' : UserHandler U}
    (hh : h ∈ hs) (hh' : h' ∈ hs) (hsame : h'.message = h.message) : h' = h :=
  List.inj_on_of_nodup_map hnodup hh' hh hsame

theorem find?_item (key : β → κ) (keyOf : Ident → κ) (hkeyOf : keyOf.Injective)
    (hkey : ∀ h, key (f h) = keyOf h.message) (hnodup : (hs.map UserHandler.message).Nodup)
    {h : UserHandler U} (hh : h ∈ hs) :
    (hs.map f).find? (fun item => key item == keyOf h.message) = some (f h) := by
  refine find?_of_unique (List.mem_map_of_mem hh) (beq_iff_eq.mpr (hkey h)) fun item hitem hk => ?_
  obtain ⟨h', hh', rfl⟩ := List.mem_map.mp hitem
  rw [beq_iff_eq, hkey] at hk
  rw [eq_of_message hnodup hh hh' (hkeyOf hk)]

theorem find?_item_perm (key : β → κ) (keyOf : Ident → κ) (hkeyOf : keyOf.Injective)
    (hkey : ∀ h, key (f h) = keyOf h.message) (hnodup : (hs.map UserHandler.message).Nodup)
    (hperm : hs.Perm hs') (k : κ) :
    (hs.map f).find? (fun item => key item == k) = (hs'.map f).find? fun item => key item == k := by
  refine find?_perm (hperm.map f) fun x hx y hy hxk hyk => ?_
  obtain ⟨h, hh, rfl⟩ := List.mem_map.mp hx
  obtain ⟨h', hh', rfl⟩ := List.mem_map.mp hy
  rw [beq_iff_eq, hkey] at hxk hyk
  rw [eq_of_message hnodup hh' hh (hkeyOf (hxk.trans hyk.symm))]

theorem path_injective :
    Function.Injective fun message : Ident => typePathFromIdents [message] := by
  intro message message' hsame
  simpa [typePathFromIdents] using hsame

theorem variantPath_injective (enum : Ident) : Function.Injective (VariantPath.mk enum) :=
  fun _ _ hsame => (VariantPath.mk.inj hsame).2

end Lookup

section Expansion
variable {actor : Ident} {hs hs' : List (UserHandler U)} {h : UserHandler U}

theorem find?_messageVariant (hnodup : (hs.map UserHandler.message).Nodup) (hh : h ∈ hs) :
    (expansion actor hs).messageEnum.variants.find? (fun variant => variant.ident == h.message) =
      some h.messageVariant :=
  find?_item Variant.ident id Function.injective_id (fun _ => rfl) hnodup hh

theorem find?_resultVariant (hnodup : (hs.map UserHandler.message).Nodup) (hh : h ∈ hs) :
    (expansion actor hs).resultEnum.variants.find? (fun variant => variant.ident == h.message) =
      some h.resultVariant :=
  find?_item Variant.ident id Function.injective_id (fun _ => rfl) hnodup hh

theorem messageEnum_accepts (hnodup : (hs.map UserHandler.message).Nodup) (hh : h ∈ hs)
    (hasTy : Ty → Bool) :
    (expansion actor hs).messageEnum.accepts (h.messagePath actor) hasTy =
      hasTy (.path h.path) := by
  simp only [ItemEnum.accepts, UserHandler.messagePath, find?_messageVariant hnodup hh]
  simp [expansion, UserHandler.messageVariant]

theorem resultEnum_accepts (hnodup : (hs.map UserHandler.message).Nodup) (hh : h ∈ hs)
    (hasTy : Ty → Bool) :
    (expansion actor hs).resultEnum.accepts (h.resultPath actor) hasTy = hasTy h.resultTy := by
  simp only [ItemEnum.accepts, UserHandler.resultPath, find?_resultVariant hnodup hh]
  simp [expansion, UserHandler.resultVariant]

theorem find?_from (hnodup : (hs.map UserHandler.message).Nodup) (hh : h ∈ hs) :
    (expansion actor hs).froms.find? (fun imp => imp.source == h.path) = some (h.fromImpl actor) :=
  find?_item FromImpl.source _ path_injective (fun _ => rfl) hnodup hh

theorem find?_map (hnodup : (hs.map UserHandler.message).Nodup) (hh : h ∈ hs) :
    (expansion actor hs).maps.find? (fun imp => imp.message == h.path) = some (h.mapImpl actor) :=
  find?_item MapImpl.message _ path_injective (fun _ => rfl) hnodup hh

theorem find?_arm (hnodup : (hs.map UserHandler.message).Nodup) (hh : h ∈ hs) :
    (expansion actor hs).arms.find? (fun arm => arm.path == h.messagePath actor) =
      some (h.arm actor) :=
  find?_item HandleArm.path _ (variantPath_injective _) (fun _ => rfl) hnodup hh

theorem runFrom_expansion (hnodup : (hs.map UserHandler.message).Nodup) (hh : h ∈ hs)
    {msg : U.Val} (hmsg : U.tyOf msg = .path h.path) :
    (expansion actor hs).runFrom h.path msg = .ok ⟨h.messagePath actor, msg⟩ := by
  simp only [Expansion.runFrom, find?_from hnodup hh, UserHandler.fromImpl,
    messageEnum_accepts hnodup hh, hmsg]
  simp [expansion]

theorem names_run (h : UserHandler U) : h.run.block.names h.param.argIdent = true := by
  have hblock : h.run.block = h.block := by
    unfold UserHandler.run
    split <;> rfl
  rw [hblock]
  cases hvar : h.block.var with
  | none => simp [Block.names, hvar]
  | some x => simp [Block.names, hvar, h.named x hvar, ArgPat.argIdent]

theorem runHandle_some (hnodup : (hs.map UserHandler.message).Nodup) (hh : h ∈ hs) {rt : Runtime}
    {msg : U.Val} {s s' : U.State} {await : U.Await} {v : Value U}
    (hrun : h.run.await rt msg s await = (s', some v)) (hty : v.hasTy h.resultTy = true) :
    (expansion actor hs).runHandle rt ⟨h.messagePath actor, msg⟩ s await =
      (s', .ok ⟨h.resultPath actor, v⟩) := by
  simp only [Expansion.runHandle, find?_arm hnodup hh, UserHandler.arm, names_run, if_true, hrun,
    resultEnum_accepts hnodup hh, hty]

theorem runHandle_none (hnodup : (hs.map UserHandler.message).Nodup) (hh : h ∈ hs) {rt : Runtime}
    {msg : U.Val} {s s' : U.State} {await : U.Await}
    (hrun : h.run.await rt msg s await = (s', none)) :
    (expansion actor hs).runHandle rt ⟨h.messagePath actor, msg⟩ s await =
      (s', .error .panicked) := by
  simp only [Expansion.runHandle, find?_arm hnodup hh, UserHandler.arm, names_run, if_true, hrun]

theorem runMap_async (hnodup : (hs.map UserHandler.message).Nodup) (hh : h ∈ hs)
    (hasync : h.isBlocking = false) {v : U.Val} (hty : U.tyOf v = h.result) :
    (expansion actor hs).runMap h.path ⟨h.resultPath actor, .plain v⟩ = .ok (.ok v) := by
  simp only [Expansion.runMap, find?_map hnodup hh, UserHandler.mapImpl, hasync]
  simp [MapArm.matches, expansion, hty]

theorem runMap_blocking (hnodup : (hs.map UserHandler.message).Nodup) (hh : h ∈ hs)
    (hblocking : h.isBlocking = true) {res : Except ActixSendError U.Val}
    (hty : (Value.result res : Value U).hasTy (.result h.result) = true) :
    (expansion actor hs).runMap h.path ⟨h.resultPath actor, .result res⟩ = .ok res := by
  simp only [Expansion.runMap, find?_map hnodup hh, UserHandler.mapImpl, hblocking]
  simp [MapArm.matches, expansion, hty]

theorem hasTy_of_spawnBlocking {rt : Runtime} {joined : Option U.Val} {ty : Ty}
    {res : Except ActixSendError U.Val} (hres : spawnBlocking rt joined = some res)
    (hty : ∀ v, joined = some v → U.tyOf v = ty) :
    (Value.result res : Value U).hasTy (.result ty) = true := by
  cases res with
  | error e => rfl
  | ok v =>
    have hjoined : joined = some v := by
      cases rt <;> cases joined <;> simp_all [spawnBlocking]
    simp [Value.hasTy, hty v hjoined]

theorem await_async (hasync : h.isBlocking = false) (rt : Runtime) (msg : U.Val) (s : U.State)
    (await : U.Await) : h.run.await rt msg s await =
      ((h.block.run msg s await).1, (h.block.run msg s await).2.map .plain) := by
  simp [UserHandler.run, hasync, Run.await]

theorem await_blocking (hblocking : h.isBlocking = true) (rt : Runtime) (msg : U.Val)
    (s : U.State) (await : U.Await) : h.run.await rt msg s await =
      ((h.block.run msg s await).1,
        (spawnBlocking rt (h.block.run msg s await).2).map .result) := by
  simp [UserHandler.run, hblocking, Run.await]

theorem expansion_dispatches (hnodup : (hs.map UserHandler.message).Nodup) (hh : h ∈ hs)
    (rt : Runtime) : Dispatches (expansion actor hs) rt h := by
  intro msg hmsg
  refine ⟨_, runFrom_expansion hnodup hh hmsg, fun s await => ?_⟩
  have htyped := fun v => h.typed msg s await v hmsg
  cases hblocking : h.isBlocking with
  | false =>
    have hrun := await_async hblocking rt msg s await
    have hanswer : h.answer rt (h.block.run msg s await).2 =
        (h.block.run msg s await).2.map .ok := by
      simp [UserHandler.answer, hblocking]
    have hresultTy : h.resultTy = h.result := by simp [UserHandler.resultTy, hblocking]
    rw [hanswer]
    cases hr : (h.block.run msg s await).2 with
    | none =>
      rw [hr, Option.map_none] at hrun
      rw [runHandle_none hnodup hh hrun]
      exact ⟨rfl, rfl⟩
    | some v =>
      have hty := htyped v hr
      rw [hr, Option.map_some] at hrun
      rw [runHandle_some hnodup hh hrun (by simp [hresultTy, Value.hasTy, hty])]
      exact ⟨rfl, _, rfl, runMap_async hnodup hh hblocking hty⟩
  | true =>
    have hrun := await_blocking hblocking rt msg s await
    have hanswer : h.answer rt (h.block.run msg s await).2 =
        spawnBlocking rt (h.block.run msg s await).2 := by
      simp [UserHandler.answer, hblocking]
    have hresultTy : h.resultTy = .result h.result := by simp [UserHandler.resultTy, hblocking]
    rw [hanswer]
    cases hres : spawnBlocking rt (h.block.run msg s await).2 with
    | none =>
      rw [hres, Option.map_none] at hrun
      rw [runHandle_none hnodup hh hrun]
      exact ⟨rfl, rfl⟩
    | some res =>
      have hty := hasTy_of_spawnBlocking hres htyped
      rw [hres, Option.map_some] at hrun
      rw [runHandle_some hnodup hh hrun (by rwa [hresultTy])]
      exact ⟨rfl, _, rfl, runMap_blocking hnodup hh hblocking hty⟩

theorem accepts_perm (enum : Ident) {f : UserHandler U → Variant}
    (hf : ∀ h, (f h).ident = h.message) (hnodup : (hs.map UserHandler.message).Nodup)
    (hperm : hs.Perm hs') (path : VariantPath) (hasTy : Ty → Bool) :
    (ItemEnum.mk enum (hs.map f)).accepts path hasTy =
      (ItemEnum.mk enum (hs'.map f)).accepts path hasTy := by
  have hfind := find?_item_perm Variant.ident id Function.injective_id hf hnodup hperm path.variant
  simp only [ItemEnum.accepts, hfind]

theorem expansion_same (hnodup : (hs.map UserHandler.message).Nodup) (hperm : hs.Perm hs') :
    SameDispatch (expansion actor hs) (expansion actor hs') := by
  constructor
  · intro ty msg
    have hfind : (expansion actor hs).froms.find? (fun imp => imp.source == ty) =
        (expansion actor hs').froms.find? fun imp => imp.source == ty :=
      find?_item_perm FromImpl.source _ path_injective (fun _ => rfl) hnodup hperm ty
    have haccepts : (expansion actor hs).messageEnum.accepts =
        (expansion actor hs').messageEnum.accepts :=
      funext fun path => funext fun hasTy =>
        accepts_perm _ (fun _ => rfl) hnodup hperm path hasTy
    rw [Expansion.runFrom, hfind, haccepts]
    rfl
  · intro rt msg s await
    have hfind : (expansion actor hs).arms.find? (fun arm => arm.path == msg.path) =
        (expansion actor hs').arms.find? fun arm => arm.path == msg.path :=
      find?_item_perm HandleArm.path _ (variantPath_injective _) (fun _ => rfl) hnodup hperm
        msg.path
    have haccepts : (expansion actor hs).resultEnum.accepts =
        (expansion actor hs').resultEnum.accepts :=
      funext fun path => funext fun hasTy =>
        accepts_perm _ (fun _ => rfl) hnodup hperm path hasTy
    rw [Expansion.runHandle, hfind, haccepts]
    rfl
  · intro ty result
    have hfind : (expansion actor hs).maps.find? (fun imp => imp.message == ty) =
        (expansion actor hs').maps.find? fun imp => imp.message == ty :=
      find?_item_perm MapImpl.message _ path_injective (fun _ => rfl) hnodup hperm ty
    rw [Expansion.runMap, hfind]
    rfl

end Expansion

end ActixSend.Macros
