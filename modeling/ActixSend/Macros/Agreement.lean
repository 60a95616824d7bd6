import ActixSend.Macros.Dispatch
import ActixSend.Transition.Loop

/-! # What the two macros write

Either macro run on the user's handlers, in the form it reads them in, yields
the items of `expansion`, each in an order of its own.
-/

namespace ActixSend.Macros

open Transition
set_option autoImplicit false

variable {U : User} {actor : Ident} {hs hs₁ hs₂ : List (UserHandler U)}

def written (actor : Ident) (variants froms maps arms : List (UserHandler U)) : Expansion U where
  messageEnum := ⟨actor ++ "Message", variants.map UserHandler.messageVariant⟩
  resultEnum := ⟨actor ++ "Result", variants.map UserHandler.resultVariant⟩
  froms := froms.map (UserHandler.fromImpl actor)
  maps := maps.map (UserHandler.mapImpl actor)
  arms := arms.map (UserHandler.arm actor)

theorem addMessage_written (done : List (UserHandler U)) (h : UserHandler U) :
    (written actor done done done []).addMessage h.messageParam =
      written actor (done ++ [h]) (done ++ [h]) (done ++ [h]) [] := by
  simp only [written, List.map_append]
  rfl

theorem foldl_addMessage (hs : List (UserHandler U)) :
    (hs.map UserHandler.messageParam).foldl Expansion.addMessage (.new actor) =
      written actor hs hs hs [] := by
  have hbuild : hs.foldl (fun x h => x.addMessage h.messageParam) (written actor [] [] [] []) =
      written actor ([] ++ hs) ([] ++ hs) ([] ++ hs) [] :=
    foldl_build (B := fun done => written actor done done done []) addMessage_written [] hs
  rw [List.foldl_map]
  exact hbuild

/-- What `actor_mod` keeps of a `handle` method. -/
def UserHandler.handleMethod (h : UserHandler U) : Ident × Ident × Block U :=
  (h.param.argIdent, h.message, h.block)

theorem handleMethod_of_isHandle {method : Method U} {h : UserHandler U}
    (hmethod : method.IsHandle h) : handleMethod method = some h.handleMethod := by
  rw [handleMethod, hmethod.inputs, hmethod.block]
  rfl

theorem findSome?_handleMethod {β : Type} (hnodup : (hs.map UserHandler.message).Nodup)
    {h : UserHandler U} (hh : h ∈ hs) (g : Ident × Ident × Block U → β) :
    (hs.map UserHandler.handleMethod).findSome?
      (fun entry => if entry.2.1 == h.message then some (g entry) else none) =
      some (g h.handleMethod) := by
  refine findSome?_of_unique (List.mem_map_of_mem hh) (if_pos (beq_self_eq_true _)) ?_
  intro entry hentry c hc
  obtain ⟨h', hh', rfl⟩ := List.mem_map.mp hentry
  split at hc
  · rename_i hsame
    rw [eq_of_message hnodup hh hh' (beq_iff_eq.mp hsame)] at hc
    exact (Option.some.inj hc).symm
  · cases hc

theorem handleArm_written (hnodup : (hs₁.map UserHandler.message).Nodup) {h : UserHandler U}
    (hh : h ∈ hs₁) : handleArm (written actor hs hs hs []) (hs₁.map UserHandler.handleMethod)
      h.messageParam = some (h.arm actor) := by
  rw [handleArm]
  refine Option.bind_eq_some_iff.mpr
    ⟨h.param.argIdent, findSome?_handleMethod hnodup hh fun entry => entry.1, ?_⟩
  exact Option.bind_eq_some_iff.mpr
    ⟨h.block, findSome?_handleMethod hnodup hh fun entry => entry.2.2, rfl⟩

theorem actorMod_eq {methods : List (Method U)} (hnodup : (hs.map UserHandler.message).Nodup)
    (hmethods : List.Forall₂ Method.IsHandle methods hs₁) (hperm : hs₁.Perm hs) :
    actorMod actor (hs.map UserHandler.messageParam) methods = some (expansion actor hs) := by
  have hhandle : methods.mapM handleMethod = some (hs₁.map UserHandler.handleMethod) :=
    mapM_of_forall₂ (fun _ _ hmethod => handleMethod_of_isHandle hmethod) hmethods
  have hnodup₁ : (hs₁.map UserHandler.message).Nodup := (hperm.map _).nodup_iff.mpr hnodup
  have harms : (hs.map UserHandler.messageParam).mapM
      (handleArm (written actor hs hs hs []) (hs₁.map UserHandler.handleMethod)) =
        some (hs.map (UserHandler.arm actor)) := by
    rw [List.mapM_map]
    exact mapM_of_forall fun h hh => handleArm_written hnodup₁ (hperm.mem_iff.mpr hh)
  rw [actorMod, foldl_addMessage, hhandle, Option.bind_eq_bind, Option.bind_some, harms]
  rfl

/-- What `handler_v2` knows of a method. -/
structure HandleMethodInfo.IsOf (handle : HandleMethodInfo U) (h : UserHandler U) : Prop where
  messageVarIdent : handle.messageVarIdent = h.param.argIdent
  messageTypePath : handle.messageTypePath = h.path
  resultType : handle.resultType = h.result
  methodBlock : handle.methodBlock = h.block
  isAsync : handle.isAsync = !h.isBlocking

theorem new_of_isHandleV2 {method : Method U} {h : UserHandler U} (hmethod : method.IsHandleV2 h) :
    ∃ handle, HandleMethodInfo.new method = some handle ∧ handle.IsOf h := by
  rw [HandleMethodInfo.new, hmethod.inputs]
  exact ⟨_, rfl, rfl, rfl, hmethod.output, hmethod.block, hmethod.isAsync⟩

section Loops
variable {handleInfo : List (HandleMethodInfo U)}

theorem ite_isAsync {α : Type} (h : UserHandler U) (a b : α) :
    (if (!h.isBlocking) = true then a else b) = if h.isBlocking then b else a := by
  cases h.isBlocking <;> rfl

theorem enumVariants_eq (hinfo : List.Forall₂ HandleMethodInfo.IsOf handleInfo hs) :
    (written actor [] [] [] []).enumVariants handleInfo = some (written actor hs [] [] []) := by
  refine foldlM_build (B := fun done => written actor done [] [] []) ?_ hinfo []
  intro done handle h hof
  simp only [hof.messageTypePath, hof.resultType, hof.isAsync, ite_isAsync]
  simp only [written, List.map_append]
  rfl

theorem fromTrait_eq (hinfo : List.Forall₂ HandleMethodInfo.IsOf handleInfo hs) :
    (written actor hs [] [] []).fromTrait handleInfo = some (written actor hs hs [] []) := by
  refine foldlM_build (B := fun done => written actor hs done [] []) ?_ hinfo []
  intro done handle h hof
  simp only [hof.messageTypePath, written, List.map_append]
  rfl

theorem mapResultTrait_eq (hinfo : List.Forall₂ HandleMethodInfo.IsOf handleInfo hs) :
    (written actor hs hs [] []).mapResultTrait handleInfo = some (written actor hs hs hs []) := by
  refine foldlM_build (B := fun done => written actor hs hs done []) ?_ hinfo []
  intro done handle h hof
  simp only [hof.messageTypePath, hof.resultType, hof.isAsync, ite_isAsync]
  simp only [written, List.map_append]
  rfl

theorem handlerTrait_eq (hinfo : List.Forall₂ HandleMethodInfo.IsOf handleInfo hs) :
    (written actor hs hs hs []).handlerTrait handleInfo = some (expansion actor hs) := by
  rw [Expansion.handlerTrait, mapM_of_forall₂ (g := UserHandler.arm actor) ?_ hinfo]
  · rfl
  · intro handle h hof
    simp only [hof.messageTypePath, hof.messageVarIdent, hof.methodBlock, hof.isAsync, ite_isAsync]
    rfl

theorem handlerV2_eq {methods : List (Method U)}
    (hmethods : List.Forall₂ Method.IsHandleV2 methods hs) :
    handlerV2 actor methods = some (expansion actor hs) := by
  obtain ⟨handleInfo, hnew, hinfo⟩ :=
    exists_mapM_of_forall₂ (fun _ _ hmethod => new_of_isHandleV2 hmethod) hmethods
  have hvariants : (Expansion.new actor).enumVariants handleInfo = _ := enumVariants_eq hinfo
  rw [handlerV2, hnew, Option.bind_eq_bind, Option.bind_some, hvariants, Option.bind_eq_bind,
    Option.bind_some, fromTrait_eq hinfo, Option.bind_some, mapResultTrait_eq hinfo,
    Option.bind_some, handlerTrait_eq hinfo]

end Loops

theorem answer_cases {h : UserHandler U} {rt : Runtime} {r : Option U.Val}
    {res : Except ActixSendError U.Val} (hres : h.answer rt r = some res) :
    (∃ v, r = some v ∧ res = .ok v) ∨
      (h.isBlocking = true ∧ r = none ∧ res = .error .blocking) := by
  rw [UserHandler.answer] at hres
  split at hres
  · rename_i hblocking
    cases r with
    | some v => exact .inl ⟨v, rfl, by cases rt <;> simp_all [spawnBlocking]⟩
    | none => exact .inr ⟨hblocking, rfl, by cases rt <;> simp_all [spawnBlocking]⟩
  · obtain ⟨v, hv, rfl⟩ := Option.map_eq_some_iff.mp hres
    exact .inl ⟨v, hv, rfl⟩

/-- The messages stand in one order, the handlers of either macro in another. -/
theorem macros_dispatch_alike (actor : Ident) (hs hs₁ hs₂ : List (UserHandler U))
    (methods methods' : List (Method U)) (hnodup : (hs.map UserHandler.message).Nodup)
    (hperm₁ : hs₁.Perm hs) (hperm₂ : hs₂.Perm hs)
    (hmethods : List.Forall₂ Method.IsHandle methods hs₁)
    (hmethods' : List.Forall₂ Method.IsHandleV2 methods' hs₂) :
    ∃ x y, actorMod actor (hs.map UserHandler.messageParam) methods = some x ∧
      handlerV2 actor methods' = some y ∧ SameDispatch x y ∧
      ∀ h ∈ hs, (∀ rt, Dispatches x rt h ∧ Dispatches y rt h) ∧
        ∀ rt r res, h.answer rt r = some res → (∃ v, r = some v ∧ res = .ok v) ∨
          (h.isBlocking = true ∧ r = none ∧ res = .error .blocking) := by
  have hnodup₂ : (hs₂.map UserHandler.message).Nodup := (hperm₂.map _).nodup_iff.mpr hnodup
  refine ⟨_, _, actorMod_eq hnodup hmethods hperm₁, handlerV2_eq hmethods',
    expansion_same hnodup hperm₂.symm, fun h hh => ⟨fun rt => ⟨?_, ?_⟩, fun rt r res => ?_⟩⟩
  · exact expansion_dispatches hnodup hh rt
  · exact expansion_dispatches hnodup₂ (hperm₂.mem_iff.mpr hh) rt
  · exact answer_cases

def counterUser : User where
  State := Nat
  Val := Ident × Nat
  Await := Unit
  tyOf v := .path (typePathFromIdents [v.1])

def pingHandler : UserHandler counterUser where
  message := "Ping"
  param := .other
  result := .path (typePathFromIdents ["u8"])
  isBlocking := false
  block := ⟨none, fun (count : Nat) _ _ => (count + 1, some ("u8", count))⟩
  named := nofun
  typed := by
    rintro msg s await v hmsg ⟨⟩
    rfl

def hashHandler : UserHandler counterUser where
  message := "Hash"
  param := .ident "msg"
  result := .path (typePathFromIdents ["u64"])
  isBlocking := true
  block := ⟨some "msg", fun count msg _ =>
    (count, msg.map fun msg : Ident × Nat => ("u64", msg.2))⟩
  named := by
    rintro x ⟨⟩
    rfl
  typed := by
    rintro msg s await v hmsg ⟨⟩
    rfl

def UserHandler.method (h : UserHandler U) : Method U where
  inputs := [.receiver, .typed h.param (.path h.path)]
  output := some h.result
  isAsync := !h.isBlocking
  block := h.block

theorem macros_dispatch_ping_and_hash :
    ∃ x y, actorMod "Counter" ([pingHandler, hashHandler].map UserHandler.messageParam)
        [hashHandler.method, pingHandler.method] = some x ∧
      handlerV2 "Counter" [pingHandler.method, hashHandler.method] = some y ∧ SameDispatch x y ∧
      ∀ h ∈ [pingHandler, hashHandler], (∀ rt, Dispatches x rt h ∧ Dispatches y rt h) ∧
        ∀ rt r res, h.answer rt r = some res → (∃ v, r = some v ∧ res = .ok v) ∨
          (h.isBlocking = true ∧ r = none ∧ res = .error .blocking) :=
  macros_dispatch_alike "Counter" [pingHandler, hashHandler] [hashHandler, pingHandler]
    [pingHandler, hashHandler] _ _ (by decide) (.swap _ _ _) (.refl _)
    (.cons ⟨rfl, rfl⟩ (.cons ⟨rfl, rfl⟩ .nil))
    (.cons ⟨⟨rfl, rfl⟩, rfl, rfl⟩ (.cons ⟨⟨rfl, rfl⟩, rfl, rfl⟩ .nil))

end ActixSend.Macros
