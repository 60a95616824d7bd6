import ActixSend.Message
import ActixSend.Transition.Replies

/-! # Boxed futures and their results

A boxed future forgets the type of its result, so that one channel takes the
futures of all types. The result comes back in a box as well, and whoever
unpacks it names the type again.
-/

namespace ActixSend

open Transition
set_option autoImplicit false

section Containers
variable {Ty : Type} {Val : Ty → Type} {R ty : Ty}

/-- `Box<dyn Any>` around an `Option`, with the type that a downcast compares. -/
structure AnyObjectContainer {Ty : Type} (Val : Ty → Type) where
  ty : Ty
  inner : Option (Val ty)

def AnyObjectContainer.pack (ty : Ty) (r : Val ty) : AnyObjectContainer Val := ⟨ty, some r⟩

variable [DecidableEq Ty]

/-- What `unpack` answers and what it leaves in the container. -/
def AnyObjectContainer.unpack (obj : AnyObjectContainer Val) (ty : Ty) :
    Option (Val ty) × AnyObjectContainer Val :=
  if h : obj.ty = ty then (h ▸ obj.inner, ⟨obj.ty, none⟩) else (none, obj)

theorem unpack_pack_self (r : Val R) :
    (AnyObjectContainer.pack R r).unpack R = (some r, ⟨R, none⟩) := by
  simp [AnyObjectContainer.pack, AnyObjectContainer.unpack]

theorem unpack_pack_other (h : R ≠ ty) (r : Val R) :
    (AnyObjectContainer.pack R r).unpack ty = (none, .pack R r) := by
  simp [AnyObjectContainer.pack, AnyObjectContainer.unpack, h]

theorem unpack_taken (R ty : Ty) :
    (⟨R, none⟩ : AnyObjectContainer Val).unpack ty = (none, ⟨R, none⟩) := by
  by_cases h : R = ty
  · subst h
    simp [AnyObjectContainer.unpack]
  · simp [AnyObjectContainer.unpack, h]

theorem afterCalls_taken (R : Ty) (tys : List Ty) :
    afterCalls AnyObjectContainer.unpack (⟨R, none⟩ : AnyObjectContainer Val) tys = ⟨R, none⟩ := by
  induction tys with
  | nil => rfl
  | cons ty tys ih => rw [afterCalls, unpack_taken, ih]

theorem afterCalls_pack (r : Val R) (tys : List Ty) :
    afterCalls AnyObjectContainer.unpack (.pack R r) tys =
      if R ∈ tys then ⟨R, none⟩ else .pack R r := by
  induction tys with
  | nil => rfl
  | cons ty tys ih =>
    rw [afterCalls]
    by_cases h : R = ty
    · subst h
      rw [unpack_pack_self, afterCalls_taken, if_pos List.mem_cons_self]
    · rw [unpack_pack_other h, ih]
      simp only [List.mem_cons, h, false_or]

/-- What these calls of `unpack` make of a container that `pack` has made. -/
structure UnpackLaws (r : Val R) (tys : List Ty) : Prop where
  answers : (replies AnyObjectContainer.unpack (.pack R r) tys).map Sigma.fst = tys
  other : ∀ (k : Nat) (ty : Ty), tys[k]? = some ty → ty ≠ R →
    (replies AnyObjectContainer.unpack (.pack R r) tys)[k]? = some ⟨ty, none⟩ ∧
    afterCalls AnyObjectContainer.unpack (.pack R r) (tys.take (k + 1)) =
      afterCalls AnyObjectContainer.unpack (.pack R r) (tys.take k)
  inPlace : ∀ k : Nat, R ∉ tys.take k →
    afterCalls AnyObjectContainer.unpack (.pack R r) (tys.take k) = .pack R r
  first : ∀ k : Nat, tys[k]? = some R → R ∉ tys.take k →
    (replies AnyObjectContainer.unpack (.pack R r) tys)[k]? = some ⟨R, some r⟩
  later : ∀ (k : Nat) (ty : Ty), tys[k]? = some ty → R ∈ tys.take k →
    (replies AnyObjectContainer.unpack (.pack R r) tys)[k]? = some ⟨ty, none⟩

theorem unpackLaws (r : Val R) (tys : List Ty) : UnpackLaws r tys := by
  constructor
  · exact map_fst_replies _ tys
  · intro k ty hk hty
    rw [getElem?_replies hk, afterCalls_take_succ hk, afterCalls_pack]
    split
    · rw [unpack_taken]
      exact ⟨rfl, rfl⟩
    · rw [unpack_pack_other (Ne.symm hty)]
      exact ⟨rfl, rfl⟩
  · intro k hnew
    rw [afterCalls_pack, if_neg hnew]
  · intro k hk hnew
    rw [getElem?_replies hk, afterCalls_pack, if_neg hnew, unpack_pack_self]
  · intro k ty hk hold
    rw [getElem?_replies hk, afterCalls_pack, if_pos hold, unpack_taken]

end Containers

/-- The user's closures `FnMut(&mut A) -> Pin<Box<dyn Future<Output = R>>>` for
each type `R`. A call goes as far as the future's result and leaves the actor
and what the closure has captured changed. -/
structure Closures (S Await : Type) where
  Ty : Type
  [decEq : DecidableEq Ty]
  Val : Ty → Type
  Fn : Ty → Type
  call : {R : Ty} → Fn R → S → Await → S × Fn R × Val R

attribute [instance] Closures.decEq

variable {S Await : Type}

structure FutureObject (C : Closures S Await) (R : C.Ty) where
  func : C.Fn R

/-- `Box<dyn FutureTrait<A>>`. -/
structure FutureObjectContainer (C : Closures S Await) where
  {R : C.Ty}
  func : FutureObject C R

section Futures
variable {C : Closures S Await} {R : C.Ty}

def FutureObject.pack (fut : FutureObject C R) : FutureObjectContainer C := ⟨fut⟩

/-- What becomes of the actor and of the closure, and the packed result. -/
def FutureObject.handle (fut : FutureObject C R) (act : S) (await : Await) :
    S × FutureObject C R × AnyObjectContainer C.Val :=
  let (act, func, r) := C.call fut.func act await
  (act, ⟨func⟩, .pack R r)

def FutureObjectContainer.handle (fut : FutureObjectContainer C) (act : S) (await : Await) :
    S × FutureObjectContainer C × AnyObjectContainer C.Val :=
  let (act, func, obj) := fut.func.handle act await
  (act, ⟨func⟩, obj)

end Futures

/-- An actor whose boxed futures are those of `C`. Its outputs are those of its
messages and the results of `run`. -/
def Actor.withClosures (B : Actor) (C : Closures B.State B.Await) : Actor where
  State := B.State
  Message := B.Message
  Result := B.Result
  Kind := B.Kind
  Output := B.Output ⊕ ((R : C.Ty) × C.Val R)
  Future := FutureObjectContainer C
  Object := AnyObjectContainer C.Val
  Return := C.Ty
  Await := B.Await
  kind := B.kind
  handle := B.handle
  map kind r := (B.map kind r).map (Except.map .inl)
  runFuture act fut await := fut.handle act await
  unpack R obj := (obj.unpack R).1.map fun r => .inr ⟨R, r⟩

def Address.run {B : Actor} {C : Closures B.State B.Await} {R : C.Ty} (f : C.Fn R) :
    Request (B.withClosures C) :=
  .run R (FutureObject.pack ⟨f⟩)

end ActixSend
