import Mathlib.Data.List.Basic

/-! # An object and the calls of it

A call has an answer, of a type that depends on the call, and leaves the object
changed.
-/

namespace Transition

set_option autoImplicit false

variable {σ ι : Type} {ρ : ι → Type}

def replies (f : σ → (i : ι) → ρ i × σ) : σ → List ι → List ((i : ι) × ρ i)
  | _, [] => []
  | s, i :: is => ⟨i, (f s i).1⟩ :: replies f (f s i).2 is

def afterCalls (f : σ → (i : ι) → ρ i × σ) : σ → List ι → σ
  | s, [] => s
  | s, i :: is => afterCalls f (f s i).2 is

variable {f : σ → (i : ι) → ρ i × σ}

theorem map_fst_replies (s : σ) (is : List ι) : (replies f s is).map Sigma.fst = is := by
  induction is generalizing s with
  | nil => rfl
  | cons i is ih => rw [replies, List.map_cons, ih]

theorem afterCalls_append (s : σ) (is js : List ι) :
    afterCalls f s (is ++ js) = afterCalls f (afterCalls f s is) js := by
  induction is generalizing s with
  | nil => rfl
  | cons i is ih => exact ih (f s i).2

theorem getElem?_replies {s : σ} {is : List ι} {k : Nat} {i : ι} (h : is[k]? = some i) :
    (replies f s is)[k]? = some ⟨i, (f (afterCalls f s (is.take k)) i).1⟩ := by
  induction is generalizing s k with
  | nil => cases h
  | cons j is ih =>
    cases k with
    | zero =>
      cases h
      rfl
    | succ k => exact ih h

theorem afterCalls_take_succ {s : σ} {is : List ι} {k : Nat} {i : ι} (h : is[k]? = some i) :
    afterCalls f s (is.take (k + 1)) = (f (afterCalls f s (is.take k)) i).2 := by
  rw [List.take_add_one, h, Option.toList_some, afterCalls_append]
  rfl

end Transition
