import Mathlib.Data.List.Nodup
import Mathlib.Data.List.Range
import Mathlib.Logic.Function.Basic

/-! # A store whose keys come from a counter

A key is reserved first and an entry is inserted under it later, perhaps after
other reservations. The log of what happens to the store says which entries
there are, and what every value has become by its modifications.
-/

namespace Transition

open Function
set_option autoImplicit false

variable {V : Type}

inductive SlotEvent (V : Type)
  | reserve (key : Nat) (v : V)
  | insert (key : Nat) (v : V)
  | remove (key : Nat)
  | modify (key : Nat) (f : V → V)

def SlotEvent.reserved : SlotEvent V → Option (Nat × V)
  | .reserve key v => some (key, v)
  | _ => none

def SlotEvent.inserted : SlotEvent V → Option (Nat × V)
  | .insert key v => some (key, v)
  | _ => none

def SlotEvent.removed : SlotEvent V → Option Nat
  | .remove key => some key
  | _ => none

def reservations (es : List (SlotEvent V)) : List (Nat × V) := es.filterMap SlotEvent.reserved

def insertions (es : List (SlotEvent V)) : List (Nat × V) := es.filterMap SlotEvent.inserted

def insertedKeys (es : List (SlotEvent V)) : List Nat := (insertions es).map Prod.fst

def removals (es : List (SlotEvent V)) : List Nat := es.filterMap SlotEvent.removed

def SlotEvent.apply (store : Nat → Option V) : SlotEvent V → Nat → Option V
  | .reserve _ _ => store
  | .insert key v => update store key (some v)
  | .remove key => update store key none
  | .modify key f => update store key ((store key).map f)

def contents (es : List (SlotEvent V)) : Nat → Option V :=
  es.foldl SlotEvent.apply fun _ => none

def SlotEvent.value (key : Nat) (cur : Option V) : SlotEvent V → Option V
  | .insert key' v => if key' = key then some v else cur
  | .modify key' f => if key' = key then cur.map f else cur
  | _ => cur

/-- The value inserted under `key`, as its modifications have left it. -/
def valueOf (key : Nat) (es : List (SlotEvent V)) : Option V :=
  es.foldl (SlotEvent.value key) none

/-- An event that may come after the others: keys are taken in order, an entry
waits for its reservation, and who names a key has it from an insertion. -/
def SlotEvent.Follows (es : List (SlotEvent V)) : SlotEvent V → Prop
  | .reserve key _ => key = (reservations es).length
  | .insert key v => (key, v) ∈ reservations es ∧ key ∉ insertedKeys es
  | .remove key => key ∈ insertedKeys es
  | .modify key _ => key ∈ insertedKeys es

inductive Legal : List (SlotEvent V) → Prop
  | nil : Legal []
  | snoc {es : List (SlotEvent V)} {e : SlotEvent V} (h : Legal es) (he : e.Follows es) :
      Legal (es ++ [e])

variable {es : List (SlotEvent V)} {key : Nat} {v : V}

section Concat
variable (es : List (SlotEvent V)) (e : SlotEvent V)

theorem reservations_concat : reservations (es ++ [e]) = reservations es ++ e.reserved.toList := by
  rw [reservations, List.filterMap_append, reservations]
  cases e <;> rfl

theorem insertions_concat : insertions (es ++ [e]) = insertions es ++ e.inserted.toList := by
  rw [insertions, List.filterMap_append, insertions]
  cases e <;> rfl

theorem insertedKeys_concat :
    insertedKeys (es ++ [e]) = insertedKeys es ++ e.inserted.toList.map Prod.fst := by
  rw [insertedKeys, insertions_concat, List.map_append, insertedKeys]

theorem removals_concat : removals (es ++ [e]) = removals es ++ e.removed.toList := by
  rw [removals, List.filterMap_append, removals]
  cases e <;> rfl

theorem contents_concat : contents (es ++ [e]) = e.apply (contents es) := by
  rw [contents, List.foldl_append, contents, List.foldl_cons, List.foldl_nil]

theorem valueOf_concat (key : Nat) : valueOf key (es ++ [e]) = e.value key (valueOf key es) := by
  rw [valueOf, List.foldl_append, valueOf, List.foldl_cons, List.foldl_nil]

end Concat

theorem reservations_append_length_le (es es' : List (SlotEvent V)) :
    (reservations es).length ≤ (reservations (es ++ es')).length := by
  rw [reservations, reservations, List.filterMap_append, List.length_append]
  exact Nat.le_add_right _ _

theorem Legal.reservations_range (h : Legal es) :
    (reservations es).map Prod.fst = List.range (reservations es).length := by
  induction h with
  | nil => rfl
  | @snoc es e _ he ih =>
    rw [reservations_concat, List.map_append, ih]
    cases e with
    | reserve key v =>
      obtain rfl : key = (reservations es).length := he
      rw [List.length_append]
      exact List.range_succ.symm
    | insert | remove | modify => simp [SlotEvent.reserved]

theorem Legal.reservations_nodup (h : Legal es) : ((reservations es).map Prod.fst).Nodup := by
  rw [h.reservations_range]
  exact List.nodup_range

theorem Legal.key_lt (h : Legal es) (hmem : (key, v) ∈ reservations es) :
    key < (reservations es).length := by
  have hkey := List.mem_map_of_mem (f := Prod.fst) hmem
  rwa [h.reservations_range, List.mem_range] at hkey

theorem Legal.insertedKeys_nodup (h : Legal es) : (insertedKeys es).Nodup := by
  induction h with
  | nil => exact List.nodup_nil
  | @snoc es e _ he ih =>
    rw [insertedKeys_concat]
    cases e with
    | insert key v =>
      rw [SlotEvent.inserted, Option.toList_some, List.map_singleton, ← List.concat_eq_append]
      exact List.Nodup.concat he.2 ih
    | reserve | remove | modify => simpa [SlotEvent.inserted] using ih

theorem Legal.insertedKeys_lt (h : Legal es) :
    ∀ key ∈ insertedKeys es, key < (reservations es).length := by
  induction h with
  | nil => nofun
  | @snoc es e h he ih =>
    intro key hkey
    rw [reservations_concat, List.length_append]
    rw [insertedKeys_concat] at hkey
    rcases List.mem_append.mp hkey with hkey | hkey
    · have hlt := ih key hkey
      omega
    · cases e with
      | insert key' v =>
        obtain rfl := List.mem_singleton.mp hkey
        have hlt := h.key_lt he.1
        omega
      | reserve | remove | modify => cases hkey

theorem Legal.removals_inserted (h : Legal es) : ∀ key ∈ removals es, key ∈ insertedKeys es := by
  induction h with
  | nil => nofun
  | @snoc es e _ he ih =>
    intro key hkey
    rw [insertedKeys_concat, List.mem_append]
    rw [removals_concat] at hkey
    rcases List.mem_append.mp hkey with hkey | hkey
    · exact .inl (ih key hkey)
    · cases e with
      | remove key' =>
        obtain rfl := List.mem_singleton.mp hkey
        exact .inl he
      | reserve | insert | modify => cases hkey

theorem Legal.isSome_valueOf (h : Legal es) (key : Nat) :
    (valueOf key es).isSome = true ↔ key ∈ insertedKeys es := by
  induction h with
  | nil => simp [valueOf, insertedKeys, insertions]
  | @snoc es e _ _ ih =>
    rw [valueOf_concat, insertedKeys_concat, List.mem_append, ← ih]
    cases e with
    | insert key' v =>
      simp only [SlotEvent.value, SlotEvent.inserted]
      split
      · simp [*]
      · simp [Ne.symm ‹_›]
    | modify key' f =>
      simp only [SlotEvent.value, SlotEvent.inserted]
      split <;> simp
    | reserve | remove => simp [SlotEvent.value, SlotEvent.inserted]

/-- An entry is in the store from its insertion to its removal, and its value is
what the modifications have made of the one inserted. -/
theorem Legal.contents_eq (h : Legal es) (key : Nat) :
    contents es key = if key ∈ removals es then none else valueOf key es := by
  induction h with
  | nil => rfl
  | @snoc es e h he ih =>
    rw [contents_concat, valueOf_concat, removals_concat]
    cases e with
    | reserve => simpa [SlotEvent.apply, SlotEvent.value, SlotEvent.removed] using ih
    | insert key' v =>
      have hkept : key' ∉ removals es := fun hmem => he.2 (h.removals_inserted key' hmem)
      by_cases hkey : key' = key
      · subst hkey
        simp [SlotEvent.apply, SlotEvent.value, SlotEvent.removed, hkept]
      · simp [SlotEvent.apply, SlotEvent.value, SlotEvent.removed, hkey,
          update_of_ne (Ne.symm hkey), ih]
    | remove key' =>
      by_cases hkey : key' = key
      · subst hkey
        simp [SlotEvent.apply, SlotEvent.removed]
      · simp [SlotEvent.apply, SlotEvent.value, SlotEvent.removed, Ne.symm hkey, ih]
    | modify key' f =>
      by_cases hkey : key' = key
      · subst hkey
        simp only [SlotEvent.apply, SlotEvent.value, SlotEvent.removed, update_self, ih]
        split <;> simp [*]
      · simp [SlotEvent.apply, SlotEvent.value, SlotEvent.removed, hkey,
          update_of_ne (Ne.symm hkey), ih]

theorem Legal.vacant (h : Legal es) (hkey : key ∉ insertedKeys es) : contents es key = none := by
  have hnone : valueOf key es = none :=
    Option.not_isSome_iff_eq_none.mp fun hsome => hkey ((h.isSome_valueOf key).mp hsome)
  rw [h.contents_eq, hnone, ite_self]

theorem Legal.removed (h : Legal es) (hkey : key ∈ removals es) : contents es key = none := by
  rw [h.contents_eq, if_pos hkey]

theorem Legal.exists_entry (h : Legal es) (hkey : key ∈ insertedKeys es)
    (hkept : key ∉ removals es) :
    ∃ v, valueOf key es = some v ∧ contents es key = some v := by
  obtain ⟨v, hv⟩ := Option.isSome_iff_exists.mp ((h.isSome_valueOf key).mpr hkey)
  refine ⟨v, hv, ?_⟩
  rw [h.contents_eq, if_neg hkept, hv]

end Transition
