import ActixSend.Transition.Table

/-! # An atomic object and the values it has had

A load may answer any value the object has had since the last one its thread
has met; a read-modify-write meets the current one. So what a thread knows of
an object is a property of all its values from some index on.
-/

namespace Transition

set_option autoImplicit false

structure Atomic (β : Type) where
  past : List β
  now : β

namespace Atomic

variable {β : Type} {a : Atomic β} {b c : β} {k n : Nat} {p q : β → Prop}

def new (b : β) : Atomic β := ⟨[], b⟩

def last (a : Atomic β) : Nat := a.past.length

def load (a : Atomic β) (k : Nat) : Option β := (a.past ++ [a.now])[k]?

def write (a : Atomic β) (b : β) : Atomic β := ⟨a.past ++ [a.now], b⟩

/-- Every value from the index `n` on has the property. -/
def Since (a : Atomic β) (n : Nat) (p : β → Prop) : Prop :=
  ∀ k b, n ≤ k → a.load k = some b → p b

/-- A value that has the property is never replaced by another. -/
def Sticky (a : Atomic β) (p : β → Prop) : Prop :=
  ∀ k b, a.load k = some b → p b → a.Since k fun c => c = b

theorem load_last (a : Atomic β) : a.load a.last = some a.now := by
  simp [load, last]

theorem le_last (h : a.load k = some b) : k ≤ a.last := by
  obtain ⟨hlt, _⟩ := List.getElem?_eq_some_iff.mp h
  simp only [List.length_append, List.length_singleton] at hlt
  exact Nat.le_of_lt_succ hlt

@[simp] theorem last_write (a : Atomic β) (b : β) : (a.write b).last = a.last + 1 := by
  simp [last, write]

theorem load_write_cases (h : (a.write b).load k = some c) : c = b ∨ a.load k = some c :=
  (getElem?_append_cases h).imp And.right id

theorem load_of_write (h : (a.write b).load k = some c) (hk : k ≤ a.last) : a.load k = some c := by
  rwa [load, write, List.getElem?_append_left (by simp [last] at hk ⊢; omega)] at h

theorem load_write_of (h : a.load k = some c) : (a.write b).load k = some c :=
  getElem?_append_of h

theorem Since.now (h : a.Since n p) (hn : n ≤ a.last) : p a.now :=
  h a.last a.now hn a.load_last

theorem Since.later {m : Nat} (h : a.Since n p) (hn : n ≤ m) : a.Since m p :=
  fun k b hk hb => h k b (Nat.le_trans hn hk) hb

theorem Since.imp (h : a.Since n p) (hpq : ∀ b, p b → q b) : a.Since n q :=
  fun k b hk hb => hpq b (h k b hk hb)

theorem Since.write (h : a.Since n p) (hb : p b) : (a.write b).Since n p := by
  intro k c hk hc
  rcases load_write_cases hc with rfl | hc
  · exact hb
  · exact h k c hk hc

/-- The writer of a value knows it to be the last one. -/
theorem since_write_last (hb : p b) : (a.write b).Since (a.last + 1) p := by
  intro k c hk hc
  rcases load_write_cases hc with rfl | hc
  · exact hb
  · exact absurd (le_last hc) (by omega)

theorem Sticky.now (h : a.Sticky p) (hb : a.load k = some b) (hp : p b) : a.now = b :=
  (h k b hb hp).now (le_last hb)

theorem Sticky.write (h : a.Sticky p) (hb : p a.now → b = a.now) : (a.write b).Sticky p := by
  intro k c hc hp
  have hle := le_last hc
  rw [last_write] at hle
  rcases Nat.lt_or_ge k (a.last + 1) with hlt | hge
  · have hold := load_of_write hc (Nat.le_of_lt_succ hlt)
    have hnow := h.now hold hp
    apply (h k c hold hp).write
    rw [hb (hnow ▸ hp), hnow]
  · obtain rfl : k = a.last + 1 := Nat.le_antisymm hle hge
    have hlast := (a.write b).load_last
    rw [last_write, hc] at hlast
    obtain rfl : c = b := Option.some.inj hlast
    exact since_write_last rfl

end Atomic

end Transition
