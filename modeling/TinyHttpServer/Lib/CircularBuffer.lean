import Mathlib.Data.List.Basic

/-!
# Circular buffers

A circular buffer of capacity `n` holds at most `n` elements; `pushBack` on a full buffer drops the
oldest one.

* `age` — how many elements are newer than the newest one that satisfies a predicate.
* `age_pushBack` — on a full buffer, an element that does not satisfy the predicate makes the rest
  one older, up to the capacity.
* `lost_iff` — a push takes the last element that satisfies the predicate out of the buffer exactly
  when its age is one below the capacity.
-/

set_option autoImplicit false

/-- A circular buffer of capacity `n`; `elems` runs from the newest element to the oldest. -/
structure CircularBuffer (α : Type) (n : Nat) where
  elems : List α
  bounded : elems.length ≤ n

namespace CircularBuffer

variable {α : Type} {n : Nat}

def Full (b : CircularBuffer α n) : Prop := b.elems.length = n

/-- A full buffer of `n` equal elements. -/
def filled (n : Nat) (x : α) : CircularBuffer α n where
  elems := List.replicate n x
  bounded := Nat.le_of_eq List.length_replicate

theorem filled_full (x : α) : (filled n x).Full := List.length_replicate

/-- `push_back`: on a full buffer the oldest element is dropped. -/
def pushBack (b : CircularBuffer α n) (x : α) : CircularBuffer α n where
  elems := (x :: b.elems).take n
  bounded := List.length_take_le ..

/-- What a `push_back` drops. -/
def dropped (b : CircularBuffer α n) (x : α) : List α := (x :: b.elems).drop n

/-- A change of the newest element, `back()`. -/
def modifyBack (b : CircularBuffer α n) (f : α → α) : CircularBuffer α n where
  elems := b.elems.modifyHead f
  bounded := by rw [List.length_modifyHead]; exact b.bounded

/-- How many elements are newer than the newest one that satisfies `p`. -/
def age (p : α → Bool) (b : CircularBuffer α n) : Nat := b.elems.findIdx p

variable {p : α → Bool} {b : CircularBuffer α n}

theorem Full.pushBack (h : b.Full) (x : α) : (b.pushBack x).Full := by
  simp only [Full, CircularBuffer.pushBack, List.length_take, List.length_cons] at *
  omega

theorem Full.modifyBack (h : b.Full) (f : α → α) : (b.modifyBack f).Full :=
  List.length_modifyHead.trans h

theorem Full.age_lt_iff (h : b.Full) : b.age p < n ↔ ∃ x ∈ b.elems, p x := by
  rw [← List.findIdx_lt_length, h]
  rfl

theorem findIdx_cons_of_false {x : α} (hx : p x = false) (xs : List α) :
    (x :: xs).findIdx p = xs.findIdx p + 1 := by
  rw [List.findIdx_cons, hx, cond_false]

/-- **An element that does not satisfy the predicate makes the rest one older.** -/
theorem age_pushBack (b : CircularBuffer α n) {x : α} (hx : p x = false) :
    (b.pushBack x).age p = min n (b.age p + 1) := by
  unfold age pushBack
  rw [List.findIdx_take, findIdx_cons_of_false hx]

/-- **A push loses the last element that satisfies the predicate exactly when it is the oldest.** -/
theorem lost_iff (h : b.Full) {x : α} (hx : p x = false) :
    ((∃ y ∈ b.dropped x, p y) ∧ ¬∃ y ∈ (b.pushBack x).elems, p y) ↔ b.age p + 1 = n := by
  have hsplit : (∃ y ∈ x :: b.elems, p y) ↔
      (∃ y ∈ (b.pushBack x).elems, p y) ∨ ∃ y ∈ b.dropped x, p y := by
    conv_lhs => rw [← List.take_append_drop n (x :: b.elems)]
    simp only [List.mem_append, or_and_right, exists_or]
    rfl
  have hall : (∃ y ∈ x :: b.elems, p y) ↔ b.age p + 1 < n + 1 := by
    rw [← List.findIdx_lt_length, findIdx_cons_of_false hx, List.length_cons, h]
    rfl
  have hkept : (∃ y ∈ (b.pushBack x).elems, p y) ↔ min n (b.age p + 1) < n := by
    rw [← (h.pushBack x).age_lt_iff, age_pushBack b hx]
  rw [hsplit, hkept] at hall
  rw [hkept]
  constructor
  · rintro ⟨hdropped, hnot⟩
    have := hall.1 (.inr hdropped)
    omega
  · intro hage
    have hnot : ¬min n (b.age p + 1) < n := by omega
    exact ⟨(hall.2 (by omega)).resolve_left hnot, hnot⟩

/-- A change of the newest element that makes it satisfy the predicate. -/
theorem age_modifyBack_of_true (h : b.Full) (hn : 0 < n) {f : α → α} (hf : ∀ x, p (f x) = true) :
    (b.modifyBack f).age p = 0 := by
  obtain ⟨elems, hb⟩ := b
  cases elems with
  | nil => exact absurd h (Nat.ne_of_lt hn)
  | cons x xs => simp [age, modifyBack, List.findIdx_cons, hf]

/-- A change of the newest element that the predicate does not see. -/
theorem age_modifyBack_of_eq {f : α → α} (hf : ∀ x, p (f x) = p x) :
    (b.modifyBack f).age p = b.age p := by
  obtain ⟨elems, hb⟩ := b
  cases elems with
  | nil => rfl
  | cons x xs => simp [age, modifyBack, List.findIdx_cons, hf]

end CircularBuffer
