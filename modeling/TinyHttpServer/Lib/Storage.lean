import TinyHttpServer.Lib.Checked
import Mathlib.Data.List.Basic

/-!
# Stores into a vector

Sequential stores, as `std::copy` performs them: `writeAt` from another range, `moveDown` from a
range of the same vector that may overlap the destination.  Each has one lemma that gives the
content of every slot afterwards (`getElem?_writeAt`, `getElem?_moveDown`), from which equations
between `slice`s follow by comparing slots.
-/

set_option autoImplicit false

namespace Storage

open Checked

variable {α : Type}

/-- The items in the slots `a … b - 1`. -/
def slice (xs : List α) (a b : Nat) : List α := (xs.drop a).take (b - a)

/-- Store `ys` into the slots from `pos` on. -/
def writeAt (xs : List α) (pos : Nat) : List α → List α
  | [] => xs
  | y :: ys => writeAt (xs.set pos y) (pos + 1) ys

/-- `writeAt`, with a fault when the range does not lie inside the vector. -/
def store (xs : List α) (pos : Nat) (ys : List α) : Checked (List α) :=
  if pos + ys.length ≤ xs.length then .ok (writeAt xs pos ys) else .error .outOfRange

/-- Copy `n` items from `src` on to `dst` on, one after the other. -/
def moveDown (xs : List α) (src dst : Nat) : Nat → Checked (List α)
  | 0 => .ok xs
  | n + 1 => do
    let x ← nth xs src
    let _ ← nth xs dst
    moveDown (xs.set dst x) (src + 1) (dst + 1) n

/-! ## Contents after a store -/

theorem length_slice {xs : List α} {a b : Nat} (hb : b ≤ xs.length) :
    (slice xs a b).length = b - a := by
  unfold slice
  rw [List.length_take, List.length_drop]
  omega

theorem getElem?_slice (xs : List α) (a b k : Nat) :
    (slice xs a b)[k]? = if k < b - a then xs[a + k]? else none := by
  unfold slice
  rw [List.getElem?_take]
  split
  · rw [List.getElem?_drop]
  · rfl

@[simp] theorem length_writeAt (xs : List α) (pos : Nat) (ys : List α) :
    (writeAt xs pos ys).length = xs.length := by
  induction ys generalizing xs pos with
  | nil => rfl
  | cons y ys ih => rw [writeAt, ih, List.length_set]

theorem getElem?_writeAt {xs ys : List α} {pos : Nat} (h : pos + ys.length ≤ xs.length) (i : Nat) :
    (writeAt xs pos ys)[i]? =
      if pos ≤ i ∧ i < pos + ys.length then ys[i - pos]? else xs[i]? := by
  induction ys generalizing xs pos with
  | nil =>
    rw [if_neg (by simp only [List.length_nil]; omega)]
    rfl
  | cons y ys ih =>
    simp only [List.length_cons] at h ⊢
    rw [writeAt, ih (by rw [List.length_set]; omega)]
    by_cases hi : i = pos
    · subst hi
      rw [if_neg (by omega), if_pos (by omega), List.getElem?_set_self (by omega), Nat.sub_self]
      rfl
    · rw [List.getElem?_set_ne (fun he => hi he.symm)]
      by_cases hr : pos ≤ i ∧ i < pos + (ys.length + 1)
      · rw [if_pos (by omega), if_pos hr,
          show i - pos = (i - (pos + 1)) + 1 by omega, List.getElem?_cons_succ]
      · rw [if_neg (by omega), if_neg hr]

theorem store_of_le {xs ys : List α} {pos : Nat} (h : pos + ys.length ≤ xs.length) :
    store xs pos ys = .ok (writeAt xs pos ys) := if_pos h

theorem length_store {xs ys zs : List α} {pos : Nat} (h : store xs pos ys = .ok zs) :
    zs.length = xs.length := by
  unfold store at h
  split at h
  · cases h
    exact length_writeAt xs pos ys
  · cases h

theorem length_moveDown (n : Nat) : ∀ {xs ys : List α} {src dst : Nat},
    moveDown xs src dst n = .ok ys → ys.length = xs.length := by
  induction n with
  | zero =>
    intro xs ys src dst h
    cases h
    rfl
  | succ n ih =>
    intro xs ys src dst h
    obtain ⟨x, -, h⟩ := bind_eq_ok.1 h
    obtain ⟨-, -, h⟩ := bind_eq_ok.1 h
    rw [ih h, List.length_set]

/-- A copy towards the front reads every item before it overwrites its slot. -/
theorem getElem?_moveDown (n : Nat) :
    ∀ (xs : List α) (src dst : Nat), dst ≤ src → src + n ≤ xs.length →
      ∃ ys, moveDown xs src dst n = .ok ys ∧ ys.length = xs.length ∧
        ∀ i : Nat, ys[i]? = if dst ≤ i ∧ i < dst + n then xs[i - dst + src]? else xs[i]? := by
  induction n with
  | zero =>
    intro xs src dst _ _
    exact ⟨xs, rfl, rfl, fun i => by rw [if_neg (by omega)]⟩
  | succ n ih =>
    intro xs src dst hle hlen
    have hs : xs[src]? = some xs[src] := List.getElem?_eq_getElem (by omega)
    have hd : xs[dst]? = some xs[dst] := List.getElem?_eq_getElem (by omega)
    obtain ⟨ys, he, hl, hget⟩ := ih (xs.set dst xs[src]) (src + 1) (dst + 1) (by omega)
      (by rw [List.length_set]; omega)
    refine ⟨ys, ?_, by rw [hl, List.length_set], fun i => ?_⟩
    · rw [moveDown, nth_of_some hs, ok_bind, nth_of_some hd, ok_bind, he]
    · rw [hget]
      by_cases hi : i = dst
      · subst hi
        rw [if_neg (by omega), if_pos (by omega), List.getElem?_set_self (by omega), Nat.sub_self,
          Nat.zero_add, hs]
      · by_cases hr : dst ≤ i ∧ i < dst + (n + 1)
        · rw [if_pos (by omega), if_pos hr, List.getElem?_set_ne (by omega)]
          congr 1
          omega
        · rw [if_neg (by omega), if_neg hr, List.getElem?_set_ne (fun he => hi he.symm)]

end Storage
