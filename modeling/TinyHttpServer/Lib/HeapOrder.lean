import Mathlib.Order.Basic

/-!
# Heap order with a hole

A heap of arity `d` on keys: the parent of slot `i + 1` is slot `i / d`.  A sift moves one key along a
path and exchanges it with a neighbour at each step, which leaves the order broken at one slot only,
the hole.

* `UpHole` — only the key of the hole may be too small; `UpHole.ordered_iff` ends a sift towards the
  root and `UpHole.exchange` is one step of it.
* `DownHole` — only the key of the hole may be too large.
* `Below` — the subtree of a slot; `DownHole.below_iff` reduces its order, after keys have been moved,
  to the edges at the slots that were touched.
-/

set_option autoImplicit false

namespace HeapOrder

variable {κ : Type} [Preorder κ] {d pos : Nat} {key key' : Nat → Option κ}

/-- Slot `i + 1` is not before its parent. -/
def OrderedAt (d : Nat) (key : Nat → Option κ) (i : Nat) : Prop :=
  ∀ x p, key (i + 1) = some x → key (i / d) = some p → p ≤ x

/-- Every slot is ordered. -/
def Ordered (d : Nat) (key : Nat → Option κ) : Prop := ∀ i, OrderedAt d key i

/-- The children of `pos` are not before the parent of `pos`. -/
def Spanned (d : Nat) (key : Nat → Option κ) (pos : Nat) : Prop :=
  ∀ i c x p, i + 1 = pos → c / d = pos → key (c + 1) = some x → key (i / d) = some p → p ≤ x

/-! ## Towards the root -/

/-- Only the edge above `pos` may be out of order. -/
structure UpHole (d : Nat) (key : Nat → Option κ) (pos : Nat) : Prop where
  away : ∀ i, i + 1 ≠ pos → OrderedAt d key i
  spanned : Spanned d key pos

theorem UpHole.ordered_iff (hole : UpHole d key pos) :
    Ordered d key ↔ ∀ i, i + 1 = pos → OrderedAt d key i := by
  constructor
  · intro ho i _
    exact ho i
  · intro hpos i
    by_cases hi : i + 1 = pos
    · exact hpos i hi
    · exact hole.away i hi

/-- **One step.**  The key of the hole changes places with a larger parent, and the hole is now there. -/
theorem UpHole.exchange {i : Nat} {x p : κ} (hole : UpHole d key (i + 1))
    (hp : key (i / d) = some p) (hxp : x ≤ p)
    (hget : ∀ k, key' k = if k = i / d then some x else if k = i + 1 then some p else key k) :
    UpHole d key' (i / d) := by
  have hpar : ∀ k, k / d ≤ k := fun k => Nat.div_le_self k d
  have hid := hpar i
  have hkeep : ∀ k, k ≠ i / d → k ≠ i + 1 → key' k = key k := fun k h1 h2 => by
    rw [hget, if_neg h1, if_neg h2]
  -- a sibling of the hole, or the hole itself, is not before the old parent
  have hsib : ∀ c y, c / d = i / d → key' (c + 1) = some y → p ≤ y := by
    intro c y hc hy
    have hcd := hpar c
    by_cases hci : c = i
    · rw [hci, hget, if_neg (by omega), if_pos rfl] at hy
      exact le_of_eq (Option.some.inj hy)
    · rw [hkeep _ (by omega) (by omega)] at hy
      exact hole.away c (by omega) y p hy (by rw [hc, hp])
  constructor
  · intro k hk y q hy hq
    by_cases hkid : k / d = i / d
    · rw [hkid, hget, if_pos rfl] at hq
      cases hq
      exact le_trans hxp (hsib k y hkid hy)
    · have hki : k ≠ i := fun h => hkid (by rw [h])
      rw [hkeep _ hk (by omega)] at hy
      by_cases hkpos : k / d = i + 1
      · -- a child of the old hole
        rw [hget, if_neg hkid, if_pos hkpos] at hq
        cases hq
        exact hole.spanned i k y p rfl hkpos hy hp
      · rw [hkeep _ hkid hkpos] at hq
        exact hole.away k (by omega) y q hy hq
  · intro j c y g hj hc hy hg
    have hjd := hpar j
    rw [hkeep _ (by omega) (by omega)] at hg
    exact le_trans (hole.away j (by omega) p g (by rw [hj, hp]) hg) (hsib c y hc hy)

/-! ## Away from the root -/

/-- Only the edges below `pos` may be out of order. -/
structure DownHole (d : Nat) (key : Nat → Option κ) (pos : Nat) : Prop where
  away : ∀ i, i / d ≠ pos → OrderedAt d key i
  spanned : Spanned d key pos

/-- The slots of the subtree of `pos`. -/
inductive Below (d pos : Nat) : Nat → Prop
  | self : Below d pos pos
  | child {i : Nat} (h : Below d pos (i / d)) : Below d pos (i + 1)

theorem Below.parent {i : Nat} (h : Below d pos (i + 1)) : i + 1 = pos ∨ Below d pos (i / d) := by
  cases h with
  | self => exact Or.inl rfl
  | child h => exact Or.inr h

/-- After the keys of some slots have been moved, the hole among them, the order of the subtree is
decided at the edges of these slots. -/
theorem DownHole.below_iff (hole : DownHole d key pos) {S : Nat → Prop} (hpos : S pos)
    (hoff : ∀ k, ¬ S k → key' k = key k) :
    (∀ i, Below d pos (i + 1) → OrderedAt d key' i) ↔
      ∀ i, Below d pos (i + 1) → S (i + 1) ∨ S (i / d) → OrderedAt d key' i := by
  constructor
  · intro ho i hi _
    exact ho i hi
  · intro ho i hi x p hx hp
    by_cases hS : S (i + 1) ∨ S (i / d)
    · exact ho i hi hS x p hx hp
    · rw [hoff _ fun h => hS (Or.inl h)] at hx
      rw [hoff _ fun h => hS (Or.inr h)] at hp
      exact hole.away i (fun h => hS (Or.inr (h ▸ hpos))) x p hx hp

end HeapOrder
