import Mathlib.Algebra.Group.Int.Defs
import Mathlib.Algebra.Group.Nat.Defs
import Mathlib.Logic.Basic

/-!
# Checked computations

A computation of a partial program either returns a value or stops with a `Fault`: an access
outside a container, a failed assertion, a dereference of an invalid pointer, or a loop that
uses up its fuel.  `Checked` is the corresponding error monad.

* `nth` — checked subscript.
* `require` — checked assertion.
* `bind_eq_ok` — the inversion rule that takes a successful sequence apart.
* `Refines` — one computation does what another does, on related values; `Refines.bind` is the rule
  for sequences.
* `Extends` — one computation returns what another returns, and may return where that stops.
-/

set_option autoImplicit false

namespace Checked

/-- The ways in which a computation can stop without a result. -/
inductive Fault where
  | outOfRange
  | assertion
  | invalidAccess
  | outOfFuel
  deriving DecidableEq, Repr

end Checked

/-- A computation that returns a value or stops with a fault. -/
abbrev Checked (α : Type) := Except Checked.Fault α

namespace Checked

variable {α β : Type}

/-- Checked subscript `xs[i]`. -/
def nth (xs : List α) (i : Nat) : Checked α :=
  match xs[i]? with
  | some x => .ok x
  | none => .error .outOfRange

/-- Checked assertion. -/
def require (p : Prop) [Decidable p] : Checked Unit :=
  if p then .ok () else .error .assertion

@[simp] theorem ok_bind (a : α) (f : α → Checked β) : (Except.ok a >>= f : Checked β) = f a := rfl

@[simp] theorem error_bind (e : Fault) (f : α → Checked β) :
    (Except.error e >>= f : Checked β) = .error e := rfl

@[simp] theorem pure_eq_ok (a : α) : (pure a : Checked α) = .ok a := rfl

theorem bind_eq_ok {x : Checked α} {f : α → Checked β} {b : β} :
    (x >>= f) = .ok b ↔ ∃ a, x = .ok a ∧ f a = .ok b := by
  cases x <;> simp

theorem map_eq_ok {x : Checked α} {f : α → β} {b : β} :
    x.map f = .ok b ↔ ∃ a, x = .ok a ∧ f a = b := by
  cases x <;> simp [Except.map]

theorem nth_eq_ok {xs : List α} {i : Nat} {x : α} : nth xs i = .ok x ↔ xs[i]? = some x := by
  unfold nth
  split
  · rename_i y hy; simp [hy]
  · rename_i hn; simp [hn]

theorem nth_of_some {xs : List α} {i : Nat} {x : α} (h : xs[i]? = some x) :
    nth xs i = .ok x := nth_eq_ok.2 h

@[simp] theorem require_of {p : Prop} [Decidable p] (h : p) : require p = .ok () := if_pos h

theorem require_eq_ok {p : Prop} [Decidable p] {u : Unit} : require p = .ok u ↔ p := by
  unfold require; split <;> simp_all

/-! ## Refinement -/

/-- The first computation does what the second does: it returns a related value, or stops with the
same fault. -/
inductive Refines (R : α → β → Prop) : Checked α → Checked β → Prop
  | ok {a : α} {b : β} (h : R a b) : Refines R (.ok a) (.ok b)
  | error (e : Fault) : Refines R (.error e) (.error e)

variable {R : α → β → Prop}

theorem Refines.bind {γ δ : Type} {S : γ → δ → Prop} {x : Checked α} {y : Checked β}
    {f : α → Checked γ} {g : β → Checked δ} (h : Refines R x y)
    (hf : ∀ a b, R a b → Refines S (f a) (g b)) : Refines S (x >>= f) (y >>= g) := by
  cases h with
  | ok hab => exact hf _ _ hab
  | error e => exact .error e

theorem Refines.refl (x : Checked α) : Refines Eq x x := by
  cases x with
  | ok a => exact .ok rfl
  | error e => exact .error e

/-- What the first computation returns may have a further property. -/
theorem Refines.and {x : Checked α} {y : Checked β} (h : Refines R x y) {P : α → Prop}
    (hP : ∀ a, x = .ok a → P a) : Refines (fun a b => R a b ∧ P a) x y := by
  cases h with
  | ok hab => exact .ok ⟨hab, hP _ rfl⟩
  | error e => exact .error e

theorem Refines.of_ok {x : Checked α} {y : Checked β} {a : α} (h : Refines R x y)
    (hx : x = .ok a) : ∃ b, y = .ok b ∧ R a b := by
  cases h with
  | ok hab => cases hx; exact ⟨_, rfl, hab⟩
  | error e => cases hx

theorem Refines.returns {x : Checked α} {y : Checked β} {b : β} (h : Refines R x y)
    (hy : y = .ok b) : ∃ a, x = .ok a ∧ R a b := by
  cases h with
  | ok hab => cases hy; exact ⟨_, rfl, hab⟩
  | error e => cases hy

/-- The second computation returns what the first one returns. -/
def Extends (x y : Checked α) : Prop := ∀ a, x = .ok a → y = .ok a

theorem Extends.refl (x : Checked α) : Extends x x := fun _ h => h

theorem Extends.bind {x y : Checked α} {f g : α → Checked β} (h : Extends x y)
    (hf : ∀ a, Extends (f a) (g a)) : Extends (x >>= f) (y >>= g) := by
  intro b hb
  rw [bind_eq_ok] at hb ⊢
  obtain ⟨a, ha, hb⟩ := hb
  exact ⟨a, h a ha, hf a b hb⟩

theorem Extends.ite {p : Prop} [Decidable p] {x x' y y' : Checked α} (h : Extends x y)
    (h' : Extends x' y') : Extends (if p then x else x') (if p then y else y') := by
  split
  · exact h
  · exact h'

theorem eq_of_refines {x y : Checked α} (h : Refines Eq x y) : x = y := by
  cases h with
  | ok hab => rw [hab]
  | error e => rfl

end Checked
