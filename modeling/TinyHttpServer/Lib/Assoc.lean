import Mathlib.Data.List.Nodup
import Mathlib.Logic.Function.Basic

/-!
# Maps given by lists of pairs

Pairs that are entered into a map one after the other: of the pairs with the same key the last one
stays.

* `foldl_enter` — entering a list of pairs gives the map in which the last pair wins.
* `lastWins_eq_some_iff` — with distinct keys this map has exactly the pairs of the list.
* `mem_of_lastWins` — no value comes from anywhere else.
* `lastWins_append`, `lastWins_same` — lists put together, and pairs with one key.
-/

set_option autoImplicit false

namespace Assoc

variable {K V : Type} [DecidableEq K]

/-- The map `m` with one pair entered. -/
def enter (m : K → Option V) (p : K × V) : K → Option V := Function.update m p.1 (some p.2)

/-- The map in which the last pair with a key wins. -/
def lastWins : List (K × V) → K → Option V
  | [], _ => none
  | p :: pairs, k => (lastWins pairs k).or (if k = p.1 then some p.2 else none)

theorem foldl_enter (m : K → Option V) (pairs : List (K × V)) (k : K) :
    pairs.foldl enter m k = (lastWins pairs k).or (m k) := by
  induction pairs generalizing m with
  | nil => rfl
  | cons p pairs ih =>
    rw [List.foldl_cons, ih, lastWins, Option.or_assoc, enter, Function.update_apply]
    split <;> rfl

theorem foldl_enter_none (pairs : List (K × V)) :
    pairs.foldl enter (fun _ => none) = lastWins pairs := by
  funext k
  rw [foldl_enter, Option.or_none]

theorem mem_of_lastWins {pairs : List (K × V)} {k : K} {v : V} (h : lastWins pairs k = some v) :
    (k, v) ∈ pairs := by
  induction pairs with
  | nil => cases h
  | cons p pairs ih =>
    rw [lastWins, Option.or_eq_some_iff] at h
    rcases h with h | ⟨-, h⟩
    · exact List.mem_cons_of_mem p (ih h)
    · split at h
      · rename_i hk
        obtain rfl := Option.some.inj h
        rw [hk]
        exact List.mem_cons_self
      · cases h

theorem lastWins_eq_none {pairs : List (K × V)} {k : K} (h : k ∉ pairs.map Prod.fst) :
    lastWins pairs k = none := by
  cases hv : lastWins pairs k with
  | none => rfl
  | some v => exact absurd (List.mem_map_of_mem (mem_of_lastWins hv)) h

theorem lastWins_append (xs ys : List (K × V)) (k : K) :
    lastWins (xs ++ ys) k = (lastWins ys k).or (lastWins xs k) := by
  induction xs with
  | nil => rw [List.nil_append, lastWins, Option.or_none]
  | cons p xs ih => rw [List.cons_append, lastWins, ih, lastWins, Option.or_assoc]

theorem lastWins_singleton (p : K × V) (k : K) :
    lastWins [p] k = if k = p.1 then some p.2 else none := rfl

theorem lastWins_isSome_iff {pairs : List (K × V)} {k : K} :
    (lastWins pairs k).isSome ↔ k ∈ pairs.map Prod.fst := by
  constructor
  · intro h
    obtain ⟨v, hv⟩ := Option.isSome_iff_exists.1 h
    exact List.mem_map_of_mem (mem_of_lastWins hv)
  · intro h
    induction pairs with
    | nil => cases h
    | cons p pairs ih =>
      rw [lastWins]
      rcases List.mem_cons.1 h with rfl | h
      · rw [if_pos rfl]
        cases lastWins pairs p.1 <;> rfl
      · obtain ⟨v, hv⟩ := Option.isSome_iff_exists.1 (ih h)
        rw [hv]
        rfl

/-- Pairs that all have the same key. -/
theorem lastWins_same (key : K) (vs : List V) (k : K) :
    lastWins (vs.map fun v => (key, v)) k = if k = key then vs.getLast? else none := by
  induction vs with
  | nil => simp [lastWins]
  | cons v vs ih =>
    rw [List.map_cons, lastWins, ih, List.getLast?_cons]
    split
    · cases vs.getLast? <;> rfl
    · rfl

theorem lastWins_eq_some_iff {pairs : List (K × V)} (hkeys : (pairs.map Prod.fst).Nodup) {k : K}
    {v : V} : lastWins pairs k = some v ↔ (k, v) ∈ pairs := by
  refine ⟨mem_of_lastWins, fun hmem => ?_⟩
  induction pairs with
  | nil => cases hmem
  | cons p pairs ih =>
    rw [List.map_cons, List.nodup_cons] at hkeys
    rw [lastWins]
    rcases List.mem_cons.1 hmem with rfl | hmem
    · rw [lastWins_eq_none hkeys.1, if_pos rfl]
      rfl
    · rw [ih hkeys.2 hmem]
      rfl

end Assoc
