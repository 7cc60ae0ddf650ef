import Mathlib.Algebra.GroupWithZero.Nat
import Mathlib.Algebra.Order.BigOperators.Group.List
import Mathlib.Algebra.Order.Group.Nat
import Mathlib.Data.List.Nodup
import Mathlib.Data.List.Perm.Basic

/-!
# Parties that share a pool of items

A list of parties, each of which owns a list of items, and a pool with the other items.  A step of
one party replaces it in the list.

* `perm_set` — where a step exchanges items between the party and the pool, the items of all parties
  and of the pool stay the same.
* `countP_set_add`, `sum_map_set_add` — how the number of parties with a property changes, and the
  sum of a number for each party.
* `not_mem_of_nodup`, `not_mem_pool_of_nodup` — distinct items have one owner each.
-/

set_option autoImplicit false

namespace Parties

open scoped List

variable {P X : Type} {own : P → List X} {parties : List P} {pool pool' : List X} {i j : Nat}
  {p q : P} {x : X}

theorem perm_flatMap_set (hp : parties[i]? = some p) (q : P) :
    (parties.set i q).flatMap own ++ own p ~ parties.flatMap own ++ own q := by
  induction parties generalizing i with
  | nil => cases hp
  | cons r parties ih =>
    cases i with
    | zero =>
      obtain rfl : r = p := by simpa using hp
      simp only [List.set_cons_zero, List.flatMap_cons, List.append_assoc]
      calc
        own q ++ (parties.flatMap own ++ own r)
        _ ~ (parties.flatMap own ++ own r) ++ own q := List.perm_append_comm
        _ ~ (own r ++ parties.flatMap own) ++ own q := List.perm_append_comm.append_right _
        _ = own r ++ (parties.flatMap own ++ own q) := List.append_assoc _ _ _
    | succ i =>
      simp only [List.set_cons_succ, List.flatMap_cons, List.append_assoc]
      exact (ih hp).append_left _

/-- **Conservation rule.**  What a party gains the pool loses, and the other way round. -/
theorem perm_set (hp : parties[i]? = some p) (hstep : pool' ++ own q ~ pool ++ own p) :
    pool' ++ (parties.set i q).flatMap own ~ pool ++ parties.flatMap own := by
  apply (List.perm_append_right_iff (own p)).1
  calc
    pool' ++ (parties.set i q).flatMap own ++ own p
    _ = pool' ++ ((parties.set i q).flatMap own ++ own p) := List.append_assoc _ _ _
    _ ~ pool' ++ (parties.flatMap own ++ own q) := (perm_flatMap_set hp q).append_left pool'
    _ ~ pool' ++ (own q ++ parties.flatMap own) := List.perm_append_comm.append_left pool'
    _ = (pool' ++ own q) ++ parties.flatMap own := (List.append_assoc _ _ _).symm
    _ ~ (pool ++ own p) ++ parties.flatMap own := hstep.append_right _
    _ = pool ++ (own p ++ parties.flatMap own) := List.append_assoc _ _ _
    _ ~ pool ++ (parties.flatMap own ++ own p) := List.perm_append_comm.append_left pool
    _ = pool ++ parties.flatMap own ++ own p := (List.append_assoc _ _ _).symm

theorem set_self (hp : parties[i]? = some p) : parties.set i p = parties := by
  obtain ⟨hi, rfl⟩ := List.getElem?_eq_some_iff.1 hp
  exact List.set_getElem_self hi

/-- After a step of party `i`, party `j` is the new one or as it was. -/
theorem getElem?_set_cases {r : P} (h : (parties.set i q)[j]? = some r) :
    i = j ∧ r = q ∨ i ≠ j ∧ parties[j]? = some r := by
  by_cases hij : i = j
  · subst hij
    refine .inl ⟨rfl, ?_⟩
    have hi : i < parties.length := by
      have := (List.getElem?_eq_some_iff.1 h).1
      rwa [List.length_set] at this
    rw [List.getElem?_set_self hi] at h
    exact (Option.some.inj h).symm
  · rw [List.getElem?_set_ne hij] at h
    exact .inr ⟨hij, h⟩

theorem countP_set_add (f : P → Bool) (hp : parties[i]? = some p) (q : P) :
    (parties.set i q).countP f + (f p).toNat = parties.countP f + (f q).toNat := by
  induction parties generalizing i with
  | nil => cases hp
  | cons r parties ih =>
    cases i with
    | zero =>
      obtain rfl : r = p := by simpa using hp
      simp only [List.set_cons_zero, List.countP_cons]
      cases f r <;> cases f q <;> simp
    | succ i =>
      have := ih hp
      simp only [List.set_cons_succ, List.countP_cons]
      omega

theorem countP_pos (f : P → Bool) (hp : parties[i]? = some p) (hf : f p) :
    0 < parties.countP f :=
  List.countP_pos_iff.2 ⟨p, List.mem_of_getElem? hp, hf⟩

theorem sum_map_set_add (f : P → Nat) (hp : parties[i]? = some p) (q : P) :
    ((parties.set i q).map f).sum + f p = (parties.map f).sum + f q := by
  induction parties generalizing i with
  | nil => cases hp
  | cons r parties ih =>
    cases i with
    | zero =>
      obtain rfl : r = p := by simpa using hp
      simp only [List.set_cons_zero, List.map_cons, List.sum_cons]
      omega
    | succ i =>
      have := ih hp
      simp only [List.set_cons_succ, List.map_cons, List.sum_cons]
      omega

theorem le_sum_map (f : P → Nat) (hp : parties[i]? = some p) : f p ≤ (parties.map f).sum :=
  List.le_sum_of_mem (List.mem_map_of_mem (List.mem_of_getElem? hp))

/-- Distinct items: two parties have no item in common. -/
theorem not_mem_of_nodup (h : (pool ++ parties.flatMap own).Nodup) (hp : parties[i]? = some p)
    (hq : parties[j]? = some q) (hij : i ≠ j) (hx : x ∈ own p) : x ∉ own q := by
  have hpairs := (List.nodup_flatMap.1 h.of_append_right).2
  obtain ⟨hi, rfl⟩ := List.getElem?_eq_some_iff.1 hp
  obtain ⟨hj, rfl⟩ := List.getElem?_eq_some_iff.1 hq
  rw [List.pairwise_iff_getElem] at hpairs
  rcases Nat.lt_or_gt_of_ne hij with hlt | hlt
  · exact fun hx' => hpairs i j hi hj hlt hx hx'
  · exact fun hx' => hpairs j i hj hi hlt hx' hx

/-- Distinct items: what a party owns is not in the pool. -/
theorem not_mem_pool_of_nodup (h : (pool ++ parties.flatMap own).Nodup) (hp : parties[i]? = some p)
    (hx : x ∈ own p) : x ∉ pool := fun hpool =>
  (List.nodup_append.1 h).2.2 x hpool x
    (List.mem_flatMap.2 ⟨p, List.mem_of_getElem? hp, hx⟩) rfl

end Parties
