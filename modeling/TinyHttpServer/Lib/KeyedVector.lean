import Mathlib.Data.List.Nodup
import Mathlib.Logic.Function.Basic

/-!
# Vectors with an index of their keys

A vector `xs` of items, each with a key, and a map `idx` from keys to positions.

* `Located` — every item is found at the position recorded for its key.
* `Inverse` — moreover nothing else is recorded: `idx` is the inverse of `xs`.
* `lookup` — the finite map that the vector stores.

For each way of changing the vector (exchange of two items, append, overwrite in place, removal
of the last item) the file has one lemma on `Located`, one on `Inverse` and one on `lookup`.
-/

set_option autoImplicit false

namespace KeyedVector

variable {α κ : Type}

/-- Every item is recorded at its position. -/
def Located (key : α → κ) (xs : List α) (idx : κ → Option Nat) : Prop :=
  ∀ i x, xs[i]? = some x → idx (key x) = some i

/-- `idx` is exactly the inverse of `xs`. -/
def Inverse (key : α → κ) (xs : List α) (idx : κ → Option Nat) : Prop :=
  ∀ k i, idx k = some i ↔ ∃ x, xs[i]? = some x ∧ key x = k

/-- The map from keys to items read off the vector. -/
def lookup [DecidableEq κ] (key : α → κ) (xs : List α) (k : κ) : Option α := xs.find? (fun x => key x = k)

/-- The items at positions `i` and `j` change places. -/
def exchange (xs : List α) (i j : Nat) (a b : α) : List α := (xs.set i b).set j a

variable {key : α → κ} {xs : List α} {idx : κ → Option Nat}

/-! ## Located vectors -/

theorem Inverse.located (h : Inverse key xs idx) : Located key xs idx :=
  fun i x hx => (h (key x) i).2 ⟨x, hx, rfl⟩

theorem Located.pos_eq (h : Located key xs idx) {i j : Nat} {x y : α} (hx : xs[i]? = some x)
    (hy : xs[j]? = some y) (hk : key x = key y) : i = j := by
  have h1 := h i x hx
  rw [hk, h j y hy] at h1
  exact (Option.some.inj h1).symm

theorem Located.eq_of_key (h : Located key xs idx) {x y : α} (hx : x ∈ xs) (hy : y ∈ xs)
    (hk : key x = key y) : x = y := by
  obtain ⟨i, hi⟩ := List.mem_iff_getElem?.1 hx
  obtain ⟨j, hj⟩ := List.mem_iff_getElem?.1 hy
  have := h.pos_eq hi hj hk
  subst this
  rw [hi] at hj
  exact Option.some.inj hj

theorem Located.nodup (h : Located key xs idx) : (xs.map key).Nodup := by
  rw [List.nodup_iff_getElem?_ne_getElem?]
  intro i j hij hj heq
  rw [List.getElem?_map, List.getElem?_map] at heq
  rw [List.length_map] at hj
  have hi : i < xs.length := Nat.lt_trans hij hj
  rw [List.getElem?_eq_getElem hi, List.getElem?_eq_getElem hj] at heq
  have := h.pos_eq (List.getElem?_eq_getElem hi) (List.getElem?_eq_getElem hj)
    (Option.some.inj heq)
  omega

theorem Inverse.isSome_iff (h : Inverse key xs idx) (k : κ) :
    (∃ i, idx k = some i) ↔ k ∈ xs.map key := by
  constructor
  · rintro ⟨i, hi⟩
    obtain ⟨x, hx, rfl⟩ := (h k i).1 hi
    exact List.mem_map_of_mem (List.mem_of_getElem? hx)
  · intro hk
    obtain ⟨x, hx, rfl⟩ := List.mem_map.1 hk
    obtain ⟨i, hi⟩ := List.mem_iff_getElem?.1 hx
    exact ⟨i, h.located i x hi⟩

/-- `Inverse` is `Located` with no key recorded that no item has. -/
theorem inverse_iff : Inverse key xs idx ↔
    Located key xs idx ∧ ∀ k i, idx k = some i → k ∈ xs.map key := by
  constructor
  · intro h
    exact ⟨h.located, fun k i hi => (h.isSome_iff k).1 ⟨i, hi⟩⟩
  · rintro ⟨hl, hk⟩ k i
    constructor
    · intro hi
      obtain ⟨x, hx, rfl⟩ := List.mem_map.1 (hk k i hi)
      obtain ⟨j, hj⟩ := List.mem_iff_getElem?.1 hx
      have := hl j x hj
      rw [hi] at this
      cases this
      exact ⟨x, hj, rfl⟩
    · rintro ⟨x, hx, rfl⟩
      exact hl i x hx

/-! ## Overwriting in place -/

/-- Overwriting the slot that the index records for the new item's key. -/
theorem Located.set (h : Located key xs idx) {i : Nat} {x : α} (hidx : idx (key x) = some i) :
    Located key (xs.set i x) idx := by
  intro j y hy
  rw [List.getElem?_set] at hy
  split at hy
  · rename_i hij
    split at hy
    · cases hy; rw [hidx, hij]
    · cases hy
  · exact h j y hy

theorem Inverse.set (h : Inverse key xs idx) {i : Nat} {x : α} (hidx : idx (key x) = some i) :
    Inverse key (xs.set i x) idx := by
  refine inverse_iff.2 ⟨h.located.set hidx, fun k p hp => ?_⟩
  obtain ⟨y, hy, rfl⟩ := (h k p).1 hp
  by_cases hip : i = p
  · subst hip
    obtain ⟨z, hz, hzk⟩ := (h (key x) i).1 hidx
    rw [hy] at hz
    cases hz
    rw [hzk]
    exact List.mem_map_of_mem (List.mem_iff_getElem?.2
      ⟨i, List.getElem?_set_self (List.getElem?_eq_some_iff.1 hy).1⟩)
  · exact List.mem_map_of_mem (List.mem_iff_getElem?.2 ⟨p, by rw [List.getElem?_set_ne hip, hy]⟩)

/-! ## Exchange of two items -/

theorem getElem?_exchange {i j : Nat} {a b : α} (hi : xs[i]? = some a) (hj : xs[j]? = some b)
    (k : Nat) :
    (exchange xs i j a b)[k]? = if k = j then some a else if k = i then some b else xs[k]? := by
  have hil := (List.getElem?_eq_some_iff.1 hi).1
  have hjl := (List.getElem?_eq_some_iff.1 hj).1
  unfold exchange
  by_cases hkj : k = j
  · subst hkj
    rw [if_pos rfl, List.getElem?_set_self (by simpa using hjl)]
  · rw [if_neg hkj, List.getElem?_set_ne (fun h => hkj h.symm)]
    by_cases hki : k = i
    · subst hki
      rw [if_pos rfl, List.getElem?_set_self hil]
    · rw [if_neg hki, List.getElem?_set_ne (fun h => hki h.symm)]

theorem exchange_perm {i j : Nat} {a b : α} (hi : xs[i]? = some a) (hj : xs[j]? = some b) :
    (exchange xs i j a b).Perm xs := by
  obtain ⟨hil, rfl⟩ := List.getElem?_eq_some_iff.1 hi
  obtain ⟨hjl, rfl⟩ := List.getElem?_eq_some_iff.1 hj
  exact List.set_set_perm hil hjl

section Index

variable [DecidableEq κ]

/-- The index after an exchange: the two keys are recorded at their new positions. -/
def reindex (idx : κ → Option Nat) (key : α → κ) (i j : Nat) (a b : α) : κ → Option Nat :=
  Function.update (Function.update idx (key b) (some i)) (key a) (some j)

theorem Located.exchange (h : Located key xs idx) {i j : Nat} {a b : α} (hi : xs[i]? = some a)
    (hj : xs[j]? = some b) :
    Located key (exchange xs i j a b) (reindex idx key i j a b) := by
  intro k x hx
  rw [getElem?_exchange hi hj] at hx
  unfold reindex
  split at hx
  · rename_i hk; cases hx; subst hk; simp
  · rename_i hkj
    split at hx
    · rename_i hki
      cases hx; subst hki
      have hne : key b ≠ key a := fun hk => hkj (h.pos_eq hi hj hk.symm)
      simp [hne]
    · rename_i hki
      have hb : key x ≠ key b := fun hk => hkj (h.pos_eq hx hj hk)
      have ha : key x ≠ key a := fun hk => hki (h.pos_eq hx hi hk)
      rw [Function.update_of_ne ha, Function.update_of_ne hb]
      exact h k x hx

theorem Inverse.exchange (h : Inverse key xs idx) {i j : Nat} {a b : α} (hi : xs[i]? = some a)
    (hj : xs[j]? = some b) :
    Inverse key (exchange xs i j a b) (reindex idx key i j a b) := by
  refine inverse_iff.2 ⟨h.located.exchange hi hj, fun k p hp => ?_⟩
  have hmem : ∀ {q x}, xs[q]? = some x → key x ∈ (KeyedVector.exchange xs i j a b).map key :=
    fun hq => List.mem_map_of_mem ((exchange_perm hi hj).mem_iff.2 (List.mem_of_getElem? hq))
  unfold reindex at hp
  by_cases hka : k = key a
  · rw [hka]; exact hmem hi
  · rw [Function.update_of_ne hka] at hp
    by_cases hkb : k = key b
    · rw [hkb]; exact hmem hj
    · rw [Function.update_of_ne hkb] at hp
      obtain ⟨x, hx, rfl⟩ := (h k p).1 hp
      exact hmem hx

/-! ## Append and removal of the last item -/

theorem Located.append (h : Located key xs idx) {x : α} (hnew : idx (key x) = none) :
    Located key (xs ++ [x]) (Function.update idx (key x) (some xs.length)) := by
  intro i y hy
  rw [List.getElem?_append] at hy
  split at hy
  · have hne : key y ≠ key x := fun hk => by
      have := h i y hy
      rw [hk, hnew] at this
      cases this
    rw [Function.update_of_ne hne]
    exact h i y hy
  · rename_i hlen
    obtain ⟨hi, rfl⟩ := List.getElem?_eq_some_iff.1 hy
    simp only [List.length_singleton] at hi
    have : i = xs.length := by omega
    subst this
    simp

theorem Inverse.append (h : Inverse key xs idx) {x : α} (hnew : idx (key x) = none) :
    Inverse key (xs ++ [x]) (Function.update idx (key x) (some xs.length)) := by
  refine inverse_iff.2 ⟨h.located.append hnew, fun k i hi => ?_⟩
  by_cases hk : k = key x
  · simp [hk]
  · rw [Function.update_of_ne hk] at hi
    rw [List.map_append]
    exact List.mem_append_left _ ((h.isSome_iff k).1 ⟨i, hi⟩)

theorem Located.pop {x : α} (h : Located key (xs ++ [x]) idx) :
    Located key xs (Function.update idx (key x) none) := by
  intro i y hy
  have hi : i < xs.length := (List.getElem?_eq_some_iff.1 hy).1
  have hy' : (xs ++ [x])[i]? = some y := by rw [List.getElem?_append_left hi, hy]
  have hx' : (xs ++ [x])[xs.length]? = some x := by simp
  have hne : key y ≠ key x := fun hk => by
    have := h.pos_eq hy' hx' hk
    omega
  rw [Function.update_of_ne hne]
  exact h i y hy'

theorem Inverse.pop {x : α} (h : Inverse key (xs ++ [x]) idx) :
    Inverse key xs (Function.update idx (key x) none) := by
  refine inverse_iff.2 ⟨h.located.pop, fun k i hi => ?_⟩
  by_cases hk : k = key x
  · rw [hk, Function.update_self] at hi; cases hi
  · rw [Function.update_of_ne hk] at hi
    have := (h.isSome_iff k).1 ⟨i, hi⟩
    rw [List.map_append] at this
    rcases List.mem_append.1 this with hm | hm
    · exact hm
    · simp only [List.map_cons, List.map_nil, List.mem_singleton] at hm
      exact absurd hm hk

/-! ## The stored map -/

theorem lookup_eq_some (h : Located key xs idx) {k : κ} {x : α} :
    lookup key xs k = some x ↔ x ∈ xs ∧ key x = k := by
  unfold lookup
  constructor
  · intro hf
    exact ⟨List.mem_of_find?_eq_some hf, by simpa using List.find?_some hf⟩
  · rintro ⟨hx, rfl⟩
    have hs : (xs.find? (fun y => key y = key x)).isSome :=
      List.find?_isSome.2 ⟨x, hx, by simp⟩
    obtain ⟨y, hy⟩ := Option.isSome_iff_exists.1 hs
    have hyk : key y = key x := by simpa using List.find?_some hy
    rw [hy, h.eq_of_key (List.mem_of_find?_eq_some hy) hx hyk]

theorem lookup_eq_none {k : κ} : lookup key xs k = none ↔ k ∉ xs.map key := by
  unfold lookup
  rw [List.find?_eq_none]
  simp

/-- Two vectors with the same items store the same map. -/
theorem lookup_perm {ys : List α} {idy : κ → Option Nat} (hx : Located key xs idx)
    (hy : Located key ys idy) (hp : ys.Perm xs) : lookup key ys = lookup key xs := by
  funext k
  apply Option.ext
  intro x
  rw [lookup_eq_some hx, lookup_eq_some hy, hp.mem_iff]

theorem lookup_append {x : α} (hnew : key x ∉ xs.map key) :
    lookup key (xs ++ [x]) = Function.update (lookup key xs) (key x) (some x) := by
  funext k
  unfold lookup
  rw [List.find?_append]
  by_cases hk : k = key x
  · subst hk
    have : xs.find? (fun y => key y = key x) = none := lookup_eq_none.2 hnew
    rw [this]
    simp
  · have : [x].find? (fun y => key y = k) = none := by
      simp only [List.find?_singleton, decide_eq_true_eq, ite_eq_right_iff]
      intro he
      exact absurd he.symm hk
    rw [Function.update_of_ne hk, this, Option.or_none]

theorem lookup_remove {ys : List α} {idy : κ → Option Nat} {x : α} (hx : Located key xs idx)
    (hy : Located key ys idy) (hp : (x :: ys).Perm xs) :
    lookup key ys = Function.update (lookup key xs) (key x) none := by
  have hnew : key x ∉ ys.map key := by
    have hn := (hp.map key).nodup_iff.2 hx.nodup
    rw [List.map_cons, List.nodup_cons] at hn
    exact hn.1
  funext k
  by_cases hk : k = key x
  · rw [hk, Function.update_self, lookup_eq_none.2 hnew]
  · rw [Function.update_of_ne hk]
    apply Option.ext
    intro y
    rw [lookup_eq_some hx, lookup_eq_some hy, ← hp.mem_iff, List.mem_cons]
    constructor
    · rintro ⟨hm, rfl⟩; exact ⟨Or.inr hm, rfl⟩
    · rintro ⟨rfl | hm, rfl⟩
      · exact absurd rfl hk
      · exact ⟨hm, rfl⟩

theorem lookup_set (h : Inverse key xs idx) {i : Nat} {x : α} (hidx : idx (key x) = some i) :
    lookup key (xs.set i x) = Function.update (lookup key xs) (key x) (some x) := by
  have hset := (h.set hidx).located
  obtain ⟨a, ha, hka⟩ := (h (key x) i).1 hidx
  have hil := (List.getElem?_eq_some_iff.1 ha).1
  have hxm : x ∈ xs.set i x := List.mem_iff_getElem?.2 ⟨i, List.getElem?_set_self hil⟩
  funext k
  by_cases hk : k = key x
  · rw [hk, Function.update_self]
    exact (lookup_eq_some hset).2 ⟨hxm, rfl⟩
  · rw [Function.update_of_ne hk]
    apply Option.ext
    intro y
    rw [lookup_eq_some hset, lookup_eq_some h.located]
    constructor
    · rintro ⟨hy, rfl⟩
      rcases List.mem_or_eq_of_mem_set hy with hy | rfl
      · exact ⟨hy, rfl⟩
      · exact absurd rfl hk
    · rintro ⟨hy, rfl⟩
      obtain ⟨j, hj⟩ := List.mem_iff_getElem?.1 hy
      have hij : i ≠ j := by
        rintro rfl
        rw [ha] at hj
        cases hj
        exact hk hka
      exact ⟨List.mem_iff_getElem?.2 ⟨j, by rw [List.getElem?_set_ne hij, hj]⟩, rfl⟩

end Index

end KeyedVector
