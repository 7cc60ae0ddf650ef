import Mathlib.Data.List.MinMax
import Mathlib.Data.List.Perm.Basic

/-!
# Priority queues with unspecified ties

A queue is the list of its elements; the top is an element of largest rank.  Which one of
several largest elements is on top is not specified by the interface, so `popTop` takes a
number that decides it, and results about `popTop` hold for every choice.
-/

set_option autoImplicit false

namespace PriorityQueue

variable {α β : Type} [LinearOrder β]

/-- The positions of the elements of largest rank. -/
def tops (rank : α → β) (q : List α) : List Nat :=
  (List.range q.length).filter fun i =>
    (q[i]?).any fun x => q.all fun y => decide (rank y ≤ rank x)

/-- The top element and the queue without it; `tie` selects among equals. -/
def popTop (rank : α → β) (tie : Nat) (q : List α) : Option (α × List α) :=
  match (tops rank q)[tie % (tops rank q).length]? with
  | none => none
  | some i => (q[i]?).map fun x => (x, q.eraseIdx i)

theorem popTop_spec {rank : α → β} {tie : Nat} {q q' : List α} {x : α}
    (h : popTop rank tie q = some (x, q')) :
    (∀ y ∈ q, rank y ≤ rank x) ∧ q.Perm (x :: q') := by
  unfold popTop at h
  split at h
  · cases h
  · rename_i i hi
    have hm := List.mem_of_getElem? hi
    unfold tops at hm
    rw [List.mem_filter, List.mem_range] at hm
    obtain ⟨hlt, hmax⟩ := hm
    rw [List.getElem?_eq_getElem hlt] at h hmax
    simp only [Option.map_some, Option.some.injEq, Prod.mk.injEq, Option.any_some,
      List.all_eq_true, decide_eq_true_eq] at h hmax
    obtain ⟨rfl, rfl⟩ := h
    exact ⟨hmax, (List.getElem_cons_eraseIdx_perm hlt).symm⟩

theorem popTop_mem {rank : α → β} {tie : Nat} {q q' : List α} {x : α}
    (h : popTop rank tie q = some (x, q')) : x ∈ q ∧ ∀ y ∈ q', y ∈ q := by
  have hp := (popTop_spec h).2
  exact ⟨hp.mem_iff.2 List.mem_cons_self, fun y hy => hp.mem_iff.2 (List.mem_cons_of_mem _ hy)⟩

theorem mem_tops {rank : α → β} {q : List α} {i : Nat} :
    i ∈ tops rank q ↔ ∃ x, q[i]? = some x ∧ ∀ y ∈ q, rank y ≤ rank x := by
  unfold tops
  rw [List.mem_filter, List.mem_range]
  constructor
  · rintro ⟨hlt, hmax⟩
    rw [List.getElem?_eq_getElem hlt] at hmax ⊢
    exact ⟨_, rfl, by simpa using hmax⟩
  · rintro ⟨x, hx, hmax⟩
    refine ⟨(List.getElem?_eq_some_iff.1 hx).1, ?_⟩
    rw [hx]
    simpa using hmax

/-- Any element of largest rank can be the top. -/
theorem popTop_choose {rank : α → β} {q : List α} {x : α} (hx : x ∈ q)
    (hmax : ∀ y ∈ q, rank y ≤ rank x) : ∃ tie q', popTop rank tie q = some (x, q') := by
  obtain ⟨i, hi⟩ := List.mem_iff_getElem?.1 hx
  obtain ⟨tie, htie⟩ := List.mem_iff_getElem?.1 (mem_tops.2 ⟨x, hi, hmax⟩)
  have hlt := (List.getElem?_eq_some_iff.1 htie).1
  refine ⟨tie, q.eraseIdx i, ?_⟩
  unfold popTop
  rw [Nat.mod_eq_of_lt hlt, htie]
  simp only [hi, Option.map_some]

/-- A queue that is not empty has a top, however ties are decided. -/
theorem popTop_of_ne_nil (rank : α → β) {q : List α} (hq : q ≠ []) (tie : Nat) :
    ∃ x q', popTop rank tie q = some (x, q') := by
  have hsome : q.argmax rank ≠ none := mt List.argmax_eq_none.1 hq
  obtain ⟨x, hx⟩ := Option.ne_none_iff_exists'.1 hsome
  have hmax : ∀ y ∈ q, rank y ≤ rank x := fun y hy => List.le_of_mem_argmax hy hx
  obtain ⟨i, hi⟩ := List.mem_iff_getElem?.1 (List.argmax_mem hx)
  have hpos : 0 < (tops rank q).length := List.length_pos_of_mem (mem_tops.2 ⟨x, hi, hmax⟩)
  have hlt := Nat.mod_lt tie hpos
  obtain ⟨y, hy, -⟩ := mem_tops.1 (List.getElem_mem hlt)
  refine ⟨y, q.eraseIdx (tops rank q)[tie % (tops rank q).length], ?_⟩
  unfold popTop
  rw [List.getElem?_eq_getElem hlt]
  simp only [hy, Option.map_some]

end PriorityQueue
