import TinyHttpServer.Lib.BestFirst
import TinyHttpServer.Base.FourHeapStale

/-!
# The collection of the expired timers (`FourHeap::get_k`)

`get_k` is a best-first search from slot `0` with two slips.  The priority queue has the latest
deadline on top, so the first node that is still pending ends the search; and the slots that are
looked at behind slot `pos` are `pos / 4 + 1 … pos / 4 + 4`, which leads from the slots `1 … 3`
back to the slots `1 … 4`.  No slot beyond `5` is ever reached.

* `getK_eq_ok_iff` — on a heap whose nodes are found, `get_k` is the search.
* `LoopEnds` — the condition under which the loop is left.
* `getK_ends_iff` — it is exact: the loop ends, however the ties between equal deadlines fall, if
  and only if the condition holds.
* `getK_complete_iff` — what is returned is the expired timers if and only if no timer but the
  front is expired, or nothing is returned at all.
-/

set_option autoImplicit false

open Checked KeyedVector BestFirst

namespace FourHeap

variable {Cb : Type} {h h' : FourHeap Cb} {tie : Nat → Nat} {fuel : Nat} {t : Int}

/-- The 4-ary heap order: the parent of slot `i + 1` is slot `i / 4`. -/
def HeapOrdered (h : FourHeap Cb) : Prop :=
  ∀ i x p, h.heap[i + 1]? = some x → h.heap[i / 4]? = some p → p.timer ≤ x.timer

theorem HeapOrdered.front_le (ho : h.HeapOrdered) {r : TimerNode Cb} (hr : h.heap[0]? = some r)
    (i : Nat) : ∀ x, h.heap[i]? = some x → r.timer ≤ x.timer := by
  induction i using Nat.strongRecOn with
  | ind i ih =>
    intro x hx
    cases i with
    | zero =>
      rw [hr] at hx
      cases hx
      exact Int.le_refl _
    | succ i =>
      obtain ⟨p, hp⟩ := some_of_lt h.heap (show i / 4 < h.heap.length by
        have := lt_of_some hx
        omega)
      exact Int.le_trans (ih (i / 4) (by omega) p hp) (ho i x p hx hp)

/-! ## The search -/

/-- The nodes that `get_k` queues after `node`. -/
def getKNext (h : FourHeap Cb) (node : TimerNode Cb) : List (TimerNode Cb) :=
  h.getKChildren ((h.index node.nodeSeq).getD 0 >>> 2)

theorem mem_getKChildren {top : Nat} {x : TimerNode Cb} :
    x ∈ h.getKChildren top ↔ ∃ k, top < k ∧ k ≤ top + 4 ∧ h.heap[k]? = some x := by
  unfold getKChildren
  rw [List.mem_iff_getElem?]
  constructor
  · rintro ⟨k, hk⟩
    have hk4 : k < 4 := by
      have := lt_of_some hk
      rw [List.length_take] at this
      omega
    rw [List.getElem?_take_of_lt hk4, List.getElem?_drop] at hk
    exact ⟨top + 1 + k, by omega, by omega, hk⟩
  · rintro ⟨k, hlt, hle, hk⟩
    refine ⟨k - (top + 1), ?_⟩
    rw [List.getElem?_take_of_lt (by omega), List.getElem?_drop,
      show top + 1 + (k - (top + 1)) = k by omega, hk]

/-- The slots `1 … 4`: the first three, and slot `4`. -/
theorem forall_mem_getKChildren {P : TimerNode Cb → Prop}
    (hthree : ∀ k z, 1 ≤ k → k ≤ 3 → h.heap[k]? = some z → P z)
    (hfour : ∀ z, h.heap[4]? = some z → P z) : ∀ z ∈ h.getKChildren 0, P z := by
  intro z hz
  obtain ⟨k, hk, hk4, hslot⟩ := mem_getKChildren.1 hz
  by_cases hk3 : k ≤ 3
  · exact hthree k z hk hk3 hslot
  · obtain rfl : k = 4 := by omega
    exact hfour z hslot

theorem getKNext_eq (hl : h.Located) {k : Nat} {x : TimerNode Cb} (hx : h.heap[k]? = some x) :
    h.getKNext x = h.getKChildren (k / 4) := by
  unfold getKNext
  rw [hl k x hx, Option.getD_some, Nat.shiftRight_eq_div_pow]

theorem getKNext_mem {x y : TimerNode Cb} (hy : y ∈ h.getKNext x) : y ∈ h.heap := by
  obtain ⟨k, -, -, hk⟩ := mem_getKChildren.1 hy
  exact List.mem_of_getElem? hk

/-- The loop of `get_k` is the search. -/
theorem getKLoop_eq (hl : h.Located) : ∀ (fuel : Nat) (q res : List (TimerNode Cb)),
    (∀ x ∈ q, x ∈ h.heap) →
      getKLoop tie t fuel h q res =
        (search TimerNode.timer t h.getKNext tie fuel q res).elim (.error .outOfFuel)
          fun res => .ok (res, h)
  | 0, _, _, _ => rfl
  | fuel + 1, q, res, hq => by
    rw [getKLoop, search]
    cases hpop : PriorityQueue.popTop TimerNode.timer (tie fuel) q with
    | none => rfl
    | some top =>
      obtain ⟨x, q'⟩ := top
      obtain ⟨hx, hq'⟩ := PriorityQueue.popTop_mem hpop
      by_cases hlate : t < x.timer
      · simp only [gt_iff_lt, if_pos hlate, Option.elim_some]
      · obtain ⟨k, hk⟩ := List.mem_iff_getElem?.1 (hq x hx)
        have hat : h.indexAt x.nodeSeq = (k, h) := by
          unfold indexAt
          rw [hl k x hk]
        have hmem : ∀ y ∈ q' ++ h.getKNext x, y ∈ h.heap := by
          intro y hy
          rcases List.mem_append.1 hy with hy | hy
          · exact hq y (hq' y hy)
          · exact getKNext_mem hy
        simp only [gt_iff_lt, if_neg hlate, hat]
        rw [Nat.shiftRight_eq_div_pow, ← getKNext_eq hl hk]
        exact getKLoop_eq hl fuel _ _ hmem

/-- **`get_k` is the search from slot `0`.** -/
theorem getK_eq {r : TimerNode Cb} (hl : h.Located) (hr : h.heap[0]? = some r) :
    h.getK tie fuel t =
      (search TimerNode.timer t h.getKNext tie fuel [r] []).elim (.error .outOfFuel)
        fun res => .ok (res, h) := by
  unfold getK
  split
  · rename_i hnil
    rw [hnil] at hr
    cases hr
  · rename_i root rest hheap
    rw [hheap] at hr
    cases hr
    exact getKLoop_eq hl fuel [r] [] (by simp [hheap])

theorem getK_eq_ok_iff {r : TimerNode Cb} {res : List (TimerNode Cb)} (hl : h.Located)
    (hr : h.heap[0]? = some r) :
    h.getK tie fuel t = .ok (res, h') ↔
      search TimerNode.timer t h.getKNext tie fuel [r] [] = some res ∧ h' = h := by
  rw [getK_eq hl hr]
  cases search TimerNode.timer t h.getKNext tie fuel [r] [] with
  | none => simp
  | some found => simp [eq_comm]

/-- What `get_k` returns has expired. -/
theorem getK_due {res : List (TimerNode Cb)} (hl : h.Located)
    (hok : h.getK tie fuel t = .ok (res, h')) : ∀ x ∈ res, x.timer ≤ t := by
  cases hheap : h.heap with
  | nil =>
    unfold getK at hok
    rw [hheap] at hok
    cases hok
    exact fun x hx => absurd hx List.not_mem_nil
  | cons r rest =>
    have hsearch := ((getK_eq_ok_iff hl (by rw [hheap]; rfl)).1 hok).1
    exact search_within fuel [r] [] res (fun x hx => absurd hx List.not_mem_nil) hsearch

theorem getK_nil (hnil : h.heap = []) : h.getK tie fuel t = .ok ([], h) := by
  unfold getK
  rw [hnil]

/-- The first round, when the front is expired. -/
theorem search_front {r : TimerNode Cb} (hl : h.Located) (hr : h.heap[0]? = some r)
    (hle : r.timer ≤ t) :
    search TimerNode.timer t h.getKNext tie (fuel + 1) [r] [] =
      search TimerNode.timer t h.getKNext tie fuel (h.getKChildren 0) [r] := by
  rw [search_singleton hle, getKNext_eq hl hr]
  rfl

/-! ## When the loop is left -/

/-- Slot `5` holds a pending node and is looked at: this takes a pop of slot `4`, so the slots
`1 … 3` have to be `ahead` of it. -/
def LeavesAtFive (ahead : Int → Int → Prop) (h : FourHeap Cb) (t : Int) : Prop :=
  ∃ x y, h.heap[4]? = some x ∧ h.heap[5]? = some y ∧ t < y.timer ∧
    ∀ k z, 1 ≤ k → k ≤ 3 → h.heap[k]? = some z → ahead z.timer x.timer

/-- The front is pending or absent, or it is the only node, or one of the slots `1 … 4` is pending,
or slot `5` is pending and looked at. -/
def LoopEnds (ahead : Int → Int → Prop) (h : FourHeap Cb) (t : Int) : Prop :=
  (∀ r, h.heap[0]? = some r → t < r.timer) ∨ h.heap.length = 1 ∨
    (∃ x ∈ h.getKChildren 0, t < x.timer) ∨ LeavesAtFive ahead h t

/-- Slots `1 … 5` lead to slots `1 … 5`: with none of them pending the search does not end. -/
theorem search_none_of_five (hl : h.Located) (hlen : 1 < h.heap.length)
    (hexp : ∀ k x, 1 ≤ k → k ≤ 5 → h.heap[k]? = some x → x.timer ≤ t)
    (res : List (TimerNode Cb)) :
    search TimerNode.timer t h.getKNext tie fuel (h.getKChildren 0) res = none := by
  have hne : ∀ {top k x}, top < k → h.heap[k]? = some x → h.getKChildren top ≠ [] := by
    intro top k x hlt hk
    obtain ⟨y, hy⟩ := some_of_lt h.heap (show top + 1 < h.heap.length by
      have := lt_of_some hk
      omega)
    exact List.ne_nil_of_mem (mem_getKChildren.2 ⟨top + 1, by omega, by omega, hy⟩)
  refine search_none_of_invariant
    (fun q => q ≠ [] ∧ ∀ x ∈ q, ∃ k, 1 ≤ k ∧ k ≤ 5 ∧ h.heap[k]? = some x)
    (fun q hq => hq.1) ?_ fuel _ res ⟨?_, ?_⟩
  · rintro q x q' ⟨-, hq⟩ - hx hq'
    obtain ⟨k, hk1, hk5, hk⟩ := hq x hx
    refine ⟨hexp k x hk1 hk5 hk, ?_, fun y hy => ?_⟩
    · rw [getKNext_eq hl hk]
      exact List.append_ne_nil_of_right_ne_nil _ (hne (show k / 4 < k by omega) hk)
    · rcases List.mem_append.1 hy with hy | hy
      · exact hq y (hq' y hy)
      · rw [getKNext_eq hl hk] at hy
        obtain ⟨i, hi, hi4, hy⟩ := mem_getKChildren.1 hy
        exact ⟨i, by omega, by omega, hy⟩
  · obtain ⟨x, hx⟩ := some_of_lt h.heap hlen
    exact hne Nat.one_pos hx
  · intro x hx
    obtain ⟨k, hk, hk4, hx⟩ := mem_getKChildren.1 hx
    exact ⟨k, hk, by omega, hx⟩

/-- A node of the slots `1 … 3` later than slot `4` is queued again whenever it is popped, so that
slot `4` is never popped. -/
theorem search_none_of_four (hl : h.Located) (hexp : ∀ x ∈ h.getKChildren 0, x.timer ≤ t)
    {x z : TimerNode Cb} {k : Nat} (hx : h.heap[4]? = some x) (hk : 1 ≤ k) (hk3 : k ≤ 3)
    (hz : h.heap[k]? = some z) (hlt : x.timer < z.timer) (res : List (TimerNode Cb)) :
    search TimerNode.timer t h.getKNext tie fuel (h.getKChildren 0) res = none := by
  have hzmem : z ∈ h.getKChildren 0 := mem_getKChildren.2 ⟨k, hk, by omega, hz⟩
  refine search_none_of_invariant
    (fun q => (∀ y ∈ q, y ∈ h.getKChildren 0) ∧ ∃ y ∈ q, x.timer < y.timer)
    ?_ ?_ fuel _ res ⟨fun y hy => hy, z, hzmem, hlt⟩
  · rintro q ⟨-, y, hy, -⟩
    exact List.ne_nil_of_mem hy
  · rintro q top q' ⟨hq, y, hy, hylt⟩ hmax htop hq'
    have hle := hmax y hy
    obtain ⟨i, hi, hi4, hislot⟩ := mem_getKChildren.1 (hq top htop)
    have hne : i ≠ 4 := by
      rintro rfl
      rw [hx] at hislot
      cases hislot
      omega
    have hnext : h.getKNext top = h.getKChildren 0 := by
      rw [getKNext_eq hl hislot, show i / 4 = 0 by omega]
    refine ⟨hexp top (hq top htop), fun w hw => ?_, z, ?_, hlt⟩
    · rcases List.mem_append.1 hw with hw | hw
      · exact hq w (hq' w hw)
      · rwa [hnext] at hw
    · rw [hnext]
      exact List.mem_append_right _ hzmem

/-- The last node of the slots `1 … 3` in the order of deadlines, if it is not before slot `4`, can
be popped for ever. -/
theorem search_none_of_tie (hl : h.Located) (hexp : ∀ x ∈ h.getKChildren 0, x.timer ≤ t)
    {x z : TimerNode Cb} {k : Nat} (hx : h.heap[4]? = some x) (hk : 1 ≤ k) (hk3 : k ≤ 3)
    (hz : h.heap[k]? = some z) (hle : x.timer ≤ z.timer) (fuel : Nat)
    (res : List (TimerNode Cb)) :
    ∃ tie, search TimerNode.timer t h.getKNext tie fuel (h.getKChildren 0) res = none := by
  obtain ⟨i, w, hi, hi3, hw, hmax⟩ : ∃ i w, 1 ≤ i ∧ i ≤ 3 ∧ h.heap[i]? = some w ∧
      ∀ j y, 1 ≤ j → j ≤ 3 → h.heap[j]? = some y → y.timer ≤ w.timer := by
    have hmem : ∀ j y, 1 ≤ j → j ≤ 3 → h.heap[j]? = some y → y ∈ (h.heap.drop 1).take 3 := by
      intro j y hj hj3 hy
      refine List.mem_iff_getElem?.2 ⟨j - 1, ?_⟩
      rw [List.getElem?_take_of_lt (by omega), List.getElem?_drop,
        show 1 + (j - 1) = j by omega, hy]
    obtain ⟨w, q', hpop⟩ := PriorityQueue.popTop_of_ne_nil TimerNode.timer
      (List.ne_nil_of_mem (hmem k z hk hk3 hz)) 0
    obtain ⟨i, hi⟩ := List.mem_iff_getElem?.1 (PriorityQueue.popTop_mem hpop).1
    have hi3 : i < 3 := by
      have := lt_of_some hi
      rw [List.length_take] at this
      omega
    rw [List.getElem?_take_of_lt hi3, List.getElem?_drop] at hi
    exact ⟨1 + i, w, by omega, by omega, hi, fun j y hj hj3 hy =>
      (PriorityQueue.popTop_spec hpop).1 y (hmem j y hj hj3 hy)⟩
  have hwmem : w ∈ h.getKChildren 0 := mem_getKChildren.2 ⟨i, hi, by omega, hw⟩
  have hnext : h.getKNext w = h.getKChildren 0 := by
    rw [getKNext_eq hl hw, show i / 4 = 0 by omega]
  have hlast : ∀ y ∈ h.getKChildren 0, y.timer ≤ w.timer := by
    refine forall_mem_getKChildren hmax fun y hy => ?_
    rw [hx] at hy
    cases hy
    exact Int.le_trans hle (hmax k z hk hk3 hz)
  exact search_none_of_choice (fun y => y ∈ h.getKChildren 0) (by rw [hnext]; exact hwmem)
    (hexp w hwmem) hlast (fun y hy => by rwa [hnext] at hy) fuel _ res hwmem fun _ hy => hy

theorem not_loopEnds {ahead : Int → Int → Prop} (hends : ¬ LoopEnds ahead h t) :
    (∃ r, h.heap[0]? = some r ∧ r.timer ≤ t) ∧ 1 < h.heap.length ∧
      (∀ x ∈ h.getKChildren 0, x.timer ≤ t) ∧
      ((∀ k x, 1 ≤ k → k ≤ 5 → h.heap[k]? = some x → x.timer ≤ t) ∨
        ∃ x k z, h.heap[4]? = some x ∧ 1 ≤ k ∧ k ≤ 3 ∧ h.heap[k]? = some z ∧
          ¬ ahead z.timer x.timer) := by
  simp only [LoopEnds, not_or, not_forall, not_exists, not_and, Int.not_lt, exists_prop] at hends
  obtain ⟨⟨r, hr, hrt⟩, hlen, hexp, hfive⟩ := hends
  have hpos := lt_of_some hr
  refine ⟨⟨r, hr, hrt⟩, by omega, hexp, ?_⟩
  by_cases hall : ∀ k x, 1 ≤ k → k ≤ 5 → h.heap[k]? = some x → x.timer ≤ t
  · exact .inl hall
  · -- the pending node can only be in slot 5
    right
    push Not at hall
    obtain ⟨k, y, hk, hk5, hy, hlate⟩ := hall
    have hk5 : k = 5 := by
      by_contra hne
      have := hexp y (mem_getKChildren.2 ⟨k, hk, by omega, hy⟩)
      omega
    subst hk5
    obtain ⟨x, hx⟩ := some_of_lt h.heap (show 4 < h.heap.length by
      have := lt_of_some hy
      omega)
    by_contra hnone
    refine hfive ⟨x, y, hx, hy, hlate, fun k z hk hk3 hz => ?_⟩
    by_contra hnot
    exact hnone ⟨x, k, z, hx, hk, hk3, hz, hnot⟩

/-- Out of the condition with ties allowed, `get_k` returns for no choice. -/
theorem getK_outOfFuel (hl : h.Located) (hends : ¬ LoopEnds (· ≤ ·) h t) :
    h.getK tie fuel t = .error .outOfFuel := by
  obtain ⟨⟨front, hfront, hle⟩, hlen, hexp, hcase⟩ := not_loopEnds hends
  rw [getK_eq hl hfront]
  cases fuel with
  | zero => rfl
  | succ fuel =>
    rw [search_front hl hfront hle]
    rcases hcase with hall | ⟨x, k, z, hx, hk, hk3, hz, hlt⟩
    · rw [search_none_of_five hl hlen hall]
      rfl
    · rw [search_none_of_four hl hexp hx hk hk3 hz (by omega)]
      rfl

/-- Out of the strict condition, for every number of iterations there is a choice of ties with which
`get_k` has not returned. -/
theorem getK_outOfFuel_tie (hl : h.Located) (hends : ¬ LoopEnds (· < ·) h t) (fuel : Nat) :
    ∃ tie, h.getK tie fuel t = .error .outOfFuel := by
  obtain ⟨⟨front, hfront, hle⟩, hlen, hexp, hcase⟩ := not_loopEnds hends
  cases fuel with
  | zero => exact ⟨fun _ => 0, by rw [getK_eq hl hfront]; rfl⟩
  | succ fuel =>
    obtain ⟨tie, hnone⟩ : ∃ tie,
        search TimerNode.timer t h.getKNext tie fuel (h.getKChildren 0) [front] = none := by
      rcases hcase with hall | ⟨x, k, z, hx, hk, hk3, hz, hlt⟩
      · exact ⟨fun _ => 0, search_none_of_five hl hlen hall [front]⟩
      · exact search_none_of_tie hl hexp hx hk hk3 hz (by omega) fuel [front]
    refine ⟨tie, ?_⟩
    rw [getK_eq hl hfront, search_front hl hfront hle, hnone]
    rfl

/-- With slot `4` popped and slot `5` pending, the search is over. -/
theorem search_four {x y : TimerNode Cb} (hl : h.Located) (hx : h.heap[4]? = some x)
    (hy : h.heap[5]? = some y) (hlate : t < y.timer) (q res : List (TimerNode Cb)) :
    search TimerNode.timer t h.getKNext tie (fuel + 1) (q ++ h.getKNext x) res = some res := by
  refine search_late (List.mem_append_right _ ?_) hlate
  rw [getKNext_eq hl hx]
  exact mem_getKChildren.2 ⟨5, by omega, by omega, hy⟩

/-- When slot `1 … 4` is pending, or there is no such slot, only the front is collected. -/
theorem getK_front (tie : Nat → Nat) (fuel : Nat) {r : TimerNode Cb} (hl : h.Located)
    (hr : h.heap[0]? = some r) (hle : r.timer ≤ t)
    (hlate : h.heap.length = 1 ∨ ∃ x ∈ h.getKChildren 0, t < x.timer) :
    h.getK tie (fuel + 2) t = .ok ([r], h) := by
  rw [getK_eq_ok_iff hl hr, search_front hl hr hle]
  refine ⟨?_, rfl⟩
  rcases hlate with hlen | ⟨x, hx, hlt⟩
  · have hnil : h.getKChildren 0 = [] := by
      unfold getKChildren
      rw [List.drop_eq_nil_of_le (by omega), List.take_nil]
    rw [hnil, search_nil]
  · exact search_late hx hlt

/-- With slot `4` later than the slots `1 … 3` and slot `5` pending, the front and slot `4` are all
that is collected. -/
theorem getK_five_strict {r x y : TimerNode Cb} (hl : h.Located) (hr : h.heap[0]? = some r)
    (hle : r.timer ≤ t) (hexp : ∀ z ∈ h.getKChildren 0, z.timer ≤ t) (hx : h.heap[4]? = some x)
    (hy : h.heap[5]? = some y) (hlate : t < y.timer)
    (hahead : ∀ k z, 1 ≤ k → k ≤ 3 → h.heap[k]? = some z → z.timer < x.timer)
    (tie : Nat → Nat) : h.getK tie 3 t = .ok ([r, x], h) := by
  have hxmem : x ∈ h.getKChildren 0 := mem_getKChildren.2 ⟨4, by omega, by omega, hx⟩
  obtain ⟨top, q', hpop⟩ := PriorityQueue.popTop_of_ne_nil TimerNode.timer
    (List.ne_nil_of_mem hxmem) (tie 1)
  have hmax := (PriorityQueue.popTop_spec hpop).1 x hxmem
  -- the second pop is slot 4
  have htop : ∀ z ∈ h.getKChildren 0, x.timer ≤ z.timer → z = x := by
    refine forall_mem_getKChildren (fun k z hk hk3 hz hge => ?_) fun z hz _ => ?_
    · have := hahead k z hk hk3 hz
      omega
    · rw [hx] at hz
      exact (Option.some.inj hz).symm
  obtain rfl := htop top (PriorityQueue.popTop_mem hpop).1 hmax
  refine (getK_eq_ok_iff hl hr).2 ⟨?_, rfl⟩
  rw [search_front hl hr hle, search_step hpop (hexp top hxmem), search_four hl hx hy hlate]
  rfl

/-- **When the collection of the expired timers ends.**  On every heap whose nodes are found
through `index_`, whatever the order of the deadlines: the loop of `get_k` ends after finitely many
iterations, however the ties between equal deadlines fall, if and only if `LoopEnds` holds. -/
theorem getK_ends_iff (hi : h.IndexInverse) (t : Int) :
    (∃ fuel, ∀ tie, ∃ r, h.getK tie fuel t = .ok r) ↔ LoopEnds (· < ·) h t := by
  have hl := hi.toLocated
  constructor
  · rintro ⟨fuel, hall⟩
    by_contra hends
    obtain ⟨tie, hnot⟩ := getK_outOfFuel_tie hl hends fuel
    obtain ⟨r, hr⟩ := hall tie
    rw [hnot] at hr
    cases hr
  · intro hends
    cases hr : h.heap[0]? with
    | none => exact ⟨0, fun tie => ⟨_, getK_nil (by simpa using hr)⟩⟩
    | some r =>
      by_cases hlate : t < r.timer
      · refine ⟨1, fun tie => ⟨([], h), (getK_eq_ok_iff hl hr).2 ⟨?_, rfl⟩⟩⟩
        exact search_late List.mem_cons_self hlate
      · have hle : r.timer ≤ t := by omega
        by_cases hone : h.heap.length = 1 ∨ ∃ x ∈ h.getKChildren 0, t < x.timer
        · exact ⟨2, fun tie => ⟨_, getK_front tie 0 hl hr hle hone⟩⟩
        · obtain ⟨x, y, hx, hy, hlt, hahead⟩ : LeavesAtFive (· < ·) h t := by
            rcases hends with hfront | hlen | hchild | hfive
            · exact absurd (hfront r hr) hlate
            · exact absurd (.inl hlen) hone
            · exact absurd (.inr hchild) hone
            · exact hfive
          have hexp : ∀ z ∈ h.getKChildren 0, z.timer ≤ t := by
            intro z hz
            by_contra hnot
            exact hone (.inr ⟨z, hz, by omega⟩)
          exact ⟨3, fun tie => ⟨_, getK_five_strict hl hr hle hexp hx hy hlt hahead tie⟩⟩

/-- Two timers. -/
def pairHeap (a b : Int) : FourHeap Unit :=
  (empty.appended (TimerNode.make 1 1 a () false)).appended (TimerNode.make 2 1 b () false)

theorem pairHeap_inverse (a b : Int) : (pairHeap a b).IndexInverse :=
  (appended_inverse (appended_inverse empty_indexInverse rfl).1 (by rfl)).1

theorem pairHeap_ordered {a b : Int} (hab : a ≤ b) : (pairHeap a b).HeapOrdered := by
  intro i x p hx hp
  cases i with
  | zero =>
    cases hx
    cases hp
    exact hab
  | succ i => cases hx

theorem getK_ends_sample :
    (pairHeap 1 10).IndexInverse ∧ ∃ fuel, ∀ tie, ∃ r, (pairHeap 1 10).getK tie fuel 5 = .ok r :=
  ⟨pairHeap_inverse 1 10, (getK_ends_iff (pairHeap_inverse 1 10) 5).2
    (.inr (.inr (.inl ⟨TimerNode.make 2 1 10 () false, by decide, by decide⟩)))⟩

/-- Two timers that are both expired: the second is popped and queued again for ever. -/
theorem expired_pair_spins :
    (pairHeap 1 2).HeapOrdered ∧ (pairHeap 1 2).IndexInverse ∧
      ∀ tie fuel, (pairHeap 1 2).getK tie fuel 5 = .error .outOfFuel := by
  refine ⟨pairHeap_ordered (by decide), pairHeap_inverse 1 2, fun tie fuel => ?_⟩
  refine getK_outOfFuel (pairHeap_inverse 1 2).toLocated ?_
  rintro (hfront | hlen | ⟨x, hx, hlt⟩ | ⟨x, y, hx, -⟩)
  · exact absurd (hfront _ rfl) (by decide)
  · exact absurd hlen (by decide)
  · have hall : ∀ x ∈ (pairHeap 1 2).getKChildren 0, ¬ 5 < x.timer := by decide
    exact hall x hx hlt
  · cases hx

/-! ## What is returned -/

/-- The expired nodes, each once, and no other. -/
def CollectsExpired (h : FourHeap Cb) (t : Int) (res : List (TimerNode Cb)) : Prop :=
  res.Nodup ∧ ∀ x, x ∈ res ↔ x ∈ h.heap ∧ x.timer ≤ t

theorem CollectsExpired.nil (hlate : ∀ x ∈ h.heap, t < x.timer) : h.CollectsExpired t [] := by
  refine ⟨List.nodup_nil, fun x => ⟨nofun, fun hx => ?_⟩⟩
  have := hlate x hx.1
  omega

theorem CollectsExpired.front {r : TimerNode Cb} {rest : List (TimerNode Cb)}
    (hheap : h.heap = r :: rest) (hle : r.timer ≤ t) (honly : ∀ x ∈ rest, t < x.timer) :
    h.CollectsExpired t [r] := by
  refine ⟨List.nodup_singleton r, fun x => ?_⟩
  rw [List.mem_singleton, hheap]
  constructor
  · rintro rfl
    exact ⟨List.mem_cons_self, hle⟩
  · rintro ⟨hmem, hxt⟩
    rcases List.mem_cons.1 hmem with rfl | hmem
    · rfl
    · have := honly x hmem
      omega

/-- With no node but the front expired, what is returned is complete. -/
theorem collectsExpired_of_tail (hl : h.Located) (honly : ∀ x ∈ h.heap.tail, t < x.timer)
    {res : List (TimerNode Cb)} (hok : h.getK tie fuel t = .ok (res, h')) :
    h.CollectsExpired t res := by
  cases hheap : h.heap with
  | nil =>
    rw [getK_nil hheap] at hok
    cases hok
    exact .nil (by simp [hheap])
  | cons r rest =>
    rw [hheap, List.tail_cons] at honly
    have hr : h.heap[0]? = some r := by rw [hheap]; rfl
    have hsearch := ((getK_eq_ok_iff hl hr).1 hok).1
    by_cases hlate : t < r.timer
    · cases fuel with
      | zero => cases hsearch
      | succ fuel =>
        rw [search_late List.mem_cons_self hlate] at hsearch
        cases hsearch
        refine .nil ?_
        rw [hheap, List.forall_mem_cons]
        exact ⟨hlate, honly⟩
    · have hle : r.timer ≤ t := by omega
      have hone : h.heap.length = 1 ∨ ∃ x ∈ h.getKChildren 0, t < x.timer := by
        cases rest with
        | nil => left; rw [hheap]; rfl
        | cons x rest =>
          right
          exact ⟨x, mem_getKChildren.2 ⟨1, by omega, by omega, by rw [hheap]; rfl⟩,
            honly x List.mem_cons_self⟩
      -- two rounds are needed, and enough
      match fuel with
      | 0 => cases hsearch
      | 1 =>
        rw [search_front hl hr hle] at hsearch
        cases hsearch
      | fuel + 2 =>
        rw [getK_front tie fuel hl hr hle hone] at hok
        cases hok
        exact .front hheap hle honly

/-- With slot `4` as late as the slots `1 … 3` and slot `5` pending, the front and slot `4` can be
all that is collected. -/
theorem getK_five {r x y : TimerNode Cb} (hl : h.Located) (hr : h.heap[0]? = some r)
    (hle : r.timer ≤ t) (hexp : ∀ z ∈ h.getKChildren 0, z.timer ≤ t) (hx : h.heap[4]? = some x)
    (hy : h.heap[5]? = some y) (hlate : t < y.timer)
    (hahead : ∀ k z, 1 ≤ k → k ≤ 3 → h.heap[k]? = some z → z.timer ≤ x.timer) :
    ∃ tie, h.getK tie 3 t = .ok ([r, x], h) := by
  have hxmem : x ∈ h.getKChildren 0 := mem_getKChildren.2 ⟨4, by omega, by omega, hx⟩
  have hmax : ∀ z ∈ h.getKChildren 0, z.timer ≤ x.timer := by
    refine forall_mem_getKChildren hahead fun z hz => ?_
    rw [hx] at hz
    cases hz
    exact Int.le_refl _
  obtain ⟨q', -, hpop⟩ := search_choose h.getKNext hxmem hmax (hexp x hxmem)
  obtain ⟨tie, htie⟩ := hpop (fun _ => 0) 1 [r]
  refine ⟨tie, (getK_eq_ok_iff hl hr).2 ⟨?_, rfl⟩⟩
  rw [search_front hl hr hle, htie, search_four hl hx hy hlate]
  rfl

/-- **When the collection of the expired timers is complete.**  On every heap in the 4-ary order,
with `index_` its inverse: whatever `get_k` returns is the expired nodes, each once, if and only if
no node but the front is expired, or `get_k` does not return. -/
theorem getK_complete_iff (ho : h.HeapOrdered) (hi : h.IndexInverse) (t : Int) :
    (∀ tie fuel res h', h.getK tie fuel t = .ok (res, h') → h.CollectsExpired t res) ↔
      (∀ x ∈ h.heap.tail, t < x.timer) ∨ ¬ LoopEnds (· ≤ ·) h t := by
  have hl := hi.toLocated
  constructor
  · intro hall
    by_contra hnot
    push Not at hnot
    obtain ⟨⟨x, hx, hxt⟩, hends⟩ := hnot
    obtain ⟨k, hk⟩ := List.mem_iff_getElem?.1 hx
    rw [List.getElem?_tail] at hk
    obtain ⟨r, hr⟩ := some_of_lt h.heap (show 0 < h.heap.length by
      have := lt_of_some hk
      omega)
    have hle : r.timer ≤ t := Int.le_trans (ho.front_le hr (k + 1) x hk) hxt
    -- each case leaves out an expired node: no node that is returned has its slot
    have hfound : ∀ {tie fuel res i z}, h.getK tie fuel t = .ok (res, h) → h.heap[i]? = some z →
        z.timer ≤ t → z ∈ res := fun hok hz hzt =>
      ((hall _ _ _ _ hok).2 _).2 ⟨List.mem_of_getElem? hz, hzt⟩
    by_cases hone : h.heap.length = 1 ∨ ∃ x ∈ h.getKChildren 0, t < x.timer
    · have hmem := hfound (getK_front (fun _ => 0) 0 hl hr hle hone) hk hxt
      rw [List.mem_singleton.1 hmem] at hk
      have := KeyedVector.Located.pos_eq hl hk hr rfl
      omega
    · obtain ⟨y, z, hy, hz, hlate, hahead⟩ : LeavesAtFive (· ≤ ·) h t := by
        rcases hends with hfront | hlen | hchild | hfive
        · exact absurd (hfront r hr) (by omega)
        · exact absurd (.inl hlen) hone
        · exact absurd (.inr hchild) hone
        · exact hfive
      have hexp : ∀ x ∈ h.getKChildren 0, x.timer ≤ t := by
        intro w hw
        by_contra hlt
        exact hone (.inr ⟨w, hw, by omega⟩)
      obtain ⟨tie, hok⟩ := getK_five hl hr hle hexp hy hz hlate hahead
      obtain ⟨v, hv⟩ := some_of_lt h.heap (show 1 < h.heap.length by
        have := lt_of_some hy
        omega)
      have hmem := hfound hok hv (hexp v (mem_getKChildren.2 ⟨1, by omega, by omega, hv⟩))
      rcases List.mem_pair.1 hmem with rfl | rfl
      · have := KeyedVector.Located.pos_eq hl hv hr rfl
        omega
      · have := KeyedVector.Located.pos_eq hl hv hy rfl
        omega
  · rintro (honly | hends) tie fuel res h' hok
    · exact collectsExpired_of_tail hl honly hok
    · rw [getK_outOfFuel hl hends] at hok
      cases hok

theorem getK_complete_sample :
    (pairHeap 1 10).HeapOrdered ∧ (pairHeap 1 10).IndexInverse ∧
      ∀ tie fuel res h', (pairHeap 1 10).getK tie fuel 5 = .ok (res, h') →
        (pairHeap 1 10).CollectsExpired 5 res :=
  ⟨pairHeap_ordered (by decide), pairHeap_inverse 1 10,
    (getK_complete_iff (pairHeap_ordered (by decide)) (pairHeap_inverse 1 10) 5).2
      (.inl (by decide))⟩

/-- Three timers of which two are expired: the one that is still pending ends the search before the
second is looked at. -/
def tripleHeap : FourHeap Unit := (pairHeap 1 2).appended (TimerNode.make 3 1 10 () false)

theorem tripleHeap_inverse : tripleHeap.IndexInverse :=
  (appended_inverse (pairHeap_inverse 1 2) (by rfl)).1

theorem tripleHeap_ordered : tripleHeap.HeapOrdered := by
  intro i x p hx hp
  match i with
  | 0 => cases hx; cases hp; decide
  | 1 => cases hx; cases hp; decide
  | i + 2 => cases hx

theorem expired_timer_missed :
    tripleHeap.HeapOrdered ∧ tripleHeap.IndexInverse ∧
      ∃ tie fuel res, tripleHeap.getK tie fuel 5 = .ok (res, tripleHeap) ∧
        ¬ tripleHeap.CollectsExpired 5 res := by
  refine ⟨tripleHeap_ordered, tripleHeap_inverse, fun _ => 0, 2, [TimerNode.make 1 1 1 () false],
    getK_front _ 0 tripleHeap_inverse.toLocated rfl (by decide)
      (.inr ⟨TimerNode.make 3 1 10 () false, by decide, by decide⟩), fun hc => ?_⟩
  have hmem := (hc.2 (TimerNode.make 2 1 2 () false)).2 (by decide)
  exact absurd hmem (by decide)

end FourHeap
