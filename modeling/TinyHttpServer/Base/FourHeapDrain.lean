import TinyHttpServer.Base.FourHeapGetK

/-!
# Taking all timers from the heap (`FourHeap::front`, `FourHeap::pop`)

`pop` exchanges slot `0` with the last slot before it calls `destory_` on the last slot.  What
`destory_` sifts is the slot that it has just removed, so slot `0` keeps the node that came from the
end of the vector, and no sift takes place at all.

* `pop_last` — what one `pop` leaves.
* `drain_eq` — the nodes come out as slot `0`, then the slots from the last one down to slot `1`.
* `drain_sorted_iff` — on a heap in the 4-ary order they come out in the order of their deadlines
  if and only if no slot behind slot `0` holds an earlier deadline than a slot further on.
-/

set_option autoImplicit false

open Checked KeyedVector

namespace FourHeap

variable {Cb : Type} {h h' : FourHeap Cb}

/-- `front()` and then `pop()`, until `empty()`; the nodes are collected in `res`. -/
def drainLoop : Nat → FourHeap Cb → List (TimerNode Cb) → Checked (List (TimerNode Cb))
  | 0, _, _ => .error .outOfFuel
  | fuel + 1, h, res =>
    if h.isEmpty then return res
    else do
      let node ← h.front
      let h ← h.pop
      drainLoop fuel h (res ++ [node])

def drain (h : FourHeap Cb) : Checked (List (TimerNode Cb)) := drainLoop (h.heap.length + 1) h []

/-- The nodes in the order of their deadlines. -/
def InOrder (nodes : List (TimerNode Cb)) : Prop := nodes.Pairwise fun x y => x.timer ≤ y.timer

/-! ## One `pop` -/

/-- `destory_` of the last slot drops it and sifts nothing. -/
theorem destory_last {xs : List (TimerNode Cb)} {x : TimerNode Cb} (hx : h.heap = xs ++ [x]) :
    ∃ h', h.destory xs.length = .ok h' ∧ h'.heap = xs := by
  have hlen : h.heap.length - 1 = xs.length := by rw [hx]; simp
  have hslot : h.heap[xs.length]? = some x := by rw [hx]; simp
  obtain ⟨h', he, hh', -⟩ := destory_eq hslot (by rw [hlen]; exact hslot)
  have hheap : h'.heap = xs := by
    rw [hh', hlen, List.take_set_of_le (Nat.le_refl _), hx, List.take_left]
  refine ⟨h', ?_, hheap⟩
  rw [he, hheap, if_neg (Nat.lt_irrefl _)]

/-- `pop` when its exchange leaves `xs` before the node that it removes. -/
theorem pop_eq {x last : TimerNode Cb} {xs : List (TimerNode Cb)} (hx : h.heap[0]? = some x)
    (hlast : h.heap[h.heap.length - 1]? = some last)
    (hswap : exchange h.heap 0 (h.heap.length - 1) x last = xs ++ [x]) :
    ∃ h', h.pop = .ok h' ∧ h'.heap = xs := by
  obtain ⟨h', he, hh'⟩ := destory_last (h := h.swapped 0 (h.heap.length - 1) x last) hswap
  have hlen : (h.swapped 0 (h.heap.length - 1) x last).heap.length = xs.length + 1 := by
    show (exchange h.heap 0 (h.heap.length - 1) x last).length = _
    rw [hswap, List.length_append, List.length_singleton]
  refine ⟨h', ?_, hh'⟩
  unfold pop
  rw [require_of (lt_of_some hx), ok_bind, swap_eq hx hlast, ok_bind, hlen, Nat.add_sub_cancel, he]

/-- **One `pop`.**  The last node takes the place of the first and is not sifted down. -/
theorem pop_last {x last : TimerNode Cb} {xs : List (TimerNode Cb)}
    (hh : h.heap = x :: (xs ++ [last])) : ∃ h', h.pop = .ok h' ∧ h'.heap = last :: xs := by
  have hlen : h.heap.length - 1 = xs.length + 1 := by rw [hh]; simp
  have hfirst : h.heap[0]? = some x := by rw [hh]; rfl
  have hslot : h.heap[h.heap.length - 1]? = some last := by rw [hlen, hh]; simp
  refine pop_eq hfirst hslot ?_
  rw [hlen, hh]
  simp [exchange]

theorem pop_single {x : TimerNode Cb} (hh : h.heap = [x]) :
    ∃ h', h.pop = .ok h' ∧ h'.heap = [] := by
  have hfirst : h.heap[0]? = some x := by rw [hh]; rfl
  have hslot : h.heap[h.heap.length - 1]? = some x := by rw [hh]; rfl
  refine pop_eq hfirst hslot ?_
  rw [hh]
  rfl

/-! ## The whole loop -/

theorem drainLoop_nil (fuel : Nat) (res : List (TimerNode Cb)) (hh : h.heap = []) :
    drainLoop (fuel + 1) h res = .ok res := by
  unfold drainLoop isEmpty
  rw [hh]
  rfl

theorem drainLoop_cons (fuel : Nat) (res : List (TimerNode Cb)) {x : TimerNode Cb}
    {xs : List (TimerNode Cb)} (hh : h.heap = x :: xs) (hpop : h.pop = .ok h') :
    drainLoop (fuel + 1) h res = drainLoop fuel h' (res ++ [x]) := by
  rw [drainLoop, isEmpty, front, hh, hpop]
  rfl

/-- The first node comes out first, the others from the last one on. -/
theorem drainLoop_eq (xs : List (TimerNode Cb)) :
    ∀ (h : FourHeap Cb) (x : TimerNode Cb) (res : List (TimerNode Cb)), h.heap = x :: xs →
      drainLoop (xs.length + 2) h res = .ok (res ++ x :: xs.reverse) := by
  induction xs using List.reverseRecOn with
  | nil =>
    intro h x res hh
    obtain ⟨h', hpop, hh'⟩ := pop_single hh
    rw [drainLoop_cons _ _ hh hpop, drainLoop_nil _ _ hh']
    rfl
  | append_singleton xs last ih =>
    intro h x res hh
    obtain ⟨h', hpop, hh'⟩ := pop_last hh
    rw [drainLoop_cons _ _ hh hpop, List.length_append, List.length_singleton,
      ih h' last (res ++ [x]) hh']
    simp

theorem drain_eq {x : TimerNode Cb} {xs : List (TimerNode Cb)} (hh : h.heap = x :: xs) :
    h.drain = .ok (x :: xs.reverse) := by
  unfold drain
  rw [hh]
  exact drainLoop_eq xs h x [] hh

/-- **Draining by `pop`.**  On every heap in the 4-ary order the loop ends and yields all stored
nodes, each once; they come in the order of their deadlines if and only if the slots behind slot `0`
hold their deadlines from the latest to the earliest. -/
theorem drain_sorted_iff (ho : h.HeapOrdered) (hi : h.IndexInverse) :
    (∃ res, h.drain = .ok res ∧ res.Perm h.heap ∧ (res.map TimerNode.nodeSeq).Nodup ∧
      InOrder res) ↔ h.heap.tail.Pairwise fun x y => y.timer ≤ x.timer := by
  cases hh : h.heap with
  | nil =>
    have hdrain : h.drain = .ok [] := by
      unfold drain
      rw [hh]
      exact drainLoop_nil 0 [] hh
    exact iff_of_true ⟨[], hdrain, List.Perm.refl [], List.nodup_nil, List.Pairwise.nil⟩
      List.Pairwise.nil
  | cons x xs =>
    have hperm : (x :: xs.reverse).Perm h.heap := by
      rw [hh]
      exact (List.reverse_perm xs).cons x
    have hnodup : ((x :: xs.reverse).map TimerNode.nodeSeq).Nodup :=
      (hperm.map TimerNode.nodeSeq).nodup_iff.2 hi.toLocated.nodup
    have hfirst : ∀ y ∈ xs.reverse, x.timer ≤ y.timer := by
      intro y hy
      obtain ⟨i, hget⟩ := List.mem_iff_getElem?.1 (hperm.mem_iff.1 (List.mem_cons_of_mem x hy))
      exact ho.front_le (by rw [hh]; rfl) i y hget
    rw [List.tail_cons, ← List.pairwise_reverse]
    constructor
    · rintro ⟨res, hdrain, -, -, hres⟩
      rw [drain_eq hh] at hdrain
      cases hdrain
      exact (List.pairwise_cons.1 hres).2
    · intro hrest
      exact ⟨_, drain_eq hh, hh ▸ hperm, hnodup, List.pairwise_cons.2 ⟨hfirst, hrest⟩⟩

theorem drain_sorted_sample :
    (pairHeap 1 10).HeapOrdered ∧ (pairHeap 1 10).IndexInverse ∧
      ∃ res, (pairHeap 1 10).drain = .ok res ∧ res.Perm (pairHeap 1 10).heap ∧
        (res.map TimerNode.nodeSeq).Nodup ∧ InOrder res :=
  ⟨pairHeap_ordered (by decide), pairHeap_inverse 1 10,
    (drain_sorted_iff (pairHeap_ordered (by decide)) (pairHeap_inverse 1 10)).2
      (List.pairwise_singleton _ _)⟩

/-- Three timers are added in the order of their deadlines, and the last one comes out before the
second. -/
theorem drain_out_of_order :
    tripleHeap.HeapOrdered ∧ tripleHeap.IndexInverse ∧
      Machine.run (fun h op => HeapOp.step h op) empty
        [.push (.make 1 1 1 () false), .push (.make 2 1 2 () false),
          .push (.make 3 1 10 () false)] = .ok tripleHeap ∧
      tripleHeap.drain.map (List.map TimerNode.timer) = .ok [1, 10, 2] ∧
      ∀ res, tripleHeap.drain = .ok res → ¬ InOrder res := by
  have hdrain := drain_eq (h := tripleHeap) rfl
  refine ⟨tripleHeap_ordered, tripleHeap_inverse, rfl, by rw [hdrain]; rfl, fun res hres hin => ?_⟩
  rw [hdrain] at hres
  cases hres
  have hlast := (List.pairwise_cons.1 (List.pairwise_cons.1 hin).2).1
  exact absurd (hlast _ List.mem_cons_self) (by decide)

end FourHeap
