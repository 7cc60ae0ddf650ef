import TinyHttpServer.Base.FourHeapMap

/-!
# When the front of the timer heap is the earliest timer

`front()` returns the node in slot `0`.  It is the earliest stored node (`FrontMin`) as long as
no operation needs what the sifts miss:

* `shif_up_` climbs one level only, so a node earlier than the front reaches slot `0` only from
  the slots `1 … 4`;
* `shif_down_(0)` looks at the slots `0 … 3` only, so when slot `0` changes, the earliest node
  must be in one of these.

`HeapOp.Reaches` states this as a condition on the heap before the operation.
`front_min_iff_reaches` shows that it is exact: along every run the front is always the earliest
node if and only if every operation of the run meets the condition.  `descending_front_late` is
the shortest run of insertions that does not.
-/

set_option autoImplicit false

open Checked KeyedVector Machine

namespace FourHeap

variable {Cb : Type} {h h' : FourHeap Cb}

/-- The node returned by `front()` is not later than any stored node. -/
def FrontMin (h : FourHeap Cb) : Prop := ∀ x, h.front = .ok x → ∀ y ∈ h.heap, x.timer ≤ y.timer

/-- Every node is at or after a node in one of the slots `0 … 3`. -/
def EarliestInFirstFour (xs : List (TimerNode Cb)) : Prop :=
  ∀ y ∈ xs, ∃ x ∈ xs.take 4, x.timer ≤ y.timer

/-- `x` is not earlier than the node in slot `0`. -/
def AfterFront (h : FourHeap Cb) (x : TimerNode Cb) : Prop :=
  ∀ r ∈ h.heap.head?, r.timer ≤ x.timer

theorem frontMin_iff {r : TimerNode Cb} (hr : h.heap[0]? = some r) :
    h.FrontMin ↔ ∀ y ∈ h.heap, r.timer ≤ y.timer := by
  unfold FrontMin front
  rw [nth_of_some hr]
  constructor
  · intro hf; exact hf r rfl
  · intro hf x hx; cases hx; exact hf

theorem frontMin_nil (hh : h.heap = []) : h.FrontMin := by
  intro x _ y hy
  rw [hh] at hy
  cases hy

theorem afterFront_iff {r x : TimerNode Cb} (hr : h.heap[0]? = some r) :
    h.AfterFront x ↔ r.timer ≤ x.timer := by
  unfold AfterFront
  rw [List.head?_eq_getElem?, hr]
  simp

/-- With slot `0` in place, changing another slot keeps the front earliest exactly when the new
node is not earlier than it. -/
theorem all_set_iff {xs : List (TimerNode Cb)} {pos : Nat} {r x : TimerNode Cb}
    (hall : ∀ y ∈ xs, r.timer ≤ y.timer) (hpos : pos < xs.length) :
    (∀ y ∈ xs.set pos x, r.timer ≤ y.timer) ↔ r.timer ≤ x.timer := by
  constructor
  · intro hf
    exact hf x (List.mem_iff_getElem?.2 ⟨pos, List.getElem?_set_self hpos⟩)
  · intro hle y hy
    rcases List.mem_or_eq_of_mem_set hy with hy | rfl
    · exact hall y hy
    · exact hle

/-! ## The sifts and slot `0` -/

theorem window_zero (q : Nat) : Window 0 q ↔ q < 4 := by
  unfold Window
  rw [childIndex_eq]
  omega

/-- Sifting slot `0` down. -/
theorem SiftedDown.frontMin_iff_zero {x : TimerNode Cb} {c : Nat} (hs : SiftedDown h h' 0 x c) :
    h'.FrontMin ↔ EarliestInFirstFour h.heap := by
  obtain ⟨q, y, hq, hy, hy', hmin⟩ := hs.slot
  rw [frontMin_iff hy']
  have hmem : ∀ {q z}, q < 4 → h.heap[q]? = some z → z ∈ h.heap.take 4 := fun hq hz =>
    List.mem_iff_getElem?.2 ⟨_, by rw [List.getElem?_take_of_lt hq, hz]⟩
  constructor
  · intro hall z hz
    exact ⟨y, hmem ((window_zero q).1 hq) hy, hall z (hs.sifted.perm.mem_iff.2 hz)⟩
  · intro hall z hz
    obtain ⟨w, hw, hwz⟩ := hall z (hs.sifted.perm.mem_iff.1 hz)
    obtain ⟨k, hk⟩ := List.mem_iff_getElem?.1 hw
    have hk4 : k < 4 := by
      have := lt_of_some hk
      rw [List.length_take] at this
      omega
    rw [List.getElem?_take_of_lt hk4] at hk
    have := hmin k w ((window_zero k).2 hk4) hk
    omega

/-- Sifting another slot down leaves the front alone. -/
theorem SiftedDown.frontMin_iff_succ {pos c : Nat} {r x : TimerNode Cb}
    (hs : SiftedDown h h' (pos + 1) x c) (hr : h.heap[0]? = some r) :
    h'.FrontMin ↔ ∀ y ∈ h.heap, r.timer ≤ y.timer := by
  rw [frontMin_iff (by rw [hs.before 0 (by omega), hr])]
  constructor
  · intro hall y hy; exact hall y (hs.sifted.perm.mem_iff.2 hy)
  · intro hall y hy; exact hall y (hs.sifted.perm.mem_iff.1 hy)

/-- Sifting slot `pos + 1` up, when every other node is at or after the front. -/
theorem shifUp_frontMin_iff {pos c : Nat} {r x : TimerNode Cb} (hr : h.heap[0]? = some r)
    (hx : h.heap[pos + 1]? = some x)
    (hall : ∀ q y, q ≠ pos + 1 → h.heap[q]? = some y → r.timer ≤ y.timer)
    (he : h.shifUp (pos + 1) = .ok (h', c)) :
    h'.FrontMin ↔ pos + 1 ≤ 4 ∨ r.timer ≤ x.timer := by
  have hall' : (∀ y ∈ h.heap, r.timer ≤ y.timer) ↔ r.timer ≤ x.timer := by
    constructor
    · intro hf; exact hf x (List.mem_of_getElem? hx)
    · intro hle y hy
      obtain ⟨q, hq⟩ := List.mem_iff_getElem?.1 hy
      by_cases hqp : q = pos + 1
      · subst hqp; rw [hx] at hq; cases hq; exact hle
      · exact hall q y hqp hq
  obtain ⟨p, hp⟩ := some_of_lt h.heap (show pos / 4 < h.heap.length by
    have := lt_of_some hx
    omega)
  have hrp : r.timer ≤ p.timer := hall (pos / 4) p (by omega) hp
  by_cases hle : p.timer ≤ x.timer
  · rw [shifUp_stay hx hp hle] at he
    cases he
    rw [frontMin_iff hr, hall']
    omega
  · rw [shifUp_move hx hp (by omega)] at he
    cases he
    have hmem := (swapped_sifted hx hp (h := h)).perm
    have hget := swapped_get hx hp (h := h) 0
    by_cases hpos : pos + 1 ≤ 4
    · -- the parent is slot 0: the node becomes the front
      rw [if_pos (by omega)] at hget
      rw [frontMin_iff hget]
      refine ⟨fun _ => Or.inl hpos, fun _ y hy => ?_⟩
      obtain ⟨q, hq⟩ := List.mem_iff_getElem?.1 (hmem.mem_iff.1 hy)
      have hp0 : r = p := by
        have h0 : pos / 4 = 0 := by omega
        rw [h0, hr] at hp
        exact Option.some.inj hp
      subst hp0
      by_cases hqp : q = pos + 1
      · subst hqp; rw [hx] at hq; cases hq; exact Int.le_refl _
      · have := hall q y hqp hq; omega
    · rw [if_neg (by omega), if_neg (by omega), hr] at hget
      rw [frontMin_iff hget]
      constructor
      · intro hf
        exact Or.inr (hf x (hmem.mem_iff.2 (List.mem_of_getElem? hx)))
      · rintro (h4 | hle') y hy
        · exact absurd h4 hpos
        · exact hall'.2 hle' y (hmem.mem_iff.1 hy)

/-- Sifting slot `0` down and then up. -/
theorem shifDownUp_frontMin_iff_zero {x : TimerNode Cb} (hx : h.heap[0]? = some x)
    (he : h.shifDownUp 0 = .ok h') : h'.FrontMin ↔ EarliestInFirstFour h.heap := by
  obtain ⟨h₁, c, he₁, hs⟩ := shifDown_spec hx
  unfold shifDownUp at he
  rw [he₁, ok_bind] at he
  simp only [shifUp_zero, ok_bind, pure_eq_ok, ite_self, Except.ok.injEq] at he
  subst he
  exact hs.frontMin_iff_zero

/-- Sifting slot `pos + 1` down and then up, when every other node is at or after the front. -/
theorem shifDownUp_frontMin_iff_succ {pos : Nat} {r x : TimerNode Cb} (hr : h.heap[0]? = some r)
    (hx : h.heap[pos + 1]? = some x)
    (hall : ∀ q y, q ≠ pos + 1 → h.heap[q]? = some y → r.timer ≤ y.timer)
    (he : h.shifDownUp (pos + 1) = .ok h') :
    h'.FrontMin ↔ pos + 1 ≤ 4 ∨ r.timer ≤ x.timer := by
  obtain ⟨h₁, c, he₁, hs⟩ := shifDown_spec hx
  unfold shifDownUp at he
  rw [he₁, ok_bind] at he
  simp only at he
  split at he
  · rename_i hc
    rw [hs.unmoved hc, bind_eq_ok] at he
    obtain ⟨⟨h₂, c₂⟩, he₂, he⟩ := he
    cases he
    exact shifUp_frontMin_iff hr hx hall he₂
  · rename_i hc
    cases he
    -- the node has moved down past an earlier one, so it is not earlier than the front
    obtain ⟨q, z, hq, hz, hlt⟩ := hs.moved hc
    have hqp : q ≠ pos + 1 := by
      rintro rfl
      rw [hx] at hz; cases hz; omega
    have hrx : r.timer ≤ x.timer := by have := hall q z hqp hz; omega
    rw [hs.frontMin_iff_succ hr]
    refine ⟨fun _ => Or.inr hrx, fun _ y hy => ?_⟩
    obtain ⟨k, hk⟩ := List.mem_iff_getElem?.1 hy
    by_cases hkp : k = pos + 1
    · subst hkp; rw [hx] at hk; cases hk; exact hrx
    · exact hall k y hkp hk

/-! ## The condition -/

/-- Slot `pos` receives `x` and is sifted down, then up. -/
def PlacedReaches (h : FourHeap Cb) (pos : Nat) (x : TimerNode Cb) : Prop :=
  match pos with
  | 0 => EarliestInFirstFour (h.heap.set 0 x)
  | pos + 1 => pos + 1 ≤ 4 ∨ h.AfterFront x

/-- Slot `pos` is changed by `f` and sifted down. -/
def ChangedReaches (h : FourHeap Cb) (pos : Nat) (f : TimerNode Cb → TimerNode Cb) : Prop :=
  match pos with
  | 0 => EarliestInFirstFour (h.heap.modify 0 f)
  | pos + 1 => ∀ x ∈ h.heap[pos + 1]?, h.AfterFront (f x)

/-- Slot `pos` receives the last node, which is then dropped, and is sifted down, then up. -/
def RemovedReaches (h : FourHeap Cb) (pos : Nat) : Prop :=
  match pos with
  | 0 => ∀ last ∈ h.heap.getLast?, EarliestInFirstFour (h.heap.set 0 last).dropLast
  | _ + 1 => True

/-- The condition on an operation, in terms of the heap before it. -/
def HeapOp.Reaches (h : FourHeap Cb) : HeapOp Cb → Prop
  | .push node => h.PlacedReaches ((h.index node.nodeSeq).getD h.heap.length) node
  | .pop => True
  | .remove id => ∀ pos ∈ h.index id, h.RemovedReaches pos
  | .reset id timer => ∀ pos ∈ h.index id, h.ChangedReaches pos (·.setTimerStamp timer)
  | .extend interval id repeat_ =>
    ∀ pos ∈ h.index id, h.ChangedReaches pos (extendNode interval repeat_)

/-- The runs considered: no `pop`, `reset` of a present id to a deadline not earlier than its
current one, `extend` of a present id by a non-negative interval. -/
def HeapOp.Postpones (h : FourHeap Cb) : HeapOp Cb → Prop
  | .push _ => True
  | .pop => False
  | .remove _ => True
  | .reset id timer => ∃ x ∈ h.heap, x.nodeSeq = id ∧ x.timer ≤ timer
  | .extend interval id _ => id ∈ h.ids ∧ 0 ≤ interval

instance (h : FourHeap Cb) : ∀ op : HeapOp Cb, Decidable (op.Postpones h)
  | .push _ => .isTrue trivial
  | .pop => .isFalse id
  | .remove _ => .isTrue trivial
  | .reset id timer => inferInstanceAs (Decidable (∃ x ∈ h.heap, x.nodeSeq = id ∧ x.timer ≤ timer))
  | .extend interval id repeat_ =>
    inferInstanceAs (Decidable ((HeapOp.extend interval id repeat_).Admissible h ∧ 0 ≤ interval))

theorem HeapOp.Postpones.admissible {op : HeapOp Cb} (hp : op.Postpones h) :
    op.Admissible h := by
  cases op with
  | push node => trivial
  | pop => exact hp.elim
  | remove id => trivial
  | reset id timer =>
    obtain ⟨x, hx, rfl, _⟩ := hp
    exact List.mem_map_of_mem hx
  | extend interval id repeat_ => exact hp.1

/-! ## One operation -/

theorem push_frontMin_iff (hi : h.IndexInverse) (hf : h.FrontMin) {node : TimerNode Cb}
    (he : h.push node = .ok h') :
    h'.FrontMin ↔ (HeapOp.push node).Reaches h := by
  simp only [HeapOp.Reaches]
  unfold push at he
  cases hn : h.index node.nodeSeq with
  | none =>
    rw [hn] at he
    simp only [List.length_append, List.length_singleton, Option.getD_none] at he ⊢
    cases hlen : h.heap.length with
    | zero =>
      rw [hlen, if_pos rfl] at he
      cases he
      have hnil := List.length_eq_zero_iff.1 hlen
      refine ⟨fun _ => ?_, fun _ => ?_⟩
      · intro y hy; simp [hnil] at hy
      · rw [frontMin_iff (r := node) (by simp [hnil])]
        simp [hnil]
    | succ pos =>
      rw [hlen, if_neg (by omega), bind_eq_ok] at he
      obtain ⟨⟨h₂, c⟩, he₂, he⟩ := he
      cases he
      obtain ⟨r, hr⟩ := some_of_lt h.heap (show 0 < h.heap.length by omega)
      have hf' := (frontMin_iff hr).1 hf
      have hr' : (h.heap ++ [node])[0]? = some r := by
        rw [List.getElem?_append_left (by omega), hr]
      have hx' : (h.heap ++ [node])[pos + 1]? = some node := by rw [← hlen]; simp
      rw [shifUp_frontMin_iff hr' hx' ?_ he₂]
      · unfold PlacedReaches; rw [afterFront_iff hr]
      · intro q y hq hy
        rcases List.mem_append.1 (List.mem_of_getElem? hy) with hy' | hy'
        · exact hf' y hy'
        · have := lt_of_some hy
          simp only [List.length_append, List.length_singleton] at this
          rw [List.getElem?_append_left (by omega)] at hy
          exact hf' y (List.mem_of_getElem? hy)
  | some pos =>
    rw [hn] at he
    obtain ⟨x, hx, _⟩ := hi.get hn
    have hpos := lt_of_some hx
    simp only [nth_of_some hx, ok_bind, Option.getD_some] at he ⊢
    have hx' : (h.heap.set pos node)[pos]? = some node := List.getElem?_set_self hpos
    cases pos with
    | zero => exact shifDownUp_frontMin_iff_zero hx' he
    | succ pos =>
      obtain ⟨r, hr⟩ := some_of_lt h.heap (show 0 < h.heap.length by omega)
      have hf' := (frontMin_iff hr).1 hf
      rw [shifDownUp_frontMin_iff_succ (r := r) (x := node) ?_ hx' ?_ he]
      · unfold PlacedReaches; rw [afterFront_iff hr]
      · simp only; rw [List.getElem?_set_ne (by omega), hr]
      · intro q y hq hy
        simp only at hy
        rw [List.getElem?_set_ne (Ne.symm hq)] at hy
        exact hf' y (List.mem_of_getElem? hy)

theorem destory_frontMin_iff (hf : h.FrontMin) {pos : Nat} {x : TimerNode Cb}
    (hx : h.heap[pos]? = some x) (he : h.destory pos = .ok h') :
    h'.FrontMin ↔ h.RemovedReaches pos := by
  have hpos := lt_of_some hx
  obtain ⟨last, hlast⟩ := some_of_lt h.heap (show h.heap.length - 1 < h.heap.length by omega)
  obtain ⟨h₂, he₂, hh₂, hr₂⟩ := destory_eq hx hlast
  have hlen : h₂.heap.length = h.heap.length - 1 := by rw [hh₂]; simp
  rw [he₂] at he
  cases pos with
  | zero =>
    have hcond : h.RemovedReaches 0 ↔ EarliestInFirstFour h₂.heap := by
      simp only [RemovedReaches, List.getLast?_eq_getElem?, hlast, Option.mem_some_iff, forall_eq',
        hh₂, List.dropLast_eq_take, List.length_set]
    rw [hcond]
    split at he
    · rename_i hlt
      obtain ⟨y, hy⟩ := some_of_lt h₂.heap hlt
      exact shifDownUp_frontMin_iff_zero hy he
    · cases he
      have hnil : h'.heap = [] := List.length_eq_zero_iff.1 (by omega)
      refine ⟨fun _ => ?_, fun _ => frontMin_nil hnil⟩
      rw [hnil]
      intro y hy
      cases hy
  | succ pos =>
    obtain ⟨r, hr⟩ := some_of_lt h.heap (show 0 < h.heap.length by omega)
    have hf' := (frontMin_iff hr).1 hf
    -- whatever is left was stored before, so nothing is earlier than the front
    have hall : ∀ y ∈ h₂.heap, r.timer ≤ y.timer := fun y hy =>
      hf' y (hr₂.perm.mem_iff.1 (List.mem_cons_of_mem _ hy))
    have hr0 : h₂.heap[0]? = some r := by
      rw [hh₂, List.getElem?_take_of_lt (by omega), List.getElem?_set_ne (by omega), hr]
    refine ⟨fun _ => trivial, fun _ => ?_⟩
    split at he
    · rename_i hlt
      obtain ⟨y, hy⟩ := some_of_lt h₂.heap hlt
      exact (shifDownUp_frontMin_iff_succ hr0 hy
        (fun q z _ hz => hall z (List.mem_of_getElem? hz)) he).2
        (Or.inr (hall y (List.mem_of_getElem? hy)))
    · cases he
      exact (frontMin_iff hr0).2 hall

theorem updateSlot_frontMin_iff (hi : h.IndexInverse) (hf : h.FrontMin) {id : TimerId}
    {f : TimerNode Cb → TimerNode Cb} (hmem : id ∈ h.ids) (he : h.updateSlot id f = .ok h') :
    h'.FrontMin ↔ ∀ pos ∈ h.index id, h.ChangedReaches pos f := by
  obtain ⟨pos, hp⟩ := (Inverse.isSome_iff hi id).2 hmem
  simp only [hp, Option.mem_some_iff, forall_eq']
  obtain ⟨x, hx, _⟩ := hi.get hp
  have hpos := lt_of_some hx
  have hx' : (h.overwritten pos (f x)).heap[pos]? = some (f x) := List.getElem?_set_self hpos
  obtain ⟨h₁, c, he₁, hs⟩ := shifDown_spec hx'
  have : h₁ = h' := by
    unfold updateSlot indexAt at he
    rw [hp] at he
    simp only [nth_of_some hx, ok_bind] at he
    rw [overwritten] at he₁
    rw [he₁] at he
    exact Except.ok.inj he
  subst this
  cases pos with
  | zero =>
    rw [hs.frontMin_iff_zero]
    unfold ChangedReaches
    simp only [overwritten]
    rw [List.modify_eq_set_getElem?, hx]
    rfl
  | succ pos =>
    obtain ⟨r, hr⟩ := some_of_lt h.heap (show 0 < h.heap.length by omega)
    rw [hs.frontMin_iff_succ (r := r) (by
      simp only [overwritten]; rw [List.getElem?_set_ne (by omega), hr])]
    unfold ChangedReaches
    simp only [overwritten]
    rw [all_set_iff ((frontMin_iff hr).1 hf) hpos, hx]
    simp only [Option.mem_some_iff, forall_eq']
    rw [afterFront_iff hr]

/-- **One operation.**  It keeps the front earliest exactly when it meets the condition. -/
theorem step_frontMin_iff (h : FourHeap Cb) (op : HeapOp Cb) (h' : FourHeap Cb)
    (hi : h.IndexInverse) (hp : op.Postpones h) (hf : h.FrontMin) (he : op.step h = .ok h') :
    h'.FrontMin ↔ op.Reaches h := by
  unfold HeapOp.step at he
  rw [bind_eq_ok] at he
  obtain ⟨⟨h₁, b⟩, he, heq⟩ := he
  cases heq
  cases op with
  | push node =>
    simp only [HeapOp.exec, bind_eq_ok] at he
    obtain ⟨h₂, he₂, heq⟩ := he
    cases heq
    exact push_frontMin_iff hi hf he₂
  | pop => exact hp.elim
  | remove id =>
    simp only [HeapOp.exec, bind_eq_ok] at he
    obtain ⟨⟨h₂, b₂⟩, he₂, heq⟩ := he
    cases heq
    simp only [HeapOp.Reaches]
    cases hn : h.index id with
    | none =>
      rw [remove_absent hn] at he₂
      cases he₂
      simpa using hf
    | some pos =>
      obtain ⟨x, hx, _⟩ := hi.get hn
      unfold remove at he₂
      simp only [hn, bind_eq_ok] at he₂
      obtain ⟨h₃, he₃, heq⟩ := he₂
      cases heq
      rw [destory_frontMin_iff hf hx he₃]
      simp
  | reset id timer =>
    simp only [HeapOp.exec, bind_eq_ok] at he
    obtain ⟨h₂, he₂, heq⟩ := he
    cases heq
    exact updateSlot_frontMin_iff hi hf hp.admissible he₂
  | extend interval id repeat_ =>
    simp only [HeapOp.exec, bind_eq_ok] at he
    obtain ⟨h₂, he₂, heq⟩ := he
    cases heq
    exact updateSlot_frontMin_iff hi hf hp.admissible he₂

/-! ## Every run -/

/-- **Exact condition.**  Every run of the considered operations from the empty heap returns,
and the front is the earliest node in all of its states if and only if every operation meets
`HeapOp.Reaches` where it is executed. -/
theorem front_min_iff_reaches (ops : List (HeapOp Cb))
    (hops : Allowed (fun h op => HeapOp.step h op) (fun h op => op.Postpones h) empty ops) :
    (∃ h, run (fun h op => HeapOp.step h op) empty ops = .ok h) ∧
      ((∀ p, p <+: ops → ∀ h, run (fun h op => HeapOp.step h op) empty p = .ok h →
          h.FrontMin) ↔
        (∀ p op, p ++ [op] <+: ops → ∀ h, run (fun h op => HeapOp.step h op) empty p = .ok h →
          op.Reaches h)) := by
  have hstep : ∀ (h : FourHeap Cb) (op : HeapOp Cb), h.IndexInverse → op.Postpones h →
      ∃ h', op.step h = .ok h' ∧ h'.IndexInverse :=
    fun h op hi hp => step_inverse h op hi hp.admissible
  constructor
  · obtain ⟨h, he, _⟩ := run_invariant hstep ops empty empty_indexInverse hops
    exact ⟨h, he⟩
  · exact run_forall_iff hstep
      (fun h op h' hi hp hf he => step_frontMin_iff h op h' hi hp hf he)
      empty_indexInverse (frontMin_nil rfl) hops

/-- A sequence of insertions and a postponement that stay within the condition. -/
def ascending : List (HeapOp Unit) :=
  [.push (.make 1 1 10 () true), .push (.make 2 1 20 () true), .push (.make 3 1 5 () true),
    .push (.make 4 1 40 () true), .push (.make 5 1 50 () true), .push (.make 6 1 60 () true),
    .extend 2 5 false, .remove 3]

theorem front_min_iff_reaches_ascending :
    Allowed (fun h op => HeapOp.step h op) (fun h op => op.Postpones h) empty ascending ∧
      ∃ h, run (fun h op => HeapOp.step h op) empty ascending = .ok h := by
  have hops : Allowed (fun h op => HeapOp.step h op) (fun h op => op.Postpones h) empty
      ascending := by decide +kernel
  exact ⟨hops, (front_min_iff_reaches ascending hops).1⟩

/-- Six timers added with falling deadlines. -/
def descending : List (HeapOp Unit) :=
  [.push (.make 1 1 60 () true), .push (.make 2 1 50 () true), .push (.make 3 1 40 () true),
    .push (.make 4 1 30 () true), .push (.make 5 1 20 () true), .push (.make 6 1 10 () true)]

/-- The sixth node stops in slot `1`: `front()` returns the node of deadline `20` while one of
deadline `10` is stored. -/
theorem descending_front_late :
    Allowed (fun h op => HeapOp.step h op) (fun h op => op.Postpones h) empty descending ∧
      ∃ h x y, run (fun h op => HeapOp.step h op) empty descending = .ok h ∧
        h.front = .ok x ∧ y ∈ h.heap ∧ y.timer < x.timer :=
  ⟨by decide +kernel, _, .make 5 1 20 () true, .make 6 1 10 () true, rfl, rfl,
    by decide +kernel, by decide +kernel⟩

end FourHeap
