import TinyHttpServer.Lib.Run
import TinyHttpServer.Base.FourHeapSift

/-!
# The timer heap refines a finite map

Whatever the deadlines are and however badly they are ordered, `FourHeap` stores a finite map
from timer id to node.

* `push_new`, `push_old`, `destory_removed`, `updateSlot_sifted` — one specification for each
  way in which an operation changes the vector, up to a permutation.
* `HeapOp`, `HeapOp.exec` — the public operations; `HeapOp.spec` — their meaning on the map.
* `exec_refines` — one operation: `index_` stays the inverse of `heap_` and the map evolves as
  `HeapOp.spec` says.
* `runs_refine_map` — the same along every run from the empty heap.
-/

set_option autoImplicit false

open Checked KeyedVector Machine

namespace FourHeap

variable {Cb : Type} {h h' : FourHeap Cb}

/-- The map read off `heap_`. -/
def toMap (h : FourHeap Cb) : TimerId → Option (TimerNode Cb) := lookup TimerNode.nodeSeq h.heap

theorem mem_ids_iff {id : TimerId} : id ∈ h.ids ↔ (h.toMap id).isSome := by
  have hnone : h.toMap id = none ↔ id ∉ h.ids := lookup_eq_none
  rw [← not_iff_not, ← hnone, Option.not_isSome_iff_eq_none]

theorem Sifted.toMap_eq (hs : Sifted h h') (hl : h.Located) : h'.toMap = h.toMap :=
  lookup_perm hl (hs.located hl) hs.perm

theorem empty_indexInverse : (empty : FourHeap Cb).IndexInverse := by
  intro k i
  simp [empty]

theorem IndexInverse.index_none (hi : h.IndexInverse) {id : TimerId} :
    h.index id = none ↔ id ∉ h.ids := by
  unfold ids
  rw [← Inverse.isSome_iff hi]
  cases h.index id <;> simp

theorem IndexInverse.get (hi : h.IndexInverse) {id : TimerId} {pos : Nat}
    (hp : h.index id = some pos) : ∃ x, h.heap[pos]? = some x ∧ x.nodeSeq = id :=
  (hi id pos).1 hp

/-! ## One specification for each operation -/

/-- The heap with a new node in a new last slot, before it is sifted. -/
def appended (h : FourHeap Cb) (node : TimerNode Cb) : FourHeap Cb :=
  { heap := h.heap ++ [node], index := Function.update h.index node.nodeSeq (some h.heap.length) }

/-- The heap with slot `pos` overwritten, before it is sifted. -/
def overwritten (h : FourHeap Cb) (pos : Nat) (node : TimerNode Cb) : FourHeap Cb :=
  { h with heap := h.heap.set pos node }

theorem push_new {node : TimerNode Cb} (hn : h.index node.nodeSeq = none) :
    ∃ h', h.push node = .ok h' ∧ Sifted (h.appended node) h' := by
  unfold push
  rw [hn]
  simp only
  split
  · exact ⟨h.appended node, rfl, Sifted.refl _⟩
  · obtain ⟨h', c, he, hs⟩ := shifUp_sifted (h := h.appended node)
      (show h.heap.length < (h.appended node).heap.length by simp [appended])
    exact ⟨h', by rw [appended] at he; rw [he]; rfl, hs⟩

theorem push_old {node : TimerNode Cb} {pos : Nat} (hi : h.index node.nodeSeq = some pos)
    (hpos : pos < h.heap.length) :
    ∃ h', h.push node = .ok h' ∧ h'.heap.length = h.heap.length ∧
      Sifted (h.overwritten pos node) h' := by
  unfold push
  rw [hi]
  obtain ⟨x, hx⟩ := some_of_lt h.heap hpos
  simp only [nth_of_some hx, ok_bind]
  obtain ⟨h', he, hs⟩ := shifDownUp_sifted (h := h.overwritten pos node)
    (show pos < (h.overwritten pos node).heap.length by simpa [overwritten] using hpos)
  exact ⟨h', he, by rw [hs.length_eq]; simp [overwritten], hs⟩

/-- `h'` is `h` without the node `x`. -/
structure Removed (h h' : FourHeap Cb) (x : TimerNode Cb) : Prop where
  perm : (x :: h'.heap).Perm h.heap
  located : h.Located → h'.Located
  inverse : h.IndexInverse → h'.IndexInverse
  absent : ∀ id, id ∉ h.ids → h'.index id = h.index id
  gone : h.Located → h'.index x.nodeSeq = none

theorem Removed.mem_ids {x : TimerNode Cb} (hr : Removed h h' x) {id : TimerId} :
    id ∈ h.ids ↔ id = x.nodeSeq ∨ id ∈ h'.ids := by
  unfold ids
  rw [← (hr.perm.map TimerNode.nodeSeq).mem_iff, List.map_cons, List.mem_cons]

theorem Removed.mem_ids_iff {x : TimerNode Cb} (hr : Removed h h' x) (hl : h.Located)
    {id : TimerId} : id ∈ h'.ids ↔ id ∈ h.ids ∧ id ≠ x.nodeSeq := by
  have hnd := (hr.perm.map TimerNode.nodeSeq).nodup_iff.2 hl.nodup
  rw [List.map_cons, List.nodup_cons] at hnd
  rw [hr.mem_ids]
  constructor
  · intro hid
    exact ⟨.inr hid, fun he => hnd.1 (he ▸ hid)⟩
  · rintro ⟨he | hid, hne⟩
    · exact absurd he hne
    · exact hid

theorem Removed.toMap_eq {x : TimerNode Cb} (hr : Removed h h' x) (hl : h.Located) :
    h'.toMap = Function.update h.toMap x.nodeSeq none :=
  lookup_remove hl (hr.located hl) hr.perm

theorem popBack_removed {x : TimerNode Cb} {xs : List (TimerNode Cb)} (hx : h.heap = xs ++ [x]) :
    ∃ h', h.popBack = .ok h' ∧ h'.heap = xs ∧ Removed h h' x := by
  refine ⟨{ heap := xs, index := Function.update h.index x.nodeSeq none }, ?_, rfl, ?_, ?_, ?_, ?_,
    fun _ => Function.update_self _ _ _⟩
  · unfold popBack
    simp [hx]
  · rw [hx]; exact (List.perm_append_singleton x xs).symm
  · intro hl
    unfold Located at hl ⊢
    rw [hx] at hl
    exact hl.pop
  · intro hi
    unfold IndexInverse at hi ⊢
    rw [hx] at hi
    exact hi.pop
  · intro id hid
    refine Function.update_of_ne (fun he => hid ?_) _ _
    simp [ids, hx, he]

theorem Removed.of_sifted_left {h₁ : FourHeap Cb} {x : TimerNode Cb} (hs : Sifted h h₁)
    (hr : Removed h₁ h' x) : Removed h h' x :=
  ⟨hr.perm.trans hs.perm, fun hl => hr.located (hs.located hl),
    fun hi => hr.inverse (hs.inverse hi), fun id hid => by
      rw [hr.absent id (fun hm => hid (hs.mem_ids.1 hm)), hs.absent id hid],
    fun hl => hr.gone (hs.located hl)⟩

theorem Removed.sifted_right {h₁ : FourHeap Cb} {x : TimerNode Cb} (hr : Removed h h₁ x)
    (hs : Sifted h₁ h') : Removed h h' x :=
  ⟨(hs.perm.cons x).trans hr.perm, fun hl => hs.located (hr.located hl),
    fun hi => hs.inverse (hr.inverse hi), fun id hid => by
      rw [hs.absent id (fun hm => hid (hr.mem_ids.2 (.inr hm))), hr.absent id hid],
    fun hl => by
      rw [hs.absent _ (fun hm => ((hr.mem_ids_iff hl).1 hm).2 rfl), hr.gone hl]⟩

/-- The last slot of a non-empty vector. -/
theorem split_last {xs : List (TimerNode Cb)} {n : Nat} {x : TimerNode Cb}
    (hx : xs[n]? = some x) (hn : n + 1 = xs.length) : xs = xs.take n ++ [x] := by
  have := List.take_append_drop n xs
  rw [List.drop_eq_getElem_cons (by omega), List.drop_eq_nil_of_le (by omega)] at this
  rw [(List.getElem?_eq_some_iff.1 hx).2] at this
  exact this.symm

/-- `destory_(pos)` up to the sifts: the last node takes slot `pos`. -/
theorem destory_eq {pos : Nat} {x last : TimerNode Cb} (hx : h.heap[pos]? = some x)
    (hlast : h.heap[h.heap.length - 1]? = some last) :
    ∃ h₂, h.destory pos = (if pos < h₂.heap.length then h₂.shifDownUp pos else .ok h₂) ∧
      h₂.heap = (h.heap.set pos last).take (h.heap.length - 1) ∧ Removed h h₂ x := by
  have hpos := lt_of_some hx
  -- after the swap the removed node is in the last slot, whether or not a swap took place
  obtain ⟨h₁, he₁, hs₁, hheap, hlast₁⟩ : ∃ h₁,
      (if pos < h.heap.length - 1 then h.swap pos (h.heap.length - 1) else pure h) = .ok h₁ ∧
        Sifted h h₁ ∧ h₁.heap = (h.heap.set pos last).set (h.heap.length - 1) x ∧
        h₁.heap[h.heap.length - 1]? = some x := by
    by_cases hlt : pos < h.heap.length - 1
    · refine ⟨_, by rw [if_pos hlt, swap_eq hx hlast], swapped_sifted hx hlast, rfl, ?_⟩
      rw [swapped_get hx hlast, if_pos rfl]
    · have hpe : pos = h.heap.length - 1 := by omega
      refine ⟨h, by rw [if_neg hlt]; rfl, Sifted.refl h, ?_, by rw [← hpe]; exact hx⟩
      rw [← hpe, List.set_set, ← (List.getElem?_eq_some_iff.1 hx).2, List.set_getElem_self]
  obtain ⟨h₂, he₂, hh₂, hr₂⟩ := popBack_removed
    (split_last hlast₁ (by rw [hs₁.length_eq]; omega))
  refine ⟨h₂, ?_, by rw [hh₂, hheap, List.take_set_of_le (Nat.le_refl _)],
    hr₂.of_sifted_left hs₁⟩
  unfold destory
  rw [if_neg (by omega)]
  simp only
  rw [require_of (by omega), ok_bind, he₁, ok_bind, he₂, ok_bind]
  rfl

theorem destory_removed {pos : Nat} {x : TimerNode Cb} (hx : h.heap[pos]? = some x) :
    ∃ h', h.destory pos = .ok h' ∧ Removed h h' x := by
  have hpos := lt_of_some hx
  obtain ⟨last, hlast⟩ := some_of_lt h.heap (show h.heap.length - 1 < h.heap.length by omega)
  obtain ⟨h₂, he, -, hr⟩ := destory_eq hx hlast
  rw [he]
  split
  · rename_i hlt
    obtain ⟨h₃, he₃, hs₃⟩ := shifDownUp_sifted hlt
    exact ⟨h₃, he₃, hr.sifted_right hs₃⟩
  · exact ⟨h₂, rfl, hr⟩

theorem remove_present {id : TimerId} {pos : Nat} {x : TimerNode Cb} (hi : h.index id = some pos)
    (hx : h.heap[pos]? = some x) : ∃ h', h.remove id = .ok (h', true) ∧ Removed h h' x := by
  obtain ⟨h', he, hr⟩ := destory_removed hx
  unfold remove
  rw [hi]
  simp only [he, ok_bind]
  exact ⟨h', rfl, hr⟩

theorem remove_absent {id : TimerId} (hi : h.index id = none) : h.remove id = .ok (h, false) := by
  unfold remove
  rw [hi]

theorem pop_removed {x : TimerNode Cb} (hx : h.heap[0]? = some x) :
    ∃ h', h.pop = .ok h' ∧ Removed h h' x := by
  have hpos := lt_of_some hx
  obtain ⟨last, hlast⟩ := some_of_lt h.heap (show h.heap.length - 1 < h.heap.length by omega)
  have hs := swapped_sifted hx hlast (h := h)
  have hlen := hs.length_eq
  have hx' : (h.swapped 0 (h.heap.length - 1) x last).heap[h.heap.length - 1]? = some x := by
    rw [swapped_get hx hlast, if_pos rfl]
  obtain ⟨h', he, hr⟩ := destory_removed hx'
  refine ⟨h', ?_, hr.of_sifted_left hs⟩
  unfold pop
  rw [require_of hpos, ok_bind, swap_eq hx hlast, ok_bind, hlen, he]

theorem updateSlot_sifted {id : TimerId} {pos : Nat} {x : TimerNode Cb}
    {f : TimerNode Cb → TimerNode Cb} (hi : h.index id = some pos) (hx : h.heap[pos]? = some x) :
    ∃ h', h.updateSlot id f = .ok h' ∧ Sifted (h.overwritten pos (f x)) h' := by
  have hx' : (h.overwritten pos (f x)).heap[pos]? = some (f x) :=
    List.getElem?_set_self (lt_of_some hx)
  obtain ⟨h', c, he, hs⟩ := shifDown_spec hx'
  unfold updateSlot indexAt
  rw [hi]
  simp only [nth_of_some hx, ok_bind]
  refine ⟨h', ?_, hs.sifted⟩
  rw [overwritten] at he
  rw [he]
  rfl

/-! ## Effect of the vector changes on the map -/

theorem appended_inverse (hi : h.IndexInverse) {node : TimerNode Cb}
    (hn : h.index node.nodeSeq = none) :
    (h.appended node).IndexInverse ∧
      (h.appended node).toMap = Function.update h.toMap node.nodeSeq (some node) :=
  ⟨Inverse.append hi hn, lookup_append (hi.index_none.1 hn)⟩

theorem overwritten_inverse (hi : h.IndexInverse) {node : TimerNode Cb} {pos : Nat}
    (hp : h.index node.nodeSeq = some pos) :
    (h.overwritten pos node).IndexInverse ∧
      (h.overwritten pos node).toMap = Function.update h.toMap node.nodeSeq (some node) :=
  ⟨Inverse.set hi hp, lookup_set hi hp⟩

theorem IndexInverse.toMap_get (hi : h.IndexInverse) {pos : Nat} {x : TimerNode Cb}
    (hx : h.heap[pos]? = some x) : h.toMap x.nodeSeq = some x :=
  (lookup_eq_some hi.toLocated).2 ⟨List.mem_of_getElem? hx, rfl⟩

/-! ## Operations and their meaning -/

/-- The public operations that change the heap. -/
inductive HeapOp (Cb : Type) where
  | push (node : TimerNode Cb)
  | pop
  | remove (id : TimerId)
  | reset (id : TimerId) (timer : Int)
  | extend (interval : Rat) (id : TimerId) (repeat_ : Bool)

namespace HeapOp

/-- Execution on the heap; `remove` answers a `bool`. -/
def exec (h : FourHeap Cb) : HeapOp Cb → Checked (FourHeap Cb × Option Bool)
  | .push node => do return (← h.push node, none)
  | .pop => do return (← h.pop, none)
  | .remove id => do
    let (h, b) ← h.remove id
    return (h, some b)
  | .reset id timer => do return (← h.reset id timer, none)
  | .extend interval id repeat_ => do return (← h.extend interval id repeat_, none)

/-- One step of a run. -/
def step (h : FourHeap Cb) (op : HeapOp Cb) : Checked (FourHeap Cb) := do
  let (h, _) ← op.exec h
  return h

/-- The calls the interface admits: `pop` on a non-empty heap, `reset` and `extend` of a present
id. -/
def Admissible (h : FourHeap Cb) : HeapOp Cb → Prop
  | .push _ => True
  | .pop => h.heap ≠ []
  | .remove _ => True
  | .reset id _ => id ∈ h.ids
  | .extend _ id _ => id ∈ h.ids

instance (h : FourHeap Cb) (op : HeapOp Cb) : Decidable (op.Admissible h) := by
  cases op <;> unfold Admissible <;> infer_instance

/-- The meaning of an operation on the map; `front` is the node that `front()` returns. -/
def spec (front : Option (TimerNode Cb)) (m : TimerId → Option (TimerNode Cb)) :
    HeapOp Cb → (TimerId → Option (TimerNode Cb)) × Option Bool
  | .push node => (Function.update m node.nodeSeq (some node), none)
  | .pop =>
    match front with
    | some x => (Function.update m x.nodeSeq none, none)
    | none => (m, none)
  | .remove id =>
    if (m id).isSome then (Function.update m id none, some true) else (m, some false)
  | .reset id timer =>
    (Function.update m id ((m id).map fun x => { x with timer }), none)
  | .extend interval id repeat_ =>
    (Function.update m id ((m id).map fun x =>
      { x with
        repeat_
        timer := x.timer +
          TimerNode.micro (TimerNode.tarnsMirco (if interval > 0 then interval else x.interval)) }),
      none)

end HeapOp

theorem updateSlot_refines (hi : h.IndexInverse) {id : TimerId} {f : TimerNode Cb → TimerNode Cb}
    (hf : ∀ x, (f x).nodeSeq = x.nodeSeq) (hid : id ∈ h.ids) :
    ∃ h', h.updateSlot id f = .ok h' ∧ h'.IndexInverse ∧
      h'.toMap = Function.update h.toMap id ((h.toMap id).map f) := by
  obtain ⟨pos, hp⟩ := (Inverse.isSome_iff hi id).2 hid
  obtain ⟨x, hx, rfl⟩ := hi.get hp
  obtain ⟨h', he, hs⟩ := updateSlot_sifted (f := f) hp hx
  have hpos : h.index (f x).nodeSeq = some pos := by rw [hf]; exact hp
  obtain ⟨hinv, hmap⟩ := overwritten_inverse hi hpos
  refine ⟨h', he, hs.inverse hinv, ?_⟩
  rw [hs.toMap_eq hinv.toLocated, hmap, hf, hi.toMap_get hx]
  rfl

/-- **One operation.**  It returns, keeps `index_` the inverse of `heap_`, and acts on the map as
its specification says. -/
theorem exec_refines (hi : h.IndexInverse) (op : HeapOp Cb) (hadm : op.Admissible h) :
    ∃ h' r, op.exec h = .ok (h', r) ∧ h'.IndexInverse ∧
      (h'.toMap, r) = op.spec h.heap.head? h.toMap := by
  cases op with
  | push node =>
    cases hn : h.index node.nodeSeq with
    | none =>
      obtain ⟨h', he, hs⟩ := push_new hn
      obtain ⟨hinv, hmap⟩ := appended_inverse hi hn
      refine ⟨h', none, by simp [HeapOp.exec, he], hs.inverse hinv, ?_⟩
      rw [hs.toMap_eq hinv.toLocated, hmap]
      rfl
    | some pos =>
      obtain ⟨x, hx, _⟩ := hi.get hn
      obtain ⟨h', he, _, hs⟩ := push_old hn (lt_of_some hx)
      obtain ⟨hinv, hmap⟩ := overwritten_inverse hi hn
      refine ⟨h', none, by simp [HeapOp.exec, he], hs.inverse hinv, ?_⟩
      rw [hs.toMap_eq hinv.toLocated, hmap]
      rfl
  | pop =>
    obtain ⟨x, hx⟩ := some_of_lt h.heap (List.length_pos_iff.2 hadm)
    obtain ⟨h', he, hr⟩ := pop_removed hx
    refine ⟨h', none, by simp [HeapOp.exec, he], hr.inverse hi, ?_⟩
    rw [List.head?_eq_getElem?, hx, hr.toMap_eq hi.toLocated]
    rfl
  | remove id =>
    cases hn : h.index id with
    | none =>
      refine ⟨h, some false, by simp [HeapOp.exec, remove_absent hn], hi, ?_⟩
      have hmap : h.toMap id = none := lookup_eq_none.2 (hi.index_none.1 hn)
      simp [HeapOp.spec, hmap]
    | some pos =>
      obtain ⟨x, hx, rfl⟩ := hi.get hn
      obtain ⟨h', he, hr⟩ := remove_present hn hx
      refine ⟨h', some true, by simp [HeapOp.exec, he], hr.inverse hi, ?_⟩
      simp [HeapOp.spec, hi.toMap_get hx, hr.toMap_eq hi.toLocated]
  | reset id timer =>
    obtain ⟨h', he, hinv, hmap⟩ := updateSlot_refines hi
      (f := fun node => node.setTimerStamp timer) (fun _ => rfl) hadm
    exact ⟨h', none, by simp [HeapOp.exec, reset, he], hinv, by rw [hmap]; rfl⟩
  | extend interval id repeat_ =>
    obtain ⟨h', he, hinv, hmap⟩ := updateSlot_refines hi (f := extendNode interval repeat_)
      (fun _ => rfl) hadm
    exact ⟨h', none, by simp [HeapOp.exec, extend, he], hinv, by rw [hmap]; rfl⟩

theorem step_inverse (h : FourHeap Cb) (op : HeapOp Cb) (hi : h.IndexInverse)
    (hadm : op.Admissible h) : ∃ h', op.step h = .ok h' ∧ h'.IndexInverse := by
  obtain ⟨h', r, he, hinv, _⟩ := exec_refines hi op hadm
  exact ⟨h', by simp [HeapOp.step, he], hinv⟩

/-- **Every run.**  After any admissible sequence of operations on the empty heap, `index_` is
the inverse of `heap_`, ids are distinct, the map holds exactly the stored nodes, and the next
operation acts on the map as its specification says. -/
theorem runs_refine_map (ops : List (HeapOp Cb))
    (hops : Allowed (fun h op => HeapOp.step h op) (fun h op => op.Admissible h) empty ops) :
    ∃ h, run (fun h op => HeapOp.step h op) empty ops = .ok h ∧
      (∀ id pos, h.index id = some pos ↔ ∃ x, h.heap[pos]? = some x ∧ x.nodeSeq = id) ∧
      (h.heap.map TimerNode.nodeSeq).Nodup ∧
      (∀ x, x ∈ h.heap ↔ h.toMap x.nodeSeq = some x) ∧
      ∀ op : HeapOp Cb, op.Admissible h →
        ∃ h' r, op.exec h = .ok (h', r) ∧ (h'.toMap, r) = op.spec h.heap.head? h.toMap := by
  obtain ⟨h, he, hinv⟩ := run_invariant step_inverse ops empty empty_indexInverse hops
  refine ⟨h, he, hinv, hinv.toLocated.nodup, fun x => ?_, fun op hadm => ?_⟩
  · rw [toMap, lookup_eq_some hinv.toLocated]
    exact ⟨fun hx => ⟨hx, rfl⟩, fun hx => hx.1⟩
  · obtain ⟨h', r, hr, _, hspec⟩ := exec_refines hinv op hadm
    exact ⟨h', r, hr, hspec⟩

/-- A run with every kind of operation, in which the removed front is not the only node. -/
def sampleOps : List (HeapOp Unit) :=
  [.push (.make 1 3 30 () true), .push (.make 2 1 10 () false), .push (.make 3 2 20 () true),
    .extend (1 / 2) 2 true, .reset 3 25, .pop, .remove 7, .remove 2]

theorem runs_refine_map_sample :
    Allowed (fun h op => HeapOp.step h op) (fun h op => op.Admissible h) empty sampleOps ∧
      ∃ h, run (fun h op => HeapOp.step h op) empty sampleOps = .ok h ∧
        (h.heap.map TimerNode.nodeSeq).Nodup := by
  have hops : Allowed (fun h op => HeapOp.step h op) (fun h op => op.Admissible h) empty
      sampleOps := by decide +kernel
  obtain ⟨h, he, _, hn, _⟩ := runs_refine_map sampleOps hops
  exact ⟨hops, h, he, hn⟩

end FourHeap
