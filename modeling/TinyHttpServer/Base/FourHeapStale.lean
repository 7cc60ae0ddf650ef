import TinyHttpServer.Base.FourHeapMap

/-!
# Heaps whose index has stale entries

`index_[id]` on an absent id records slot `0` for it, so `index_` can come to hold ids that no
node has.  What survives is `Located`: every stored node is still found through `index_`.  The
lemmas below say what each operation does to such a heap, if it returns: which ids are stored
afterwards, and which entries of `index_` are touched.
-/

set_option autoImplicit false

open Checked KeyedVector

namespace FourHeap

variable {Cb : Type} {h h' : FourHeap Cb}

theorem Located.index_ne_none (hl : h.Located) {id : TimerId} (hid : id ∈ h.ids) :
    ∃ pos x, h.index id = some pos ∧ h.heap[pos]? = some x ∧ x.nodeSeq = id := by
  obtain ⟨x, hx, rfl⟩ := List.mem_map.1 hid
  obtain ⟨pos, hpos⟩ := List.mem_iff_getElem?.1 hx
  exact ⟨pos, x, hl pos x hpos, hpos, rfl⟩

theorem Located.not_mem (hl : h.Located) {id : TimerId} (hn : h.index id = none) : id ∉ h.ids := by
  intro hid
  obtain ⟨pos, x, hp, -, -⟩ := hl.index_ne_none hid
  rw [hn] at hp
  cases hp

/-- The node at the slot that `index_` has for a stored id is the node of that id. -/
theorem Located.at_index (hl : h.Located) {id : TimerId} {pos : Nat} {x : TimerNode Cb}
    (hid : id ∈ h.ids) (hp : h.index id = some pos) (hx : h.heap[pos]? = some x) :
    x.nodeSeq = id := by
  obtain ⟨q, y, hq, hy, rfl⟩ := hl.index_ne_none hid
  rw [hp] at hq
  cases hq
  rw [hx] at hy
  cases hy
  rfl

/-- What an operation that stores no new node leaves in place. -/
structure Shrunk (h h' : FourHeap Cb) : Prop where
  located : h'.Located
  ids_subset : ∀ id, id ∈ h'.ids → id ∈ h.ids
  stale : ∀ id, id ∉ h.ids → (h.index id).isSome → (h'.index id).isSome

theorem Shrunk.refl (hl : h.Located) : Shrunk h h := ⟨hl, fun _ hid => hid, fun _ _ hs => hs⟩

theorem Shrunk.trans {h₁ h₂ h₃ : FourHeap Cb} (ha : Shrunk h₁ h₂) (hb : Shrunk h₂ h₃) :
    Shrunk h₁ h₃ :=
  ⟨hb.located, fun id hid => ha.ids_subset id (hb.ids_subset id hid), fun id hid hs =>
    hb.stale id (fun hm => hid (ha.ids_subset id hm)) (ha.stale id hid hs)⟩

/-- `remove` of any id: afterwards no node has the id. -/
theorem remove_located (hl : h.Located) {id : TimerId} {b : Bool} (he : h.remove id = .ok (h', b)) :
    Shrunk h h' ∧ id ∉ h'.ids := by
  unfold remove at he
  split at he
  · rename_i hn
    cases he
    exact ⟨Shrunk.refl hl, hl.not_mem hn⟩
  · rename_i pos hp
    rw [bind_eq_ok] at he
    obtain ⟨h₁, he₁, he⟩ := he
    cases he
    -- the slot is inside the vector, or `destory_` would have stopped
    have hpos : pos < h.heap.length := by
      unfold destory at he₁
      split at he₁
      · cases he₁
      · rw [bind_eq_ok] at he₁
        obtain ⟨_, hreq, _⟩ := he₁
        have := require_eq_ok.1 hreq
        omega
    obtain ⟨x, hx⟩ := some_of_lt h.heap hpos
    obtain ⟨h₂, he₂, hr⟩ := destory_removed hx
    rw [he₂] at he₁
    cases he₁
    have hloc := hr.located hl
    refine ⟨⟨hloc, fun k hk => hr.mem_ids.2 (.inr hk), fun k hk hs => by rwa [hr.absent k hk]⟩, ?_⟩
    intro hid
    obtain ⟨hmem, hne⟩ := (hr.mem_ids_iff hl).1 hid
    exact hne (hl.at_index hmem hp hx).symm

/-- What `reset` and `extend` of any id leave in place: the same ids are stored, the id has an entry
of `index_`, and no other entry comes or goes. -/
structure Updated (h h' : FourHeap Cb) (id : TimerId) : Prop where
  located : h'.Located
  mem_ids : ∀ k, k ∈ h'.ids ↔ k ∈ h.ids
  isSome : (h'.index id).isSome
  absent : ∀ k, k ∉ h.ids → k ≠ id → h'.index k = h.index k

theorem Updated.shrunk {id : TimerId} (hu : Updated h h' id) : Shrunk h h' := by
  refine ⟨hu.located, fun k hk => (hu.mem_ids k).1 hk, fun k hk hs => ?_⟩
  by_cases hkid : k = id
  · subst hkid; exact hu.isSome
  · rw [hu.absent k hk hkid]; exact hs

/-- `index_[id]`: the vector stays, and so does every other entry. -/
theorem indexAt_spec (hl : h.Located) (id : TimerId) :
    ∃ pos h₁, h.indexAt id = (pos, h₁) ∧ h₁.Located ∧ h₁.heap = h.heap ∧
      (h₁.index id).isSome ∧ ∀ k, k ≠ id → h₁.index k = h.index k := by
  unfold indexAt
  split
  · rename_i pos hp
    exact ⟨pos, h, rfl, hl, rfl, by rw [hp]; rfl, fun _ _ => rfl⟩
  · rename_i hn
    refine ⟨0, _, rfl, ?_, rfl, by simp, fun k hk => Function.update_of_ne hk _ _⟩
    intro i x hx
    have hne : x.nodeSeq ≠ id := fun hxe =>
      hl.not_mem hn (hxe ▸ List.mem_map_of_mem (List.mem_of_getElem? hx))
    simp only
    rw [Function.update_of_ne hne]
    exact hl i x hx

/-- Overwriting a node by one of the same id. -/
theorem overwritten_ids {pos : Nat} {x y : TimerNode Cb} (hx : h.heap[pos]? = some x)
    (hy : y.nodeSeq = x.nodeSeq) : (h.overwritten pos y).ids = h.ids := by
  unfold ids overwritten
  rw [List.map_set, hy]
  apply List.ext_getElem?
  intro k
  rw [List.getElem?_set, List.getElem?_map]
  split
  · rename_i hk
    subst hk
    rw [hx, if_pos (by simpa using lt_of_some hx)]
    rfl
  · rfl

theorem updateSlot_updated (hl : h.Located) {id : TimerId} {f : TimerNode Cb → TimerNode Cb}
    (hf : ∀ x, (f x).nodeSeq = x.nodeSeq) (he : h.updateSlot id f = .ok h') :
    Updated h h' id := by
  obtain ⟨pos, h₁, hat, hl₁, hheap, hsome, hkeep⟩ := indexAt_spec hl id
  unfold updateSlot at he
  rw [hat] at he
  simp only at he
  rw [bind_eq_ok] at he
  obtain ⟨x, hx, he⟩ := he
  rw [nth_eq_ok] at hx
  have hx' : (h₁.overwritten pos (f x)).heap[pos]? = some (f x) :=
    List.getElem?_set_self (lt_of_some hx)
  obtain ⟨h₂, c, hd, hs⟩ := shifDown_spec hx'
  rw [overwritten] at hd
  rw [hd] at he
  cases he
  have hloc : (h₁.overwritten pos (f x)).Located :=
    KeyedVector.Located.set hl₁ (by rw [hf]; exact hl₁ pos x hx)
  have hids : (h₁.overwritten pos (f x)).ids = h.ids := by
    rw [overwritten_ids hx (hf x), ids, ids, hheap]
  have hidx : (h₁.overwritten pos (f x)).index = h₁.index := rfl
  have hsift := hs.sifted
  refine ⟨hsift.located hloc, fun k => ?_, ?_, fun k hk hkid => ?_⟩
  · rw [hsift.mem_ids, hids]
  · by_cases hid : id ∈ h.ids
    · have : id ∈ h₂.ids := hsift.mem_ids.2 (by rw [hids]; exact hid)
      obtain ⟨p, y, hp, -, -⟩ := (hsift.located hloc).index_ne_none this
      rw [hp]; rfl
    · rw [hsift.absent id (by rw [hids]; exact hid), hidx]
      exact hsome
  · rw [hsift.absent k (by rw [hids]; exact hk), hidx]
    exact hkeep k hkid

theorem reset_updated (hl : h.Located) {id : TimerId} {timer : Int}
    (he : h.reset id timer = .ok h') : Updated h h' id :=
  updateSlot_updated (f := fun node => node.setTimerStamp timer) hl (fun _ => rfl) he

theorem extend_located (hl : h.Located) {interval : Rat} {id : TimerId} {repeat_ : Bool}
    (he : h.extend interval id repeat_ = .ok h') : Shrunk h h' :=
  (updateSlot_updated (f := extendNode interval repeat_) hl (fun _ => rfl) he).shrunk

/-- `push` stores no id but the node's own. -/
theorem push_located (hl : h.Located) {node : TimerNode Cb} (he : h.push node = .ok h') :
    h'.Located ∧ ∀ id, id ∈ h'.ids → id ∈ h.ids ∨ id = node.nodeSeq := by
  cases hn : h.index node.nodeSeq with
  | none =>
    obtain ⟨h₁, he₁, hs⟩ := push_new hn
    rw [he] at he₁
    cases he₁
    refine ⟨hs.located (KeyedVector.Located.append hl hn), fun id hid => ?_⟩
    have := hs.mem_ids.1 hid
    simpa [ids, appended] using this
  | some pos =>
    have hpos : pos < h.heap.length := by
      unfold push at he
      rw [hn] at he
      simp only at he
      rw [bind_eq_ok] at he
      obtain ⟨x, hx, -⟩ := he
      exact lt_of_some (nth_eq_ok.1 hx)
    obtain ⟨h₁, he₁, -, hs⟩ := push_old hn hpos
    rw [he] at he₁
    cases he₁
    refine ⟨hs.located (KeyedVector.Located.set hl hn), fun id hid => ?_⟩
    obtain ⟨y, hy, rfl⟩ := List.mem_map.1 (hs.mem_ids.1 hid)
    rcases List.mem_or_eq_of_mem_set hy with hy | rfl
    · exact .inl (List.mem_map_of_mem hy)
    · exact .inr rfl

/-! ## `get_k` -/

/-- On a heap whose nodes are found, `get_k` changes nothing and returns stored nodes. -/
theorem getKLoop_mem {tie : Nat → Nat} {timer : Int} (hl : h.Located) :
    ∀ (fuel : Nat) (q res batch : List (TimerNode Cb)), (∀ x ∈ q, x ∈ h.heap) →
      (∀ x ∈ res, x ∈ h.heap) → getKLoop tie timer fuel h q res = .ok (batch, h') →
      h' = h ∧ ∀ x ∈ batch, x ∈ h.heap
  | 0, q, res, batch, _, _, he => by cases he
  | fuel + 1, q, res, batch, hq, hres, he => by
    unfold getKLoop at he
    split at he
    · cases he
      exact ⟨rfl, hres⟩
    · rename_i node rest hpop
      obtain ⟨hnode, hrest⟩ := PriorityQueue.popTop_mem hpop
      split at he
      · cases he
        exact ⟨rfl, hres⟩
      · obtain ⟨pos, x, hp, -, -⟩ := hl.index_ne_none
          (List.mem_map_of_mem (f := TimerNode.nodeSeq) (hq node hnode))
        have hat : h.indexAt node.nodeSeq = (pos, h) := by
          unfold indexAt; rw [hp]
        rw [hat] at he
        refine getKLoop_mem hl fuel _ _ batch ?_ ?_ he
        · intro y hy
          rcases List.mem_append.1 hy with hy | hy
          · exact hq y (hrest y hy)
          · exact List.mem_of_mem_drop (List.mem_of_mem_take hy)
        · intro y hy
          rcases List.mem_append.1 hy with hy | hy
          · exact hres y hy
          · rw [List.mem_singleton.1 hy]; exact hq node hnode

theorem getK_mem {tie : Nat → Nat} {fuel : Nat} {timer : Int} {batch : List (TimerNode Cb)}
    (hl : h.Located) (he : h.getK tie fuel timer = .ok (batch, h')) :
    h' = h ∧ ∀ x ∈ batch, x ∈ h.heap := by
  unfold getK at he
  split at he
  · cases he
    exact ⟨rfl, by simp⟩
  · rename_i root rest hheap
    exact getKLoop_mem hl fuel [root] [] batch (by simp [hheap]) (by simp) he

end FourHeap
