import TinyHttpServer.Base.FourHeap

/-!
# What the sifts of the timer heap do

`shifDown` and `shifUp` return on every heap and every slot inside it, whatever the deadlines
are.  They only exchange nodes (`Sifted`: the nodes are permuted and the index keeps up), so
every fact about which nodes are stored is untouched by them.  The rest of the file says where
the node in the sifted slot goes:

* `shifDown_spec` — slots before `pos` are untouched, and slot `pos` ends with the earliest of
  the nodes in `pos` and in `8 * pos … 8 * pos + 3`; if no node was exchanged the heap is as before;
* `shifUp_zero`, `shifUp_stay`, `shifUp_move` — the node climbs at most one level.
-/

set_option autoImplicit false

open Checked KeyedVector

namespace FourHeap

variable {Cb : Type} {h h' h'' : FourHeap Cb}

/-- Every stored node is found through `index_`. -/
def Located (h : FourHeap Cb) : Prop := KeyedVector.Located TimerNode.nodeSeq h.heap h.index

/-- `index_` is exactly the inverse of `heap_`. -/
def IndexInverse (h : FourHeap Cb) : Prop :=
  KeyedVector.Inverse TimerNode.nodeSeq h.heap h.index

theorem IndexInverse.toLocated (hi : h.IndexInverse) : h.Located := Inverse.located hi

/-- The ids of the stored nodes. -/
def ids (h : FourHeap Cb) : List TimerId := h.heap.map TimerNode.nodeSeq

/-- `h'` holds the nodes of `h` in another order, with the index adjusted for them and for no
other id. -/
structure Sifted (h h' : FourHeap Cb) : Prop where
  perm : h'.heap.Perm h.heap
  located : h.Located → h'.Located
  inverse : h.IndexInverse → h'.IndexInverse
  absent : ∀ id, id ∉ h.ids → h'.index id = h.index id

theorem Sifted.refl (h : FourHeap Cb) : Sifted h h := ⟨List.Perm.refl _, id, id, fun _ _ => rfl⟩

theorem Sifted.mem_ids (hs : Sifted h h') {id : TimerId} : id ∈ h'.ids ↔ id ∈ h.ids :=
  (hs.perm.map TimerNode.nodeSeq).mem_iff

theorem Sifted.trans (h₁ : Sifted h h') (h₂ : Sifted h' h'') : Sifted h h'' :=
  ⟨h₂.perm.trans h₁.perm, fun hl => h₂.located (h₁.located hl),
    fun hi => h₂.inverse (h₁.inverse hi), fun id hid => by
      rw [h₂.absent id (fun hm => hid (h₁.mem_ids.1 hm)), h₁.absent id hid]⟩

theorem Sifted.length_eq (hs : Sifted h h') : h'.heap.length = h.heap.length := hs.perm.length_eq

theorem some_of_lt (xs : List (TimerNode Cb)) {i : Nat} (hi : i < xs.length) :
    ∃ x, xs[i]? = some x := ⟨xs[i], List.getElem?_eq_getElem hi⟩

theorem lt_of_some {xs : List (TimerNode Cb)} {i : Nat} {x : TimerNode Cb}
    (hi : xs[i]? = some x) : i < xs.length := (List.getElem?_eq_some_iff.1 hi).1

/-! ## `swap_` -/

/-- The heap after `swap_(l, r)`, `a` and `b` being the nodes in the two slots. -/
def swapped (h : FourHeap Cb) (l r : Nat) (a b : TimerNode Cb) : FourHeap Cb :=
  { heap := exchange h.heap l r a b, index := reindex h.index TimerNode.nodeSeq l r a b }

theorem swap_eq {l r : Nat} {a b : TimerNode Cb} (hl : h.heap[l]? = some a)
    (hr : h.heap[r]? = some b) : h.swap l r = .ok (h.swapped l r a b) := by
  unfold swap
  rw [nth_of_some hl, nth_of_some hr]
  rfl

theorem swapped_sifted {l r : Nat} {a b : TimerNode Cb} (hl : h.heap[l]? = some a)
    (hr : h.heap[r]? = some b) : Sifted h (h.swapped l r a b) :=
  ⟨exchange_perm hl hr, fun hloc => Located.exchange hloc hl hr,
    fun hinv => Inverse.exchange hinv hl hr, fun id hid => by
      have hne : ∀ {k : Nat} {x : TimerNode Cb}, h.heap[k]? = some x → id ≠ x.nodeSeq := fun hx he =>
        hid (he ▸ List.mem_map_of_mem (List.mem_of_getElem? hx))
      show reindex h.index TimerNode.nodeSeq l r a b id = h.index id
      rw [reindex, Function.update_of_ne (hne hl), Function.update_of_ne (hne hr)]⟩

theorem swapped_get {l r : Nat} {a b : TimerNode Cb} (hl : h.heap[l]? = some a)
    (hr : h.heap[r]? = some b) (k : Nat) :
    (h.swapped l r a b).heap[k]? =
      if k = r then some a else if k = l then some b else h.heap[k]? :=
  getElem?_exchange hl hr k

/-! ## `shif_down_` -/

/-- The scan keeps its candidate, or finds the earliest node of the window. -/
theorem scanMini_spec (heap : List (TimerNode Cb)) :
    ∀ (m k : Nat) (mini : Int) (acc : Option Nat),
      (scanMini heap m k mini acc = acc ∧
        ∀ q y, k ≤ q → q < k + m → heap[q]? = some y → mini ≤ y.timer) ∨
      (∃ p x, scanMini heap m k mini acc = some p ∧ k ≤ p ∧ p < k + m ∧ heap[p]? = some x ∧
        x.timer < mini ∧ ∀ q y, k ≤ q → q < k + m → heap[q]? = some y → x.timer ≤ y.timer)
  | 0, k, mini, acc => by
    left
    exact ⟨rfl, fun q y h1 h2 => by omega⟩
  | m + 1, k, mini, acc => by
    unfold scanMini
    split
    · rename_i hk
      -- the window ends with the vector
      left
      refine ⟨rfl, fun q y h1 _ hq => ?_⟩
      have h3 := lt_of_some hq
      rw [List.getElem?_eq_none_iff] at hk
      omega
    · rename_i x hk
      have hsplit : ∀ q, k ≤ q → q < k + (m + 1) → q = k ∨ (k + 1 ≤ q ∧ q < k + 1 + m) := by omega
      split
      · rename_i hlt
        right
        rcases scanMini_spec heap m (k + 1) x.timer (some k) with
          ⟨he, hall⟩ | ⟨p, z, he, h1, h2, hz, hlt', hall⟩
        · refine ⟨k, x, he, by omega, by omega, hk, hlt, fun q y hq1 hq2 hq => ?_⟩
          rcases hsplit q hq1 hq2 with rfl | ⟨h3, h4⟩
          · rw [hk] at hq; cases hq; exact Int.le_refl _
          · exact hall q y h3 h4 hq
        · refine ⟨p, z, he, by omega, by omega, hz, by omega, fun q y hq1 hq2 hq => ?_⟩
          rcases hsplit q hq1 hq2 with rfl | ⟨h3, h4⟩
          · rw [hk] at hq; cases hq; omega
          · exact hall q y h3 h4 hq
      · rename_i hge
        rcases scanMini_spec heap m (k + 1) mini acc with ⟨he, hall⟩ | ⟨p, z, he, h1, h2, hz, hlt', hall⟩
        · left
          refine ⟨he, fun q y hq1 hq2 hq => ?_⟩
          rcases hsplit q hq1 hq2 with rfl | ⟨h3, h4⟩
          · rw [hk] at hq; cases hq; omega
          · exact hall q y h3 h4 hq
        · right
          refine ⟨p, z, he, by omega, by omega, hz, hlt', fun q y hq1 hq2 hq => ?_⟩
          rcases hsplit q hq1 hq2 with rfl | ⟨h3, h4⟩
          · rw [hk] at hq; cases hq; omega
          · exact hall q y h3 h4 hq

/-- `q` is a slot that `shif_down_` compares with slot `i`, or `i` itself. -/
def Window (i q : Nat) : Prop := q = i ∨ (childIndex i ≤ q ∧ q < childIndex i + 4)

/-- What sifting slot `i` down does, `x` being the node in it and `cnt` the number of swaps. -/
structure SiftedDown (h h' : FourHeap Cb) (i : Nat) (x : TimerNode Cb) (cnt : Nat) : Prop where
  sifted : Sifted h h'
  before : ∀ k < i, h'.heap[k]? = h.heap[k]?
  slot : ∃ q y, Window i q ∧ h.heap[q]? = some y ∧ h'.heap[i]? = some y ∧
    ∀ r z, Window i r → h.heap[r]? = some z → y.timer ≤ z.timer
  unmoved : cnt = 0 → h' = h
  moved : cnt ≠ 0 → ∃ q z, Window i q ∧ h.heap[q]? = some z ∧ z.timer < x.timer

theorem shifDownLoop_spec :
    ∀ (fuel : Nat) (h : FourHeap Cb) (i cnt : Nat) (x : TimerNode Cb), h.heap[i]? = some x →
      h.heap.length < fuel + i →
      ∃ h' c, shifDownLoop fuel h i (childIndex i) cnt = .ok (h', cnt + c) ∧
        SiftedDown h h' i x c
  | 0, h, i, cnt, x, hx, hf => by have := lt_of_some hx; omega
  | fuel + 1, h, i, cnt, x, hx, hf => by
    unfold shifDownLoop
    have hstay : (∀ q z, Window i q → h.heap[q]? = some z → x.timer ≤ z.timer) →
        SiftedDown h h i x 0 := fun hall =>
      ⟨Sifted.refl h, fun _ _ => rfl, ⟨i, x, Or.inl rfl, hx, hx, hall⟩, fun _ => rfl,
        fun hc => absurd rfl hc⟩
    split
    · rename_i hj
      rw [nth_of_some hx, ok_bind]
      rcases scanMini_spec h.heap 4 (childIndex i) x.timer none with
        ⟨he, hall⟩ | ⟨p, z, he, h1, h2, hz, hlt, hall⟩
      · -- no earlier node in the window
        rw [he]
        refine ⟨h, 0, rfl, hstay fun q w hq hw => ?_⟩
        rcases hq with rfl | ⟨hq1, hq2⟩
        · rw [hx] at hw; cases hw; exact Int.le_refl _
        · exact hall q w hq1 hq2 hw
      · rw [he]
        simp only
        rw [swap_eq hx hz, ok_bind]
        -- the window of slot 0 contains slot 0, but the node found there is strictly earlier
        have hip : i < p := by
          rw [childIndex_eq] at h1
          by_contra hle
          have : p = i := by omega
          subst this
          rw [hx] at hz; cases hz; omega
        have hget := swapped_get hx hz (h := h)
        have hsw := swapped_sifted hx hz (h := h)
        have hp : (h.swapped i p x z).heap[p]? = some x := by rw [hget, if_pos rfl]
        obtain ⟨h', c, heq, hs⟩ := shifDownLoop_spec fuel (h.swapped i p x z) p (cnt + 1) x hp
          (by rw [hsw.length_eq]; omega)
        refine ⟨h', c + 1, by rw [heq]; congr 2; omega, ?_⟩
        have hi' : h'.heap[i]? = some z := by
          rw [hs.before i hip, hget, if_neg (by omega), if_pos rfl]
        refine ⟨hsw.trans hs.sifted, ?_, ?_, fun hc => by omega, fun _ => ?_⟩
        · intro k hk
          rw [hs.before k (by omega), hget, if_neg (by omega), if_neg (by omega)]
        · refine ⟨p, z, Or.inr ⟨h1, h2⟩, hz, hi', fun r w hr hw => ?_⟩
          rcases hr with rfl | ⟨hr1, hr2⟩
          · rw [hx] at hw; cases hw; omega
          · exact hall r w hr1 hr2 hw
        · exact ⟨p, z, Or.inr ⟨h1, h2⟩, hz, hlt⟩
    · rename_i hj
      refine ⟨h, 0, rfl, hstay fun q w hq hw => ?_⟩
      rcases hq with rfl | ⟨hq1, hq2⟩
      · rw [hx] at hw; cases hw; exact Int.le_refl _
      · have := lt_of_some hw; omega

theorem shifDown_spec {pos : Nat} {x : TimerNode Cb} (hx : h.heap[pos]? = some x) :
    ∃ h' c, h.shifDown pos = .ok (h', c) ∧ SiftedDown h h' pos x c := by
  obtain ⟨h', c, heq, hs⟩ := shifDownLoop_spec (h.heap.length + 1) h pos 0 x hx (by omega)
  exact ⟨h', c, by rw [shifDown, heq, Nat.zero_add], hs⟩

/-! ## `shif_up_` -/

theorem shifUp_zero (h : FourHeap Cb) : h.shifUp 0 = .ok (h, 0) := by
  unfold shifUp shifUpLoop
  rw [parentIndex_zero, if_neg (by decide)]
  rfl

theorem shifUp_stay {pos : Nat} {x p : TimerNode Cb} (hx : h.heap[pos + 1]? = some x)
    (hp : h.heap[pos / 4]? = some p) (hle : p.timer ≤ x.timer) :
    h.shifUp (pos + 1) = .ok (h, 0) := by
  unfold shifUp shifUpLoop
  rw [parentIndex_succ, if_pos (by omega), Int.toNat_natCast, nth_of_some hp, ok_bind,
    nth_of_some hx, ok_bind, if_pos (by simpa [TimerNode.le] using hle)]
  rfl

/-- The node changes places with its parent and stops there, however early it is. -/
theorem shifUp_move {pos : Nat} {x p : TimerNode Cb} (hx : h.heap[pos + 1]? = some x)
    (hp : h.heap[pos / 4]? = some p) (hlt : x.timer < p.timer) :
    h.shifUp (pos + 1) = .ok (h.swapped (pos + 1) (pos / 4) x p, 1) := by
  have hget := swapped_get hx hp (h := h) (pos / 4)
  rw [if_pos rfl] at hget
  obtain ⟨n, hn⟩ : ∃ n, h.heap.length = n + 1 :=
    ⟨h.heap.length - 1, by have := lt_of_some hx; omega⟩
  unfold shifUp shifUpLoop
  rw [parentIndex_succ, if_pos (by omega), Int.toNat_natCast, nth_of_some hp, ok_bind,
    nth_of_some hx, ok_bind, if_neg (by simpa [TimerNode.le] using hlt), swap_eq hx hp, ok_bind,
    hn, shifUpLoop, parentIndex_succ, if_pos (by omega), Int.toNat_natCast, nth_of_some hget,
    ok_bind, ok_bind, if_pos (by simp [TimerNode.le])]
  rfl

theorem shifUp_sifted {pos : Nat} (hpos : pos < h.heap.length) :
    ∃ h' c, h.shifUp pos = .ok (h', c) ∧ Sifted h h' := by
  cases pos with
  | zero => exact ⟨h, 0, shifUp_zero h, Sifted.refl h⟩
  | succ pos =>
    obtain ⟨x, hx⟩ := some_of_lt h.heap hpos
    obtain ⟨p, hp⟩ := some_of_lt h.heap (show pos / 4 < h.heap.length by omega)
    by_cases hle : p.timer ≤ x.timer
    · exact ⟨h, 0, shifUp_stay hx hp hle, Sifted.refl h⟩
    · exact ⟨_, 1, shifUp_move hx hp (by omega), swapped_sifted hx hp⟩

/-- Both sifts together permute the nodes. -/
theorem shifDownUp_sifted {pos : Nat} (hpos : pos < h.heap.length) :
    ∃ h', h.shifDownUp pos = .ok h' ∧ Sifted h h' := by
  obtain ⟨x, hx⟩ := some_of_lt h.heap hpos
  obtain ⟨h₁, c, he, hs⟩ := shifDown_spec hx
  unfold shifDownUp
  rw [he, ok_bind]
  simp only
  split
  · rename_i hc
    rw [hs.unmoved hc]
    obtain ⟨h₂, c₂, he₂, hs₂⟩ := shifUp_sifted hpos
    rw [he₂]
    exact ⟨h₂, rfl, hs₂⟩
  · exact ⟨h₁, rfl, hs.sifted⟩

/-- Timers of the given deadlines in the slots `0, 1, …`, each with its slot as its id. -/
def ofDeadlines (timers : List Int) : FourHeap Unit :=
  { heap := timers.mapIdx fun i t => TimerNode.make i 1 t () false
    index := fun id => if 0 ≤ id ∧ id < timers.length then some id.toNat else none }

end FourHeap
