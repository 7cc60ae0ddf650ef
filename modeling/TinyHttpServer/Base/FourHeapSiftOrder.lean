import TinyHttpServer.Lib.HeapOrder
import TinyHttpServer.Base.FourHeapGetK
import Mathlib.Logic.Relation

/-!
# When the sifts restore the order of the heap

The heap order is 4-ary: the parent of slot `i + 1` is slot `i / 4`.

* `shif_up_` moves the node one level up and stops there, since `j` is computed from `pos` again.
  `shifUp_order_iff`: from a heap in which only the node of slot `pos` may be too early, the order is
  restored if and only if that node is not earlier than its grandparent.
* `shif_down_` looks at the slots `8 * i … 8 * i + 3` for the children of slot `i`, which are the slots
  `4 * i + 1 … 4 * i + 4`.  `Finds` is one step of its path, `Passed` the slots of the path, and
  `shifDown_carried` says where the nodes of these slots go.  `shifDown_order_iff`: the order of the
  subtree is restored if and only if the slots looked at fit the children and the parent of every slot
  passed (`WindowFits`).
-/

set_option autoImplicit false

open Checked KeyedVector HeapOrder

namespace FourHeap

variable {Cb : Type} {h h' : FourHeap Cb} {pos : Nat} {t : Int}

/-- The deadline of the node in a slot. -/
def key (h : FourHeap Cb) (k : Nat) : Option Int := (h.heap[k]?).map TimerNode.timer

theorem key_of_some {k : Nat} {x : TimerNode Cb} (hx : h.heap[k]? = some x) :
    h.key k = some x.timer := by
  unfold key
  rw [hx]
  rfl

theorem key_eq_some {k : Nat} {a : Int} :
    h.key k = some a ↔ ∃ x, h.heap[k]? = some x ∧ x.timer = a := Option.map_eq_some_iff

theorem key_eq_none {k : Nat} (hk : h.heap.length ≤ k) : h.key k = none := by
  unfold key
  rw [List.getElem?_eq_none hk]
  rfl

theorem swapped_key {l r : Nat} {a b : TimerNode Cb} (hl : h.heap[l]? = some a)
    (hr : h.heap[r]? = some b) (k : Nat) :
    (h.swapped l r a b).key k =
      if k = r then some a.timer else if k = l then some b.timer else h.key k := by
  unfold key
  rw [swapped_get hl hr]
  split
  · rfl
  · split <;> rfl

theorem heapOrdered_iff : h.HeapOrdered ↔ Ordered 4 h.key := by
  constructor
  · intro ho i a b ha hb
    obtain ⟨x, hx, rfl⟩ := key_eq_some.1 ha
    obtain ⟨p, hp, rfl⟩ := key_eq_some.1 hb
    exact ho i x p hx hp
  · intro ho i x p hx hp
    exact ho i x.timer p.timer (key_of_some hx) (key_of_some hp)

/-! ## `shif_up_` -/

/-- **When sifting up restores the order**: exactly when the node is not earlier than the parent of its
parent, if there is one. -/
theorem shifUp_order_iff (h : FourHeap Cb) (pos : Nat) (x : TimerNode Cb)
    (hx : h.heap[pos]? = some x) (hole : UpHole 4 h.key pos) :
    ∃ h' cnt, h.shifUp pos = .ok (h', cnt) ∧
      (h'.HeapOrdered ↔
        ∀ g, 4 < pos → h.key (((pos - 1) / 4 - 1) / 4) = some g → g ≤ x.timer) := by
  cases pos with
  | zero =>
    refine ⟨h, 0, shifUp_zero h, iff_of_true ?_ fun g hpos => by omega⟩
    rw [heapOrdered_iff, hole.ordered_iff]
    intro i hi
    omega
  | succ i =>
    rw [Nat.add_sub_cancel]
    obtain ⟨p, hp⟩ := some_of_lt h.heap (show i / 4 < h.heap.length by
      have := lt_of_some hx
      omega)
    have hkx := key_of_some hx
    have hkp := key_of_some hp
    by_cases hle : p.timer ≤ x.timer
    · -- the node stays
      refine ⟨h, 0, shifUp_stay hx hp hle, iff_of_true ?_ fun g hpos hg => ?_⟩
      · rw [heapOrdered_iff, hole.ordered_iff]
        rintro j hj a b ha hb
        obtain rfl : j = i := by omega
        rw [hkx] at ha
        rw [hkp] at hb
        cases ha
        cases hb
        exact hle
      · have hgp := hole.away (i / 4 - 1) (by omega) p.timer g
          (by rw [show i / 4 - 1 + 1 = i / 4 by omega, hkp]) hg
        omega
    · -- the node changes places with its parent, and that is all
      refine ⟨_, 1, shifUp_move hx hp (by omega), ?_⟩
      have hget := swapped_key hx hp (h := h)
      have hup := hole.exchange hkp (by omega) hget
      rw [heapOrdered_iff, hup.ordered_iff]
      have hgrand : ∀ j, j + 1 = i / 4 → (h.swapped (i + 1) (i / 4) x p).key (j / 4) =
          h.key ((i / 4 - 1) / 4) := by
        intro j hj
        rw [hget, if_neg (by omega), if_neg (by omega), show i / 4 - 1 = j by omega]
      constructor
      · intro ho g hpos hg
        have hj : i / 4 - 1 + 1 = i / 4 := by omega
        exact ho (i / 4 - 1) hj x.timer g (by rw [hj, hget, if_pos rfl])
          (by rw [hgrand _ hj, hg])
      · intro hall j hj a g ha hg
        rw [hj, hget, if_pos rfl] at ha
        cases ha
        rw [hgrand j hj] at hg
        exact hall g (by omega) hg

/-- Six timers; only the last one is earlier than its parent, and earlier than slot `0` too. -/
def lateLast : FourHeap Unit := ofDeadlines [10, 11, 12, 13, 14, 1]

theorem lateLast_upHole : UpHole 4 lateLast.key 5 := by
  constructor
  · intro i hi a b ha hb
    obtain ⟨x, hx, rfl⟩ := key_eq_some.1 ha
    have hlt : i + 1 < 6 := lt_of_some hx
    have hcases : i = 0 ∨ i = 1 ∨ i = 2 ∨ i = 3 := by omega
    rcases hcases with rfl | rfl | rfl | rfl <;> cases hx <;> cases hb <;> decide
  · intro i c a b hi hc ha hb
    rw [key_eq_none (by show 6 ≤ c + 1; omega)] at ha
    cases ha

theorem shifUp_order_lateLast :
    ∃ h' cnt, lateLast.shifUp 5 = .ok (h', cnt) ∧
      (h'.HeapOrdered ↔ ∀ g, 4 < 5 → lateLast.key (((5 - 1) / 4 - 1) / 4) = some g → g ≤ 1) :=
  shifUp_order_iff lateLast 5 (TimerNode.make 5 1 1 () false) rfl lateLast_upHole

/-- The last timer stops in slot `1`, below a later one. -/
theorem shifUp_stops_below_later :
    UpHole 4 lateLast.key 5 ∧
      ∃ h' cnt, lateLast.shifUp 5 = .ok (h', cnt) ∧ ¬ h'.HeapOrdered := by
  refine ⟨lateLast_upHole, _, 1, rfl, fun ho => ?_⟩
  have := ho 0 (TimerNode.make 5 1 1 () false) (TimerNode.make 0 1 10 () false) rfl rfl
  exact absurd this (by decide)

/-! ## The path of `shif_down_` -/

/-- `q` is one of the slots that `shif_down_` compares with slot `i`. -/
def Looked (i q : Nat) : Prop := childIndex i ≤ q ∧ q < childIndex i + 4

/-- Slot `w` is the first that holds the earliest of the deadlines looked at from slot `i`, and this is
earlier than `t`. -/
def Finds (h : FourHeap Cb) (t : Int) (i w : Nat) : Prop :=
  Looked i w ∧ ∃ z, h.key w = some z ∧ z < t ∧
    ∀ q y, Looked i q → h.key q = some y → z ≤ y ∧ (q < w → z < y)

/-- The slots that a node of deadline `t` passes on its way down from `pos`. -/
def Passed (h : FourHeap Cb) (t : Int) : Nat → Nat → Prop := Relation.ReflTransGen (h.Finds t)

theorem Finds.le {i w : Nat} (hf : h.Finds t i w) : i ≤ w := by
  have := hf.1.1
  rw [childIndex_eq] at this
  omega

theorem Finds.congr {g : FourHeap Cb} {i w : Nat} (hkey : ∀ q, Looked i q → g.key q = h.key q)
    (hf : h.Finds t i w) : g.Finds t i w := by
  obtain ⟨hw, z, hz, hlt, hall⟩ := hf
  refine ⟨hw, z, by rw [hkey w hw, hz], hlt, fun q y hq hy => ?_⟩
  rw [hkey q hq] at hy
  exact hall q y hq hy

theorem Finds.unique (h : FourHeap Cb) (t : Int) : Relator.RightUnique (h.Finds t) := by
  rintro i v w ⟨hv, y, hy, -, hally⟩ ⟨hw, z, hz, -, hallz⟩
  have h1 := hally w z hw hz
  have h2 := hallz v y hv hy
  by_contra hne
  rcases Nat.lt_or_gt_of_ne hne with hlt | hlt
  · have := h2.2 hlt
    omega
  · have := h1.2 hlt
    omega

theorem Passed.le {k : Nat} (hp : h.Passed t pos k) : pos ≤ k := by
  induction hp with
  | refl => exact Nat.le_refl _
  | tail _ hf ih => exact Nat.le_trans ih hf.le

/-- Behind the slot it starts from, the path leads over earlier nodes. -/
theorem Passed.earlier {k : Nat} (hp : h.Passed t pos k) :
    k = pos ∨ ∃ z, h.key k = some z ∧ z < t := by
  cases hp with
  | refl => exact Or.inl rfl
  | tail _ hf =>
    obtain ⟨-, z, hz, hlt, -⟩ := hf
    exact Or.inr ⟨z, hz, hlt⟩

/-- If a slot and its parent are both passed, the one was found from the other. -/
theorem Passed.finds_child {i : Nat} (hc : h.Passed t pos (i + 1)) (hp : h.Passed t pos (i / 4)) :
    h.Finds t (i / 4) (i + 1) := by
  have hle := hp.le
  rcases Relation.ReflTransGen.cases_tail hc with heq | ⟨k, hk, hf⟩
  · omega
  · have hlook := hf.1
    unfold Looked at hlook
    rw [childIndex_eq] at hlook
    rcases Relation.ReflTransGen.total_of_right_unique (Finds.unique h t) hk hp with hkp | hpk
    · rcases Relation.ReflTransGen.cases_head hkp with rfl | ⟨w, hw, hwp⟩
      · exact hf
      · obtain rfl := Finds.unique h t hw hf
        have := Passed.le hwp
        omega
    · have := Passed.le hpk
      obtain rfl : k = i / 4 := by omega
      exact hf

/-- The path depends only on the slots it looks at. -/
theorem Passed.congr {g : FourHeap Cb} {k : Nat}
    (hfinds : ∀ i w, pos ≤ i → h.Finds t i w → g.Finds t i w) (hp : h.Passed t pos k) :
    g.Passed t pos k := by
  induction hp with
  | refl => exact Relation.ReflTransGen.refl
  | tail hp hf ih => exact ih.tail (hfinds _ _ (Passed.le hp) hf)

/-! ## Where `shif_down_` puts the nodes -/

/-- The `for` loop returns the first of the earliest nodes, if it moves its candidate at all. -/
theorem scanMini_first (heap : List (TimerNode Cb)) :
    ∀ (m k : Nat) (mini : Int) (acc : Option Nat) (p : Nat) (z : TimerNode Cb),
      (∀ a, acc = some a → a < k) → scanMini heap m k mini acc = some p → k ≤ p →
      heap[p]? = some z → ∀ q y, k ≤ q → q < p → heap[q]? = some y → z.timer < y.timer := by
  intro m
  induction m with
  | zero =>
    intro k mini acc p z hacc hscan hkp
    have := hacc p hscan
    omega
  | succ m ih =>
    intro k mini acc p z hacc hscan hkp hz q y hkq hqp hy
    obtain ⟨x, hx⟩ := some_of_lt heap (show k < heap.length by
      have := lt_of_some hz
      omega)
    rw [scanMini, hx] at hscan
    simp only at hscan
    have hrest : ∀ (mini' : Int) (acc' : Option Nat), (∀ a, acc' = some a → a < k + 1) →
        scanMini heap m (k + 1) mini' acc' = some p → mini' ≤ x.timer → z.timer < y.timer := by
      intro mini' acc' hacc' hscan' hmini
      by_cases hqk : q = k
      · subst hqk
        rw [hx] at hy
        cases hy
        rcases scanMini_spec heap m (q + 1) mini' acc' with ⟨he, -⟩ | ⟨p', z', he, -, -, hz', hlt, -⟩
        · have := hacc' p (by rw [← he, hscan'])
          omega
        · rw [hscan'] at he
          cases he
          rw [hz] at hz'
          cases hz'
          omega
      · exact ih (k + 1) mini' acc' p z hacc' hscan' (by omega) hz q y (by omega) hqp hy
    split at hscan
    · exact hrest x.timer (some k) (fun a ha => by cases ha; omega) hscan (Int.le_refl _)
    · exact hrest mini acc (fun a ha => by have := hacc a ha; omega) hscan (by omega)

/-- The scan from slot `i` finds the next slot of the path, or every node looked at is late enough. -/
theorem scanMini_finds (h : FourHeap Cb) (t : Int) (i : Nat) :
    (∃ w, scanMini h.heap 4 (childIndex i) t none = some w ∧ h.Finds t i w) ∨
      (scanMini h.heap 4 (childIndex i) t none = none ∧
        ∀ q y, Looked i q → h.key q = some y → t ≤ y) := by
  rcases scanMini_spec h.heap 4 (childIndex i) t none with
    ⟨he, hall⟩ | ⟨w, z, he, h1, h2, hz, hlt, hall⟩
  · right
    refine ⟨he, fun q y hq hy => ?_⟩
    obtain ⟨node, hnode, rfl⟩ := key_eq_some.1 hy
    exact hall q node hq.1 hq.2 hnode
  · left
    refine ⟨w, he, ⟨h1, h2⟩, z.timer, key_of_some hz, hlt, fun q y hq hy => ?_⟩
    obtain ⟨node, hnode, rfl⟩ := key_eq_some.1 hy
    exact ⟨hall q node hq.1 hq.2 hnode, fun hqw =>
      scanMini_first h.heap 4 (childIndex i) t none w z (fun a ha => by cases ha) he h1 hz q node
        hq.1 hqw hnode⟩

/-- The nodes passed move up by one step of the path, and the sifted node goes to its end. -/
structure Carried (h h' : FourHeap Cb) (pos : Nat) (t : Int) : Prop where
  off : ∀ k, ¬ h.Passed t pos k → h'.key k = h.key k
  moved : ∀ k w, h.Passed t pos k → h.Finds t k w → h'.key k = h.key w
  placed : ∀ k, h.Passed t pos k → (∀ w, ¬ h.Finds t k w) → h'.key k = some t

/-- One round: after the exchange with the slot found, the path goes on from there over slots that
have not been touched. -/
theorem Carried.step {i w : Nat} {x z : TimerNode Cb} (hx : h.heap[i]? = some x)
    (hz : h.heap[w]? = some z) (hf : h.Finds x.timer i w)
    (hc : Carried (h.swapped i w x z) h' w x.timer) : Carried h h' i x.timer := by
  have hget := swapped_key hx hz
  have hiw : i < w := by
    refine Nat.lt_of_le_of_ne hf.le fun heq => ?_
    obtain ⟨-, a, ha, hlt, -⟩ := hf
    rw [← heq, key_of_some hx] at ha
    cases ha
    omega
  have hahead : ∀ k q, w ≤ k → Looked k q → (h.swapped i w x z).key q = h.key q := by
    intro k q hk hq
    have := hq.1
    rw [childIndex_eq] at this
    rw [hget, if_neg (by omega), if_neg (by omega)]
  have hfinds : ∀ k v, w ≤ k → ((h.swapped i w x z).Finds x.timer k v ↔ h.Finds x.timer k v) :=
    fun k v hk => ⟨Finds.congr fun q hq => (hahead k q hk hq).symm, Finds.congr (hahead k · hk)⟩
  have hpassed : ∀ k, (h.swapped i w x z).Passed x.timer w k ↔ h.Passed x.timer w k := fun k =>
    ⟨Passed.congr fun j v hj => (hfinds j v hj).1, Passed.congr fun j v hj => (hfinds j v hj).2⟩
  have hsplit : ∀ k, h.Passed x.timer i k → k = i ∨ h.Passed x.timer w k := by
    intro k hk
    rcases Relation.ReflTransGen.cases_head hk with heq | ⟨v, hv, hvk⟩
    · exact Or.inl heq.symm
    · obtain rfl := Finds.unique h x.timer hv hf
      exact Or.inr hvk
  constructor
  · intro k hk
    have hki : k ≠ i := fun heq => hk (heq ▸ Relation.ReflTransGen.refl)
    have hkw : ¬ h.Passed x.timer w k := fun hwk => hk (hwk.head hf)
    have hne : k ≠ w := fun heq => hkw (heq ▸ Relation.ReflTransGen.refl)
    rw [hc.off k fun hwk => hkw ((hpassed k).1 hwk), hget, if_neg hne, if_neg hki]
  · intro k v hk hv
    rcases hsplit k hk with rfl | hwk
    · obtain rfl := Finds.unique h x.timer hv hf
      rw [hc.off k fun hvk => Nat.not_le_of_lt hiw hvk.le, hget, if_neg (by omega), if_pos rfl,
        key_of_some hz]
    · have hle := hwk.le
      rw [hc.moved k v ((hpassed k).2 hwk) ((hfinds k v hle).2 hv), hahead k v hle hv.1]
  · intro k hk hno
    rcases hsplit k hk with rfl | hwk
    · exact absurd hf (hno w)
    · exact hc.placed k ((hpassed k).2 hwk) fun v hv => hno v ((hfinds k v hwk.le).1 hv)

theorem shifDownLoop_carried :
    ∀ (fuel : Nat) (h h' : FourHeap Cb) (i cnt c : Nat) (x : TimerNode Cb), h.heap[i]? = some x →
      shifDownLoop fuel h i (childIndex i) cnt = .ok (h', c) → Carried h h' i x.timer
  | 0, h, h', i, cnt, c, x, hx, he => by cases he
  | fuel + 1, h, h', i, cnt, c, x, hx, he => by
    -- where nothing is found, the path ends in slot `i`
    have hstay : (∀ q y, Looked i q → h.key q = some y → x.timer ≤ y) → Carried h h i x.timer := by
      intro hall
      have hno : ∀ w, ¬ h.Finds x.timer i w := by
        rintro w ⟨hw, z, hz, hlt, -⟩
        have := hall w z hw hz
        omega
      have hend : ∀ k, h.Passed x.timer i k → k = i := by
        intro k hk
        rcases Relation.ReflTransGen.cases_head hk with heq | ⟨w, hw, -⟩
        · exact heq.symm
        · exact absurd hw (hno w)
      refine ⟨fun _ _ => rfl, fun k w hk hf => ?_, fun k hk _ => ?_⟩
      · rw [hend k hk] at hf
        exact absurd hf (hno w)
      · rw [hend k hk]
        exact key_of_some hx
    unfold shifDownLoop at he
    split at he
    · rw [nth_of_some hx, ok_bind] at he
      rcases scanMini_finds h x.timer i with ⟨w, hscan, hf⟩ | ⟨hscan, hall⟩
      · rw [hscan] at he
        obtain ⟨a, ha, -⟩ := hf.2
        obtain ⟨z, hz, -⟩ := key_eq_some.1 ha
        simp only at he
        rw [swap_eq hx hz, ok_bind] at he
        have hxw : (h.swapped i w x z).heap[w]? = some x := by rw [swapped_get hx hz, if_pos rfl]
        exact (shifDownLoop_carried fuel _ h' w (cnt + 1) c x hxw he).step hx hz hf
      · rw [hscan] at he
        cases he
        exact hstay hall
    · rename_i hj
      cases he
      refine hstay fun q y hq hy => ?_
      rw [key_eq_none (by have := hq.1; omega)] at hy
      cases hy

theorem shifDown_carried {x : TimerNode Cb} {cnt : Nat} (hx : h.heap[pos]? = some x)
    (he : h.shifDown pos = .ok (h', cnt)) : Carried h h' pos x.timer :=
  shifDownLoop_carried _ h h' pos 0 cnt x hx he

/-- A slot passed ends with the earliest of the sifted node and the nodes looked at from it. -/
theorem Carried.earliest (hc : Carried h h' pos t) {k : Nat} (hk : h.Passed t pos k) :
    ∃ v, h'.key k = some v ∧ v ≤ t ∧ (∀ q y, Looked k q → h.key q = some y → v ≤ y) ∧
      (v = t ∨ ∃ q, Looked k q ∧ h.key q = some v) := by
  rcases scanMini_finds h t k with ⟨w, -, hf⟩ | ⟨-, hall⟩
  · obtain ⟨hw, z, hz, hlt, hmin⟩ := id hf
    exact ⟨z, by rw [hc.moved k w hk hf, hz], by omega, fun q y hq hy => (hmin q y hq hy).1,
      Or.inr ⟨w, hw, hz⟩⟩
  · refine ⟨t, hc.placed k hk fun w hf => ?_, Int.le_refl t, hall, Or.inl rfl⟩
    obtain ⟨hw, z, hz, hlt, -⟩ := hf
    have := hall w z hw hz
    omega

/-! ## When `shif_down_` restores the order -/

/-- The slots looked at from slot `i`, which the path passes, fit the place of slot `i` in the heap: a
child off the path is not earlier than all of them and the sifted node, and they are not earlier than
the node that ends up above slot `i`.  This is the node of the parent, or, if the parent is passed as
well, the node of slot `i` itself. -/
structure WindowFits (h : FourHeap Cb) (pos : Nat) (t : Int) (i : Nat) : Prop where
  children : ∀ c y, c / 4 = i → ¬ h.Passed t pos (c + 1) → h.key (c + 1) = some y →
    t ≤ y ∨ ∃ q z, Looked i q ∧ h.key q = some z ∧ z ≤ y
  parent : ∀ p u q z, p + 1 = i → ¬ h.Passed t pos (p / 4) → h.key (p / 4) = some u →
    Looked i q → h.key q = some z → u ≤ z
  handed : ∀ p u q z, p + 1 = i → h.Passed t pos (p / 4) → h.key i = some u →
    Looked i q → h.key q = some z → u ≤ z

/-- The edge above a slot that is passed. -/
theorem Carried.orderedAt_above (hc : Carried h h' pos t) (hole : DownHole 4 h.key pos)
    (hpos : h.key pos = some t) {i : Nat} (hi : h.Passed t pos (i + 1))
    (hfits : h.WindowFits pos t (i + 1)) : OrderedAt 4 h'.key i := by
  intro v u hv hu
  obtain ⟨v', hv', -, -, hone⟩ := hc.earliest hi
  rw [hv] at hv'
  cases hv'
  by_cases hp : h.Passed t pos (i / 4)
  · -- the node of slot `i + 1` has gone up to the parent
    have hf := hi.finds_child hp
    rw [hc.moved _ _ hp hf] at hu
    rcases hone with rfl | ⟨q, hq, hqv⟩
    · obtain ⟨-, z, hz, hlt, -⟩ := hf
      rw [hu] at hz
      cases hz
      omega
    · exact hfits.handed i u q v rfl hp hu hq hqv
  · rw [hc.off _ hp] at hu
    have hne : i / 4 ≠ pos := fun heq => hp (heq ▸ Relation.ReflTransGen.refl)
    rcases hone with rfl | ⟨q, hq, hqv⟩
    · rcases hi.earlier with heq | ⟨z, hz, hlt⟩
      · exact hole.away i hne v u (by rw [heq, hpos]) hu
      · exact Int.le_trans (hole.away i hne z u hz hu) (Int.le_of_lt hlt)
    · exact hfits.parent i u q v rfl hp hu hq hqv

/-- The edges below a slot that is passed. -/
theorem Carried.orderedAt_below (hc : Carried h h' pos t) {i : Nat} (hi : h.Passed t pos (i / 4))
    (hoff : ¬ h.Passed t pos (i + 1)) (hfits : h.WindowFits pos t (i / 4)) :
    OrderedAt 4 h'.key i := by
  intro y v hy hv
  obtain ⟨v', hv', hle, hall, -⟩ := hc.earliest hi
  rw [hv] at hv'
  cases hv'
  rw [hc.off _ hoff] at hy
  rcases hfits.children i y rfl hoff hy with hty | ⟨q, z, hq, hz, hzy⟩
  · omega
  · have := hall q z hq hz
    omega

/-- The slots looked at from a slot that is passed fit it, where its edges are ordered afterwards. -/
theorem Carried.windowFits (hc : Carried h h' pos t) {i : Nat} (hi : h.Passed t pos i)
    (habove : ∀ p, p + 1 = i → OrderedAt 4 h'.key p)
    (hbelow : ∀ c, c / 4 = i → OrderedAt 4 h'.key c) : h.WindowFits pos t i := by
  obtain ⟨v, hv, -, hall, hone⟩ := hc.earliest hi
  constructor
  · intro c y hci hoff hy
    have hvy := hbelow c hci y v (by rw [hc.off _ hoff, hy]) (by rw [hci, hv])
    rcases hone with rfl | ⟨q, hq, hqv⟩
    · exact Or.inl hvy
    · exact Or.inr ⟨q, v, hq, hqv, hvy⟩
  · intro p u q z hpi hoff hu hq hz
    have huv := habove p hpi v u (by rw [hpi, hv]) (by rw [hc.off _ hoff, hu])
    exact Int.le_trans huv (hall q z hq hz)
  · intro p u q z hpi hpass hu hq hz
    subst hpi
    have huv := habove p rfl v u hv (by rw [hc.moved _ _ hpass (hi.finds_child hpass), hu])
    exact Int.le_trans huv (hall q z hq hz)

/-- **When sifting down restores the order** of the subtree: exactly when the slots looked at fit every
slot of the subtree that is passed. -/
theorem shifDown_order_iff (h : FourHeap Cb) (pos : Nat) (x : TimerNode Cb)
    (hx : h.heap[pos]? = some x) (hole : DownHole 4 h.key pos) :
    ∃ h' cnt, h.shifDown pos = .ok (h', cnt) ∧
      ((∀ i, Below 4 pos (i + 1) → OrderedAt 4 h'.key i) ↔
        ∀ i, h.Passed x.timer pos i → Below 4 pos i → h.WindowFits pos x.timer i) := by
  obtain ⟨h', cnt, he, -⟩ := shifDown_spec hx
  have hc := shifDown_carried hx he
  have hpos : h.Passed x.timer pos pos := Relation.ReflTransGen.refl
  refine ⟨h', cnt, he, ?_⟩
  rw [hole.below_iff hpos hc.off]
  constructor
  · intro ho i hi hbelow
    refine hc.windowFits hi ?_ ?_
    · rintro p rfl
      exact ho p hbelow (Or.inl hi)
    · rintro c rfl
      exact ho c (Below.child hbelow) (Or.inr hi)
  · intro hfits i hbelow htouched
    by_cases hi : h.Passed x.timer pos (i + 1)
    · exact hc.orderedAt_above hole (key_of_some hx) hi (hfits _ hi hbelow)
    · have hp := htouched.resolve_left hi
      have hparent : Below 4 pos (i / 4) :=
        hbelow.parent.resolve_left fun heq => hi (heq ▸ hpos)
      exact hc.orderedAt_below hp hi (hfits _ hp hparent)

/-- Five timers; the earliest is the fourth child of slot `0`. -/
def earlyFourth : FourHeap Unit := ofDeadlines [5, 6, 7, 8, 1]

theorem earlyFourth_downHole : DownHole 4 earlyFourth.key 0 := by
  constructor
  · intro i hi a b ha hb
    rw [key_eq_none (by show 5 ≤ i + 1; omega)] at ha
    cases ha
  · intro i c a b hi
    omega

theorem shifDown_order_earlyFourth :
    ∃ h' cnt, earlyFourth.shifDown 0 = .ok (h', cnt) ∧
      ((∀ i, Below 4 0 (i + 1) → OrderedAt 4 h'.key i) ↔
        ∀ i, earlyFourth.Passed 5 0 i → Below 4 0 i → earlyFourth.WindowFits 0 5 i) :=
  shifDown_order_iff earlyFourth 0 (TimerNode.make 0 1 5 () false) rfl earlyFourth_downHole

/-- The fourth child of slot `0` is not looked at. -/
theorem shifDown_misses_fourth :
    DownHole 4 earlyFourth.key 0 ∧
      ∃ h' cnt, earlyFourth.shifDown 0 = .ok (h', cnt) ∧
        ¬ ∀ i, Below 4 0 (i + 1) → OrderedAt 4 h'.key i := by
  refine ⟨earlyFourth_downHole, earlyFourth, 0, rfl, fun ho => ?_⟩
  have := ho 3 (Below.child Below.self) 1 5 rfl rfl
  exact absurd this (by decide)

end FourHeap
