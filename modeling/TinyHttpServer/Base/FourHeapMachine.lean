import TinyHttpServer.Base.FourHeapSift

/-!
# The sifts with the arithmetic of the machine

`shif_down_` and `shif_up_` take a `size_t` and run on `int` variables.  `shifDownInt` and `shifUpInt`
are a literal transcription of the two functions with that arithmetic: `size_t` values wrap around at
`2 ^ 64`, `int` values at `2 ^ 31`, a narrowing keeps the lower half, and a subscript converts an `int`
back.

* `scanInt_eq`, `shifDownInt_eq`, `shifUpInt_eq` — on every heap of fewer than `2 ^ 28` nodes they do
  what the loops over natural numbers do.
* `sifts_in_range` — so both sifts return, and the nodes are permuted.
-/

set_option autoImplicit false

open Checked KeyedVector

namespace FourHeap

variable {Cb : Type} {h : FourHeap Cb}

/-- The value of an `int` expression. -/
def toInt (x : Int) : Int := x.bmod (2 ^ 32)

/-- Conversion of an `int` to `size_t`. -/
def toSize (x : Int) : Nat := (x % 2 ^ 64).toNat

/-! ## The functions -/

/-- The `for` loop of `shif_down_`, from the test on; the first argument bounds its rounds. -/
def scanInt (heap : List (TimerNode Cb)) (n j : Int) : Nat → Int → Int → Int → Checked Int
  | 0, _, _, _ => .error .outOfFuel
  | fuel + 1, k, mini, miniIndex =>
    if k < n ∧ k < toInt (j + 4) then do
      let x ← nth heap (toSize k)
      if mini > x.timer then scanInt heap n j fuel (toInt (k + 1)) x.timer k
      else scanInt heap n j fuel (toInt (k + 1)) mini miniIndex
    else return miniIndex

/-- The `while` loop of `shif_down_`. -/
def shifDownIntLoop (n : Int) : Nat → FourHeap Cb → Int → Int → Nat → Checked (FourHeap Cb × Nat)
  | 0, _, _, _, _ => .error .outOfFuel
  | fuel + 1, h, i, j, cnt =>
    if j < n then do
      let x ← nth h.heap (toSize i)
      let miniIndex ← scanInt h.heap n j 5 j x.timer (-1)
      if miniIndex = -1 then return (h, cnt)
      else
        let h ← h.swap (toSize i) (toSize miniIndex)
        -- `i << 2 + 1`
        shifDownIntLoop n fuel h miniIndex (toInt (miniIndex * 2 ^ (2 + 1))) (cnt + 1)
    else return (h, cnt)

/-- `shif_down_` -/
def shifDownInt (h : FourHeap Cb) (pos : Nat) : Checked (FourHeap Cb × Nat) :=
  let n := narrow h.heap.length
  let j := narrow ((pos <<< (2 + 1)) % 2 ^ 64)
  shifDownIntLoop n (h.heap.length + 1) h (narrow pos) j 0

/-- `(pos - 1) >> 2`, narrowed to `int`. -/
def parentInt (pos : Nat) : Int := narrow (((pos + (2 ^ 64 - 1)) % 2 ^ 64) >>> 2)

/-- The `while` loop of `shif_up_`. -/
def shifUpIntLoop (pos : Nat) : Nat → FourHeap Cb → Int → Int → Nat → Checked (FourHeap Cb × Nat)
  | 0, _, _, _, _ => .error .outOfFuel
  | fuel + 1, h, i, j, cnt =>
    if j ≥ 0 then do
      let p ← nth h.heap (toSize j)
      let x ← nth h.heap (toSize i)
      if p.le x then return (h, cnt)
      else
        let h ← h.swap (toSize i) (toSize j)
        shifUpIntLoop pos fuel h j (parentInt pos) (cnt + 1)
    else return (h, cnt)

/-- `shif_up_` -/
def shifUpInt (h : FourHeap Cb) (pos : Nat) : Checked (FourHeap Cb × Nat) :=
  shifUpIntLoop pos (h.heap.length + 1) h (narrow pos) (parentInt pos) 0

/-! ## Values in range -/

theorem toInt_of_lt {x : Int} (hx : 0 ≤ x) (hlt : x < 2 ^ 31) : toInt x = x := by
  unfold toInt
  rw [Int.bmod_def]
  omega

theorem toSize_natCast {k : Nat} (hk : k < 2 ^ 64) : toSize (k : Int) = k := by
  unfold toSize
  omega

theorem toInt_childIndex {k : Nat} (hk : k < 2 ^ 28) :
    toInt ((k : Int) * 2 ^ (2 + 1)) = childIndex k := by
  rw [childIndex_eq, toInt_of_lt (by omega) (by omega)]
  omega

/-! ## `shif_down_` -/

/-- The value of `mini_index` for the slot found, `-1` for none. -/
def indexInt : Option Nat → Int
  | none => -1
  | some p => p

/-- The test `k < j + 4` counts the slots of the window, the test `k < n` cuts it short. -/
theorem scanInt_eq (heap : List (TimerNode Cb)) (hn : heap.length < 2 ^ 28) {j : Nat}
    (hj : j < 2 ^ 28) :
    ∀ (m k fuel : Nat) (mini : Int) (acc : Option Nat), k + m = j + 4 → m < fuel →
      scanInt heap heap.length j fuel k mini (indexInt acc) =
        .ok (indexInt (scanMini heap m k mini acc)) := by
  have hj4 : toInt ((j : Int) + 4) = j + 4 := toInt_of_lt (by omega) (by omega)
  intro m
  induction m with
  | zero =>
    intro k fuel mini acc hk hfuel
    obtain ⟨fuel, rfl⟩ : ∃ f, fuel = f + 1 := ⟨fuel - 1, by omega⟩
    rw [scanInt, hj4, if_neg (by omega)]
    rfl
  | succ m ih =>
    intro k fuel mini acc hk hfuel
    obtain ⟨fuel, rfl⟩ : ∃ f, fuel = f + 1 := ⟨fuel - 1, by omega⟩
    have hk1 : toInt ((k : Int) + 1) = ((k + 1 : Nat) : Int) := toInt_of_lt (by omega) (by omega)
    rw [scanInt, scanMini, hj4, hk1]
    by_cases hkn : k < heap.length
    · obtain ⟨x, hx⟩ := some_of_lt heap hkn
      rw [if_pos (by omega), toSize_natCast (by omega), nth_of_some hx, ok_bind, hx]
      simp only
      split
      · exact ih (k + 1) fuel x.timer (some k) (by omega) (by omega)
      · exact ih (k + 1) fuel mini acc (by omega) (by omega)
    · rw [if_neg (by omega), List.getElem?_eq_none (by omega)]
      rfl

theorem shifDownIntLoop_eq {n : Nat} (hn : n < 2 ^ 28) :
    ∀ (fuel : Nat) (h : FourHeap Cb) (i cnt : Nat), h.heap.length = n → i < n →
      shifDownIntLoop n fuel h i (childIndex i) cnt = shifDownLoop fuel h i (childIndex i) cnt
  | 0, _, _, _, _, _ => rfl
  | fuel + 1, h, i, cnt, hlen, hi => by
    obtain ⟨x, hx⟩ := some_of_lt h.heap (show i < h.heap.length by omega)
    unfold shifDownIntLoop shifDownLoop
    by_cases hj : childIndex i < n
    · rw [if_pos (by omega), if_pos (by omega), toSize_natCast (by omega), nth_of_some hx, ok_bind,
        ok_bind]
      have hscan := scanInt_eq h.heap (by omega) (show childIndex i < 2 ^ 28 by omega) 4
        (childIndex i) 5 x.timer none rfl (by omega)
      rw [hlen] at hscan
      rw [show (-1 : Int) = indexInt none from rfl, hscan, ok_bind]
      rcases scanMini_spec h.heap 4 (childIndex i) x.timer none with
        ⟨he, -⟩ | ⟨p, z, he, -, -, hz, -, -⟩
      · rw [he, if_pos rfl]
      · have hp := lt_of_some hz
        have hp0 : indexInt (some p) ≠ indexInt none := show (p : Int) ≠ -1 by omega
        rw [he, if_neg hp0]
        show (do
          let h ← h.swap i (toSize (p : Int))
          shifDownIntLoop n fuel h p (toInt ((p : Int) * 2 ^ (2 + 1))) (cnt + 1)) = _
        rw [toSize_natCast (by omega), toInt_childIndex (by omega), swap_eq hx hz, ok_bind]
        simp only
        rw [swap_eq hx hz, ok_bind]
        exact shifDownIntLoop_eq hn fuel _ p (cnt + 1)
          (by rw [(swapped_sifted hx hz).length_eq, hlen]) (by omega)
    · rw [if_neg (by omega), if_neg (by omega)]

/-- `shif_down_` on the machine is `shifDown`. -/
theorem shifDownInt_eq (hn : h.heap.length < 2 ^ 28) {pos : Nat} (hpos : pos < h.heap.length) :
    h.shifDownInt pos = h.shifDown pos := by
  unfold shifDownInt shifDown
  rw [childIndex_int (by omega), narrow_of_lt (by omega), narrow_of_lt (by omega)]
  exact shifDownIntLoop_eq hn _ h pos 0 rfl hpos

/-! ## `shif_up_` -/

theorem shifUpIntLoop_eq {pos n : Nat} (hn : n < 2 ^ 28) (hpos : pos < n) :
    ∀ (fuel : Nat) (h : FourHeap Cb) (i cnt : Nat), h.heap.length = n → i < n →
      shifUpIntLoop pos fuel h i (parentIndex pos) cnt =
        shifUpLoop pos fuel h i (parentIndex pos) cnt
  | 0, _, _, _, _, _ => rfl
  | fuel + 1, h, i, cnt, hlen, hi => by
    obtain ⟨x, hx⟩ := some_of_lt h.heap (show i < h.heap.length by omega)
    unfold shifUpIntLoop shifUpLoop
    by_cases hj : 0 ≤ parentIndex pos
    · obtain ⟨q, hq⟩ : ∃ q : Nat, parentIndex pos = q := ⟨(parentIndex pos).toNat, by omega⟩
      have hqn : q < n := by unfold parentIndex at hq; omega
      obtain ⟨p, hp⟩ := some_of_lt h.heap (show q < h.heap.length by omega)
      rw [if_pos hj, if_pos hj, hq, toSize_natCast (by omega), toSize_natCast (by omega),
        Int.toNat_natCast, nth_of_some hp, ok_bind, ok_bind, nth_of_some hx, ok_bind, ok_bind]
      split
      · rfl
      · have hrec := shifUpIntLoop_eq hn hpos fuel (h.swapped i q x p) q (cnt + 1)
          (by rw [(swapped_sifted hx hp).length_eq, hlen]) hqn
        rw [hq] at hrec
        rw [swap_eq hx hp, ok_bind, ok_bind, parentInt, parentIndex_int (by omega), hq, hrec]
    · rw [if_neg hj, if_neg hj]

/-- `shif_up_` on the machine is `shifUp`. -/
theorem shifUpInt_eq (hn : h.heap.length < 2 ^ 28) {pos : Nat} (hpos : pos < h.heap.length) :
    h.shifUpInt pos = h.shifUp pos := by
  unfold shifUpInt shifUp
  rw [parentInt, parentIndex_int (by omega), narrow_of_lt (by omega)]
  exact shifUpIntLoop_eq hn hpos _ h pos 0 rfl hpos

/-- **The sifts end and stay in range**, whatever the deadlines are: no subscript leaves the vector,
the `while` loops end within `n + 1` tests and the `for` loop within five, and the nodes are permuted. -/
theorem sifts_in_range (h : FourHeap Cb) (hn : h.heap.length < 2 ^ 28) (pos : Nat)
    (hpos : pos < h.heap.length) :
    (∃ h' cnt, h.shifDownInt pos = .ok (h', cnt) ∧ h'.heap.Perm h.heap) ∧
      (∃ h' cnt, h.shifUpInt pos = .ok (h', cnt) ∧ h'.heap.Perm h.heap) := by
  obtain ⟨x, hx⟩ := some_of_lt h.heap hpos
  obtain ⟨down, cnt, hdown, hsift⟩ := shifDown_spec hx
  obtain ⟨up, cnt', hup, hsift'⟩ := shifUp_sifted hpos
  constructor
  · exact ⟨down, cnt, by rw [shifDownInt_eq hn hpos, hdown], hsift.sifted.perm⟩
  · exact ⟨up, cnt', by rw [shifUpInt_eq hn hpos, hup], hsift'.perm⟩

theorem sifts_in_range_descending :
    (∃ h' cnt, (ofDeadlines [30, 20, 10]).shifDownInt 0 = .ok (h', cnt) ∧
        h'.heap.Perm (ofDeadlines [30, 20, 10]).heap) ∧
      (∃ h' cnt, (ofDeadlines [30, 20, 10]).shifUpInt 0 = .ok (h', cnt) ∧
        h'.heap.Perm (ofDeadlines [30, 20, 10]).heap) :=
  sifts_in_range (ofDeadlines [30, 20, 10]) (by decide) 0 (by decide)

end FourHeap
