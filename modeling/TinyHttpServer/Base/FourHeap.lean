import TinyHttpServer.Lib.Checked
import TinyHttpServer.Lib.KeyedVector
import TinyHttpServer.Lib.PriorityQueue
import TinyHttpServer.Base.TimerNode

/-!
# The timer heap (`src/base/four_heap.h`, `src/base/four_heap.cc`)

`FourHeap` keeps the timers in a vector `heap_` laid out as a heap and a hash map `index_` from
timer id to slot.  The functions below follow the source statement by statement; a subscript
outside `heap_`, a failed `assert` and a loop that does not end are faults.

Three details of the source decide what the sifts do:

* `pos << 2 + 1` is `pos << (2 + 1)`, since `+` binds tighter than `<<`: the children looked at
  by `shif_down_` are the slots `8 * pos … 8 * pos + 3`;
* `(pos - 1) >> 2` is computed on `size_t` and narrowed to `int`, which gives `-1` at `pos = 0`
  (`parentIndex_zero`);
* the loop of `shif_up_` recomputes `j` from `pos` and not from the slot `i` it has moved to.

Slots are natural numbers; the `int` computations agree with them on every heap of fewer than
`2 ^ 28` nodes (`childIndex_int`, `parentIndex_int`).  `operator[]` of `index_` inserts slot `0`
for a missing id (`indexAt`).
-/

set_option autoImplicit false

open Checked KeyedVector

/-- `class FourHeap`. -/
structure FourHeap (Cb : Type) where
  heap : List (TimerNode Cb)
  index : TimerId → Option Nat

namespace FourHeap

variable {Cb : Type}

/-- `FourHeap()` and the state after `clear`. -/
def empty : FourHeap Cb := { heap := [], index := fun _ => none }

/-! ## Index arithmetic -/

/-- `pos << 2 + 1`. -/
def childIndex (pos : Nat) : Nat := pos <<< (2 + 1)

/-- `(pos - 1) >> 2`, narrowed to `int`: division by four, rounded down. -/
def parentIndex (pos : Nat) : Int := ((pos : Int) - 1) / 4

/-- Narrowing of a `size_t` value to `int`. -/
def narrow (x : Nat) : Int := (x : Int).bmod (2 ^ 32)

theorem narrow_of_lt {k : Nat} (hk : k < 2 ^ 31) : narrow k = k := by
  unfold narrow
  rw [Int.bmod_def]
  omega

theorem childIndex_eq (pos : Nat) : childIndex pos = 8 * pos := by
  unfold childIndex; rw [Nat.shiftLeft_eq]; omega

theorem parentIndex_zero : parentIndex 0 = -1 := by decide

theorem parentIndex_succ (pos : Nat) : parentIndex (pos + 1) = ((pos / 4 : Nat) : Int) := by
  unfold parentIndex
  omega

/-- The value computed by the code for the first child slot is exact below `2 ^ 28`. -/
theorem childIndex_int {pos : Nat} (h : pos < 2 ^ 28) :
    narrow ((pos <<< (2 + 1)) % 2 ^ 64) = childIndex pos := by
  unfold narrow
  rw [childIndex_eq, Nat.shiftLeft_eq, Int.bmod_def]
  omega

/-- The value computed by the code for the parent slot, wrap-around at `0` included, is exact
below `2 ^ 31`. -/
theorem parentIndex_int {pos : Nat} (h : pos < 2 ^ 31) :
    narrow (((pos + (2 ^ 64 - 1)) % 2 ^ 64) >>> 2) = parentIndex pos := by
  unfold narrow parentIndex
  rw [Nat.shiftRight_eq_div_pow, Int.bmod_def]
  omega

/-! ## Private operations -/

/-- `index_[id]`: an absent id is inserted with slot `0`. -/
def indexAt (h : FourHeap Cb) (id : TimerId) : Nat × FourHeap Cb :=
  match h.index id with
  | some pos => (pos, h)
  | none => (0, { h with index := Function.update h.index id (some 0) })

/-- `swap_`. -/
def swap (h : FourHeap Cb) (l r : Nat) : Checked (FourHeap Cb) := do
  let a ← nth h.heap l
  let b ← nth h.heap r
  return { heap := exchange h.heap l r a b, index := reindex h.index TimerNode.nodeSeq l r a b }

/-- The `for` loop of `shif_down_`: of the `m` slots from `k` on, the first that holds the
earliest deadline strictly before `mini`. -/
def scanMini (heap : List (TimerNode Cb)) :
    Nat → Nat → Int → Option Nat → Option Nat
  | 0, _, _, miniIndex => miniIndex
  | m + 1, k, mini, miniIndex =>
    match heap[k]? with
    | none => miniIndex
    | some x =>
      if mini > x.timer then scanMini heap m (k + 1) x.timer (some k)
      else scanMini heap m (k + 1) mini miniIndex

/-- The `while` loop of `shif_down_`. -/
def shifDownLoop : Nat → FourHeap Cb → Nat → Nat → Nat → Checked (FourHeap Cb × Nat)
  | 0, _, _, _, _ => .error .outOfFuel
  | fuel + 1, h, i, j, cnt =>
    if j < h.heap.length then do
      let x ← nth h.heap i
      match scanMini h.heap 4 j x.timer none with
      | none => return (h, cnt)
      | some miniIndex =>
        let h ← h.swap i miniIndex
        shifDownLoop fuel h miniIndex (childIndex miniIndex) (cnt + 1)
    else return (h, cnt)

/-- `shif_down_`: the heap and the number of swaps. -/
def shifDown (h : FourHeap Cb) (pos : Nat) : Checked (FourHeap Cb × Nat) :=
  shifDownLoop (h.heap.length + 1) h pos (childIndex pos) 0

/-- The `while` loop of `shif_up_`. -/
def shifUpLoop (pos : Nat) : Nat → FourHeap Cb → Nat → Int → Nat → Checked (FourHeap Cb × Nat)
  | 0, _, _, _, _ => .error .outOfFuel
  | fuel + 1, h, i, j, cnt =>
    if 0 ≤ j then do
      let p ← nth h.heap j.toNat
      let x ← nth h.heap i
      if p.le x then return (h, cnt)
      else
        let h ← h.swap i j.toNat
        -- `j` is recomputed from the argument `pos`, which has not moved
        shifUpLoop pos fuel h j.toNat (parentIndex pos) (cnt + 1)
    else return (h, cnt)

/-- `shif_up_`: the heap and the number of swaps. -/
def shifUp (h : FourHeap Cb) (pos : Nat) : Checked (FourHeap Cb × Nat) :=
  shifUpLoop pos (h.heap.length + 1) h pos (parentIndex pos) 0

/-- The sifts that follow a change of slot `pos` in `destory_` and `push`:
`if (shif_down_(pos) == 0) shif_up_(pos)`. -/
def shifDownUp (h : FourHeap Cb) (pos : Nat) : Checked (FourHeap Cb) := do
  let (h, cnt) ← h.shifDown pos
  if cnt = 0 then
    let (h, _) ← h.shifUp pos
    return h
  else return h

/-- `heap_.pop_back()` together with `index_.erase` of the node in the last slot. -/
def popBack (h : FourHeap Cb) : Checked (FourHeap Cb) :=
  match h.heap.getLast? with
  | none => .error .outOfRange
  | some last =>
    .ok { heap := h.heap.dropLast, index := Function.update h.index last.nodeSeq none }

/-- `destory_`.  On an empty heap `heap_.size() - 1` wraps around and the swap leaves the
vector. -/
def destory (h : FourHeap Cb) (pos : Nat) : Checked (FourHeap Cb) :=
  if h.heap.length = 0 then .error .outOfRange
  else do
    let n := h.heap.length - 1
    require (pos ≤ n)
    let h ← (if pos < n then h.swap pos n else pure h)
    let h ← h.popBack
    if pos < h.heap.length then h.shifDownUp pos else return h

/-! ## Public operations -/

/-- `push`. -/
def push (h : FourHeap Cb) (node : TimerNode Cb) : Checked (FourHeap Cb) :=
  match h.index node.nodeSeq with
  | none => do
    let pos := h.heap.length
    let h : FourHeap Cb :=
      { heap := h.heap ++ [node], index := Function.update h.index node.nodeSeq (some pos) }
    if h.heap.length = 1 then return h
    else
      let (h, _) ← h.shifUp pos
      return h
  | some pos => do
    let _ ← nth h.heap pos
    let h : FourHeap Cb := { h with heap := h.heap.set pos node }
    h.shifDownUp pos

/-- `front`. -/
def front (h : FourHeap Cb) : Checked (TimerNode Cb) := nth h.heap 0

/-- `find`. -/
def find (h : FourHeap Cb) (id : TimerId) : Bool := (h.index id).isSome

/-- `pop`. -/
def pop (h : FourHeap Cb) : Checked (FourHeap Cb) := do
  require (h.heap.length > 0)
  let h ← h.swap 0 (h.heap.length - 1)
  h.destory (h.heap.length - 1)

/-- `remove`. -/
def remove (h : FourHeap Cb) (id : TimerId) : Checked (FourHeap Cb × Bool) :=
  match h.index id with
  | none => .ok (h, false)
  | some pos => do
    let h ← h.destory pos
    return (h, true)

/-- The common part of `reset` and `extend`: slot `index_[id]` is changed by `f` and sifted
down. -/
def updateSlot (h : FourHeap Cb) (id : TimerId) (f : TimerNode Cb → TimerNode Cb) :
    Checked (FourHeap Cb) := do
  let (pos, h) := h.indexAt id
  let node ← nth h.heap pos
  let h : FourHeap Cb := { h with heap := h.heap.set pos (f node) }
  let (h, _) ← h.shifDown pos
  return h

/-- `reset`. -/
def reset (h : FourHeap Cb) (id : TimerId) (timer : Int) : Checked (FourHeap Cb) :=
  h.updateSlot id fun node => node.setTimerStamp timer

/-- The change `extend` makes to a node: the repeat flag, and the deadline moved by `interval`,
or by the stored interval when `interval` is not positive. -/
def extendNode (interval : Rat) (repeat_ : Bool) (node : TimerNode Cb) : TimerNode Cb :=
  (node.setRepeat repeat_).add (if interval > 0 then interval else node.getInterval)

/-- `extend`. -/
def extend (h : FourHeap Cb) (interval : Rat) (id : TimerId) (repeat_ : Bool) :
    Checked (FourHeap Cb) :=
  h.updateSlot id (extendNode interval repeat_)

/-- `empty()`. -/
def isEmpty (h : FourHeap Cb) : Bool := h.heap.isEmpty

/-- The nodes pushed on the auxiliary queue by one round of `get_k`: slots `top + 1 … top + 4`
inside the vector. -/
def getKChildren (h : FourHeap Cb) (top : Nat) : List (TimerNode Cb) :=
  (h.heap.drop (top + 1)).take 4

/-- The `while` loop of `get_k`.  `std::priority_queue<TimerNode>` has the node of latest
deadline on top; `tie` decides between nodes of equal deadline. -/
def getKLoop (tie : Nat → Nat) (timer : Int) :
    Nat → FourHeap Cb → List (TimerNode Cb) → List (TimerNode Cb) →
      Checked (List (TimerNode Cb) × FourHeap Cb)
  | 0, _, _, _ => .error .outOfFuel
  | fuel + 1, h, q, res =>
    match PriorityQueue.popTop TimerNode.timer (tie fuel) q with
    | none => .ok (res, h)
    | some (node, q) =>
      if node.timer > timer then .ok (res, h)
      else
        let (pos, h) := h.indexAt node.nodeSeq
        getKLoop tie timer fuel h (q ++ h.getKChildren (pos >>> 2)) (res ++ [node])

/-- `get_k`. -/
def getK (tie : Nat → Nat) (fuel : Nat) (h : FourHeap Cb) (timer : Int) :
    Checked (List (TimerNode Cb) × FourHeap Cb) :=
  match h.heap with
  | [] => .ok ([], h)
  | root :: _ => getKLoop tie timer fuel h [root] []

end FourHeap
