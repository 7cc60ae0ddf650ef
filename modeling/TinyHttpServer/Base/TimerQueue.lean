import TinyHttpServer.Lib.Run
import TinyHttpServer.Base.FourHeap

/-!
# The timer queue (`src/base/timerqueue.h`, `src/base/timerqueue.cc`)

`TimerQueue` holds the timers of one event loop: the heap, the ids that can still be given out,
the set of ids cancelled during an expiry round, and the timer descriptor.

* The steady clock is a parameter `clock`; the `n`-th reading is `clock n`, and `reads` counts the
  readings made so far.
* `timerfd` is the last setting of the timer descriptor: the reading against which it was
  computed and the relative time that was set.
* What a callback does to the queue, in the loop thread, is a list of `Call`s.
-/

set_option autoImplicit false

open Checked

/-- `struct timespec`. -/
structure Timespec where
  tvSec : Int
  tvNsec : Int
  deriving DecidableEq, Repr

/-- A setting of the timer descriptor. -/
structure TimerSetting where
  reading : Int
  value : Timespec
  deriving DecidableEq, Repr

/-- `class TimerQueue`. -/
structure TimerQueue (Cb : Type) where
  timerList : FourHeap Cb
  cancelSet : List TimerId
  seq : List Int
  seqLimit : Nat
  index : Nat
  timerfd : Option TimerSetting
  callingExpired : Bool
  reads : Nat

namespace TimerQueue

variable {Cb : Type}

/-- `LIMIT`. -/
def LIMIT : Nat := 1024

/-- The constructor.  It does not initialise `seq_limit_` and `index_`, so their values are
arguments. -/
def make (seqLimit index : Nat) : TimerQueue Cb :=
  { timerList := FourHeap.empty
    cancelSet := []
    seq := []
    seqLimit
    index
    timerfd := none
    callingExpired := false
    reads := 0 }

/-! ## Ids -/

/-- The loop of `get_` that refills `seq_`: `seq_limit_` is a `size_t` and is narrowed to `int`
when it is pushed. -/
def refill : Nat → TimerQueue Cb → TimerQueue Cb
  | 0, q => q
  | n + 1, q =>
    let seqLimit := (q.seqLimit + 1) % 2 ^ 64
    refill n
      { q with
        seqLimit
        index := (q.index + 1) % 2 ^ 64
        seq := q.seq ++ [FourHeap.narrow seqLimit] }

/-- `get_`. -/
def get (q : TimerQueue Cb) : Checked (Int × TimerQueue Cb) :=
  let q := if q.seq.isEmpty then refill LIMIT q else q
  match q.seq with
  | [] => .error .invalidAccess
  | seq :: rest => .ok (seq, { q with seq := rest })

/-- `del_`.  While the counters are equal, all ids that wait in `seq_` are dropped and the counters
start again. -/
def del (q : TimerQueue Cb) (node : TimerNode Cb) : TimerQueue Cb :=
  let q := { q with seq := q.seq ++ [node.nodeSeq] }
  if q.index = q.seqLimit then { q with seqLimit := 0, index := 0, seq := [] }
  else { q with index := (q.index + (2 ^ 64 - 1)) % 2 ^ 64 }

/-! ## Clock and timer descriptor -/

section Clock

variable (clock : Nat → Int)

/-- `TimerNode::now()`. -/
def now (q : TimerQueue Cb) : Int × TimerQueue Cb :=
  (clock q.reads, { q with reads := q.reads + 1 })

/-- `time_from_now`, for the clock reading `reading`: the distance in whole microseconds, at
least `100`. -/
def timeFromNow (timer : TimerNode Cb) (reading : Int) : Timespec :=
  let micro := (timer.timer - reading).tdiv 1000
  let micro := if micro < 100 then 100 else micro
  { tvSec := micro / TimerNode.kmicrosecond
    tvNsec := (micro % TimerNode.kmicrosecond) * 1000 }

/-- `reset_timerfd`. -/
def resetTimerfd (q : TimerQueue Cb) (expiration : TimerNode Cb) : TimerQueue Cb :=
  let (reading, q) := q.now clock
  { q with timerfd := some { reading, value := timeFromNow expiration reading } }

/-! ## Operations -/

/-- `add_timer` up to the call of `run_in_loop`: the new node. -/
def makeTimer (q : TimerQueue Cb) (interval : Rat) (cb : Cb) (repeat_ : Bool) :
    Checked (TimerNode Cb × TimerQueue Cb) := do
  let (nodeSeq, q) ← q.get
  require (0 ≤ nodeSeq)
  let (reading, q) := q.now clock
  let timer := reading + TimerNode.micro (TimerNode.tarnsMirco interval)
  return (TimerNode.make nodeSeq interval timer cb repeat_, q)

/-- `add_timer_in_loop_`. -/
def addTimerInLoop (q : TimerQueue Cb) (node : TimerNode Cb) : Checked (TimerQueue Cb) := do
  let timerList ← q.timerList.push node
  let q := { q with timerList }
  let front ← q.timerList.front
  if node.le front then return q.resetTimerfd clock node else return q

/-- `cancel_timer_in_loop_`. -/
def cancelTimerInLoop (q : TimerQueue Cb) (id : TimerId) : Checked (TimerQueue Cb) :=
  if q.timerList.find id then do
    let (timerList, _) ← q.timerList.remove id
    return { q with timerList }
  else if q.callingExpired then return { q with cancelSet := id :: q.cancelSet }
  else return q

/-- `extend_timer_in_loop_`. -/
def extendTimerInLoop (q : TimerQueue Cb) (interval : Rat) (id : TimerId) (repeat_ : Bool) :
    Checked (TimerQueue Cb) :=
  if q.timerList.find id then do
    return { q with timerList := ← q.timerList.extend interval id repeat_ }
  else return q

/-- The calls of the public interface. -/
inductive Call (Cb : Type) where
  | addTimer (interval : Rat) (cb : Cb) (repeat_ : Bool)
  | extendTimer (interval : Rat) (id : TimerId) (repeat_ : Bool)
  | cancel (id : TimerId)

/-- A call made in the loop thread: `run_in_loop` executes it at once. -/
def callInLoop (q : TimerQueue Cb) : Call Cb → Checked (TimerQueue Cb)
  | .addTimer interval cb repeat_ => do
    let (node, q) ← q.makeTimer clock interval cb repeat_
    q.addTimerInLoop clock node
  | .extendTimer interval id repeat_ => q.extendTimerInLoop interval id repeat_
  | .cancel id => q.cancelTimerInLoop id

/-! ## Expiry -/

/-- `get_expired_`; `tie` and `fuel` are those of `FourHeap.getK`. -/
def getExpired (q : TimerQueue Cb) (tie : Nat → Nat) (fuel : Nat) :
    Checked (List (TimerNode Cb) × TimerQueue Cb) := do
  let (ts, q) := q.now clock
  let (res, timerList) ← q.timerList.getK tie fuel ts
  return (res, { q with timerList })

/-- The body of the loop of `reset_`. -/
def resetOne (q : TimerQueue Cb) (e : TimerNode Cb) : Checked (TimerQueue Cb) := do
  let q ← (if e.repeat_ ∧ e.nodeSeq ∉ q.cancelSet then do
      let (reading, q) := q.now clock
      let timer := reading + TimerNode.micro (TimerNode.tarnsMirco e.getInterval)
      return { q with timerList := ← q.timerList.reset e.nodeSeq timer }
    else return q)
  if ¬ e.repeat_ then q.cancelTimerInLoop e.nodeSeq else return q

/-- `reset_`. -/
def reset (q : TimerQueue Cb) (expired : List (TimerNode Cb)) : Checked (TimerQueue Cb) := do
  let q ← expired.foldlM (resetOne clock) q
  if q.timerList.isEmpty then return q
  else
    let newExpire ← q.timerList.front
    return q.resetTimerfd clock newExpire

/-- `handle_read_` up to the loop over the callbacks. -/
def beginRead (q : TimerQueue Cb) (tie : Nat → Nat) (fuel : Nat) :
    Checked (List (TimerNode Cb) × TimerQueue Cb) := do
  let (expired, q) ← q.getExpired clock tie fuel
  return (expired, { q with callingExpired := true, cancelSet := [] })

/-- `handle_read_` after the loop over the callbacks. -/
def endRead (q : TimerQueue Cb) (expired : List (TimerNode Cb)) : Checked (TimerQueue Cb) :=
  reset clock { q with callingExpired := false } expired

/-- The loop of `handle_read_` over the callbacks; `calls i` is what the `i`-th of them does. -/
def runCallbacks (calls : Nat → List (Call Cb)) :
    Nat → List (TimerNode Cb) → TimerQueue Cb → Checked (TimerQueue Cb)
  | _, [], q => return q
  | i, _ :: expired, q => do
    let q ← (calls i).foldlM (callInLoop clock) q
    runCallbacks calls (i + 1) expired q

/-- `handle_read_`. -/
def handleRead (q : TimerQueue Cb) (tie : Nat → Nat) (fuel : Nat)
    (calls : Nat → List (Call Cb)) : Checked (TimerQueue Cb) := do
  let (expired, q) ← q.beginRead clock tie fuel
  let q ← runCallbacks clock calls 0 expired q
  q.endRead clock expired

end Clock

end TimerQueue
