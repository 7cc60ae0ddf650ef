import Mathlib.Data.Rat.Defs
import Mathlib.Data.Int.ConditionallyCompleteOrder
import Mathlib.Order.ConditionallyCompleteLattice.Basic

/-!
# Timer nodes (`src/base/timernode.h`)

A `TimerNode` is one timer: its id, its interval, whether it repeats, its deadline and its
callback.  The callback type is a parameter.

A clock reading (`TimerStamp`, a `std::chrono::steady_clock::time_point`) is an integer number
of nanoseconds.  A `float` interval in seconds is an exact rational.  The code converts it twice:
`static_cast<int64_t>(interval * kmicrosecond)` in `tarns_mirco` drops the fractional part
(`truncate`), and so does the initialisation of the `int` field `interval_`, which holds 32 bits
(`truncateInt`).
-/

set_option autoImplicit false

/-- `typedef int TimerId`. -/
abbrev TimerId := Int

/-- Conversion of a floating-point value to an integer type: truncation toward zero. -/
def truncate (x : Rat) : Int := x.num.tdiv x.den

/-- Conversion of a floating-point value to `int`.  For a value outside the type the language leaves
the result open; the conversion instruction of the machine gives `INT_MIN`. -/
def truncateInt (x : Rat) : Int :=
  if -2 ^ 31 ≤ truncate x ∧ truncate x < 2 ^ 31 then truncate x else -2 ^ 31

/-- `class TimerNode`. -/
structure TimerNode (Cb : Type) where
  nodeSeq : TimerId
  interval : Int
  repeat_ : Bool
  timer : Int
  cb : Cb
  deriving DecidableEq, Repr

namespace TimerNode

variable {Cb : Type}

def kmicrosecond : Int := 1000 * 1000

/-- `tarns_mirco`: the interval in whole microseconds.  The product is taken exactly here; the code's
is a product of `float`s, which keeps 24 bits. -/
def tarnsMirco (interval : Rat) : Int := truncate (interval * kmicrosecond)

/-- A duration in microseconds as a clock duration (nanoseconds). -/
def micro (us : Int) : Int := us * 1000

/-- The constructor `TimerNode(node_seq, interval, timer, cb, repeat)`.  The field `interval_` is an
`int`. -/
def make (nodeSeq : TimerId) (interval : Rat) (timer : Int) (cb : Cb) (repeat_ : Bool) :
    TimerNode Cb :=
  { nodeSeq, interval := truncateInt interval, repeat_, timer, cb }

/-- `add`. -/
def add (node : TimerNode Cb) (interval : Rat) : TimerNode Cb :=
  { node with timer := node.timer + micro (tarnsMirco interval) }

/-- `set_timer_stamp`. -/
def setTimerStamp (node : TimerNode Cb) (timer : Int) : TimerNode Cb :=
  { node with timer }

/-- `set_repeat`. -/
def setRepeat (node : TimerNode Cb) (repeat_ : Bool) : TimerNode Cb :=
  { node with repeat_ }

/-- `get_interval`: the stored `int`, read back as a `float`. -/
def getInterval (node : TimerNode Cb) : Rat := (node.interval : Rat)

/-- `operator<=`: nodes are compared by deadline only. -/
def le (lhs rhs : TimerNode Cb) : Bool := decide (lhs.timer ≤ rhs.timer)

@[simp] theorem nodeSeq_add (node : TimerNode Cb) (interval : Rat) :
    (node.add interval).nodeSeq = node.nodeSeq := rfl

@[simp] theorem nodeSeq_setTimerStamp (node : TimerNode Cb) (timer : Int) :
    (node.setTimerStamp timer).nodeSeq = node.nodeSeq := rfl

@[simp] theorem nodeSeq_setRepeat (node : TimerNode Cb) (repeat_ : Bool) :
    (node.setRepeat repeat_).nodeSeq = node.nodeSeq := rfl

end TimerNode
