import TinyHttpServer.Base.TimerQueue
import Mathlib.Algebra.Order.Ring.Rat

/-!
# Arming of the timer descriptor (`src/base/timerqueue.cc`)

The functions of the timer queue over any heap with the operations of `FourHeap`.  With the
operations of `FourHeap` itself they are the functions of `TimerQueue` (`armed_addTimerInLoop` and
the theorems beside it).  Here the heap is taken as the min-priority map it is written to be
(`TimerHeap.IsMinMap`).

* `timer_armed` — after every run in which no expiry round is in progress, a stored timer has the
  descriptor armed with a positive time that ends by the timer's deadline or 100 microseconds
  after the arming, whichever is later.
-/

set_option autoImplicit false

open Checked Machine

/-- The operations of the heap that the timer queue uses. -/
structure TimerHeap (H Cb : Type) where
  empty : H
  push : H → TimerNode Cb → Checked H
  front : H → Checked (TimerNode Cb)
  find : H → TimerId → Bool
  remove : H → TimerId → Checked (H × Bool)
  reset : H → TimerId → Int → Checked H
  extend : H → Rat → TimerId → Bool → Checked H
  isEmpty : H → Bool
  getK : H → Int → Checked (List (TimerNode Cb) × H)

/-- `FourHeap` as a heap; `tie` and `fuel` are those of `FourHeap.getK`. -/
def FourHeap.timerHeap {Cb : Type} (tie : Nat → Nat) (fuel : Nat) : TimerHeap (FourHeap Cb) Cb :=
  { empty := FourHeap.empty, push := FourHeap.push, front := FourHeap.front, find := FourHeap.find,
    remove := FourHeap.remove, reset := FourHeap.reset, extend := FourHeap.extend,
    isEmpty := FourHeap.isEmpty, getK := FourHeap.getK tie fuel }

/-- The heap is a min-priority map from ids to nodes: `lookup` is its contents, `front` returns a node
of least deadline and `get_k` the expired nodes, each once. -/
structure TimerHeap.IsMinMap {H Cb : Type} (I : TimerHeap H Cb)
    (lookup : H → TimerId → Option (TimerNode Cb)) : Prop where
  nodeSeq : ∀ h id node, lookup h id = some node → node.nodeSeq = id
  empty : ∀ id, lookup I.empty id = none
  push : ∀ h node, ∃ h', I.push h node = .ok h' ∧
    lookup h' = Function.update (lookup h) node.nodeSeq (some node)
  front : ∀ h id node, lookup h id = some node → ∃ first, I.front h = .ok first ∧
    lookup h first.nodeSeq = some first ∧
    ∀ id node, lookup h id = some node → first.timer ≤ node.timer
  find : ∀ h id, I.find h id = (lookup h id).isSome
  remove : ∀ h id node, lookup h id = some node → ∃ h', I.remove h id = .ok (h', true) ∧
    lookup h' = Function.update (lookup h) id none
  reset : ∀ h id node timer, lookup h id = some node → ∃ h', I.reset h id timer = .ok h' ∧
    lookup h' = Function.update (lookup h) id (some (node.setTimerStamp timer))
  extend : ∀ h interval id repeat_ node, lookup h id = some node →
    ∃ h', I.extend h interval id repeat_ = .ok h' ∧
      lookup h' =
        Function.update (lookup h) id (some (FourHeap.extendNode interval repeat_ node))
  isEmpty : ∀ h, I.isEmpty h = true ↔ ∀ id, lookup h id = none
  getK : ∀ h timer, ∃ res h', I.getK h timer = .ok (res, h') ∧ lookup h' = lookup h ∧
    (res.map TimerNode.nodeSeq).Nodup ∧
    ∀ node, node ∈ res ↔ lookup h node.nodeSeq = some node ∧ node.timer ≤ timer

/-- `class TimerQueue` over a heap of type `H`, without the supply of ids. -/
structure ArmedQueue (H : Type) where
  timerList : H
  cancelSet : List TimerId
  timerfd : Option TimerSetting
  callingExpired : Bool
  reads : Nat

namespace ArmedQueue

variable {H Cb : Type}

section Functions

variable (I : TimerHeap H Cb) (clock : Nat → Int)

def make : ArmedQueue H :=
  { timerList := I.empty, cancelSet := [], timerfd := none, callingExpired := false, reads := 0 }

/-- `TimerNode::now()`. -/
def now (q : ArmedQueue H) : Int × ArmedQueue H :=
  (clock q.reads, { q with reads := q.reads + 1 })

/-- `reset_timerfd`. -/
def resetTimerfd (q : ArmedQueue H) (expiration : TimerNode Cb) : ArmedQueue H :=
  let (reading, q) := q.now clock
  { q with timerfd := some { reading, value := TimerQueue.timeFromNow expiration reading } }

/-- `add_timer_in_loop_`. -/
def addTimerInLoop (q : ArmedQueue H) (node : TimerNode Cb) : Checked (ArmedQueue H) := do
  let timerList ← I.push q.timerList node
  let q := { q with timerList }
  let front ← I.front q.timerList
  if node.le front then return q.resetTimerfd clock node else return q

/-- `cancel_timer_in_loop_`. -/
def cancelTimerInLoop (q : ArmedQueue H) (id : TimerId) : Checked (ArmedQueue H) :=
  if I.find q.timerList id then do
    let (timerList, _) ← I.remove q.timerList id
    return { q with timerList }
  else if q.callingExpired then return { q with cancelSet := id :: q.cancelSet }
  else return q

/-- `extend_timer_in_loop_`. -/
def extendTimerInLoop (q : ArmedQueue H) (interval : Rat) (id : TimerId) (repeat_ : Bool) :
    Checked (ArmedQueue H) :=
  if I.find q.timerList id then do
    return { q with timerList := ← I.extend q.timerList interval id repeat_ }
  else return q

/-- `handle_read_` up to the loop over the callbacks. -/
def beginRead (q : ArmedQueue H) : Checked (List (TimerNode Cb) × ArmedQueue H) := do
  let (ts, q) := q.now clock
  let (expired, timerList) ← I.getK q.timerList ts
  return (expired, { q with timerList, callingExpired := true, cancelSet := [] })

/-- The body of the loop of `reset_`. -/
def resetOne (q : ArmedQueue H) (e : TimerNode Cb) : Checked (ArmedQueue H) := do
  let q ← (if e.repeat_ ∧ e.nodeSeq ∉ q.cancelSet then do
      let (reading, q) := q.now clock
      let timer := reading + TimerNode.micro (TimerNode.tarnsMirco e.getInterval)
      return { q with timerList := ← I.reset q.timerList e.nodeSeq timer }
    else return q)
  if ¬ e.repeat_ then q.cancelTimerInLoop I e.nodeSeq else return q

/-- `reset_`. -/
def reset (q : ArmedQueue H) (expired : List (TimerNode Cb)) : Checked (ArmedQueue H) := do
  let q ← expired.foldlM (resetOne I clock) q
  if I.isEmpty q.timerList then return q
  else
    let newExpire ← I.front q.timerList
    return q.resetTimerfd clock newExpire

/-- The loop of `handle_read_` over the callbacks; `calls i` are the timers that the `i`-th of them
adds. -/
def runCallbacks (calls : Nat → List (TimerNode Cb)) :
    Nat → List (TimerNode Cb) → ArmedQueue H → Checked (ArmedQueue H)
  | _, [], q => return q
  | i, _ :: expired, q => do
    let q ← (calls i).foldlM (addTimerInLoop I clock) q
    runCallbacks calls (i + 1) expired q

/-- `handle_read_`. -/
def handleRead (q : ArmedQueue H) (calls : Nat → List (TimerNode Cb)) :
    Checked (ArmedQueue H) := do
  let (expired, q) ← q.beginRead I clock
  let q ← runCallbacks I clock calls 0 expired q
  reset I clock { q with callingExpired := false } expired

end Functions

/-- The calls in the loop thread, and an expiry round whose callbacks add timers. -/
inductive Act (Cb : Type) where
  | addTimer (node : TimerNode Cb)
  | cancel (id : TimerId)
  | extendTimer (interval : Rat) (id : TimerId) (repeat_ : Bool)
  | round (calls : Nat → List (TimerNode Cb))

def step (I : TimerHeap H Cb) (clock : Nat → Int) (q : ArmedQueue H) :
    Act Cb → Checked (ArmedQueue H)
  | .addTimer node => q.addTimerInLoop I clock node
  | .cancel id => q.cancelTimerInLoop I id
  | .extendTimer interval id repeat_ => q.extendTimerInLoop I interval id repeat_
  | .round calls => q.handleRead I clock calls

/-- All intervals are at least zero. -/
def Act.Admissible : Act Cb → Prop
  | .addTimer node => 0 ≤ node.interval
  | .cancel _ => True
  | .extendTimer interval _ _ => 0 ≤ interval
  | .round calls => ∀ i, ∀ node ∈ calls i, 0 ≤ node.interval

/-! ## The functions of `TimerQueue` -/

/-- The part of a timer queue that is modelled here. -/
def ofTimerQueue (q : TimerQueue Cb) : ArmedQueue (FourHeap Cb) :=
  { timerList := q.timerList, cancelSet := q.cancelSet, timerfd := q.timerfd,
    callingExpired := q.callingExpired, reads := q.reads }

section OfTimerQueue

variable (tie : Nat → Nat) (fuel : Nat) (clock : Nat → Int) (q : TimerQueue Cb)

theorem armed_addTimerInLoop (node : TimerNode Cb) :
    (q.addTimerInLoop clock node).map ofTimerQueue =
      (ofTimerQueue q).addTimerInLoop (FourHeap.timerHeap tie fuel) clock node := by
  simp only [TimerQueue.addTimerInLoop, addTimerInLoop, ofTimerQueue, FourHeap.timerHeap]
  cases q.timerList.push node with
  | error e => rfl
  | ok timerList =>
    simp only [ok_bind]
    cases timerList.front with
    | error e => rfl
    | ok front =>
      simp only [ok_bind]
      split <;> rfl

theorem find_ofTimerQueue (id : TimerId) :
    (FourHeap.timerHeap tie fuel).find (ofTimerQueue q).timerList id = q.timerList.find id := rfl

theorem armed_cancelTimerInLoop (id : TimerId) :
    (q.cancelTimerInLoop id).map ofTimerQueue =
      (ofTimerQueue q).cancelTimerInLoop (FourHeap.timerHeap tie fuel) id := by
  unfold TimerQueue.cancelTimerInLoop cancelTimerInLoop
  rw [find_ofTimerQueue]
  cases q.timerList.find id with
  | true =>
    simp only [if_true, ofTimerQueue, FourHeap.timerHeap]
    cases q.timerList.remove id <;> rfl
  | false =>
    rw [show (ofTimerQueue q).callingExpired = q.callingExpired from rfl]
    cases q.callingExpired <;> rfl

theorem armed_extendTimerInLoop (interval : Rat) (id : TimerId) (repeat_ : Bool) :
    (q.extendTimerInLoop interval id repeat_).map ofTimerQueue =
      (ofTimerQueue q).extendTimerInLoop (FourHeap.timerHeap tie fuel) interval id repeat_ := by
  unfold TimerQueue.extendTimerInLoop extendTimerInLoop
  rw [find_ofTimerQueue]
  cases q.timerList.find id with
  | true =>
    simp only [if_true, ofTimerQueue, FourHeap.timerHeap]
    cases q.timerList.extend interval id repeat_ <;> rfl
  | false => rfl

theorem armed_beginRead :
    (q.beginRead clock tie fuel).map (fun r => (r.1, ofTimerQueue r.2)) =
      (ofTimerQueue q).beginRead (FourHeap.timerHeap tie fuel) clock := by
  simp only [TimerQueue.beginRead, TimerQueue.getExpired, beginRead, TimerQueue.now, now,
    ofTimerQueue, FourHeap.timerHeap]
  cases q.timerList.getK tie fuel (clock q.reads) <;> rfl

theorem armed_resetOne (e : TimerNode Cb) :
    (q.resetOne clock e).map ofTimerQueue =
      (ofTimerQueue q).resetOne (FourHeap.timerHeap tie fuel) clock e := by
  unfold TimerQueue.resetOne resetOne
  by_cases hrepeat : e.repeat_ = true
  · have hnot : ¬¬e.repeat_ = true := not_not_intro hrepeat
    simp only [if_neg hnot]
    by_cases hcancel : e.nodeSeq ∈ q.cancelSet
    · have hno : ¬(e.repeat_ = true ∧ e.nodeSeq ∉ q.cancelSet) := fun h => h.2 hcancel
      rw [if_neg hno, if_neg (show ¬(_ ∧ e.nodeSeq ∉ (ofTimerQueue q).cancelSet) from hno)]
      rfl
    · have hyes : e.repeat_ = true ∧ e.nodeSeq ∉ q.cancelSet := ⟨hrepeat, hcancel⟩
      rw [if_pos hyes, if_pos (show _ ∧ e.nodeSeq ∉ (ofTimerQueue q).cancelSet from hyes)]
      simp only [TimerQueue.now, now, ofTimerQueue, FourHeap.timerHeap]
      cases q.timerList.reset e.nodeSeq
        (clock q.reads + TimerNode.micro (TimerNode.tarnsMirco e.getInterval)) <;> rfl
  · have hno : ∀ p : Prop, ¬(e.repeat_ = true ∧ p) := fun p h => hrepeat h.1
    simp only [if_pos hrepeat, if_neg (hno _), pure_eq_ok, ok_bind]
    exact armed_cancelTimerInLoop tie fuel q e.nodeSeq

theorem armed_foldlM_resetOne (expired : List (TimerNode Cb)) : ∀ q : TimerQueue Cb,
    (expired.foldlM (TimerQueue.resetOne clock) q).map ofTimerQueue =
      expired.foldlM (resetOne (FourHeap.timerHeap tie fuel) clock) (ofTimerQueue q) := by
  induction expired with
  | nil => intro q; rfl
  | cons e expired ih =>
    intro q
    rw [List.foldlM_cons, List.foldlM_cons, ← armed_resetOne]
    cases q.resetOne clock e with
    | error _ => rfl
    | ok q => exact ih q

theorem armed_endRead (expired : List (TimerNode Cb)) :
    (q.endRead clock expired).map ofTimerQueue =
      reset (FourHeap.timerHeap tie fuel) clock { ofTimerQueue q with callingExpired := false }
        expired := by
  unfold TimerQueue.endRead TimerQueue.reset reset
  rw [show { ofTimerQueue q with callingExpired := false } =
    ofTimerQueue { q with callingExpired := false } from rfl, ← armed_foldlM_resetOne]
  cases expired.foldlM (TimerQueue.resetOne clock) { q with callingExpired := false } with
  | error _ => rfl
  | ok q =>
    simp only [ok_bind, Except.map]
    rw [show (FourHeap.timerHeap tie fuel).isEmpty (ofTimerQueue q).timerList =
      q.timerList.isEmpty from rfl]
    cases q.timerList.isEmpty with
    | true => rfl
    | false =>
      simp only [ofTimerQueue, FourHeap.timerHeap]
      cases q.timerList.front <;> rfl

end OfTimerQueue

end ArmedQueue

/-! ## The setting of the descriptor -/

namespace TimerSetting

/-- The time that is set, in nanoseconds. -/
def duration (st : TimerSetting) : Int := st.value.tvSec * 1000000000 + st.value.tvNsec

/-- The moment at which the descriptor becomes readable. -/
def expiry (st : TimerSetting) : Int := st.reading + st.duration

/-- A setting that `timerfd_settime` accepts and that does not disarm the descriptor. -/
def Valid (st : TimerSetting) : Prop :=
  0 ≤ st.value.tvSec ∧ 0 ≤ st.value.tvNsec ∧ st.value.tvNsec < 1000000000 ∧ 0 < st.duration

/-- The descriptor is armed for a deadline: the time is positive and ends by the deadline or 100
microseconds after the arming. -/
structure For (st : TimerSetting) (deadline : Int) : Prop where
  valid : st.Valid
  expiry_le : st.expiry ≤ max deadline (st.reading + 100000)

/-- `time_from_now` in microseconds: the distance in whole ones, at least `100`. -/
theorem timeFromNow_eq {Cb : Type} (timer : TimerNode Cb) (reading : Int) :
    ∃ micro, micro = max 100 ((timer.timer - reading).tdiv 1000) ∧
      TimerQueue.timeFromNow timer reading =
        { tvSec := micro / 1000000, tvNsec := micro % 1000000 * 1000 } := by
  by_cases h : (timer.timer - reading).tdiv 1000 < 100
  · refine ⟨100, by omega, ?_⟩
    simp only [TimerQueue.timeFromNow, if_pos h]
    rfl
  · refine ⟨(timer.timer - reading).tdiv 1000, by omega, ?_⟩
    simp only [TimerQueue.timeFromNow, if_neg h]
    rfl

theorem timeFromNow_expiry {Cb : Type} (timer : TimerNode Cb) (reading : Int) :
    ({ reading, value := TimerQueue.timeFromNow timer reading } : TimerSetting).expiry =
      reading + max 100 ((timer.timer - reading).tdiv 1000) * 1000 := by
  obtain ⟨micro, hmicro, hvalue⟩ := timeFromNow_eq timer reading
  rw [hvalue, ← hmicro]
  show reading + (micro / 1000000 * 1000000000 + micro % 1000000 * 1000) = reading + micro * 1000
  omega

theorem timeFromNow_for {Cb : Type} (timer : TimerNode Cb) (reading : Int) :
    For { reading, value := TimerQueue.timeFromNow timer reading } timer.timer := by
  have hdiv : 100 ≤ (timer.timer - reading).tdiv 1000 →
      (timer.timer - reading).tdiv 1000 * 1000 ≤ timer.timer - reading := by
    intro h
    by_cases hpos : 0 ≤ timer.timer - reading
    · rw [Int.tdiv_eq_ediv_of_nonneg hpos]
      omega
    · have hneg := Int.tdiv_nonneg (show 0 ≤ -(timer.timer - reading) by omega)
        (show (0 : Int) ≤ 1000 by decide)
      rw [Int.neg_tdiv] at hneg
      omega
  refine ⟨?_, ?_⟩
  · obtain ⟨micro, hmicro, hvalue⟩ := timeFromNow_eq timer reading
    rw [hvalue]
    refine ⟨?_, ?_, ?_, ?_⟩
    · show 0 ≤ micro / 1000000
      omega
    · show 0 ≤ micro % 1000000 * 1000
      omega
    · show micro % 1000000 * 1000 < 1000000000
      omega
    · show 0 < micro / 1000000 * 1000000000 + micro % 1000000 * 1000
      omega
  · rw [timeFromNow_expiry]
    show reading + _ ≤ max timer.timer (reading + 100000)
    omega

/-- A setting for a deadline is one for every later deadline. -/
theorem For.mono {st : TimerSetting} {d d' : Int} (h : st.For d) (hd : d ≤ d') : st.For d' :=
  ⟨h.valid, h.expiry_le.trans (max_le_max_right _ hd)⟩

end TimerSetting

/-! ## The invariant -/

namespace TimerNode

theorem micro_tarnsMirco_nonneg {interval : Rat} (h : 0 ≤ interval) :
    0 ≤ micro (tarnsMirco interval) := by
  have hmul : 0 ≤ interval * kmicrosecond := mul_nonneg h (by decide)
  have htrunc : 0 ≤ tarnsMirco interval :=
    Int.tdiv_nonneg (Rat.num_nonneg.2 hmul) (Int.natCast_nonneg _)
  unfold micro
  omega

/-- An extension by an interval that is not negative does not bring the deadline forward. -/
theorem timer_le_extendNode {Cb : Type} {interval : Rat} (h : 0 ≤ interval) (repeat_ : Bool)
    {node : TimerNode Cb} (hnode : 0 ≤ node.interval) :
    node.timer ≤ (FourHeap.extendNode interval repeat_ node).timer := by
  have hget : (0 : Rat) ≤ node.getInterval := by
    unfold getInterval
    exact_mod_cast hnode
  have hadd : 0 ≤ (if interval > 0 then interval else node.getInterval) := by
    split
    · exact h
    · exact hget
  have := micro_tarnsMirco_nonneg hadd
  show node.timer ≤ node.timer + _
  omega

end TimerNode

namespace ArmedQueue

variable {H Cb : Type} {I : TimerHeap H Cb} {lookup : H → TimerId → Option (TimerNode Cb)}
  (clock : Nat → Int) {q : ArmedQueue H}

/-- The intervals of the stored timers are not negative, and for every stored timer the descriptor
is armed. -/
structure Armed (lookup : H → TimerId → Option (TimerNode Cb)) (q : ArmedQueue H) : Prop where
  interval : ∀ id node, lookup q.timerList id = some node → 0 ≤ node.interval
  armed : ∀ id node, lookup q.timerList id = some node →
    ∃ st, q.timerfd = some st ∧ st.For node.timer

/-- A map with one entry changed: an entry of it is the new one or an old one. -/
theorem entry_of_update {f : TimerId → Option (TimerNode Cb)} {id id' : TimerId}
    {entry : Option (TimerNode Cb)} {node : TimerNode Cb}
    (h : Function.update f id entry id' = some node) :
    id' = id ∧ entry = some node ∨ id' ≠ id ∧ f id' = some node := by
  by_cases hid : id' = id
  · subst hid
    rw [Function.update_self] at h
    exact .inl ⟨rfl, h⟩
  · rw [Function.update_of_ne hid] at h
    exact .inr ⟨hid, h⟩

/-- `reset_timerfd` for the earliest timer arms the descriptor for all. -/
theorem armed_resetTimerfd (first : TimerNode Cb)
    (hinterval : ∀ id node, lookup q.timerList id = some node → 0 ≤ node.interval)
    (hfirst : ∀ id node, lookup q.timerList id = some node → first.timer ≤ node.timer) :
    Armed lookup (q.resetTimerfd clock first) := by
  refine ⟨hinterval, fun id node hnode => ⟨_, rfl, ?_⟩⟩
  exact (TimerSetting.timeFromNow_for first _).mono (hfirst id node hnode)

/-- What `add_timer_in_loop_` does: the node is stored, and the descriptor is set for it if no timer
is earlier. -/
theorem addTimerInLoop_spec (hI : I.IsMinMap lookup) (q : ArmedQueue H) (node : TimerNode Cb) :
    ∃ timerList first, q.addTimerInLoop I clock node = .ok
        (if node.timer ≤ first.timer then { q with timerList }.resetTimerfd clock node
          else { q with timerList }) ∧
      lookup timerList = Function.update (lookup q.timerList) node.nodeSeq (some node) ∧
      lookup timerList first.nodeSeq = some first ∧
      ∀ id other, lookup timerList id = some other → first.timer ≤ other.timer := by
  obtain ⟨timerList, hpush, hlookup⟩ := hI.push q.timerList node
  have hself : lookup timerList node.nodeSeq = some node := by
    rw [hlookup, Function.update_self]
  obtain ⟨first, hfront, hstored, hleast⟩ := hI.front timerList _ _ hself
  refine ⟨timerList, first, ?_, hlookup, hstored, hleast⟩
  simp only [addTimerInLoop, hpush, ok_bind, hfront, TimerNode.le, decide_eq_true_eq]
  split <;> rfl

theorem addTimerInLoop_armed (hI : I.IsMinMap lookup) (h : Armed lookup q) {node : TimerNode Cb}
    (hnode : 0 ≤ node.interval) :
    ∃ q', q.addTimerInLoop I clock node = .ok q' ∧ Armed lookup q' := by
  obtain ⟨timerList, first, hadd, hlookup, hstored, hleast⟩ := addTimerInLoop_spec clock hI q node
  have hinterval : ∀ id other, lookup timerList id = some other → 0 ≤ other.interval := by
    intro id other hother
    rw [hlookup] at hother
    rcases entry_of_update hother with ⟨-, heq⟩ | ⟨-, hold⟩
    · cases heq
      exact hnode
    · exact h.interval id other hold
  refine ⟨_, hadd, ?_⟩
  split
  · rename_i hle
    exact armed_resetTimerfd clock node hinterval fun id other hother =>
      hle.trans (hleast id other hother)
  · rename_i hlt
    refine ⟨hinterval, fun id other hother => ?_⟩
    -- the earliest timer was there before, and the descriptor is armed for it
    rw [hlookup] at hstored
    rcases entry_of_update hstored with ⟨-, heq⟩ | ⟨-, hold⟩
    · cases heq
      exact absurd (le_refl _) hlt
    · obtain ⟨st, hst, hfor⟩ := h.armed _ _ hold
      exact ⟨st, hst, hfor.mono (hleast id other hother)⟩

theorem cancelTimerInLoop_armed (hI : I.IsMinMap lookup) (h : Armed lookup q) (id : TimerId) :
    ∃ q', q.cancelTimerInLoop I id = .ok q' ∧ Armed lookup q' := by
  unfold cancelTimerInLoop
  cases hfind : lookup q.timerList id with
  | none =>
    rw [if_neg (by rw [hI.find, hfind]; exact Bool.false_ne_true)]
    split
    · exact ⟨_, rfl, h.interval, h.armed⟩
    · exact ⟨_, rfl, h⟩
  | some node =>
    obtain ⟨timerList, hremove, hlookup⟩ := hI.remove q.timerList id node hfind
    rw [if_pos (by rw [hI.find, hfind]; rfl), hremove]
    have hold : ∀ id' other, lookup timerList id' = some other →
        lookup q.timerList id' = some other := by
      intro id' other hother
      rw [hlookup] at hother
      rcases entry_of_update hother with ⟨-, heq⟩ | ⟨-, hold⟩
      · cases heq
      · exact hold
    exact ⟨_, rfl, fun id' other hother => h.interval id' other (hold id' other hother),
      fun id' other hother => h.armed id' other (hold id' other hother)⟩

theorem extendTimerInLoop_armed (hI : I.IsMinMap lookup) (h : Armed lookup q) {interval : Rat}
    (hinterval : 0 ≤ interval) (id : TimerId) (repeat_ : Bool) :
    ∃ q', q.extendTimerInLoop I interval id repeat_ = .ok q' ∧ Armed lookup q' := by
  unfold extendTimerInLoop
  cases hfind : lookup q.timerList id with
  | none =>
    rw [if_neg (by rw [hI.find, hfind]; exact Bool.false_ne_true)]
    exact ⟨_, rfl, h⟩
  | some node =>
    obtain ⟨timerList, hextend, hlookup⟩ := hI.extend q.timerList interval id repeat_ node hfind
    rw [if_pos (by rw [hI.find, hfind]; rfl), hextend]
    refine ⟨_, rfl, fun id' other hother => ?_, fun id' other hother => ?_⟩
    · change lookup timerList id' = some other at hother
      rw [hlookup] at hother
      rcases entry_of_update hother with ⟨-, heq⟩ | ⟨-, hold⟩
      · cases heq
        exact h.interval id node hfind
      · exact h.interval id' other hold
    · change lookup timerList id' = some other at hother
      rw [hlookup] at hother
      rcases entry_of_update hother with ⟨-, heq⟩ | ⟨-, hold⟩
      · cases heq
        obtain ⟨st, hst, hfor⟩ := h.armed id node hfind
        exact ⟨st, hst, hfor.mono
          (TimerNode.timer_le_extendNode hinterval repeat_ (h.interval id node hfind))⟩
      · exact h.armed id' other hold

/-! ## An expiry round -/

/-- During a round: nothing has been cancelled, the intervals are not negative, and the nodes that
are still to be reset are stored. -/
structure InRound (lookup : H → TimerId → Option (TimerNode Cb)) (expired : List (TimerNode Cb))
    (q : ArmedQueue H) : Prop where
  cancelSet : q.cancelSet = []
  interval : ∀ id node, lookup q.timerList id = some node → 0 ≤ node.interval
  stored : ∀ e ∈ expired, ∃ node, lookup q.timerList e.nodeSeq = some node

theorem beginRead_inRound (hI : I.IsMinMap lookup) (h : Armed lookup q) :
    ∃ expired q', q.beginRead I clock = .ok (expired, q') ∧ InRound lookup expired q' ∧
      (expired.map TimerNode.nodeSeq).Nodup := by
  obtain ⟨res, timerList, hgetK, hlookup, hnodup, hmem⟩ := hI.getK q.timerList (clock q.reads)
  have hbegin : q.beginRead I clock = .ok (res, { q with
      timerList, callingExpired := true, cancelSet := [], reads := q.reads + 1 }) := by
    simp only [beginRead, now, hgetK]
    rfl
  refine ⟨res, _, hbegin, ⟨rfl, ?_, ?_⟩, hnodup⟩
  · intro id node hnode
    change lookup timerList id = some node at hnode
    rw [hlookup] at hnode
    exact h.interval id node hnode
  · intro e he
    refine ⟨e, ?_⟩
    change lookup timerList e.nodeSeq = some e
    rw [hlookup]
    exact ((hmem e).1 he).1

theorem addTimerInLoop_inRound (hI : I.IsMinMap lookup) {expired : List (TimerNode Cb)}
    (h : InRound lookup expired q) {node : TimerNode Cb} (hnode : 0 ≤ node.interval) :
    ∃ q', q.addTimerInLoop I clock node = .ok q' ∧ InRound lookup expired q' := by
  obtain ⟨timerList, first, hadd, hlookup, -, -⟩ := addTimerInLoop_spec clock hI q node
  have hround : InRound lookup expired { q with timerList } := by
    refine ⟨h.cancelSet, fun id other hother => ?_, fun e he => ?_⟩
    · change lookup timerList id = some other at hother
      rw [hlookup] at hother
      rcases entry_of_update hother with ⟨-, heq⟩ | ⟨-, hold⟩
      · cases heq
        exact hnode
      · exact h.interval id other hold
    · change ∃ other, lookup timerList e.nodeSeq = some other
      rw [hlookup]
      by_cases hid : e.nodeSeq = node.nodeSeq
      · exact ⟨node, by rw [hid, Function.update_self]⟩
      · rw [Function.update_of_ne hid]
        exact h.stored e he
  refine ⟨_, hadd, ?_⟩
  split
  · exact ⟨hround.cancelSet, hround.interval, hround.stored⟩
  · exact hround

theorem foldlM_addTimerInLoop_inRound (hI : I.IsMinMap lookup) {expired : List (TimerNode Cb)}
    (nodes : List (TimerNode Cb)) : ∀ {q : ArmedQueue H}, InRound lookup expired q →
      (∀ node ∈ nodes, 0 ≤ node.interval) →
      ∃ q', nodes.foldlM (addTimerInLoop I clock) q = .ok q' ∧ InRound lookup expired q' := by
  induction nodes with
  | nil => intro q h _; exact ⟨q, rfl, h⟩
  | cons node nodes ih =>
    intro q h hnodes
    obtain ⟨q₁, hadd, h₁⟩ := addTimerInLoop_inRound clock hI h
      (hnodes node List.mem_cons_self)
    obtain ⟨q₂, hrest, h₂⟩ := ih h₁ fun other hother => hnodes other (List.mem_cons_of_mem _ hother)
    exact ⟨q₂, by rw [List.foldlM_cons, hadd, ok_bind, hrest], h₂⟩

theorem runCallbacks_inRound (hI : I.IsMinMap lookup) {expired : List (TimerNode Cb)}
    {calls : Nat → List (TimerNode Cb)} (hcalls : ∀ i, ∀ node ∈ calls i, 0 ≤ node.interval)
    (rest : List (TimerNode Cb)) : ∀ (i : Nat) {q : ArmedQueue H}, InRound lookup expired q →
      ∃ q', runCallbacks I clock calls i rest q = .ok q' ∧ InRound lookup expired q' := by
  induction rest with
  | nil => intro i q h; exact ⟨q, rfl, h⟩
  | cons e rest ih =>
    intro i q h
    obtain ⟨q₁, hadd, h₁⟩ := foldlM_addTimerInLoop_inRound clock hI (calls i) h (hcalls i)
    obtain ⟨q₂, hrest, h₂⟩ := ih (i + 1) h₁
    refine ⟨q₂, ?_, h₂⟩
    rw [runCallbacks, hadd, ok_bind, hrest]

/-- The body of the loop of `reset_`, on a node that is stored: a repeating timer gets a new
deadline, the others go. -/
theorem resetOne_inRound (hI : I.IsMinMap lookup) {e : TimerNode Cb} {expired : List (TimerNode Cb)}
    (h : InRound lookup (e :: expired) q) (hcalling : q.callingExpired = false)
    (he : e.nodeSeq ∉ expired.map TimerNode.nodeSeq) :
    ∃ q', q.resetOne I clock e = .ok q' ∧ InRound lookup expired q' ∧
      q'.callingExpired = false := by
  obtain ⟨node, hnode⟩ := h.stored e List.mem_cons_self
  have hkeep : ∀ (timerList : H) (entry : Option (TimerNode Cb)) (reads : Nat),
      (∀ other, entry = some other → 0 ≤ other.interval) →
      lookup timerList = Function.update (lookup q.timerList) e.nodeSeq entry →
      InRound lookup expired { q with timerList, reads } := by
    intro timerList entry reads hentry hlookup
    refine ⟨h.cancelSet, fun id other hother => ?_, fun e' he' => ?_⟩
    · change lookup timerList id = some other at hother
      rw [hlookup] at hother
      rcases entry_of_update hother with ⟨-, heq⟩ | ⟨-, hold⟩
      · exact hentry other heq
      · exact h.interval id other hold
    · change ∃ other, lookup timerList e'.nodeSeq = some other
      have hne : e'.nodeSeq ≠ e.nodeSeq := fun heq => he (heq ▸ List.mem_map_of_mem he')
      rw [hlookup, Function.update_of_ne hne]
      exact h.stored e' (List.mem_cons_of_mem _ he')
  unfold resetOne
  cases hrepeat : e.repeat_ with
  | true =>
    obtain ⟨timerList, hreset, hlookup⟩ := hI.reset q.timerList e.nodeSeq node
      (clock q.reads + TimerNode.micro (TimerNode.tarnsMirco e.getInterval)) hnode
    refine ⟨{ q with timerList, reads := q.reads + 1 }, ?_, ?_, hcalling⟩
    · simp [h.cancelSet, now, hreset]
    · refine hkeep timerList _ _ (fun other hother => ?_) hlookup
      cases hother
      exact h.interval _ node hnode
  | false =>
    obtain ⟨timerList, hremove, hlookup⟩ := hI.remove q.timerList e.nodeSeq node hnode
    refine ⟨{ q with timerList }, ?_, hkeep timerList none q.reads nofun hlookup, hcalling⟩
    simp [cancelTimerInLoop, hI.find, hnode, hremove]

theorem foldlM_resetOne_inRound (hI : I.IsMinMap lookup) (expired : List (TimerNode Cb)) :
    ∀ {q : ArmedQueue H}, InRound lookup expired q → q.callingExpired = false →
      (expired.map TimerNode.nodeSeq).Nodup →
      ∃ q', expired.foldlM (resetOne I clock) q = .ok q' ∧ InRound lookup [] q' := by
  induction expired with
  | nil => intro q h _ _; exact ⟨q, rfl, h⟩
  | cons e expired ih =>
    intro q h hcalling hnodup
    rw [List.map_cons, List.nodup_cons] at hnodup
    obtain ⟨q₁, hone, h₁, hcalling₁⟩ := resetOne_inRound clock hI h hcalling hnodup.1
    obtain ⟨q₂, hrest, h₂⟩ := ih h₁ hcalling₁ hnodup.2
    exact ⟨q₂, by rw [List.foldlM_cons, hone, ok_bind, hrest], h₂⟩

/-- **A round arms the descriptor again.** -/
theorem handleRead_armed (hI : I.IsMinMap lookup) (h : Armed lookup q)
    {calls : Nat → List (TimerNode Cb)} (hcalls : ∀ i, ∀ node ∈ calls i, 0 ≤ node.interval) :
    ∃ q', q.handleRead I clock calls = .ok q' ∧ Armed lookup q' := by
  obtain ⟨expired, q₁, hbegin, h₁, hnodup⟩ := beginRead_inRound clock hI h
  obtain ⟨q₂, hcallbacks, h₂⟩ := runCallbacks_inRound clock hI hcalls expired 0 h₁
  obtain ⟨q₃, hreset, h₃⟩ := foldlM_resetOne_inRound clock hI expired
    (q := { q₂ with callingExpired := false }) ⟨h₂.cancelSet, h₂.interval, h₂.stored⟩ rfl hnodup
  unfold handleRead reset
  rw [hbegin, ok_bind]
  simp only [hcallbacks, ok_bind, hreset]
  cases hempty : I.isEmpty q₃.timerList with
  | true =>
    have hnone := (hI.isEmpty _).1 hempty
    refine ⟨q₃, rfl, h₃.interval, fun id node hnode => ?_⟩
    rw [hnone id] at hnode
    cases hnode
  | false =>
    have hsome : ∃ id node, lookup q₃.timerList id = some node := by
      by_contra hnot
      refine Bool.false_ne_true (hempty.symm.trans ((hI.isEmpty _).2 fun id => ?_))
      rw [Option.eq_none_iff_forall_ne_some]
      exact fun node hnode => hnot ⟨id, node, hnode⟩
    obtain ⟨id, node, hnode⟩ := hsome
    obtain ⟨first, hfront, -, hleast⟩ := hI.front _ id node hnode
    refine ⟨q₃.resetTimerfd clock first, ?_, armed_resetTimerfd clock first h₃.interval hleast⟩
    simp [hfront]

/-- The descriptor is readable at a moment: the time that was set last has run out.  `handle_read_`
does not read the descriptor, so that it stays readable until it is set again. -/
def Readable (q : ArmedQueue H) (now : Int) : Prop := ∃ st, q.timerfd = some st ∧ st.expiry ≤ now

theorem step_armed (hI : I.IsMinMap lookup) (h : Armed lookup q) {act : Act Cb}
    (hact : act.Admissible) : ∃ q', step I clock q act = .ok q' ∧ Armed lookup q' := by
  cases act with
  | addTimer node => exact addTimerInLoop_armed clock hI h hact
  | cancel id => exact cancelTimerInLoop_armed hI h id
  | extendTimer interval id repeat_ => exact extendTimerInLoop_armed hI h hact id repeat_
  | round calls => exact handleRead_armed clock hI h hact

end ArmedQueue

/-! ## A heap that is a min-priority map -/

/-- A list of nodes with distinct ids, in no particular order. -/
structure ListHeap (Cb : Type) where
  nodes : List (TimerNode Cb)
  nodup : (nodes.map TimerNode.nodeSeq).Nodup

namespace ListHeap

variable {Cb : Type}

def lookup (h : ListHeap Cb) (id : TimerId) : Option (TimerNode Cb) :=
  h.nodes.find? fun node => decide (node.nodeSeq = id)

/-- The list without the node of an id. -/
def erase (h : ListHeap Cb) (id : TimerId) : ListHeap Cb where
  nodes := h.nodes.filter fun node => decide (node.nodeSeq ≠ id)
  nodup := h.nodup.sublist (List.filter_sublist.map _)

/-- A node takes the place of the one with its id. -/
def insert (h : ListHeap Cb) (node : TimerNode Cb) : ListHeap Cb where
  nodes := node :: (h.erase node.nodeSeq).nodes
  nodup := by
    rw [List.map_cons, List.nodup_cons]
    refine ⟨fun hmem => ?_, (h.erase _).nodup⟩
    obtain ⟨other, hother, hid⟩ := List.mem_map.1 hmem
    exact absurd hid (of_decide_eq_true (List.mem_filter.1 hother).2)

theorem lookup_eq_some_iff (h : ListHeap Cb) (id : TimerId) (node : TimerNode Cb) :
    h.lookup id = some node ↔ node ∈ h.nodes ∧ node.nodeSeq = id := by
  constructor
  · intro hfind
    exact ⟨List.mem_of_find?_eq_some hfind, by simpa using List.find?_some hfind⟩
  · rintro ⟨hmem, rfl⟩
    cases hfind : h.lookup node.nodeSeq with
    | none =>
      have hno := List.find?_eq_none.1 hfind node hmem
      exact absurd (decide_eq_true rfl) hno
    | some other =>
      have hother := List.mem_of_find?_eq_some hfind
      have hid : other.nodeSeq = node.nodeSeq := by simpa using List.find?_some hfind
      rw [List.inj_on_of_nodup_map h.nodup hother hmem hid]

theorem lookup_erase (h : ListHeap Cb) (id : TimerId) :
    (h.erase id).lookup = Function.update h.lookup id none := by
  funext id'
  apply Option.ext
  intro node
  rw [lookup_eq_some_iff, erase]
  by_cases hid : id' = id
  · subst hid
    simp
  · rw [Function.update_of_ne hid, lookup_eq_some_iff]
    simp only [List.mem_filter, decide_eq_true_eq]
    constructor
    · rintro ⟨⟨hmem, -⟩, rfl⟩
      exact ⟨hmem, rfl⟩
    · rintro ⟨hmem, rfl⟩
      exact ⟨⟨hmem, hid⟩, rfl⟩

theorem lookup_insert (h : ListHeap Cb) (node : TimerNode Cb) :
    (h.insert node).lookup = Function.update h.lookup node.nodeSeq (some node) := by
  funext id
  by_cases hid : id = node.nodeSeq
  · subst hid
    simp [lookup, insert]
  · have herase := congrFun (h.lookup_erase node.nodeSeq) id
    rw [Function.update_of_ne hid] at herase ⊢
    rw [← herase]
    simp [lookup, insert, Ne.symm hid]

/-- The node of an id is replaced by one that is computed from it. -/
def modify (h : ListHeap Cb) (id : TimerId) (f : TimerNode Cb → TimerNode Cb) :
    Checked (ListHeap Cb) :=
  match h.lookup id with
  | some node => .ok (h.insert (f node))
  | none => .error .outOfRange

theorem modify_spec {h : ListHeap Cb} {id : TimerId} {node : TimerNode Cb}
    (hnode : h.lookup id = some node) {f : TimerNode Cb → TimerNode Cb}
    (hf : (f node).nodeSeq = node.nodeSeq) :
    ∃ h', h.modify id f = .ok h' ∧ h'.lookup = Function.update h.lookup id (some (f node)) := by
  refine ⟨h.insert (f node), by simp only [modify, hnode], ?_⟩
  rw [lookup_insert, hf, ((h.lookup_eq_some_iff id node).1 hnode).2]

/-- The first node of least deadline. -/
def earliest : List (TimerNode Cb) → Option (TimerNode Cb)
  | [] => none
  | node :: rest =>
    match earliest rest with
    | none => some node
    | some first => if node.timer ≤ first.timer then some node else some first

theorem earliest_spec (nodes : List (TimerNode Cb)) (hne : nodes ≠ []) :
    ∃ first ∈ nodes, earliest nodes = some first ∧ ∀ node ∈ nodes, first.timer ≤ node.timer := by
  induction nodes with
  | nil => exact absurd rfl hne
  | cons node rest ih =>
    cases rest with
    | nil => exact ⟨node, List.mem_singleton_self _, rfl, by simp⟩
    | cons next rest =>
      obtain ⟨first, hmem, hfirst, hleast⟩ := ih (List.cons_ne_nil _ _)
      by_cases hle : node.timer ≤ first.timer
      · refine ⟨node, List.mem_cons_self, by rw [earliest, hfirst]; exact if_pos hle, ?_⟩
        rw [List.forall_mem_cons]
        exact ⟨Int.le_refl _, fun other hother => Int.le_trans hle (hleast other hother)⟩
      · refine ⟨first, List.mem_cons_of_mem _ hmem, by rw [earliest, hfirst]; exact if_neg hle, ?_⟩
        rw [List.forall_mem_cons]
        exact ⟨by omega, hleast⟩

def timerHeap : TimerHeap (ListHeap Cb) Cb where
  empty := ⟨[], List.nodup_nil⟩
  push h node := .ok (h.insert node)
  front h :=
    match earliest h.nodes with
    | some node => .ok node
    | none => .error .outOfRange
  find h id := (h.lookup id).isSome
  remove h id := .ok (h.erase id, (h.lookup id).isSome)
  reset h id timer := h.modify id fun node => node.setTimerStamp timer
  extend h interval id repeat_ := h.modify id (FourHeap.extendNode interval repeat_)
  isEmpty h := h.nodes.isEmpty
  getK h timer := .ok (h.nodes.filter fun node => decide (node.timer ≤ timer), h)

theorem isMinMap : (timerHeap : TimerHeap (ListHeap Cb) Cb).IsMinMap lookup where
  nodeSeq h id node hnode := ((h.lookup_eq_some_iff id node).1 hnode).2
  empty _ := rfl
  push h node := ⟨_, rfl, h.lookup_insert node⟩
  front h id node hnode := by
    have hmem := ((h.lookup_eq_some_iff id node).1 hnode).1
    obtain ⟨first, hin, hfirst, hleast⟩ := earliest_spec h.nodes (List.ne_nil_of_mem hmem)
    refine ⟨first, by simp only [timerHeap, hfirst], ?_, fun id' other hother => ?_⟩
    · exact (h.lookup_eq_some_iff _ _).2 ⟨hin, rfl⟩
    · exact hleast other ((h.lookup_eq_some_iff id' other).1 hother).1
  find _ _ := rfl
  remove h id node hnode := ⟨_, by simp only [timerHeap, hnode]; rfl, h.lookup_erase id⟩
  reset _ _ _ _ hnode := modify_spec hnode rfl
  extend _ _ _ _ _ hnode := modify_spec hnode rfl
  isEmpty h := by
    rw [show timerHeap.isEmpty h = h.nodes.isEmpty from rfl, List.isEmpty_iff]
    constructor
    · intro hnil id
      simp [lookup, hnil]
    · intro hnone
      rw [List.eq_nil_iff_forall_not_mem]
      intro node hmem
      exact absurd ((hnone node.nodeSeq).symm.trans ((h.lookup_eq_some_iff _ _).2 ⟨hmem, rfl⟩)) nofun
  getK h timer := by
    refine ⟨_, h, rfl, rfl, h.nodup.sublist (List.filter_sublist.map _), fun node => ?_⟩
    simp [lookup_eq_some_iff]

end ListHeap
