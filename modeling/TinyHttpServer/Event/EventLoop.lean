import TinyHttpServer.Lib.Run
import Mathlib.Logic.Function.Basic

/-!
# The event loop and its functor queue (`src/event/eventloop.cc`)

The loop thread polls, dispatches the handlers of the active channels and executes the functors
that have been queued.  Any number of threads queue functors.  The steps of the model are the
places where the threads can interleave: `push_back` under the mutex, the test that decides about
the wake-up, the write to the event descriptor, and the statements of `loop` and `dopending_func`
that touch shared state.

* `functors_in_order` — the functors executed, the rest of the batch and the queue are together
  always the functors in the order of their `push_back`.
* `no_lost_wakeup` — the loop does not block with a non-empty queue unless a wake-up is there or on
  its way.
-/

set_option autoImplicit false

open Checked Machine

/-- Where the loop thread is. -/
inductive LoopPc where
  /-- outside `loop()` -/
  | outside
  /-- before the test `!quit_` -/
  | test
  /-- about to block in `poll` -/
  | poll
  /-- in the handlers of the active channels -/
  | dispatch
  /-- in `dopending_func`, after `calling_ = true` -/
  | swap
  /-- in the loop over the batch -/
  | execute
  deriving DecidableEq, Repr

/-- The places at which `calling_` is set. -/
def LoopPc.calling : LoopPc → Bool
  | .swap | .execute => true
  | _ => false

/-- The places from the swap, or the entry of `loop()`, up to the next `poll`. -/
def LoopPc.beforePoll : LoopPc → Bool
  | .test | .poll | .execute => true
  | _ => false

/-- Where a thread is in a call of `queue_in_loop` or `quit`. -/
inductive CallPc where
  | idle
  /-- after `push_back`, before the test -/
  | pushed
  /-- before the `wakeup_` of `queue_in_loop` -/
  | waking
  /-- before the `wakeup_` of `quit` -/
  | quitting
  deriving DecidableEq, Repr

/-- `class EventLoop` with the threads that use it.  The threads are `none`, the loop thread, and
`some t`.  `wakefd` is the counter of the event descriptor, `batch` the part of the local vector
`functors` that has not been started, `executed` the functors that have been started, and `pushed`
all functors in the order of their `push_back`. -/
structure EventLoop (F T : Type) where
  pc : LoopPc
  quit : Bool
  calling : Bool
  pendingFunc : List F
  batch : List F
  wakefd : Nat
  callers : Option T → CallPc
  executed : List F
  pushed : List F

namespace EventLoop

variable {F T : Type}

/-- After the constructor. -/
def make : EventLoop F T :=
  { pc := .outside, quit := false, calling := false, pendingFunc := [], batch := [], wakefd := 0,
    callers := fun _ => .idle, executed := [], pushed := [] }

/-- The largest value of the counter of an event descriptor. -/
def wakefdMax : Nat := 2 ^ 64 - 2

/-- The steps of the loop thread in `loop` and `dopending_func`. -/
inductive LoopStep where
  /-- `loop`: `quit_ = false` -/
  | enterLoop
  /-- `loop`: the test `!quit_` -/
  | test
  | pollReturn
  /-- `handle_read_`, as the handler of the wake channel -/
  | handleRead
  /-- the end of the dispatch, and `calling_ = true` -/
  | beginPending
  /-- `functors.swap(pending_func_)` under the mutex -/
  | swap
  | startFunctor
  /-- the end of the batch, and `calling_ = false` -/
  | endPending
  deriving DecidableEq, Repr

/-- The steps of all threads. -/
inductive Step (F T : Type) where
  /-- `queue_in_loop`: `push_back` under the mutex -/
  | push (who : Option T) (f : F)
  /-- `queue_in_loop`: the test `!is_in_loop_thread() || calling_` -/
  | check (who : Option T)
  /-- `quit`: `quit_ = true` -/
  | quit (who : Option T)
  /-- the write of `wakeup_` -/
  | wakeup (who : Option T)
  | loop (act : LoopStep)
  deriving DecidableEq

/-- The thread that takes a step. -/
def Step.who : Step F T → Option T
  | .push who _ | .check who | .quit who | .wakeup who => who
  | .loop _ => none

/-- The loop thread is in code that may call `queue_in_loop` or `quit`: a handler, a functor, or the
code around `loop()`. -/
def InUserCode (s : EventLoop F T) : Prop := s.pc = .outside ∨ s.pc = .dispatch ∨ s.pc = .execute

instance (s : EventLoop F T) : Decidable s.InUserCode := by unfold InUserCode; infer_instance

/-- The write of `wakeup_`: at its maximum the counter stays. -/
def wake (s : EventLoop F T) : EventLoop F T :=
  { s with wakefd := if s.wakefd < wakefdMax then s.wakefd + 1 else s.wakefd }

theorem wake_pos (s : EventLoop F T) : 0 < s.wake.wakefd := by
  unfold wake
  simp only
  split
  · omega
  · rename_i h
    have : 0 < wakefdMax := by decide
    omega

/-- A step of the loop thread; one that cannot be taken changes nothing. -/
def stepLoop (s : EventLoop F T) : LoopStep → EventLoop F T
  | .enterLoop => if s.pc = .outside then { s with pc := .test, quit := false } else s
  | .test => if s.pc = .test then { s with pc := if s.quit then .outside else .poll } else s
  | .pollReturn => if s.pc = .poll then { s with pc := .dispatch } else s
  | .handleRead => if s.pc = .dispatch then { s with wakefd := 0 } else s
  | .beginPending => if s.pc = .dispatch then { s with pc := .swap, calling := true } else s
  | .swap =>
    if s.pc = .swap then { s with pc := .execute, batch := s.pendingFunc, pendingFunc := [] } else s
  | .startFunctor =>
    match s.pc, s.batch with
    | .execute, f :: batch => { s with batch, executed := s.executed ++ [f] }
    | _, _ => s
  | .endPending =>
    if s.pc = .execute ∧ s.batch = [] then { s with pc := .test, calling := false } else s

section Step

variable [DecidableEq T]

def setCaller (s : EventLoop F T) (who : Option T) (pc : CallPc) : EventLoop F T :=
  { s with callers := Function.update s.callers who pc }

@[simp] theorem setCaller_self (s : EventLoop F T) (who : Option T) (pc : CallPc) :
    (s.setCaller who pc).callers who = pc := Function.update_self ..

theorem setCaller_of_ne (s : EventLoop F T) {who x : Option T} (h : x ≠ who) (pc : CallPc) :
    (s.setCaller who pc).callers x = s.callers x := Function.update_of_ne h ..

/-- A thread can call `queue_in_loop` or `quit`. -/
def CanCall (s : EventLoop F T) (who : Option T) : Prop :=
  s.callers who = .idle ∧ (who = none → s.InUserCode)

instance (s : EventLoop F T) (who : Option T) : Decidable (s.CanCall who) := by
  unfold CanCall; infer_instance

/-- The effect of a step; a step that cannot be taken changes nothing.  The loop thread takes a step
of `loop` or `dopending_func` only when it is not inside `queue_in_loop` or `quit`. -/
def step (s : EventLoop F T) : Step F T → Checked (EventLoop F T)
  | .push who f =>
    return if s.CanCall who then
      setCaller { s with pendingFunc := s.pendingFunc ++ [f], pushed := s.pushed ++ [f] } who .pushed
    else s
  | .check who =>
    return if s.callers who = .pushed then
      s.setCaller who (if who ≠ none ∨ s.calling then .waking else .idle)
    else s
  | .quit who =>
    return if s.CanCall who then
      setCaller { s with quit := true } who (if who = none then .idle else .quitting)
    else s
  | .wakeup who =>
    return if s.callers who = .waking ∨ s.callers who = .quitting then s.wake.setCaller who .idle
      else s
  | .loop act => return if s.callers none = .idle then s.stepLoop act else s

/-- What a step can do, where it does something. -/
inductive Move : EventLoop F T → Step F T → EventLoop F T → Prop where
  | push {s : EventLoop F T} {who : Option T} (f : F) (h : s.CanCall who) :
    Move s (.push who f) (setCaller
      { s with pendingFunc := s.pendingFunc ++ [f], pushed := s.pushed ++ [f] } who .pushed)
  | check {s : EventLoop F T} {who : Option T} (h : s.callers who = .pushed) :
    Move s (.check who) (s.setCaller who (if who ≠ none ∨ s.calling then .waking else .idle))
  | quit {s : EventLoop F T} {who : Option T} (h : s.CanCall who) :
    Move s (.quit who)
      (setCaller { s with quit := true } who (if who = none then .idle else .quitting))
  | wakeup {s : EventLoop F T} {who : Option T}
      (h : s.callers who = .waking ∨ s.callers who = .quitting) :
    Move s (.wakeup who) (s.wake.setCaller who .idle)
  | enterLoop {s : EventLoop F T} (hidle : s.callers none = .idle) (hpc : s.pc = .outside) :
    Move s (.loop .enterLoop) { s with pc := .test, quit := false }
  | test {s : EventLoop F T} (hidle : s.callers none = .idle) (hpc : s.pc = .test) :
    Move s (.loop .test) { s with pc := if s.quit then .outside else .poll }
  | pollReturn {s : EventLoop F T} (hidle : s.callers none = .idle) (hpc : s.pc = .poll) :
    Move s (.loop .pollReturn) { s with pc := .dispatch }
  | handleRead {s : EventLoop F T} (hidle : s.callers none = .idle) (hpc : s.pc = .dispatch) :
    Move s (.loop .handleRead) { s with wakefd := 0 }
  | beginPending {s : EventLoop F T} (hidle : s.callers none = .idle) (hpc : s.pc = .dispatch) :
    Move s (.loop .beginPending) { s with pc := .swap, calling := true }
  | swap {s : EventLoop F T} (hidle : s.callers none = .idle) (hpc : s.pc = .swap) :
    Move s (.loop .swap) { s with pc := .execute, batch := s.pendingFunc, pendingFunc := [] }
  | startFunctor {s : EventLoop F T} {f : F} {batch : List F} (hidle : s.callers none = .idle)
      (hpc : s.pc = .execute) (hbatch : s.batch = f :: batch) :
    Move s (.loop .startFunctor) { s with batch, executed := s.executed ++ [f] }
  | endPending {s : EventLoop F T} (hidle : s.callers none = .idle) (hpc : s.pc = .execute)
      (hbatch : s.batch = []) :
    Move s (.loop .endPending) { s with pc := .test, calling := false }

/-- A step of the loop thread is a move or does nothing. -/
theorem stepLoop_move {s : EventLoop F T} (hidle : s.callers none = .idle) (act : LoopStep) :
    s.stepLoop act = s ∨ Move s (.loop act) (s.stepLoop act) := by
  cases act with
  | startFunctor =>
    simp only [stepLoop]
    split
    · rename_i f batch hpc hbatch
      exact .inr (.startFunctor hidle hpc hbatch)
    · exact .inl rfl
  | endPending =>
    simp only [stepLoop]
    split
    · rename_i h
      exact .inr (.endPending hidle h.1 h.2)
    · exact .inl rfl
  | enterLoop =>
    simp only [stepLoop]
    split
    · rename_i hpc; exact .inr (.enterLoop hidle hpc)
    · exact .inl rfl
  | test =>
    simp only [stepLoop]
    split
    · rename_i hpc; exact .inr (.test hidle hpc)
    · exact .inl rfl
  | pollReturn =>
    simp only [stepLoop]
    split
    · rename_i hpc; exact .inr (.pollReturn hidle hpc)
    · exact .inl rfl
  | handleRead =>
    simp only [stepLoop]
    split
    · rename_i hpc; exact .inr (.handleRead hidle hpc)
    · exact .inl rfl
  | beginPending =>
    simp only [stepLoop]
    split
    · rename_i hpc; exact .inr (.beginPending hidle hpc)
    · exact .inl rfl
  | swap =>
    simp only [stepLoop]
    split
    · rename_i hpc; exact .inr (.swap hidle hpc)
    · exact .inl rfl

/-- **Every step is a move or does nothing.** -/
theorem step_move (s : EventLoop F T) (act : Step F T) :
    ∃ t, step s act = .ok t ∧ (t = s ∨ Move s act t) := by
  cases act with
  | push who f =>
    refine ⟨_, rfl, ?_⟩
    split
    · rename_i h; exact .inr (.push f h)
    · exact .inl rfl
  | check who =>
    refine ⟨_, rfl, ?_⟩
    split
    · rename_i h; exact .inr (.check h)
    · exact .inl rfl
  | quit who =>
    refine ⟨_, rfl, ?_⟩
    split
    · rename_i h; exact .inr (.quit h)
    · exact .inl rfl
  | wakeup who =>
    refine ⟨_, rfl, ?_⟩
    split
    · rename_i h; exact .inr (.wakeup h)
    · exact .inl rfl
  | loop act =>
    refine ⟨_, rfl, ?_⟩
    split
    · rename_i hidle; exact stepLoop_move hidle act
    · exact .inl rfl

/-- An invariant that every move keeps holds in every state of every run. -/
theorem run_move {Inv : EventLoop F T → Prop} {adm : EventLoop F T → Step F T → Prop}
    (hmove : ∀ s act t, Inv s → adm s act → Move s act t → Inv t) (acts : List (Step F T))
    {s : EventLoop F T} (hs : Inv s) (hacts : Allowed step adm s acts) :
    ∃ t, run step s acts = .ok t ∧ Inv t := by
  apply run_invariant _ acts s hs hacts
  intro s act hs hadm
  obtain ⟨t, ht, rfl | hm⟩ := step_move s act
  · exact ⟨t, ht, hs⟩
  · exact ⟨t, ht, hmove s act t hs hadm hm⟩

/-- Only the entry of `loop()` clears `quit_`. -/
theorem quit_of_step {s t : EventLoop F T} {act : Step F T} (ht : step s act = .ok t)
    (hact : act ≠ .loop .enterLoop) (hquit : s.quit = true) : t.quit = true := by
  obtain ⟨u, hu, rfl | hm⟩ := step_move s act
  · rw [hu] at ht
    cases ht
    exact hquit
  · rw [hu] at ht
    cases ht
    cases hm with
    | enterLoop => exact absurd rfl hact
    | quit => rfl
    | _ => exact hquit

/-- Outside `loop()` the loop thread stays outside until it enters it. -/
theorem outside_of_step {s t : EventLoop F T} {act : Step F T} (ht : step s act = .ok t)
    (hact : act ≠ .loop .enterLoop) (hpc : s.pc = .outside) : t.pc = .outside := by
  obtain ⟨u, hu, rfl | hm⟩ := step_move s act
  · rw [hu] at ht
    cases ht
    exact hpc
  · rw [hu] at ht
    cases ht
    cases hm with
    | enterLoop => exact absurd rfl hact
    | push | check | quit | wakeup => exact hpc
    | test _ h | pollReturn _ h | handleRead _ h | beginPending _ h | swap _ h =>
      exact absurd (hpc.symm.trans h) nofun
    | startFunctor _ h | endPending _ h => exact absurd (hpc.symm.trans h) nofun

/-- The steps of the other threads leave the calls of the loop thread alone. -/
theorem callers_none_of_step {s t : EventLoop F T} {act : Step F T} (ht : step s act = .ok t)
    (hwho : act.who ≠ none) : t.callers none = s.callers none := by
  obtain ⟨u, hu, rfl | hm⟩ := step_move s act
  · rw [hu] at ht
    cases ht
    rfl
  · rw [hu] at ht
    cases ht
    cases hm with
    | push | check | quit | wakeup => exact setCaller_of_ne _ (Ne.symm hwho) _
    | _ => exact absurd rfl hwho

theorem step_quit {s : EventLoop F T} {who : Option T} (h : s.CanCall who) :
    step s (.quit who) =
      .ok (setCaller { s with quit := true } who (if who = none then .idle else .quitting)) := by
  simp only [step, if_pos h, pure_eq_ok]

/-- `quit` leaves the loop thread in no call of its own: it writes nothing in the loop thread. -/
theorem callers_none_of_quit {s : EventLoop F T} {who : Option T} (h : s.CanCall who) :
    (setCaller { s with quit := true } who (if who = none then .idle else .quitting)).callers none =
      s.callers none := by
  by_cases hwho : who = none
  · subst hwho
    exact (setCaller_self ..).trans h.1.symm
  · exact setCaller_of_ne _ (Ne.symm hwho) _

/-! ## Functors are executed once and in order -/

/-- What has been executed, what is being executed and what is queued is all that was pushed; a batch
exists only in the loop over it. -/
structure InOrder (s : EventLoop F T) : Prop where
  order : s.executed ++ s.batch ++ s.pendingFunc = s.pushed
  batch : s.pc ≠ .execute → s.batch = []

theorem Move.inOrder {s t : EventLoop F T} {act : Step F T} (h : InOrder s) (hm : Move s act t) :
    InOrder t := by
  cases hm with
  | push f =>
    refine ⟨?_, h.batch⟩
    show s.executed ++ s.batch ++ (s.pendingFunc ++ [f]) = s.pushed ++ [f]
    rw [← List.append_assoc, h.order]
  | check => exact ⟨h.order, h.batch⟩
  | quit => exact ⟨h.order, h.batch⟩
  | wakeup => exact ⟨h.order, h.batch⟩
  | enterLoop _ hpc => exact ⟨h.order, fun _ => h.batch (by rw [hpc]; decide)⟩
  | test _ hpc => exact ⟨h.order, fun _ => h.batch (by rw [hpc]; decide)⟩
  | pollReturn _ hpc => exact ⟨h.order, fun _ => h.batch (by rw [hpc]; decide)⟩
  | handleRead _ hpc => exact ⟨h.order, h.batch⟩
  | beginPending _ hpc => exact ⟨h.order, fun _ => h.batch (by rw [hpc]; decide)⟩
  | swap _ hpc =>
    have hnil := h.batch (by rw [hpc]; decide)
    have horder := h.order
    rw [hnil, List.append_nil] at horder
    refine ⟨?_, fun hne => absurd rfl hne⟩
    show s.executed ++ s.pendingFunc ++ [] = s.pushed
    rw [List.append_nil, horder]
  | @startFunctor f batch _ hpc hbatch =>
    have horder := h.order
    refine ⟨?_, fun hne => absurd hpc hne⟩
    show s.executed ++ [f] ++ batch ++ s.pendingFunc = s.pushed
    rw [hbatch] at horder
    simpa using horder
  | endPending _ _ hbatch => exact ⟨h.order, fun _ => hbatch⟩

/-- **Functors are executed exactly once and in order.**  At every point of every run the functors
executed so far, the rest of the batch and the queue are together the functors in the order in
which their `push_back` took the mutex. -/
theorem functors_in_order (acts : List (Step F T)) :
    ∃ s, run step (make : EventLoop F T) acts = .ok s ∧
      s.executed ++ s.batch ++ s.pendingFunc = s.pushed := by
  obtain ⟨s, hrun, h⟩ := run_move (fun _ _ _ hs _ hm => hm.inOrder hs) acts
    (show InOrder (make : EventLoop F T) from ⟨rfl, fun _ => rfl⟩)
    (Allowed.of_forall (fun _ _ => trivial) acts make)
  exact ⟨s, hrun, h.order⟩

/-! ## Wake-ups -/

/-- The thread has pushed a functor and has not yet written to the event descriptor. -/
def WakeDue (s : EventLoop F T) (who : Option T) : Prop :=
  s.callers who = .pushed ∨ s.callers who = .waking

/-- A wake-up is there or on its way, if there is something to wake up for. -/
def Covered (s : EventLoop F T) : Prop :=
  s.pendingFunc = [] ∨ 0 < s.wakefd ∨ ∃ who, s.WakeDue who

/-- The invariant behind the wake-ups: `calling_` is set from before the swap to the end of the
batch, and from the swap up to the next `poll` the queue is covered.  Before the swap it need not
be, since the swap empties it. -/
structure NoLostWakeup (s : EventLoop F T) : Prop where
  calling : s.calling = s.pc.calling
  inCall : s.callers none ≠ .idle → s.InUserCode
  covered : s.pc.beforePoll → s.Covered

/-- `loop()` is entered with an empty queue. -/
def EntersEmpty (s : EventLoop F T) (act : Step F T) : Prop :=
  act = .loop .enterLoop → s.pendingFunc = []

instance [DecidableEq F] (s : EventLoop F T) (act : Step F T) : Decidable (s.EntersEmpty act) :=
  inferInstanceAs (Decidable (act = .loop .enterLoop → s.pendingFunc = []))

/-- A call that moves on without writing leaves the other wake-ups on their way. -/
theorem Covered.setCaller {s : EventLoop F T} (h : s.Covered) {who : Option T} {pc : CallPc}
    (hpc : s.WakeDue who → (s.setCaller who pc).WakeDue who) : (s.setCaller who pc).Covered := by
  rcases h with h | h | ⟨x, hx⟩
  · exact .inl h
  · exact .inr (.inl h)
  · refine .inr (.inr ?_)
    by_cases hxw : x = who
    · subst hxw
      exact ⟨x, hpc hx⟩
    · refine ⟨x, ?_⟩
      unfold WakeDue
      rw [setCaller_of_ne s hxw]
      exact hx

/-- A step of a thread other than the loop thread, or of the loop thread in user code, keeps the
place of the loop thread consistent with its calls. -/
theorem inCall_setCaller {s : EventLoop F T} (h : s.callers none ≠ .idle → s.InUserCode)
    {who : Option T} (hwho : who = none → s.InUserCode) (pc : CallPc)
    (hne : (s.setCaller who pc).callers none ≠ .idle) : s.InUserCode := by
  by_cases hw : who = none
  · exact hwho hw
  · apply h
    rwa [setCaller_of_ne s (Ne.symm hw)] at hne

theorem Move.noLostWakeup {s t : EventLoop F T} {act : Step F T} (h : NoLostWakeup s)
    (hadm : EntersEmpty s act) (hm : Move s act t) : NoLostWakeup t := by
  cases hm with
  | @push who f hcall =>
    refine ⟨h.calling, ?_, fun _ => ?_⟩
    · exact inCall_setCaller h.inCall hcall.2 .pushed
    · exact .inr (.inr ⟨who, .inl (setCaller_self ..)⟩)
  | @check who hpushed =>
    have hwho : who = none → s.InUserCode := by
      rintro rfl
      apply h.inCall
      rw [hpushed]
      decide
    refine ⟨h.calling, inCall_setCaller h.inCall hwho _, fun hpc => ?_⟩
    refine Covered.setCaller (h.covered hpc) fun _ => .inr ?_
    rw [setCaller_self, if_pos]
    by_cases hw : who = none
    · -- the loop thread is here in a functor, with `calling_` set
      right
      rw [h.calling]
      change s.pc.beforePoll = true at hpc
      rcases hwho hw with huser | huser | huser <;> rw [huser] at hpc ⊢ <;> cases hpc
      rfl
    · exact .inl hw
  | @quit who hcall =>
    refine ⟨h.calling, inCall_setCaller h.inCall hcall.2 _, fun hpc => ?_⟩
    refine Covered.setCaller (s := { s with quit := true }) (h.covered hpc) fun hdue => ?_
    rcases hdue with hdue | hdue
    · exact absurd (hcall.1.symm.trans hdue) (by decide)
    · exact absurd (hcall.1.symm.trans hdue) (by decide)
  | @wakeup who hdue =>
    have hwho : who = none → s.InUserCode := by
      rintro rfl
      apply h.inCall
      rcases hdue with hdue | hdue <;> rw [hdue] <;> decide
    exact ⟨h.calling, inCall_setCaller h.inCall hwho _, fun _ => .inr (.inl s.wake_pos)⟩
  | enterLoop hidle hpc =>
    refine ⟨?_, fun hne => absurd hidle hne, fun _ => .inl (hadm rfl)⟩
    exact h.calling.trans (by rw [hpc]; rfl)
  | test hidle hpc =>
    refine ⟨?_, fun hne => absurd hidle hne, fun _ => h.covered (by rw [hpc]; rfl)⟩
    refine h.calling.trans ?_
    rw [hpc]
    cases s.quit <;> rfl
  | pollReturn hidle hpc =>
    refine ⟨?_, fun hne => absurd hidle hne, nofun⟩
    exact h.calling.trans (by rw [hpc]; rfl)
  | handleRead hidle hpc =>
    refine ⟨h.calling, h.inCall, fun hpc' => ?_⟩
    change s.pc.beforePoll = true at hpc'
    rw [hpc] at hpc'
    cases hpc'
  | beginPending hidle hpc => exact ⟨rfl, fun hne => absurd hidle hne, nofun⟩
  | swap hidle hpc =>
    refine ⟨?_, fun hne => absurd hidle hne, fun _ => .inl rfl⟩
    exact h.calling.trans (by rw [hpc]; rfl)
  | startFunctor hidle hpc => exact ⟨h.calling, h.inCall, h.covered⟩
  | endPending hidle hpc =>
    exact ⟨rfl, fun hne => absurd hidle hne, fun _ => h.covered (by rw [hpc]; rfl)⟩

/-- **No wake-up is lost.**  In every run in which `loop()` is entered with an empty queue, when the
loop thread is about to block in `poll` with functors in the queue, the event descriptor is
readable or some thread has pushed and is still before its write. -/
theorem no_lost_wakeup (acts : List (Step F T)) (hacts : Allowed step EntersEmpty make acts) :
    ∃ s, run step (make : EventLoop F T) acts = .ok s ∧
      (s.pc = .poll → s.pendingFunc ≠ [] → 0 < s.wakefd ∨ ∃ who, s.WakeDue who) := by
  obtain ⟨s, hrun, h⟩ := run_move (fun _ _ _ hs hadm hm => hm.noLostWakeup hs hadm) acts
    (show NoLostWakeup (make : EventLoop F T) from ⟨rfl, fun hne => absurd rfl hne,
      fun _ => .inl rfl⟩) hacts
  refine ⟨s, hrun, fun hpc hne => ?_⟩
  exact (h.covered (by rw [hpc]; rfl)).resolve_left hne

/-- A functor queues another one from the loop thread; its wake-up is there when the loop comes back
to `poll`. -/
theorem no_lost_wakeup_sample :
    ∃ s, run step (make : EventLoop Nat Unit)
        [.loop .enterLoop, .loop .test, .push (some ()) 1, .check (some ()), .wakeup (some ()),
          .loop .pollReturn, .loop .handleRead, .loop .beginPending, .loop .swap,
          .loop .startFunctor, .push none 2, .check none, .wakeup none, .loop .endPending,
          .loop .test] = .ok s ∧
      s.pc = .poll ∧ s.pendingFunc = [2] ∧ (0 < s.wakefd ∨ ∃ who, s.WakeDue who) := by
  obtain ⟨s, hrun, h⟩ := no_lost_wakeup (F := Nat) (T := Unit)
    [.loop .enterLoop, .loop .test, .push (some ()) 1, .check (some ()), .wakeup (some ()),
      .loop .pollReturn, .loop .handleRead, .loop .beginPending, .loop .swap,
      .loop .startFunctor, .push none 2, .check none, .wakeup none, .loop .endPending,
      .loop .test] (by decide +kernel)
  obtain ⟨t, ht, hview⟩ := map_eq_ok.1 (show (run step (make : EventLoop Nat Unit)
      [.loop .enterLoop, .loop .test, .push (some ()) 1, .check (some ()), .wakeup (some ()),
        .loop .pollReturn, .loop .handleRead, .loop .beginPending, .loop .swap,
        .loop .startFunctor, .push none 2, .check none, .wakeup none, .loop .endPending,
        .loop .test]).map (fun s => (s.pc, s.pendingFunc)) = .ok (.poll, [2]) by decide +kernel)
  obtain rfl : s = t := Except.ok.inj (hrun.symm.trans ht)
  obtain ⟨hpc, hpending⟩ := Prod.mk.inj hview
  exact ⟨s, hrun, hpc, hpending, h hpc (by rw [hpending]; decide)⟩

end Step

end EventLoop
