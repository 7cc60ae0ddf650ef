import TinyHttpServer.Event.EventLoop

/-!
# The thread of an event loop (`src/server/eventloopthread.cc`)

`thread_func_` constructs a loop, publishes it in `loop_` and runs it; `start_loop` waits for the
publication; the destructor asks the published loop to quit and joins the thread.  Any thread that
has the pointer may use the loop at the same time.

* `quit_seen_iff` — a call of `quit` is seen by every later test of the loop condition, and the
  thread can always be joined afterwards, exactly when `loop()` has executed its `quit_ = false`
  before the call.
* `quit_before_loop_is_lost` — the destructor runs between the publication and the entry of
  `loop()`, and the thread goes on to `poll`.
-/

set_option autoImplicit false

open Checked Machine

/-- Where the thread is in `thread_func_`. -/
inductive ThreadPc where
  /-- not created, or before the construction of its loop -/
  | before
  /-- the loop is constructed; in `thread_cb_` -/
  | constructed
  /-- after `loop_.store(&loop)` -/
  | stored
  /-- after the `quit_ = false` of `loop()`, up to the return from `loop()` -/
  | inLoop
  /-- after `loop_.store(nullptr)`, with the loop destroyed -/
  | finished
  deriving DecidableEq, Repr

/-- Where the owning thread is in `start_loop` and the destructor. -/
inductive OwnerPc where
  | constructed
  /-- in the loop of `start_loop` -/
  | spinning
  | started
  /-- in the destructor, after the test `loop_.load() != nullptr` -/
  | tested
  /-- before `loop->quit()` -/
  | loaded
  /-- inside `quit`, before its `wakeup_` -/
  | quitting
  | joining
  | destroyed
  deriving DecidableEq, Repr

/-- The owner has come out of `start_loop`. -/
def OwnerPc.hasStarted : OwnerPc → Bool
  | .constructed | .spinning => false
  | _ => true

/-- `class EventLoopThread` with its loop.  The threads that use the loop are the loop thread,
`none`, the owning thread, `some none`, and any others.  `published` says that `loop_` is not null,
and `evals` lists the values of `quit_` that the tests of the loop condition have seen. -/
structure EventLoopThread (F T : Type) where
  loop : EventLoop F (Option T)
  thread : ThreadPc
  owner : OwnerPc
  published : Bool
  evals : List Bool

namespace EventLoopThread

variable {F T : Type}

def make : EventLoopThread F T :=
  { loop := .make, thread := .before, owner := .constructed, published := false, evals := [] }

inductive Step (F T : Type) where
  /-- `start_loop`: `thread_ = std::thread(..)` -/
  | start
  /-- `start_loop`: `loop_.load() == nullptr` -/
  | spin
  /-- `thread_func_`: `EventLoop loop` -/
  | construct
  /-- `thread_func_`: `loop_.store(&loop)` -/
  | store
  /-- `thread_func_`: `loop.loop()` up to `quit_ = false` -/
  | enter
  /-- `thread_func_`: `loop_.store(nullptr)` and the end -/
  | leave
  /-- the destructor: `loop_.load() != nullptr` -/
  | destroy
  /-- the destructor: `EventLoop *loop = loop_.load()` -/
  | load
  /-- the destructor: `quit_ = true` of `loop->quit()` -/
  | quit
  /-- the destructor: `wakeup_` of `loop->quit()` -/
  | wakeup
  | join
  /-- a step of the loop thread in `thread_cb_` or `loop()`, or of a thread that has the pointer -/
  | use (act : EventLoop.Step F (Option T))

/-- The loop exists, and for the loop thread it is in `thread_cb_` or in `loop()`. -/
def CanUse (s : EventLoopThread F T) (act : EventLoop.Step F (Option T)) : Prop :=
  match act, act.who with
  | .loop .enterLoop, _ => False
  | _, none => s.thread = .constructed ∨ s.thread = .inLoop ∧ s.loop.pc ≠ .outside
  | _, some _ => s.thread = .constructed ∨ s.thread = .stored ∨ s.thread = .inLoop

instance (s : EventLoopThread F T) (act : EventLoop.Step F (Option T)) : Decidable (s.CanUse act) := by
  unfold CanUse; split <;> infer_instance

theorem CanUse.ne_enterLoop {s : EventLoopThread F T} {act : EventLoop.Step F (Option T)}
    (h : s.CanUse act) : act ≠ .loop .enterLoop := by
  rintro rfl
  exact h

/-- Between the publication and the entry only other threads use the loop. -/
theorem CanUse.who_ne_none {s : EventLoopThread F T} {act : EventLoop.Step F (Option T)}
    (h : s.CanUse act) (hstored : s.thread = .stored) : act.who ≠ none := by
  intro hwho
  unfold CanUse at h
  split at h
  · exact h
  · rw [hstored] at h
    simp at h
  · rename_i hsome
    rw [hwho] at hsome
    cases hsome

/-- A finished thread has destroyed its loop. -/
theorem CanUse.ne_finished {s : EventLoopThread F T} {act : EventLoop.Step F (Option T)}
    (h : s.CanUse act) : s.thread ≠ .finished := by
  intro hfin
  unfold CanUse at h
  split at h
  · exact h
  · rw [hfin] at h
    simp at h
  · rw [hfin] at h
    simp at h

theorem CanUse.ne_before {s : EventLoopThread F T} {act : EventLoop.Step F (Option T)}
    (h : s.CanUse act) : s.thread ≠ .before := by
  intro hbefore
  unfold CanUse at h
  split at h
  · exact h
  · rw [hbefore] at h
    simp at h
  · rw [hbefore] at h
    simp at h

/-- What the test of the loop condition sees, if the step is this test. -/
def observed (s : EventLoopThread F T) : EventLoop.Step F (Option T) → List Bool
  | .loop .test => if s.loop.callers none = .idle ∧ s.loop.pc = .test then [s.loop.quit] else []
  | _ => []

theorem observed_of_quit {s : EventLoopThread F T} (hquit : s.loop.quit = true)
    (act : EventLoop.Step F (Option T)) : ∀ v ∈ s.observed act, v = true := by
  intro v hv
  unfold observed at hv
  split at hv
  · split at hv
    · rw [hquit] at hv
      exact List.mem_singleton.1 hv
    · cases hv
  · cases hv

/-- Before `loop()` the loop is outside it; between the publication and the entry the loop thread is
in no call; the owner gets past `start_loop` only when the loop has been published. -/
structure Consistent (s : EventLoopThread F T) : Prop where
  outside : s.thread ≠ .inLoop → s.thread ≠ .finished → s.loop.pc = .outside
  idle : s.thread = .stored → s.loop.callers none = .idle
  owner : s.owner.hasStarted → s.thread ≠ .before ∧ s.thread ≠ .constructed
  published : s.published = true → s.thread = .stored ∨ s.thread = .inLoop

theorem make_consistent : Consistent (make : EventLoopThread F T) :=
  ⟨fun _ _ => rfl, nofun, nofun, nofun⟩

/-- The request to quit is recorded and will not be cleared. -/
def Latched (s : EventLoopThread F T) : Prop :=
  s.thread = .inLoop ∧ s.loop.quit = true ∨ s.thread = .finished

/-- The request is recorded, and the tests of the loop condition since `s` have all seen it. -/
def LatchedSince (s t : EventLoopThread F T) : Prop :=
  Latched t ∧ ∃ seen, t.evals = s.evals ++ seen ∧ ∀ v ∈ seen, v = true

theorem LatchedSince.of_evals_eq {s t : EventLoopThread F T} (h : Latched t)
    (hevals : t.evals = s.evals) : LatchedSince s t :=
  ⟨h, [], by rw [hevals, List.append_nil], nofun⟩

theorem LatchedSince.trans {s t u : EventLoopThread F T} (hst : LatchedSince s t)
    (htu : LatchedSince t u) : LatchedSince s u := by
  obtain ⟨_, seen, hseen, hall⟩ := hst
  obtain ⟨hlatched, new, hnew, hallnew⟩ := htu
  refine ⟨hlatched, seen ++ new, by rw [hnew, hseen, List.append_assoc], fun v hv => ?_⟩
  rcases List.mem_append.1 hv with hv | hv
  · exact hall v hv
  · exact hallnew v hv

/-- The step sets `quit_`: in the destructor, or in a call by a thread that has the pointer. -/
def QuitCall (s : EventLoopThread F T) : Step F T → Prop
  | .quit => s.owner = .loaded ∧ s.loop.callers (some none) = .idle ∧ s.thread ≠ .finished
  | .use (.quit who) => s.CanUse (.quit who) ∧ s.loop.CanCall who
  | _ => False

/-- `quit` is called on a loop that exists. -/
theorem QuitCall.alive {s : EventLoopThread F T} {act : Step F T} (h : QuitCall s act)
    (hs : Consistent s) : s.thread ≠ .before ∧ s.thread ≠ .finished := by
  cases act with
  | quit => exact ⟨(hs.owner (by rw [h.1]; rfl)).1, h.2.2⟩
  | use act =>
    cases act with
    | quit who => exact ⟨h.1.ne_before, h.1.ne_finished⟩
    | _ => exact h.elim
  | _ => exact h.elim

section Step

variable [DecidableEq T]

/-- The effect of a step; a step that cannot be taken changes nothing.  The pointer that the
destructor loads may be null, and it may dangle when the thread ends before the call. -/
def step (s : EventLoopThread F T) : Step F T → Checked (EventLoopThread F T)
  | .start => return if s.owner = .constructed then { s with owner := .spinning } else s
  | .spin => return if s.owner = .spinning ∧ s.published then { s with owner := .started } else s
  | .construct =>
    return if s.thread = .before ∧ s.owner ≠ .constructed then { s with thread := .constructed }
      else s
  | .store =>
    return if s.thread = .constructed ∧ s.loop.callers none = .idle then
      { s with thread := .stored, published := true }
    else s
  | .enter =>
    return if s.thread = .stored then
      { s with thread := .inLoop, loop := s.loop.stepLoop .enterLoop }
    else s
  | .leave =>
    return if s.thread = .inLoop ∧ s.loop.pc = .outside then
      { s with thread := .finished, published := false }
    else s
  | .destroy =>
    return if s.owner = .started then
      { s with owner := if s.published then .tested else .joining }
    else s
  | .load =>
    if s.owner = .tested then
      if s.published then return { s with owner := .loaded } else throw .invalidAccess
    else return s
  | .quit =>
    if s.owner = .loaded ∧ s.loop.callers (some none) = .idle then
      if s.thread = .finished then throw .invalidAccess
      else return { s with loop := ← s.loop.step (.quit (some none)), owner := .quitting }
    else return s
  | .wakeup =>
    if s.owner = .quitting then
      if s.thread = .finished then throw .invalidAccess
      else return { s with loop := ← s.loop.step (.wakeup (some none)), owner := .joining }
    else return s
  | .join =>
    return if s.owner = .joining ∧ s.thread = .finished then { s with owner := .destroyed } else s
  | .use act =>
    if s.CanUse act then
      return { s with loop := ← s.loop.step act, evals := s.evals ++ s.observed act }
    else return s

/-- What a step can do, where it does something. -/
inductive Move : EventLoopThread F T → Step F T → EventLoopThread F T → Prop where
  | start {s : EventLoopThread F T} (h : s.owner = .constructed) :
    Move s .start { s with owner := .spinning }
  | spin {s : EventLoopThread F T} (h : s.owner = .spinning) (hpub : s.published = true) :
    Move s .spin { s with owner := .started }
  | construct {s : EventLoopThread F T} (h : s.thread = .before) (howner : s.owner ≠ .constructed) :
    Move s .construct { s with thread := .constructed }
  | store {s : EventLoopThread F T} (h : s.thread = .constructed)
      (hidle : s.loop.callers none = .idle) :
    Move s .store { s with thread := .stored, published := true }
  | enter {s : EventLoopThread F T} (h : s.thread = .stored) :
    Move s .enter { s with thread := .inLoop, loop := s.loop.stepLoop .enterLoop }
  | leave {s : EventLoopThread F T} (h : s.thread = .inLoop) (hpc : s.loop.pc = .outside) :
    Move s .leave { s with thread := .finished, published := false }
  | destroy {s : EventLoopThread F T} (h : s.owner = .started) :
    Move s .destroy { s with owner := if s.published then .tested else .joining }
  | load {s : EventLoopThread F T} (h : s.owner = .tested) (hpub : s.published = true) :
    Move s .load { s with owner := .loaded }
  | quit {s : EventLoopThread F T} {loop : EventLoop F (Option T)} (h : s.owner = .loaded)
      (hidle : s.loop.callers (some none) = .idle) (hthread : s.thread ≠ .finished)
      (hloop : s.loop.step (.quit (some none)) = .ok loop) :
    Move s .quit { s with loop, owner := .quitting }
  | wakeup {s : EventLoopThread F T} {loop : EventLoop F (Option T)} (h : s.owner = .quitting)
      (hthread : s.thread ≠ .finished) (hloop : s.loop.step (.wakeup (some none)) = .ok loop) :
    Move s .wakeup { s with loop, owner := .joining }
  | join {s : EventLoopThread F T} (h : s.owner = .joining) (hthread : s.thread = .finished) :
    Move s .join { s with owner := .destroyed }
  | use {s : EventLoopThread F T} {act : EventLoop.Step F (Option T)}
      {loop : EventLoop F (Option T)} (h : s.CanUse act) (hloop : s.loop.step act = .ok loop) :
    Move s (.use act) { s with loop, evals := s.evals ++ s.observed act }

/-- **Every step that returns is a move or does nothing.** -/
theorem step_move {s t : EventLoopThread F T} {act : Step F T} (ht : step s act = .ok t) :
    t = s ∨ Move s act t := by
  cases act with
  | start =>
    cases ht
    split
    · rename_i h; exact .inr (.start h)
    · exact .inl rfl
  | spin =>
    cases ht
    split
    · rename_i h; exact .inr (.spin h.1 h.2)
    · exact .inl rfl
  | construct =>
    cases ht
    split
    · rename_i h; exact .inr (.construct h.1 h.2)
    · exact .inl rfl
  | store =>
    cases ht
    split
    · rename_i h; exact .inr (.store h.1 h.2)
    · exact .inl rfl
  | enter =>
    cases ht
    split
    · rename_i h; exact .inr (.enter h)
    · exact .inl rfl
  | leave =>
    cases ht
    split
    · rename_i h; exact .inr (.leave h.1 h.2)
    · exact .inl rfl
  | destroy =>
    cases ht
    split
    · rename_i h; exact .inr (.destroy h)
    · exact .inl rfl
  | join =>
    cases ht
    split
    · rename_i h; exact .inr (.join h.1 h.2)
    · exact .inl rfl
  | load =>
    simp only [step] at ht
    split at ht
    · rename_i h
      split at ht
      · rename_i hpub; cases ht; exact .inr (.load h hpub)
      · cases ht
    · cases ht; exact .inl rfl
  | quit =>
    simp only [step] at ht
    split at ht
    · rename_i h
      split at ht
      · cases ht
      · rename_i hfin
        obtain ⟨loop, hloop, ht⟩ := bind_eq_ok.1 ht
        cases ht
        exact .inr (.quit h.1 h.2 hfin hloop)
    · cases ht; exact .inl rfl
  | wakeup =>
    simp only [step] at ht
    split at ht
    · rename_i h
      split at ht
      · cases ht
      · rename_i hfin
        obtain ⟨loop, hloop, ht⟩ := bind_eq_ok.1 ht
        cases ht
        exact .inr (.wakeup h hfin hloop)
    · cases ht; exact .inl rfl
  | use act =>
    simp only [step] at ht
    split at ht
    · rename_i h
      obtain ⟨loop, hloop, ht⟩ := bind_eq_ok.1 ht
      cases ht
      exact .inr (.use h hloop)
    · cases ht; exact .inl rfl

/-! ## What holds of every run -/

/-- A step on the loop that is not the entry of `loop()`, and not the loop thread's between the
publication and the entry, keeps what is known of the loop. -/
theorem Consistent.setLoop {s : EventLoopThread F T} (h : Consistent s)
    {act : EventLoop.Step F (Option T)} {loop : EventLoop F (Option T)}
    (hloop : s.loop.step act = .ok loop) (hact : act ≠ .loop .enterLoop)
    (hwho : s.thread = .stored → act.who ≠ none) : Consistent { s with loop } := by
  refine ⟨fun hin hfin => ?_, fun hstored => ?_, h.owner, h.published⟩
  · exact EventLoop.outside_of_step hloop hact (h.outside hin hfin)
  · exact (EventLoop.callers_none_of_step hloop (hwho hstored)).trans (h.idle hstored)

theorem Move.consistent {s t : EventLoopThread F T} {act : Step F T} (h : Consistent s)
    (hm : Move s act t) : Consistent t := by
  cases hm with
  | start _ => exact ⟨h.outside, h.idle, nofun, h.published⟩
  | spin _ hpub =>
    refine ⟨h.outside, h.idle, fun _ => ?_, h.published⟩
    rcases h.published hpub with hthread | hthread
    · exact ⟨by rw [hthread]; decide, by rw [hthread]; decide⟩
    · exact ⟨by rw [hthread]; decide, by rw [hthread]; decide⟩
  | construct hthread howner =>
    refine ⟨fun _ _ => ?_, nofun, fun hstarted => ?_, fun hpub => ?_⟩
    · exact h.outside (by rw [hthread]; decide) (by rw [hthread]; decide)
    · exact absurd hthread (h.owner hstarted).1
    · rcases h.published hpub with hpub | hpub <;> exact absurd (hthread.symm.trans hpub) nofun
  | store hthread hidle =>
    refine ⟨fun _ _ => ?_, fun _ => hidle, fun _ => ⟨nofun, nofun⟩, fun _ => .inl rfl⟩
    exact h.outside (by rw [hthread]; decide) (by rw [hthread]; decide)
  | enter hthread => exact ⟨fun hin => absurd rfl hin, nofun, fun _ => ⟨nofun, nofun⟩, fun _ => .inr rfl⟩
  | leave hthread hpc => exact ⟨fun _ hfin => absurd rfl hfin, nofun, fun _ => ⟨nofun, nofun⟩, nofun⟩
  | destroy howner => exact ⟨h.outside, h.idle, fun _ => h.owner (by rw [howner]; rfl), h.published⟩
  | load howner _ => exact ⟨h.outside, h.idle, fun _ => h.owner (by rw [howner]; rfl), h.published⟩
  | join howner _ => exact ⟨h.outside, h.idle, fun _ => h.owner (by rw [howner]; rfl), h.published⟩
  | quit howner _ _ hloop =>
    have hl := h.setLoop hloop nofun fun _ => nofun
    exact ⟨hl.outside, hl.idle, fun _ => h.owner (by rw [howner]; rfl), h.published⟩
  | wakeup howner _ hloop =>
    have hl := h.setLoop hloop nofun fun _ => nofun
    exact ⟨hl.outside, hl.idle, fun _ => h.owner (by rw [howner]; rfl), h.published⟩
  | use hcan hloop =>
    have hl := h.setLoop hloop hcan.ne_enterLoop hcan.who_ne_none
    exact ⟨hl.outside, hl.idle, h.owner, h.published⟩

theorem run_consistent {before : List (Step F T)} {s : EventLoopThread F T}
    (hrun : run step make before = .ok s) : Consistent s := by
  refine run_safe (fun s act t h _ ht => ?_) before make s make_consistent
    (Allowed.of_forall (fun _ _ => trivial) before make) hrun
  obtain rfl | hm := step_move ht
  · exact h
  · exact hm.consistent h

/-! ## A request made inside `loop()` -/

theorem Move.latched {s t : EventLoopThread F T} {act : Step F T} (h : Latched s)
    (hm : Move s act t) : LatchedSince s t := by
  have hthread : s.thread = .inLoop ∨ s.thread = .finished := h.imp And.left id
  cases hm with
  | construct hbefore | store hbefore | enter hbefore =>
    rcases hthread with hthread | hthread <;> exact absurd (hbefore.symm.trans hthread) nofun
  | leave => exact .of_evals_eq (.inr rfl) rfl
  | quit _ _ _ hloop =>
    refine .of_evals_eq (h.imp (And.imp_right fun hquit => ?_) id) rfl
    exact EventLoop.quit_of_step hloop nofun hquit
  | wakeup _ _ hloop =>
    refine .of_evals_eq (h.imp (And.imp_right fun hquit => ?_) id) rfl
    exact EventLoop.quit_of_step hloop nofun hquit
  | @use act loop hcan hloop =>
    have hin := h.resolve_right hcan.ne_finished
    refine ⟨.inl ⟨hin.1, ?_⟩, s.observed act, rfl, observed_of_quit hin.2 act⟩
    exact EventLoop.quit_of_step hloop hcan.ne_enterLoop hin.2
  | start | spin | destroy | load | join => exact .of_evals_eq h rfl

theorem run_latched (more : List (Step F T)) {s t : EventLoopThread F T} (h : Latched s)
    (hrun : run step s more = .ok t) : LatchedSince s t := by
  have hstep : ∀ u act w, LatchedSince s u → True → step u act = .ok w → LatchedSince s w := by
    intro u act w hu _ hw
    obtain rfl | hm := step_move hw
    · exact hu
    · exact hu.trans (hm.latched hu.1)
  exact run_safe hstep more s t (.of_evals_eq h rfl)
    (Allowed.of_forall (fun _ _ => trivial) more s) hrun

/-! ## The thread can be joined -/

/-- Some continuation ends the thread, and completes the join if the destructor waits for it. -/
def CanFinish (s : EventLoopThread F T) : Prop :=
  ∃ rest t, run step s rest = .ok t ∧ t.thread = .finished ∧
    (s.owner = .joining → t.owner = .destroyed)

theorem CanFinish.of_run {s t : EventLoopThread F T} {more : List (Step F T)}
    (ht : run step s more = .ok t) (howner : t.owner = s.owner) (h : CanFinish t) :
    CanFinish s := by
  obtain ⟨rest, u, hrun, hfin, hjoin⟩ := h
  refine ⟨more ++ rest, u, ?_, hfin, fun hs => hjoin (howner.trans hs)⟩
  rw [run_append, ht, ok_bind, hrun]

theorem step_use {s : EventLoopThread F T} {act : EventLoop.Step F (Option T)}
    {loop : EventLoop F (Option T)} (hcan : s.CanUse act) (hloop : s.loop.step act = .ok loop) :
    step s (.use act) = .ok { s with loop, evals := s.evals ++ s.observed act } := by
  simp only [step, if_pos hcan, hloop, ok_bind, pure_eq_ok]

/-- A step of the loop thread inside `loop()`. -/
theorem CanFinish.of_loop {s : EventLoopThread F T} (act : EventLoop.LoopStep)
    (hin : s.thread = .inLoop) (hpc : s.loop.pc ≠ .outside)
    (hidle : s.loop.callers none = .idle) (hact : act ≠ .enterLoop)
    (h : CanFinish
      { s with loop := s.loop.stepLoop act, evals := s.evals ++ s.observed (.loop act) }) :
    CanFinish s := by
  have hcan : s.CanUse (.loop act) := by
    cases act <;> first | exact absurd rfl hact | exact .inr ⟨hin, hpc⟩
  have hloop : s.loop.step (.loop act) = .ok (s.loop.stepLoop act) := by
    simp only [EventLoop.step, if_pos hidle, pure_eq_ok]
  exact h.of_run (run_single (step_use hcan hloop)) rfl

variable {s : EventLoopThread F T}

theorem canFinish_of_outside (hin : s.thread = .inLoop) (hpc : s.loop.pc = .outside) :
    CanFinish s := by
  refine ⟨[.leave, .join], _, by simp [step, hin, hpc]; rfl, ?_, ?_⟩
  · split <;> rfl
  · intro howner
    simp [howner]

theorem canFinish_of_test (hin : s.thread = .inLoop) (hquit : s.loop.quit = true)
    (hidle : s.loop.callers none = .idle) (hpc : s.loop.pc = .test) : CanFinish s := by
  refine .of_loop .test hin (by rw [hpc]; decide) hidle nofun (canFinish_of_outside hin ?_)
  simp [EventLoop.stepLoop, hpc, hquit]

/-- The batch is executed to its end. -/
theorem canFinish_of_execute (batch : List F) : ∀ {s : EventLoopThread F T}, s.thread = .inLoop →
    s.loop.quit = true → s.loop.callers none = .idle → s.loop.pc = .execute →
    s.loop.batch = batch → CanFinish s := by
  induction batch with
  | nil =>
    intro s hin hquit hidle hpc hbatch
    refine .of_loop .endPending hin (by rw [hpc]; decide) hidle (by simp) ?_
    have hloop : s.loop.stepLoop .endPending = { s.loop with pc := .test, calling := false } := by
      simp [EventLoop.stepLoop, hpc, hbatch]
    rw [hloop]
    exact canFinish_of_test hin hquit hidle rfl
  | cons f batch ih =>
    intro s hin hquit hidle hpc hbatch
    refine .of_loop .startFunctor hin (by rw [hpc]; decide) hidle (by simp) ?_
    have hloop : s.loop.stepLoop .startFunctor =
        { s.loop with batch, executed := s.loop.executed ++ [f] } := by
      simp [EventLoop.stepLoop, hpc, hbatch]
    rw [hloop]
    exact ih hin hquit hidle hpc rfl

theorem canFinish_of_swap (hin : s.thread = .inLoop) (hquit : s.loop.quit = true)
    (hidle : s.loop.callers none = .idle) (hpc : s.loop.pc = .swap) : CanFinish s := by
  refine .of_loop .swap hin (by rw [hpc]; decide) hidle nofun ?_
  have hloop : s.loop.stepLoop .swap =
      { s.loop with pc := .execute, batch := s.loop.pendingFunc, pendingFunc := [] } := by
    simp [EventLoop.stepLoop, hpc]
  rw [hloop]
  exact canFinish_of_execute _ hin hquit hidle rfl rfl

theorem canFinish_of_dispatch (hin : s.thread = .inLoop) (hquit : s.loop.quit = true)
    (hidle : s.loop.callers none = .idle) (hpc : s.loop.pc = .dispatch) : CanFinish s := by
  refine .of_loop .beginPending hin (by rw [hpc]; decide) hidle nofun ?_
  have hloop : s.loop.stepLoop .beginPending = { s.loop with pc := .swap, calling := true } := by
    simp [EventLoop.stepLoop, hpc]
  rw [hloop]
  exact canFinish_of_swap hin hquit hidle rfl

theorem canFinish_of_poll (hin : s.thread = .inLoop) (hquit : s.loop.quit = true)
    (hidle : s.loop.callers none = .idle) (hpc : s.loop.pc = .poll) : CanFinish s := by
  refine .of_loop .pollReturn hin (by rw [hpc]; decide) hidle nofun ?_
  have hloop : s.loop.stepLoop .pollReturn = { s.loop with pc := .dispatch } := by
    simp [EventLoop.stepLoop, hpc]
  rw [hloop]
  exact canFinish_of_dispatch hin hquit hidle rfl

theorem canFinish_of_idle (hin : s.thread = .inLoop) (hquit : s.loop.quit = true)
    (hidle : s.loop.callers none = .idle) : CanFinish s := by
  cases hpc : s.loop.pc with
  | outside => exact canFinish_of_outside hin hpc
  | test => exact canFinish_of_test hin hquit hidle hpc
  | poll => exact canFinish_of_poll hin hquit hidle hpc
  | dispatch => exact canFinish_of_dispatch hin hquit hidle hpc
  | swap => exact canFinish_of_swap hin hquit hidle hpc
  | execute => exact canFinish_of_execute _ hin hquit hidle hpc rfl

/-- The loop thread comes to the end of the write of `wakeup_` that it is in front of. -/
theorem wake_ends (hplace : s.thread = .constructed ∨ s.thread = .inLoop ∧ s.loop.pc ≠ .outside)
    (hcall : s.loop.callers none = .waking ∨ s.loop.callers none = .quitting) :
    ∃ t, run step s [.use (.wakeup none)] = .ok t ∧ t.thread = s.thread ∧ t.owner = s.owner ∧
      t.evals = s.evals ∧ t.loop.pc = s.loop.pc ∧ t.loop.quit = s.loop.quit ∧
      t.loop.callers none = .idle := by
  have hcan : s.CanUse (.wakeup none) := hplace
  have hloop : s.loop.step (.wakeup none) = .ok (s.loop.wake.setCaller none .idle) := by
    simp only [EventLoop.step, if_pos hcall, pure_eq_ok]
  exact ⟨_, run_single (step_use hcan hloop), rfl, rfl, List.append_nil _, rfl,
    rfl, EventLoop.setCaller_self ..⟩

/-- The loop thread comes to the end of a call of `queue_in_loop` or `quit` that it is in. -/
theorem call_ends (hplace : s.thread = .constructed ∨ s.thread = .inLoop ∧ s.loop.pc ≠ .outside) :
    ∃ more t, run step s more = .ok t ∧ t.thread = s.thread ∧ t.owner = s.owner ∧
      t.evals = s.evals ∧ t.loop.pc = s.loop.pc ∧ t.loop.quit = s.loop.quit ∧
      t.loop.callers none = .idle := by
  have hcan : s.CanUse (.check none) := hplace
  cases hcall : s.loop.callers none with
  | idle => exact ⟨[], s, rfl, rfl, rfl, rfl, rfl, rfl, hcall⟩
  | waking => exact ⟨_, wake_ends hplace (.inl hcall)⟩
  | quitting => exact ⟨_, wake_ends hplace (.inr hcall)⟩
  | pushed =>
    cases hcalling : s.loop.calling with
    | true =>
      have hloop : s.loop.step (.check none) = .ok (s.loop.setCaller none .waking) := by
        simp [EventLoop.step, hcall, hcalling]
      have hcheck := step_use hcan hloop
      obtain ⟨t, ht, hthread, howner, hevals, hpc, hquit, hidle⟩ := wake_ends
        (s := { s with
          loop := s.loop.setCaller none .waking
          evals := s.evals ++ s.observed (.check none) })
        hplace (.inl (EventLoop.setCaller_self ..))
      refine ⟨[.use (.check none), .use (.wakeup none)], t, ?_, hthread, howner,
        hevals.trans (List.append_nil _), hpc, hquit, hidle⟩
      rw [run_cons, hcheck, ok_bind, ht]
    | false =>
      have hloop : s.loop.step (.check none) = .ok (s.loop.setCaller none .idle) := by
        simp [EventLoop.step, hcall, hcalling]
      exact ⟨_, _, run_single (step_use hcan hloop), rfl, rfl,
        List.append_nil _, rfl, rfl, EventLoop.setCaller_self ..⟩

/-- **From every state in which the request is recorded, the thread can be joined.** -/
theorem Latched.canFinish (h : Latched s) : CanFinish s := by
  rcases h with ⟨hin, hquit⟩ | hfin
  · by_cases hpc : s.loop.pc = .outside
    · exact canFinish_of_outside hin hpc
    · obtain ⟨more, t, ht, hthread, howner, -, -, hquit', hidle⟩ := call_ends (.inr ⟨hin, hpc⟩)
      exact .of_run ht howner (canFinish_of_idle (hthread.trans hin) (hquit'.trans hquit) hidle)
  · refine ⟨[.join], _, rfl, ?_, fun howner => ?_⟩
    · split <;> exact hfin
    · simp [howner, hfin]

/-! ## A request made before `loop()` -/

/-- A call of `quit` sets the flag and leaves the loop thread where it is. -/
theorem QuitCall.step_eq {act : Step F T} (h : QuitCall s act) :
    ∃ t, step s act = .ok t ∧ t.loop.quit = true ∧ t.thread = s.thread ∧
      t.loop.pc = s.loop.pc ∧ t.loop.callers none = s.loop.callers none ∧ t.evals = s.evals := by
  cases act with
  | quit =>
    obtain ⟨howner, hidle, hfin⟩ := h
    have hcall : s.loop.CanCall (some none) := ⟨hidle, nofun⟩
    have hstep : step s .quit = .ok { s with
        loop := EventLoop.setCaller { s.loop with quit := true } (some none) .quitting,
        owner := .quitting } := by
      have hguard : s.owner = .loaded ∧ s.loop.callers (some none) = .idle := ⟨howner, hidle⟩
      simp only [step, if_pos hguard, if_neg hfin, EventLoop.step_quit hcall]
      rfl
    exact ⟨_, hstep, rfl, rfl, rfl, EventLoop.callers_none_of_quit hcall, rfl⟩
  | use act =>
    cases act with
    | quit who =>
      obtain ⟨hcan, hcall⟩ := h
      refine ⟨_, step_use hcan (EventLoop.step_quit hcall), rfl, rfl, rfl, ?_, ?_⟩
      · exact EventLoop.callers_none_of_quit hcall
      · exact List.append_nil _
    | _ => exact h.elim
  | _ => exact h.elim

/-- Some continuation has a test of the loop condition that sees `quit_ = false`. -/
def CanMiss (s : EventLoopThread F T) : Prop :=
  ∃ more t, run step s more = .ok t ∧ t.evals = s.evals ++ [false]

theorem CanMiss.of_run {t : EventLoopThread F T} {more : List (Step F T)}
    (ht : run step s more = .ok t) (hevals : t.evals = s.evals) (h : CanMiss t) : CanMiss s := by
  obtain ⟨rest, u, hrun, hu⟩ := h
  refine ⟨more ++ rest, u, ?_, by rw [hu, hevals]⟩
  rw [run_append, ht, ok_bind, hrun]

theorem canMiss_of_test (hin : s.thread = .inLoop) (hquit : s.loop.quit = false)
    (hidle : s.loop.callers none = .idle) (hpc : s.loop.pc = .test) : CanMiss s := by
  have hcan : s.CanUse (.loop .test) := .inr ⟨hin, by rw [hpc]; decide⟩
  have hloop : s.loop.step (.loop .test) = .ok { s.loop with pc := .poll } := by
    simp [EventLoop.step, EventLoop.stepLoop, hidle, hpc, hquit]
  refine ⟨[.use (.loop .test)], _, run_single (step_use hcan hloop), ?_⟩
  simp [observed, hidle, hpc, hquit]

/-- The entry of `loop()` clears the flag, and the first test sees it cleared. -/
theorem canMiss_of_stored (hthread : s.thread = .stored) (hpc : s.loop.pc = .outside)
    (hidle : s.loop.callers none = .idle) : CanMiss s := by
  have henter : step s .enter =
      .ok { s with thread := .inLoop, loop := { s.loop with pc := .test, quit := false } } := by
    simp [step, hthread, EventLoop.stepLoop, hpc]
  exact .of_run (run_single henter) rfl (canMiss_of_test rfl rfl hidle rfl)

theorem canMiss_of_constructed (hthread : s.thread = .constructed) (hpc : s.loop.pc = .outside)
    (hidle : s.loop.callers none = .idle) : CanMiss s := by
  have hstore : step s .store = .ok { s with thread := .stored, published := true } := by
    simp [step, hthread, hidle]
  exact .of_run (run_single hstore) rfl (canMiss_of_stored rfl hpc hidle)

/-- A request made while the thread is still in front of `loop()` can be missed. -/
theorem QuitCall.canMiss {act : Step F T} (h : QuitCall s act) (hs : Consistent s)
    (hin : s.thread ≠ .inLoop) {t : EventLoopThread F T} (ht : step s act = .ok t) :
    CanMiss t := by
  obtain ⟨u, hu, -, hthread, hpc, hcall, -⟩ := h.step_eq
  obtain rfl : t = u := Except.ok.inj (ht.symm.trans hu)
  have hout : t.loop.pc = .outside := hpc.trans (hs.outside hin (h.alive hs).2)
  cases hplace : s.thread with
  | before => exact absurd hplace (h.alive hs).1
  | stored =>
    exact canMiss_of_stored (hthread.trans hplace) hout (hcall.trans (hs.idle hplace))
  | constructed =>
    -- `thread_cb_` may be inside a call of `queue_in_loop`
    have hconstructed : t.thread = .constructed := hthread.trans hplace
    obtain ⟨more, v, hv, hthread', -, hevals, hpc', -, hidle⟩ := call_ends (.inl hconstructed)
    exact .of_run hv hevals
      (canMiss_of_constructed (hthread'.trans hconstructed) (hpc'.trans hout) hidle)
  | inLoop => exact absurd hplace hin
  | finished => exact absurd hplace (h.alive hs).2

/-- **A call of `quit` counts exactly when `loop()` has been entered.**  After a call of `quit`, by
the destructor or by anyone else and at any point of any run, every later test of the loop
condition sees the flag and the thread can always still be joined, if and only if the call came
after the `quit_ = false` of `loop()`. -/
theorem quit_seen_iff (before : List (Step F T)) {s : EventLoopThread F T}
    (hrun : run step make before = .ok s) {act : Step F T} (hact : QuitCall s act) :
    (∀ more t, run step s (act :: more) = .ok t →
      (∃ seen, t.evals = s.evals ++ seen ∧ ∀ v ∈ seen, v = true) ∧ CanFinish t) ↔
      s.thread = .inLoop := by
  have hs := run_consistent hrun
  obtain ⟨u, hu, hquit, hthread, -, -, hevals⟩ := hact.step_eq
  constructor
  · intro hall
    by_contra hin
    obtain ⟨more, t, hmore, ht⟩ := hact.canMiss hs hin hu
    obtain ⟨⟨seen, hseen, htrue⟩, -⟩ := hall more t (by rw [run_cons, hu, ok_bind, hmore])
    rw [ht, hevals, List.append_cancel_left_eq] at hseen
    exact absurd (htrue false (by rw [← hseen]; exact List.mem_singleton_self _)) nofun
  · intro hin more t hmore
    rw [run_cons, hu, ok_bind] at hmore
    have hlatched : Latched u := .inl ⟨hthread.trans hin, hquit⟩
    obtain ⟨ht, seen, hseen, htrue⟩ := run_latched more hlatched hmore
    exact ⟨⟨seen, by rw [hseen, hevals], htrue⟩, ht.canFinish⟩

end Step

/-- The destructor asks a loop to quit that is in `poll`. -/
theorem quit_seen_iff_sample :
    let s : EventLoopThread Nat Unit :=
      { loop := { EventLoop.make with pc := .poll }, thread := .inLoop, owner := .loaded,
        published := true, evals := [false] }
    run step make [.start, .construct, .store, .spin, .enter, .use (.loop .test), .destroy,
        .load] = .ok s ∧
      ∀ more t, run step s (.quit :: more) = .ok t →
        (∃ seen, t.evals = s.evals ++ seen ∧ ∀ v ∈ seen, v = true) ∧ CanFinish t := by
  intro s
  have hrun : run step make [.start, .construct, .store, .spin, .enter, .use (.loop .test),
      .destroy, .load] = .ok s := rfl
  have hact : QuitCall s .quit := ⟨rfl, rfl, nofun⟩
  exact ⟨hrun, (quit_seen_iff _ hrun hact).2 rfl⟩

/-- The destructor runs between the publication of the loop and the entry of `loop()`: the request
is cleared, and the thread goes on to block in `poll` while the destructor waits for it. -/
theorem quit_before_loop_is_lost :
    let s : EventLoopThread Nat Unit :=
      { loop := EventLoop.make, thread := .stored, owner := .loaded, published := true, evals := [] }
    run step make [.start, .construct, .store, .spin, .destroy, .load] = .ok s ∧
      QuitCall s .quit ∧
      ∃ t, run step s [.quit, .wakeup, .enter, .use (.loop .test)] = .ok t ∧
        t.evals = [false] ∧ t.loop.pc = .poll ∧ t.owner = .joining := by
  intro s
  exact ⟨rfl, ⟨rfl, rfl, nofun⟩, _, rfl, rfl, rfl, rfl⟩

end EventLoopThread
