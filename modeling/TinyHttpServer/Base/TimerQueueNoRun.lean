import TinyHttpServer.Base.TimerQueueThreads

/-!
# No run after cancel

The invariant is that a cancelled id is dead: it is not stored, no queued functor will store it,
and it is not in the part of the current batch that is still to be started.  Each step keeps this,
because ids are not given out twice and a new batch consists of stored nodes.  A `cancel` establishes
it if no functor that adds the timer is queued and the timer is not waiting in the batch.

* `step_inv`, `step_dead` — one step.
* `no_run_after_cancel` — every run.
* `cancelled_timer_runs` — the batch is copied before its callbacks run, so a callback that cancels a
  later member does not stop it; and a `cancel` in the loop thread overtakes a queued functor.
-/

set_option autoImplicit false

open Checked Machine FourHeap

namespace TimerLoop

open TimerQueue

variable {Cb : Type} {s s' : TimerLoop Cb} {clock : Nat → Int}

/-- The ids of the timers that queued functors will add. -/
def pendingIds (s : TimerLoop Cb) : List TimerId :=
  s.pending.filterMap fun
    | .addTimerInLoop node => some node.nodeSeq
    | _ => none

/-- The ids of the batch members that have not been started. -/
def restIds (s : TimerLoop Cb) : List TimerId := s.rest.map TimerNode.nodeSeq

/-- The step executes `cancel_timer_in_loop_(id)`. -/
def ExecutesCancel (s : TimerLoop Cb) (id : TimerId) : Step Cb → Prop
  | .loopThread (.cancel k) => k = id
  | .runFunctor => s.round = none ∧ ∃ fs, s.pending = .cancelTimerInLoop id :: fs
  | _ => False

structure Inv (s : TimerLoop Cb) : Prop where
  located : s.queue.timerList.Located
  issued : s.queue.Issued s.returned

/-- The id cannot be started any more. -/
structure Dead (s : TimerLoop Cb) (id : TimerId) : Prop where
  returned : id ∈ s.returned
  heap : id ∉ s.queue.timerList.ids
  pending : id ∉ s.pendingIds
  rest : id ∉ s.restIds

/-! ## What a step can do -/

/-- The ids that a step stores, queues or puts in a batch were there before in another place, or
are new. -/
structure Moves (s s' : TimerLoop Cb) : Prop where
  inv : s'.Inv
  returned : ∀ id ∈ s.returned, id ∈ s'.returned
  heap : ∀ id ∈ s'.queue.timerList.ids,
    id ∈ s.queue.timerList.ids ∨ id ∈ s.pendingIds ∨ id ∉ s.returned
  pending : ∀ id ∈ s'.pendingIds, id ∈ s.pendingIds ∨ id ∉ s.returned
  rest : ∀ id ∈ s'.restIds, id ∈ s.restIds ∨ id ∈ s.queue.timerList.ids
  started : ∃ l, s'.started = s.started ++ l ∧ ∀ id ∈ l, id ∈ s.restIds

/-- A step that adds no timer and starts no callback. -/
theorem Inv.kept (hi : s.Inv) (hk : Kept s.queue s'.queue) (hret : s'.returned = s.returned)
    (hstarted : s'.started = s.started) (hpending : ∀ id ∈ s'.pendingIds, id ∈ s.pendingIds)
    (hrest : ∀ id ∈ s'.restIds, id ∈ s.restIds ∨ id ∈ s.queue.timerList.ids) : Moves s s' := by
  refine ⟨⟨hk.shrunk.located, ?_⟩, fun id h => by rw [hret]; exact h,
    fun id h => .inl (hk.shrunk.ids_subset id h), fun id h => .inl (hpending id h), hrest,
    [], by rw [hstarted, List.append_nil], by simp⟩
  rw [hret]
  exact hi.issued.of_kept hk.seq hk.seqLimit

theorem Inv.moves_refl (hi : s.Inv) : Moves s s :=
  hi.kept (Kept.refl hi.located) rfl rfl (fun _ h => h) (fun _ h => .inl h)

theorem callLoopThread_moves (hi : s.Inv) {call : Call Cb}
    (he : s.callLoopThread clock call = .ok s') : Moves s s' := by
  cases call with
  | addTimer interval cb repeat_ =>
    simp only [callLoopThread] at he
    rw [bind_eq_ok] at he
    obtain ⟨⟨node, q⟩, hmake, he⟩ := he
    simp only at he
    rw [bind_eq_ok] at he
    obtain ⟨q', hadd, he⟩ := he
    cases he
    obtain ⟨htl, hfresh, hissued⟩ := makeTimer_eq_ok hi.issued hmake
    obtain ⟨hloc, hseq, hlim, hids⟩ := addTimerInLoop_eq_ok (by rw [htl]; exact hi.located) hadd
    refine ⟨⟨hloc, hissued.of_kept hseq hlim⟩, fun id h => List.mem_cons_of_mem _ h, fun id h => ?_,
      fun id h => .inl h, fun id h => .inl h, [], by simp, by simp⟩
    rcases hids id h with h | rfl
    · exact .inl (htl ▸ h)
    · exact .inr (.inr hfresh)
  | extendTimer interval id repeat_ =>
    simp only [callLoopThread] at he
    rw [bind_eq_ok] at he
    obtain ⟨q, hext, he⟩ := he
    cases he
    exact hi.kept (extendTimerInLoop_kept hi.located hext) rfl rfl (fun _ h => h) (fun _ h => .inl h)
  | cancel id =>
    simp only [callLoopThread] at he
    rw [bind_eq_ok] at he
    obtain ⟨q, hcan, he⟩ := he
    cases he
    exact hi.kept (cancelTimerInLoop_kept hi.located hcan).1 rfl rfl (fun _ h => h)
      (fun _ h => .inl h)

theorem callOtherThread_moves (hi : s.Inv) {call : Call Cb}
    (he : s.callOtherThread clock call = .ok s') : Moves s s' := by
  cases call with
  | addTimer interval cb repeat_ =>
    simp only [callOtherThread] at he
    rw [bind_eq_ok] at he
    obtain ⟨⟨node, q⟩, hmake, he⟩ := he
    cases he
    obtain ⟨htl, hfresh, hissued⟩ := makeTimer_eq_ok hi.issued hmake
    refine ⟨⟨?_, hissued⟩, fun id h => List.mem_cons_of_mem _ h, fun id h => .inl (htl ▸ h),
      fun id h => ?_, fun id h => .inl h, [], by simp, by simp⟩
    · show q.timerList.Located
      rw [htl]
      exact hi.located
    · simp only [pendingIds, List.filterMap_append, List.mem_append] at h
      rcases h with h | h
      · exact .inl h
      · obtain rfl : id = node.nodeSeq := by simpa using h
        exact .inr hfresh
  | extendTimer interval id repeat_ =>
    cases he
    exact hi.kept (Kept.refl hi.located) rfl rfl (fun k h => by simpa [pendingIds] using h)
      (fun _ h => .inl h)
  | cancel id =>
    cases he
    exact hi.kept (Kept.refl hi.located) rfl rfl (fun k h => by simpa [pendingIds] using h)
      (fun _ h => .inl h)

theorem pendingIds_tail {f : TimerFunctor Cb} {pending : List (TimerFunctor Cb)}
    (hp : s.pending = f :: pending) : ∀ id ∈ pendingIds { s with pending }, id ∈ s.pendingIds := by
  intro id hid
  unfold pendingIds at hid ⊢
  rw [hp]
  exact ((List.sublist_cons_self f pending).filterMap _).subset hid

theorem execFunctor_moves (hi : s.Inv) {f : TimerFunctor Cb} {pending : List (TimerFunctor Cb)}
    (hp : s.pending = f :: pending) (he : execFunctor clock { s with pending } f = .ok s') :
    Moves s s' := by
  have hsub := pendingIds_tail hp
  cases f with
  | addTimerInLoop node =>
    simp only [execFunctor] at he
    rw [bind_eq_ok] at he
    obtain ⟨q, hadd, he⟩ := he
    cases he
    obtain ⟨hloc, hseq, hlim, hids⟩ := addTimerInLoop_eq_ok hi.located hadd
    refine ⟨⟨hloc, hi.issued.of_kept hseq hlim⟩, fun id h => h, fun id h => ?_,
      fun id h => .inl (hsub id h), fun id h => .inl h, [], by simp, by simp⟩
    rcases hids id h with h | rfl
    · exact .inl h
    · exact .inr (.inl (by rw [pendingIds, hp]; simp))
  | extendTimerInLoop interval id repeat_ =>
    simp only [execFunctor] at he
    rw [bind_eq_ok] at he
    obtain ⟨q, hext, he⟩ := he
    cases he
    exact hi.kept (extendTimerInLoop_kept hi.located hext) rfl rfl hsub (fun _ h => .inl h)
  | cancelTimerInLoop id =>
    simp only [execFunctor] at he
    rw [bind_eq_ok] at he
    obtain ⟨q, hcan, he⟩ := he
    cases he
    exact hi.kept (cancelTimerInLoop_kept hi.located hcan).1 rfl rfl hsub (fun _ h => .inl h)

/-- **One step.** -/
theorem step_moves (hi : s.Inv) {a : Step Cb} (he : step clock s a = .ok s') : Moves s s' := by
  cases a with
  | loopThread call => exact callLoopThread_moves hi he
  | otherThread call => exact callOtherThread_moves hi he
  | runFunctor =>
    simp only [step] at he
    split at he
    · rename_i f pending hr hp
      exact execFunctor_moves hi hp he
    · cases he; exact hi.moves_refl
  | beginRound tie fuel =>
    simp only [step] at he
    split at he
    · rw [bind_eq_ok] at he
      obtain ⟨⟨expired, q⟩, hbegin, he⟩ := he
      cases he
      obtain ⟨hkept, hmem⟩ := beginRead_eq_ok hi.located hbegin
      refine hi.kept hkept rfl rfl (fun _ h => h) (fun id h => .inr ?_)
      obtain ⟨x, hx, rfl⟩ := List.mem_map.1 h
      exact hmem x hx
    · cases he; exact hi.moves_refl
  | startCallback =>
    simp only [step] at he
    split at he
    · rename_i expired e rest hr
      cases he
      have hrest : s.restIds = e.nodeSeq :: rest.map TimerNode.nodeSeq := by
        simp [restIds, TimerLoop.rest, hr]
      refine ⟨⟨hi.located, hi.issued⟩, fun _ h => h, fun _ h => .inl h, fun _ h => .inl h,
        fun id h => .inl ?_, [e.nodeSeq], rfl, fun id h => ?_⟩
      · rw [hrest]; exact List.mem_cons_of_mem _ h
      · rw [hrest, List.mem_singleton.1 h]; exact List.mem_cons_self
    · cases he; exact hi.moves_refl
  | endRound =>
    simp only [step] at he
    split at he
    · rename_i expired hr
      rw [bind_eq_ok] at he
      obtain ⟨q, hend, he⟩ := he
      cases he
      exact hi.kept (endRead_kept hi.located hend) rfl rfl (fun _ h => h)
        (fun id h => by simp [restIds, rest] at h)
    · cases he; exact hi.moves_refl

/-! ## Dead ids -/

/-- A dead id stays dead and is not started. -/
theorem Moves.dead (hm : Moves s s') {id : TimerId} (hd : s.Dead id) :
    s'.Dead id ∧ ∃ l, s'.started = s.started ++ l ∧ id ∉ l := by
  obtain ⟨l, hl, hmem⟩ := hm.started
  refine ⟨⟨hm.returned id hd.returned, fun h => ?_, fun h => ?_, fun h => ?_⟩,
    l, hl, fun h => hd.rest (hmem id h)⟩
  · rcases hm.heap id h with h | h | h
    · exact hd.heap h
    · exact hd.pending h
    · exact h hd.returned
  · rcases hm.pending id h with h | h
    · exact hd.pending h
    · exact h hd.returned
  · rcases hm.rest id h with h | h
    · exact hd.rest h
    · exact hd.heap h

/-- A settled `cancel` makes the id dead. -/
theorem executesCancel_dead (hi : s.Inv) {id : TimerId} {a : Step Cb} (ha : s.ExecutesCancel id a)
    (hret : id ∈ s.returned) (hpending : id ∉ s.pendingIds) (hrest : id ∉ s.restIds)
    (he : step clock s a = .ok s') : s'.Dead id := by
  cases a with
  | loopThread call =>
    cases call with
    | addTimer interval cb repeat_ => exact ha.elim
    | extendTimer interval k repeat_ => exact ha.elim
    | cancel k =>
      obtain rfl : k = id := ha
      simp only [step, callLoopThread] at he
      rw [bind_eq_ok] at he
      obtain ⟨q, hcan, he⟩ := he
      cases he
      exact ⟨hret, (cancelTimerInLoop_kept hi.located hcan).2.1, hpending, hrest⟩
  | runFunctor =>
    obtain ⟨hr, fs, hp⟩ := ha
    simp only [step, hr, hp, execFunctor] at he
    rw [bind_eq_ok] at he
    obtain ⟨q, hcan, he⟩ := he
    cases he
    refine ⟨hret, (cancelTimerInLoop_kept hi.located hcan).2.1, fun h => ?_, ?_⟩
    · exact hpending (pendingIds_tail hp id h)
    · simp [restIds, rest]
  | otherThread call => exact ha.elim
  | beginRound tie fuel => exact ha.elim
  | startCallback => exact ha.elim
  | endRound => exact ha.elim

theorem make_inv (seqLimit index : Nat) : (make seqLimit index : TimerLoop Cb).Inv := by
  refine ⟨empty_indexInverse.toLocated, seqLimit, rfl, ?_, .inl rfl⟩
  simp [make, TimerQueue.make]

theorem run_inv {steps : List (Step Cb)} (hi : s.Inv) (he : run (step clock) s steps = .ok s') :
    s'.Inv :=
  run_safe (fun _ _ _ hi _ he => (step_moves hi he).inv) steps s s' hi
    (Allowed.of_forall (fun _ _ => trivial) steps s) he

/-- **No run after cancel.**  Take any run of calls from any threads, functors and expiry rounds, and
in it the execution of `cancel_timer_in_loop_(id)` for an id that `add_timer` has returned.  If no
functor that adds the timer is still queued and the timer does not wait in the current batch, its
callback is never started in the rest of the run. -/
theorem no_run_after_cancel (clock : Nat → Int) (seqLimit index : Nat) (pre post : List (Step Cb))
    {a : Step Cb} {id : TimerId} {s₁ s₂ s₃ : TimerLoop Cb}
    (hpre : run (step clock) (make seqLimit index) pre = .ok s₁) (ha : s₁.ExecutesCancel id a)
    (hret : id ∈ s₁.returned) (hpending : id ∉ s₁.pendingIds) (hrest : id ∉ s₁.restIds)
    (hstep : step clock s₁ a = .ok s₂) (hpost : run (step clock) s₂ post = .ok s₃) :
    ∃ later, s₃.started = s₂.started ++ later ∧ id ∉ later := by
  have hi := run_inv (make_inv seqLimit index) hpre
  have hsafe : ∀ (s : TimerLoop Cb) (a : Step Cb) (t : TimerLoop Cb),
      (s.Inv ∧ s.Dead id ∧ ∃ l, s.started = s₂.started ++ l ∧ id ∉ l) → True →
      step clock s a = .ok t →
      t.Inv ∧ t.Dead id ∧ ∃ l, t.started = s₂.started ++ l ∧ id ∉ l := by
    rintro s a t ⟨hi, hd, l, hl, hid⟩ - he
    have hm := step_moves hi he
    obtain ⟨hd', l', hl', hid'⟩ := hm.dead hd
    refine ⟨hm.inv, hd', l ++ l', by rw [hl', hl, List.append_assoc], ?_⟩
    simp [hid, hid']
  have hdead := executesCancel_dead hi ha hret hpending hrest hstep
  exact (run_safe hsafe post s₂ s₃ ⟨(step_moves hi hstep).inv, hdead, [], by simp, by simp⟩
    (Allowed.of_forall (fun _ _ => trivial) post s₂) hpost).2.2

/-- Readings of the clock: 50 s after the first `n` readings at 0. -/
def clockAfter (n : Nat) : Nat → Int := fun k => if k < n then 0 else 50000000000

/-- What is observed of a state: the ids returned, queued, waiting in the batch, and started. -/
def view (s : TimerLoop Cb) : List TimerId × List TimerId × List TimerId × List TimerId :=
  (s.returned, s.pendingIds, s.restIds, s.started)

/-- A run cut at one of its steps, with what is observed before and after it and at the end. -/
theorem run_cut (clock : Nat → Int) (s₀ : TimerLoop Cb) (pre : List (Step Cb)) (a : Step Cb)
    (post : List (Step Cb))
    {v₁ v₂ v₃ : List TimerId × List TimerId × List TimerId × List TimerId}
    (h₁ : (run (step clock) s₀ pre).map view = .ok v₁)
    (h₂ : (run (step clock) s₀ (pre ++ [a])).map view = .ok v₂)
    (h₃ : (run (step clock) s₀ (pre ++ [a] ++ post)).map view = .ok v₃) :
    ∃ s₁ s₂ s₃, run (step clock) s₀ pre = .ok s₁ ∧ step clock s₁ a = .ok s₂ ∧
      run (step clock) s₂ post = .ok s₃ ∧ s₁.view = v₁ ∧ s₂.view = v₂ ∧ s₃.view = v₃ := by
  obtain ⟨s₁, he₁, hv₁⟩ := map_eq_ok.1 h₁
  obtain ⟨s₂, he₂, hv₂⟩ := map_eq_ok.1 h₂
  obtain ⟨s₃, he₃, hv₃⟩ := map_eq_ok.1 h₃
  rw [run_append, he₂, ok_bind] at he₃
  rw [run_snoc he₁] at he₂
  exact ⟨s₁, s₂, s₃, he₁, he₂, he₃, hv₁, hv₂, hv₃⟩

/-- A one-shot timer that another thread has added is started. -/
def selfSteps : List (Step Unit) :=
  [.otherThread (.addTimer 1 () false), .runFunctor, .beginRound (fun _ => 0) 4, .startCallback]

/-- The timer cancels itself while it runs, and another round follows. -/
theorem no_run_after_cancel_self :
    ∃ s₁ s₂ s₃ : TimerLoop Unit,
      run (step (clockAfter 2)) (make 0 0) selfSteps = .ok s₁ ∧ 1 ∈ s₁.returned ∧
      step (clockAfter 2) s₁ (.loopThread (.cancel 1)) = .ok s₂ ∧
      run (step (clockAfter 2)) s₂ [.endRound, .beginRound (fun _ => 0) 4] = .ok s₃ ∧
      s₂.started = [1] ∧ ∃ later, s₃.started = s₂.started ++ later ∧ 1 ∉ later := by
  obtain ⟨s₁, s₂, s₃, he₁, he₂, he₃, hv₁, hv₂, -⟩ :
      ∃ s₁ s₂ s₃ : TimerLoop Unit, _ ∧ _ ∧ _ ∧ s₁.view = ([1], [], [], [1]) ∧
        s₂.view = ([1], [], [], [1]) ∧ s₃.view = ([1], [], [], [1]) :=
    run_cut (clockAfter 2) (make 0 0) selfSteps (.loopThread (.cancel 1))
      [.endRound, .beginRound (fun _ => 0) 4] (by decide +kernel) (by decide +kernel)
      (by decide +kernel)
  simp only [view, Prod.mk.injEq] at hv₁ hv₂
  obtain ⟨hret, hpending, hrest, -⟩ := hv₁
  refine ⟨s₁, s₂, s₃, he₁, by simp [hret], he₂, he₃, hv₂.2.2.2, ?_⟩
  exact no_run_after_cancel (clockAfter 2) 0 0 _ _ he₁ (a := .loopThread (.cancel 1)) rfl
    (by simp [hret]) (by simp [hpending]) (by simp [hrest]) he₂ he₃

/-- Six timers, of which the first and the fifth form the expired batch; the first is started. -/
def batchSteps : List (Step Unit) :=
  [.loopThread (.addTimer 1 () false), .loopThread (.addTimer 2 () false),
    .loopThread (.addTimer 3 () false), .loopThread (.addTimer 4 () false),
    .loopThread (.addTimer 5 () false), .loopThread (.addTimer 100 () false),
    .beginRound (fun _ => 0) 4, .startCallback]

/-- **Two orders in which a cancelled timer runs.**  The callback of the first member of a batch
cancels the second; and the loop thread cancels a timer whose functor is still queued. -/
theorem cancelled_timer_runs :
    (∃ s₁ s₂ s₃ : TimerLoop Unit,
      run (step (clockAfter 7)) (make 0 0) batchSteps = .ok s₁ ∧ 5 ∈ s₁.returned ∧
      step (clockAfter 7) s₁ (.loopThread (.cancel 5)) = .ok s₂ ∧
      run (step (clockAfter 7)) s₂ [.startCallback] = .ok s₃ ∧
      s₃.started = s₂.started ++ [5]) ∧
    ∃ s₁ s₂ s₃ : TimerLoop Unit,
      run (step (clockAfter 2)) (make 0 0) [.otherThread (.addTimer 1 () false)] = .ok s₁ ∧
      1 ∈ s₁.returned ∧
      step (clockAfter 2) s₁ (.loopThread (.cancel 1)) = .ok s₂ ∧
      run (step (clockAfter 2)) s₂ [.runFunctor, .beginRound (fun _ => 0) 4, .startCallback] =
        .ok s₃ ∧
      s₃.started = s₂.started ++ [1] := by
  constructor
  · obtain ⟨s₁, s₂, s₃, he₁, he₂, he₃, hv₁, hv₂, hv₃⟩ :
        ∃ s₁ s₂ s₃ : TimerLoop Unit, _ ∧ _ ∧ _ ∧ s₁.view = ([6, 5, 4, 3, 2, 1], [], [5], [1]) ∧
          s₂.view = ([6, 5, 4, 3, 2, 1], [], [5], [1]) ∧
          s₃.view = ([6, 5, 4, 3, 2, 1], [], [], [1, 5]) :=
      run_cut (clockAfter 7) (make 0 0) batchSteps (.loopThread (.cancel 5)) [.startCallback]
        (by decide +kernel) (by decide +kernel) (by decide +kernel)
    simp only [view, Prod.mk.injEq] at hv₁ hv₂ hv₃
    exact ⟨s₁, s₂, s₃, he₁, by simp [hv₁.1], he₂, he₃, by rw [hv₃.2.2.2, hv₂.2.2.2]; rfl⟩
  · obtain ⟨s₁, s₂, s₃, he₁, he₂, he₃, hv₁, hv₂, hv₃⟩ :
        ∃ s₁ s₂ s₃ : TimerLoop Unit, _ ∧ _ ∧ _ ∧ s₁.view = ([1], [1], [], []) ∧
          s₂.view = ([1], [1], [], []) ∧ s₃.view = ([1], [], [], [1]) :=
      run_cut (clockAfter 2) (make 0 0) [.otherThread (.addTimer 1 () false)]
        (.loopThread (.cancel 1)) [.runFunctor, .beginRound (fun _ => 0) 4, .startCallback]
        (by decide +kernel) (by decide +kernel) (by decide +kernel)
    simp only [view, Prod.mk.injEq] at hv₁ hv₂ hv₃
    exact ⟨s₁, s₂, s₃, he₁, by simp [hv₁.1], he₂, he₃, by rw [hv₃.2.2.2, hv₂.2.2.2]; rfl⟩

end TimerLoop
