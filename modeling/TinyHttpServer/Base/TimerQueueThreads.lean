import TinyHttpServer.Base.TimerQueueCancel

/-!
# The timer queue under calls from several threads

A call made in the loop thread is executed at once; a call made in another thread is queued as a
functor and executed when the loop drains its queue.  An expiry round is taken apart into its
begin, the start of each callback, and its end, so that calls can come in between.

* `makeTimer_eq_ok` — ids are not given out twice.
* `round_eq_handleRead` — the steps of a round, taken without interruption, are `handle_read_`.
-/

set_option autoImplicit false

open Checked Machine FourHeap

namespace TimerQueue

variable {Cb : Type} {q q' : TimerQueue Cb} {clock : Nat → Int}

/-! ## Ids are not given out twice -/

/-- The queue of ids holds consecutive numbers, narrowed to `int`, that come after all ids in
`issued`. -/
def Issued (q : TimerQueue Cb) (issued : List TimerId) : Prop :=
  ∃ k, q.seq = (List.range' (k + 1) q.seq.length).map narrow ∧
    (q.seqLimit : Int) % 2 ^ 64 = ((k : Int) + q.seq.length) % 2 ^ 64 ∧
    (issued = [] ∨ 0 ≤ narrow k ∧ ∀ id ∈ issued, id ≤ narrow k)

theorem narrow_mod {x y : Nat} (h : (x : Int) % 2 ^ 64 = (y : Int) % 2 ^ 64) :
    narrow x = narrow y := by
  unfold narrow
  rw [Int.bmod_def, Int.bmod_def]
  omega

/-- The next number, if it is not negative. -/
theorem narrow_succ {k : Nat} (h : 0 ≤ narrow k) (h' : 0 ≤ narrow (k + 1)) :
    narrow (k + 1) = narrow k + 1 := by
  unfold narrow at *
  rw [Int.bmod_def] at *
  rw [Int.bmod_def] at *
  omega

theorem refill_spec (k : Nat) :
    ∀ (n : Nat) (q : TimerQueue Cb), q.seq = (List.range' (k + 1) q.seq.length).map narrow →
      (q.seqLimit : Int) % 2 ^ 64 = ((k : Int) + q.seq.length) % 2 ^ 64 →
      (refill n q).timerList = q.timerList ∧
        (refill n q).seq = (List.range' (k + 1) (refill n q).seq.length).map narrow ∧
        ((refill n q).seqLimit : Int) % 2 ^ 64 = ((k : Int) + (refill n q).seq.length) % 2 ^ 64
  | 0, q, hseq, hlim => ⟨rfl, hseq, hlim⟩
  | n + 1, q, hseq, hlim => by
    have hnext : narrow ((q.seqLimit + 1) % 2 ^ 64) = narrow (k + 1 + q.seq.length) :=
      narrow_mod (by omega)
    refine refill_spec k n _ ?_ ?_
    · simp only [List.length_append, List.length_singleton]
      rw [List.range'_concat, List.map_append, ← hseq, hnext, Nat.one_mul]
      rfl
    · simp only [List.length_append, List.length_singleton]
      omega

/-- `get_` gives out the next number. -/
theorem get_eq_ok {issued : List TimerId} (hi : q.Issued issued) {id : Int}
    (he : q.get = .ok (id, q')) :
    q'.timerList = q.timerList ∧ ∃ k, id = narrow (k + 1) ∧
      q'.seq = (List.range' (k + 1 + 1) q'.seq.length).map narrow ∧
      (q'.seqLimit : Int) % 2 ^ 64 = ((k + 1 : Nat) + (q'.seq.length : Int)) % 2 ^ 64 ∧
      (issued = [] ∨ 0 ≤ narrow k ∧ ∀ i ∈ issued, i ≤ narrow k) := by
  obtain ⟨k, hseq, hlim, hissued⟩ := hi
  obtain ⟨q₁, hq₁, htl₁, hseq₁, hlim₁⟩ : ∃ q₁ : TimerQueue Cb,
      (if q.seq.isEmpty then refill LIMIT q else q) = q₁ ∧ q₁.timerList = q.timerList ∧
        q₁.seq = (List.range' (k + 1) q₁.seq.length).map narrow ∧
        (q₁.seqLimit : Int) % 2 ^ 64 = ((k : Int) + q₁.seq.length) % 2 ^ 64 := by
    split
    · exact ⟨_, rfl, refill_spec k LIMIT q hseq hlim⟩
    · exact ⟨_, rfl, rfl, hseq, hlim⟩
  unfold get at he
  rw [hq₁] at he
  simp only at he
  split at he
  · cases he
  · rename_i x rest hx
    cases he
    rw [hx, List.length_cons, List.range'_succ, List.map_cons, List.cons.injEq] at hseq₁
    refine ⟨htl₁, k, hseq₁.1, hseq₁.2, ?_, hissued⟩
    rw [hx, List.length_cons] at hlim₁
    simp only
    omega

/-- **A new timer has an id that was never given out.** -/
theorem makeTimer_eq_ok {issued : List TimerId} (hi : q.Issued issued) {interval : Rat} {cb : Cb}
    {repeat_ : Bool} {node : TimerNode Cb}
    (he : q.makeTimer clock interval cb repeat_ = .ok (node, q')) :
    q'.timerList = q.timerList ∧ node.nodeSeq ∉ issued ∧ q'.Issued (node.nodeSeq :: issued) := by
  unfold makeTimer at he
  rw [bind_eq_ok] at he
  obtain ⟨⟨id, q₁⟩, hget, he⟩ := he
  simp only at he
  rw [bind_eq_ok] at he
  obtain ⟨_, hreq, he⟩ := he
  cases he
  have hpos : 0 ≤ id := require_eq_ok.1 hreq
  obtain ⟨htl, k, hid, hseq, hlim, hissued⟩ := get_eq_ok hi hget
  have hle : ∀ i ∈ issued, i < id := by
    intro i hmem
    rcases hissued with rfl | ⟨hk, hall⟩
    · cases hmem
    · rw [hid, narrow_succ hk (hid ▸ hpos)]
      exact Int.lt_add_one_of_le (hall i hmem)
  refine ⟨htl, fun hmem => absurd (hle _ hmem) (Int.lt_irrefl id), k + 1, hseq, hlim,
    .inr ⟨hid ▸ hpos, fun i hmem => ?_⟩⟩
  rw [← hid]
  rcases List.mem_cons.1 hmem with rfl | hmem
  · exact Int.le_refl _
  · exact Int.le_of_lt (hle i hmem)

/-! ## Effects of the operations -/

theorem Issued.of_kept {issued : List TimerId} (hi : q.Issued issued) (hseq : q'.seq = q.seq)
    (hlim : q'.seqLimit = q.seqLimit) : q'.Issued issued := by
  unfold Issued at *
  rw [hseq, hlim]
  exact hi

theorem addTimerInLoop_eq_ok (hl : q.timerList.Located) {node : TimerNode Cb}
    (he : q.addTimerInLoop clock node = .ok q') :
    q'.timerList.Located ∧ q'.seq = q.seq ∧ q'.seqLimit = q.seqLimit ∧
      ∀ id, id ∈ q'.timerList.ids → id ∈ q.timerList.ids ∨ id = node.nodeSeq := by
  unfold addTimerInLoop at he
  rw [bind_eq_ok] at he
  obtain ⟨h', hpush, he⟩ := he
  simp only at he
  rw [bind_eq_ok] at he
  obtain ⟨front, _, he⟩ := he
  obtain ⟨hloc, hids⟩ := push_located hl hpush
  split at he
  · cases he; exact ⟨hloc, rfl, rfl, hids⟩
  · cases he; exact ⟨hloc, rfl, rfl, hids⟩

theorem extendTimerInLoop_kept (hl : q.timerList.Located) {interval : Rat} {id : TimerId}
    {repeat_ : Bool} (he : q.extendTimerInLoop interval id repeat_ = .ok q') : Kept q q' := by
  unfold extendTimerInLoop at he
  split at he
  · rw [bind_eq_ok] at he
    obtain ⟨h', hext, he⟩ := he
    cases he
    exact ⟨extend_located hl hext, rfl, rfl⟩
  · cases he
    exact Kept.refl hl

theorem beginRead_eq_ok (hl : q.timerList.Located) {tie : Nat → Nat} {fuel : Nat}
    {expired : List (TimerNode Cb)} (he : q.beginRead clock tie fuel = .ok (expired, q')) :
    Kept q q' ∧ ∀ x ∈ expired, x.nodeSeq ∈ q.timerList.ids := by
  unfold beginRead at he
  rw [bind_eq_ok] at he
  obtain ⟨⟨batch, q₁⟩, hexp, he⟩ := he
  cases he
  obtain ⟨rfl, hmem⟩ := getExpired_eq_ok hl hexp
  exact ⟨⟨Shrunk.refl hl, rfl, rfl⟩, fun x hx => List.mem_map_of_mem (hmem x hx)⟩

theorem resetAll_kept_stale :
    ∀ (batch : List (TimerNode Cb)) (q q' : TimerQueue Cb), q.timerList.Located →
      q.callingExpired = false → batch.foldlM (resetOne clock) q = .ok q' → Kept q q'
  | [], q, q', hl, _, he => by cases he; exact Kept.refl hl
  | e :: batch, q, q', hl, hc, he => by
    rw [List.foldlM_cons, bind_eq_ok] at he
    obtain ⟨q₁, he₁, he⟩ := he
    obtain ⟨hkept, hc₁, -, -⟩ := resetOne_stale hl hc he₁
    exact hkept.trans (resetAll_kept_stale batch q₁ q' hkept.shrunk.located hc₁ he)

theorem endRead_kept (hl : q.timerList.Located) {expired : List (TimerNode Cb)}
    (he : q.endRead clock expired = .ok q') : Kept q q' := by
  unfold endRead reset at he
  rw [bind_eq_ok] at he
  obtain ⟨q₁, hfold, he⟩ := he
  have hkept := resetAll_kept_stale expired { q with callingExpired := false } q₁ hl rfl hfold
  have hkept' : Kept q q₁ := ⟨hkept.shrunk, hkept.seq, hkept.seqLimit⟩
  split at he
  · cases he; exact hkept'
  · rw [bind_eq_ok] at he
    obtain ⟨x, _, he⟩ := he
    cases he
    exact ⟨hkept'.shrunk, hkept'.seq, hkept'.seqLimit⟩

end TimerQueue

/-! ## The loop, its functor queue and the round in progress -/

/-- The functors that the timer queue puts in the loop's queue. -/
inductive TimerFunctor (Cb : Type) where
  | addTimerInLoop (node : TimerNode Cb)
  | extendTimerInLoop (interval : Rat) (id : TimerId) (repeat_ : Bool)
  | cancelTimerInLoop (id : TimerId)

/-- The timer queue in its loop.  While `handle_read_` is running its callbacks, `round` is the
expired batch and the part of it that has not been started.  `returned` are the ids that `add_timer`
has returned, `started` the ids whose callbacks have been started, in order. -/
structure TimerLoop (Cb : Type) where
  queue : TimerQueue Cb
  pending : List (TimerFunctor Cb)
  round : Option (List (TimerNode Cb) × List (TimerNode Cb))
  returned : List TimerId
  started : List TimerId

namespace TimerLoop

open TimerQueue

variable {Cb : Type} {s s' : TimerLoop Cb} {clock : Nat → Int}

/-- A loop whose timer queue has just been constructed. -/
def make (seqLimit index : Nat) : TimerLoop Cb :=
  { queue := TimerQueue.make seqLimit index, pending := [], round := none, returned := [],
    started := [] }

/-- The part of the current batch that has not been started. -/
def rest (s : TimerLoop Cb) : List (TimerNode Cb) :=
  match s.round with
  | none => []
  | some (_, rest) => rest

inductive Step (Cb : Type) where
  | loopThread (call : Call Cb)
  | otherThread (call : Call Cb)
  | runFunctor
  | beginRound (tie : Nat → Nat) (fuel : Nat)
  | startCallback
  | endRound

/-- A call in the loop thread: `run_in_loop` executes it at once. -/
def callLoopThread (clock : Nat → Int) (s : TimerLoop Cb) : Call Cb → Checked (TimerLoop Cb)
  | .addTimer interval cb repeat_ => do
    let (node, queue) ← s.queue.makeTimer clock interval cb repeat_
    let queue ← queue.addTimerInLoop clock node
    return { s with queue, returned := node.nodeSeq :: s.returned }
  | .extendTimer interval id repeat_ => do
    return { s with queue := ← s.queue.extendTimerInLoop interval id repeat_ }
  | .cancel id => do return { s with queue := ← s.queue.cancelTimerInLoop id }

/-- A call in another thread: `run_in_loop` queues it. -/
def callOtherThread (clock : Nat → Int) (s : TimerLoop Cb) : Call Cb → Checked (TimerLoop Cb)
  | .addTimer interval cb repeat_ => do
    let (node, queue) ← s.queue.makeTimer clock interval cb repeat_
    return { s with
      queue
      pending := s.pending ++ [.addTimerInLoop node]
      returned := node.nodeSeq :: s.returned }
  | .extendTimer interval id repeat_ =>
    return { s with pending := s.pending ++ [.extendTimerInLoop interval id repeat_] }
  | .cancel id => return { s with pending := s.pending ++ [.cancelTimerInLoop id] }

/-- A queued functor is executed. -/
def execFunctor (clock : Nat → Int) (s : TimerLoop Cb) : TimerFunctor Cb → Checked (TimerLoop Cb)
  | .addTimerInLoop node => do return { s with queue := ← s.queue.addTimerInLoop clock node }
  | .extendTimerInLoop interval id repeat_ => do
    return { s with queue := ← s.queue.extendTimerInLoop interval id repeat_ }
  | .cancelTimerInLoop id => do return { s with queue := ← s.queue.cancelTimerInLoop id }

/-- The effect of a step; a step that cannot be taken changes nothing.  The loop executes functors
and begins a round only while no round is in progress. -/
def step (clock : Nat → Int) (s : TimerLoop Cb) : Step Cb → Checked (TimerLoop Cb)
  | .loopThread call => s.callLoopThread clock call
  | .otherThread call => s.callOtherThread clock call
  | .runFunctor =>
    match s.round, s.pending with
    | none, f :: pending => execFunctor clock { s with pending } f
    | _, _ => return s
  | .beginRound tie fuel =>
    match s.round with
    | none => do
      let (expired, queue) ← s.queue.beginRead clock tie fuel
      return { s with queue, round := some (expired, expired) }
    | some _ => return s
  | .startCallback =>
    match s.round with
    | some (expired, e :: rest) =>
      return { s with round := some (expired, rest), started := s.started ++ [e.nodeSeq] }
    | _ => return s
  | .endRound =>
    match s.round with
    | some (expired, []) => do
      return { s with queue := ← s.queue.endRead clock expired, round := none }
    | _ => return s

/-! ## The steps of a round are `handle_read_` -/

/-- A call in the loop thread acts on the queue as `callInLoop` and leaves the round alone. -/
theorem callLoopThread_eq (clock : Nat → Int) (s : TimerLoop Cb) (call : Call Cb) :
    (s.callLoopThread clock call).map (fun t => (t.queue, t.round)) =
      (s.queue.callInLoop clock call).map fun q => (q, s.round) := by
  cases call with
  | addTimer interval cb repeat_ =>
    unfold callLoopThread callInLoop
    simp only
    cases s.queue.makeTimer clock interval cb repeat_ with
    | error e => rfl
    | ok p =>
      simp only [ok_bind]
      cases p.2.addTimerInLoop clock p.1 <;> rfl
  | extendTimer interval id repeat_ =>
    unfold callLoopThread callInLoop
    simp only
    cases s.queue.extendTimerInLoop interval id repeat_ <;> rfl
  | cancel id =>
    unfold callLoopThread callInLoop
    simp only
    cases s.queue.cancelTimerInLoop id <;> rfl

theorem calls_eq (clock : Nat → Int) :
    ∀ (calls : List (Call Cb)) (s : TimerLoop Cb),
      (run (step clock) s (calls.map Step.loopThread)).map (fun t => (t.queue, t.round)) =
        (calls.foldlM (callInLoop clock) s.queue).map fun q => (q, s.round)
  | [], s => rfl
  | call :: calls, s => by
    have hone := callLoopThread_eq clock s call
    rw [List.map_cons, run_cons, List.foldlM_cons]
    show Except.map _ (s.callLoopThread clock call >>= _) = _
    cases hs : s.callLoopThread clock call with
    | error e =>
      rw [hs] at hone
      cases hq : s.queue.callInLoop clock call with
      | error e' => rw [hq] at hone; cases hone; rfl
      | ok q => rw [hq] at hone; cases hone
    | ok t =>
      rw [hs] at hone
      obtain ⟨q, hq, heq⟩ := map_eq_ok.1 hone.symm
      simp only [Prod.mk.injEq] at heq
      rw [ok_bind, calls_eq clock calls t, hq, ok_bind, heq.1, heq.2]

/-- The starts of the callbacks of a batch, each followed by the calls that it makes. -/
def callbackSteps (calls : Nat → List (Call Cb)) (i n : Nat) : List (Step Cb) :=
  (List.range' i n).flatMap fun i => .startCallback :: (calls i).map .loopThread

theorem callbackSteps_eq (clock : Nat → Int) (calls : Nat → List (Call Cb))
    (expired : List (TimerNode Cb)) :
    ∀ (batch : List (TimerNode Cb)) (i : Nat) (s : TimerLoop Cb), s.round = some (expired, batch) →
      (run (step clock) s (callbackSteps calls i batch.length)).map (fun t => (t.queue, t.round)) =
        (runCallbacks clock calls i batch s.queue).map fun q => (q, some (expired, []))
  | [], i, s, hr => by
    show Except.ok (s.queue, s.round) = Except.ok (s.queue, some (expired, []))
    rw [hr]
  | e :: batch, i, s, hr => by
    have hstart : step clock s .startCallback = .ok { s with
        round := some (expired, batch), started := s.started ++ [e.nodeSeq] } := by
      unfold step
      rw [hr]
      rfl
    have hcalls := calls_eq clock (calls i) { s with
        round := some (expired, batch), started := s.started ++ [e.nodeSeq] }
    unfold callbackSteps
    rw [List.length_cons, List.range'_succ, List.flatMap_cons, run_append, run_cons, hstart, ok_bind]
    unfold runCallbacks
    cases hq : (calls i).foldlM (callInLoop clock) s.queue with
    | error e' =>
      simp only [hq] at hcalls
      cases hs : run (step clock) { s with
        round := some (expired, batch), started := s.started ++ [e.nodeSeq] }
          ((calls i).map Step.loopThread) with
      | error e'' => rw [hs] at hcalls; cases hcalls; rfl
      | ok t => rw [hs] at hcalls; cases hcalls
    | ok q =>
      simp only [hq] at hcalls
      obtain ⟨t, hs, ht⟩ := map_eq_ok.1 hcalls
      simp only [Prod.mk.injEq] at ht
      rw [hs, ok_bind, ok_bind, ← ht.1]
      exact callbackSteps_eq clock calls expired batch (i + 1) t ht.2

/-- **A round taken step by step is `handle_read_`.** -/
theorem round_eq_handleRead (hr : s.round = none) {tie : Nat → Nat} {fuel : Nat}
    {expired : List (TimerNode Cb)} {q : TimerQueue Cb}
    (hb : s.queue.beginRead clock tie fuel = .ok (expired, q)) (calls : Nat → List (Call Cb)) :
    (run (step clock) s (.beginRound tie fuel :: callbackSteps calls 0 expired.length ++
        [.endRound])).map queue = s.queue.handleRead clock tie fuel calls := by
  have hbegin : step clock s (.beginRound tie fuel) =
      .ok { s with queue := q, round := some (expired, expired) } := by
    unfold step
    rw [hr]
    simp only [hb]
    rfl
  have hmid := callbackSteps_eq clock calls expired expired 0
    { s with queue := q, round := some (expired, expired) } rfl
  unfold handleRead
  rw [hb, ok_bind, List.cons_append, run_cons, hbegin, ok_bind, run_append]
  simp only at hmid ⊢
  cases hq : runCallbacks clock calls 0 expired q with
  | error e =>
    rw [hq] at hmid
    cases hs : run (step clock) { s with queue := q, round := some (expired, expired) }
        (callbackSteps calls 0 expired.length) with
    | error e' => rw [hs] at hmid; cases hmid; rfl
    | ok t => rw [hs] at hmid; cases hmid
  | ok q' =>
    rw [hq] at hmid
    obtain ⟨t, hs, ht⟩ := map_eq_ok.1 hmid
    simp only [Prod.mk.injEq] at ht
    rw [hs, ok_bind, ok_bind, run_cons]
    unfold step
    rw [ht.2]
    simp only
    rw [ht.1]
    cases q'.endRead clock expired <;> rfl

end TimerLoop
