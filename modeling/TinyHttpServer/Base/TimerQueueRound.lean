import TinyHttpServer.Base.TimerQueueCancel

/-!
# One expiry round

`handle_read_` with callbacks that do anything: `run cb w q` is what running `cb` does to the timer
queue `q` and to the rest `w` of the program.

* `handleReadWith_calls` — with callbacks that call the public interface it is `handleRead`.
* `resetOne_stored`, `resetAll_stored` — what `reset_` does to the entry of one member of the batch
  and of all of them, when they are stored.
* `round_effect` — a round whose callbacks leave the queue alone: every callback of the batch runs
  once, in order; one-shot members are deleted, repeating ones are dated again, and every other
  timer is as before.
-/

set_option autoImplicit false

open Checked FourHeap

namespace TimerQueue

variable {Cb W : Type} {q q' : TimerQueue Cb}

section Functions

variable (clock : Nat → Int) (run : Cb → W → TimerQueue Cb → Checked (W × TimerQueue Cb))

/-- The loop of `handle_read_` over the callbacks: `e.run()` for every member of the batch. -/
def runExpired : List (TimerNode Cb) → W → TimerQueue Cb → Checked (W × TimerQueue Cb)
  | [], w, q => return (w, q)
  | e :: expired, w, q => do
    let (w, q) ← run e.cb w q
    runExpired expired w q

/-- `handle_read_` from the moment `get_expired_` has returned. -/
def handleExpired (w : W) (q : TimerQueue Cb) (expired : List (TimerNode Cb)) :
    Checked (W × TimerQueue Cb) := do
  let (w, q) ← runExpired run expired w { q with callingExpired := true, cancelSet := [] }
  let q ← q.endRead clock expired
  return (w, q)

/-- `handle_read_`. -/
def handleReadWith (w : W) (q : TimerQueue Cb) (tie : Nat → Nat) (fuel : Nat) :
    Checked (W × TimerQueue Cb) := do
  let (expired, q) ← q.getExpired clock tie fuel
  handleExpired clock run w q expired

end Functions

/-- Callbacks that call the public interface: the `i`-th to run makes the calls `calls i`. -/
def runCalls (clock : Nat → Int) (calls : Nat → List (Call Cb)) (_ : Cb) (i : Nat)
    (q : TimerQueue Cb) : Checked (Nat × TimerQueue Cb) := do
  let q ← (calls i).foldlM (callInLoop clock) q
  return (i + 1, q)

variable {clock : Nat → Int} {run : Cb → W → TimerQueue Cb → Checked (W × TimerQueue Cb)}

/-! ## The two forms of the round -/

theorem runExpired_calls (calls : Nat → List (Call Cb)) (batch : List (TimerNode Cb)) :
    ∀ (i : Nat) (q : TimerQueue Cb), runExpired (runCalls clock calls) batch i q =
      (runCallbacks clock calls i batch q).map fun q => (i + batch.length, q) := by
  induction batch with
  | nil => intro i q; rfl
  | cons e batch ih =>
    intro i q
    rw [runExpired, runCallbacks, runCalls]
    cases (calls i).foldlM (callInLoop clock) q with
    | error e => rfl
    | ok q₁ =>
      simp only [ok_bind, pure_eq_ok, ih, List.length_cons]
      rw [show i + 1 + batch.length = i + (batch.length + 1) by omega]

theorem handleExpired_calls (calls : Nat → List (Call Cb)) (batch : List (TimerNode Cb)) :
    handleExpired clock (runCalls clock calls) 0 q batch = (do
      let q ← runCallbacks clock calls 0 batch { q with callingExpired := true, cancelSet := [] }
      let q ← q.endRead clock batch
      return (batch.length, q)) := by
  unfold handleExpired
  rw [runExpired_calls, Nat.zero_add]
  cases runCallbacks clock calls 0 batch { q with callingExpired := true, cancelSet := [] } with
  | error e => rfl
  | ok q₁ => rfl

/-- **The public interface from callbacks.** -/
theorem handleReadWith_calls (calls : Nat → List (Call Cb)) (tie : Nat → Nat) (fuel : Nat) :
    (handleReadWith clock (runCalls clock calls) 0 q tie fuel).map Prod.snd =
      q.handleRead clock tie fuel calls := by
  unfold handleReadWith handleRead beginRead
  cases q.getExpired clock tie fuel with
  | error e => rfl
  | ok r =>
    obtain ⟨batch, q₁⟩ := r
    simp only [ok_bind, pure_eq_ok, handleExpired_calls]
    cases runCallbacks clock calls 0 batch { q₁ with callingExpired := true, cancelSet := [] } with
    | error e => rfl
    | ok q₂ =>
      rw [ok_bind, ok_bind]
      cases q₂.endRead clock batch with
      | error e => rfl
      | ok q₃ => rfl

/-- Callbacks that do not touch the queue run one after the other. -/
theorem runExpired_detached {act : Cb → W → W} (hrun : ∀ cb w q, run cb w q = .ok (act cb w, q))
    (batch : List (TimerNode Cb)) : ∀ (w : W) (q : TimerQueue Cb),
      runExpired run batch w q =
        .ok ((batch.map TimerNode.cb).foldl (fun w cb => act cb w) w, q) := by
  induction batch with
  | nil => intro w q; rfl
  | cons e batch ih =>
    intro w q
    rw [runExpired, hrun, ok_bind, List.map_cons, List.foldl_cons]
    exact ih (act e.cb w) q

/-! ## `reset_` on the members of the batch -/

/-- The deadline that `reset_` gives to `e` at the clock reading `reading`. -/
def nextTimer (reading : Int) (e : TimerNode Cb) : Int :=
  reading + TimerNode.micro (TimerNode.tarnsMirco e.getInterval)

/-- What is stored for a member `e` of the batch afterwards: nothing for a one-shot timer, and `e`
with a new deadline, computed from one of the clock readings `first … last - 1`, for a repeating
one. -/
def AfterRound (clock : Nat → Int) (first last : Nat) (e : TimerNode Cb)
    (entry : Option (TimerNode Cb)) : Prop :=
  match e.repeat_ with
  | true => ∃ n, first ≤ n ∧ n < last ∧ entry = some (e.setTimerStamp (nextTimer (clock n) e))
  | false => entry = none

theorem AfterRound.mono {first last first' last' : Nat} {e : TimerNode Cb}
    {entry : Option (TimerNode Cb)} (ha : AfterRound clock first last e entry)
    (hfirst : first' ≤ first) (hlast : last ≤ last') : AfterRound clock first' last' e entry := by
  unfold AfterRound at ha ⊢
  cases hrepeat : e.repeat_ with
  | true =>
    rw [hrepeat] at ha
    obtain ⟨n, hn, hlt, hentry⟩ := ha
    exact ⟨n, by omega, by omega, hentry⟩
  | false =>
    rw [hrepeat] at ha
    exact ha

/-- `cancel_timer_in_loop_` neither reads the clock nor sets the descriptor. -/
theorem cancelTimerInLoop_clock {id : TimerId} (he : q.cancelTimerInLoop id = .ok q') :
    q'.reads = q.reads ∧ q'.timerfd = q.timerfd := by
  unfold cancelTimerInLoop at he
  split at he
  · rw [bind_eq_ok] at he
    obtain ⟨⟨h', b⟩, -, he⟩ := he
    cases he
    exact ⟨rfl, rfl⟩
  · split at he
    · cases he
      exact ⟨rfl, rfl⟩
    · cases he
      exact ⟨rfl, rfl⟩

theorem resetOne_stored (clock : Nat → Int) (hi : q.timerList.IndexInverse)
    (hc : q.callingExpired = false) {e : TimerNode Cb} (hset : e.nodeSeq ∉ q.cancelSet)
    (he : q.timerList.toMap e.nodeSeq = some e) :
    ∃ q', resetOne clock q e = .ok q' ∧ q'.timerList.IndexInverse ∧ q'.callingExpired = false ∧
      q'.cancelSet = q.cancelSet ∧ q.reads ≤ q'.reads ∧
      (∀ id, id ≠ e.nodeSeq → q'.timerList.toMap id = q.timerList.toMap id) ∧
      AfterRound clock q.reads q'.reads e (q'.timerList.toMap e.nodeSeq) := by
  unfold resetOne AfterRound
  cases hrepeat : e.repeat_ with
  | true =>
    have hmem : e.nodeSeq ∈ q.timerList.ids := by
      rw [mem_ids_iff, he]
      rfl
    obtain ⟨h', hreset, hinv, hmap⟩ := updateSlot_refines hi
      (f := fun node => node.setTimerStamp (nextTimer (clock q.reads) e)) (fun _ => rfl) hmem
    have hreset : q.timerList.reset e.nodeSeq (clock q.reads +
        TimerNode.micro (TimerNode.tarnsMirco e.getInterval)) = .ok h' := hreset
    refine ⟨{ q with timerList := h', reads := q.reads + 1 }, ?_, hinv, hc, rfl, by simp, ?_,
      q.reads, Nat.le_refl _, Nat.lt_succ_self _, ?_⟩
    · simp [hset, now, hreset]
    · intro id hid
      exact (congrFun hmap id).trans (Function.update_of_ne hid _ _)
    · rw [hmap, Function.update_self, he]
      rfl
  | false =>
    obtain ⟨q₁, he₁, hi₁, hmap, hc₁, hset₁⟩ := cancelTimerInLoop_spec hi e.nodeSeq
    have hreads := (cancelTimerInLoop_clock he₁).1
    refine ⟨q₁, by simp [he₁], hi₁, hc₁.trans hc, by simp [hset₁, hc], by omega, ?_, ?_⟩
    · intro id hid
      rw [hmap, Function.update_of_ne hid]
    · rw [hmap, Function.update_self]

theorem resetAll_stored (clock : Nat → Int) (batch : List (TimerNode Cb)) :
    ∀ q : TimerQueue Cb,
    q.timerList.IndexInverse → q.callingExpired = false → q.cancelSet = [] →
      (batch.map TimerNode.nodeSeq).Nodup →
      (∀ e ∈ batch, q.timerList.toMap e.nodeSeq = some e) →
      ∃ q', batch.foldlM (resetOne clock) q = .ok q' ∧ q'.timerList.IndexInverse ∧
        q.reads ≤ q'.reads ∧
        (∀ id, id ∉ batch.map TimerNode.nodeSeq →
          q'.timerList.toMap id = q.timerList.toMap id) ∧
        ∀ e ∈ batch, AfterRound clock q.reads q'.reads e (q'.timerList.toMap e.nodeSeq) := by
  induction batch with
  | nil =>
    intro q hi _ _ _ _
    exact ⟨q, rfl, hi, Nat.le_refl _, fun _ _ => rfl, fun e he => absurd he List.not_mem_nil⟩
  | cons e batch ih =>
    intro q hi hc hset hnodup hstored
    rw [List.map_cons, List.nodup_cons] at hnodup
    obtain ⟨q₁, he₁, hi₁, hc₁, hset₁, hreads₁, hother₁, hself₁⟩ := resetOne_stored clock hi hc
      (by rw [hset]; exact List.not_mem_nil) (hstored e List.mem_cons_self)
    -- the other members are still in place
    have hstored₁ : ∀ f ∈ batch, q₁.timerList.toMap f.nodeSeq = some f := by
      intro f hf
      have hne : f.nodeSeq ≠ e.nodeSeq := fun heq => hnodup.1 (heq ▸ List.mem_map_of_mem hf)
      rw [hother₁ _ hne]
      exact hstored f (List.mem_cons_of_mem _ hf)
    obtain ⟨q', he', hi', hreads', hother', hself'⟩ :=
      ih q₁ hi₁ hc₁ (hset₁.trans hset) hnodup.2 hstored₁
    refine ⟨q', by rw [List.foldlM_cons, he₁]; exact he', hi', by omega, ?_, ?_⟩
    · intro id hid
      rw [List.map_cons, List.mem_cons, not_or] at hid
      rw [hother' id hid.2, hother₁ id hid.1]
    · intro f hf
      rcases List.mem_cons.1 hf with rfl | hf
      · rw [hother' _ hnodup.1]
        exact hself₁.mono (Nat.le_refl _) hreads'
      · exact (hself' f hf).mono hreads₁ (Nat.le_refl _)

/-- **The effect of one expiry round.**  Take any queue whose `index_` is the inverse of `heap_`,
any batch of different stored nodes, and callbacks that do not touch the queue.  The round runs
the callbacks of the batch, each once and in order, deletes the one-shot members, dates the
repeating members again from a reading that `reset_` takes (readings from number `reads + 1` on;
number `reads` is the one of `get_expired_`), and leaves every other timer as it is. -/
theorem round_effect (clock : Nat → Int)
    (run : Cb → W → TimerQueue Cb → Checked (W × TimerQueue Cb)) (act : Cb → W → W)
    (hrun : ∀ cb w q, run cb w q = .ok (act cb w, q)) (hi : q.timerList.IndexInverse)
    {batch : List (TimerNode Cb)} (hnodup : batch.Nodup)
    (hstored : ∀ e ∈ batch, e ∈ q.timerList.heap) (w : W) :
    ∃ q', handleExpired clock run w (q.now clock).2 batch =
        .ok ((batch.map TimerNode.cb).foldl (fun w cb => act cb w) w, q') ∧
      q'.timerList.IndexInverse ∧
      (∀ id, id ∉ batch.map TimerNode.nodeSeq →
        q'.timerList.toMap id = q.timerList.toMap id) ∧
      (∀ e ∈ batch, AfterRound clock (q.reads + 1) q'.reads e (q'.timerList.toMap e.nodeSeq)) ∧
      ∀ tie fuel q₁, q.getExpired clock tie fuel = .ok (batch, q₁) →
        handleReadWith clock run w q tie fuel =
          .ok ((batch.map TimerNode.cb).foldl (fun w cb => act cb w) w, q') := by
  have hids : (batch.map TimerNode.nodeSeq).Nodup :=
    List.Nodup.map_on (fun e he f hf => hi.toLocated.eq_of_key (hstored e he) (hstored f hf)) hnodup
  obtain ⟨q₁, he, hi₁, hreads, hother, hself⟩ := resetAll_stored clock batch
    { (q.now clock).2 with callingExpired := false, cancelSet := [] } hi rfl rfl hids
    fun e he => (KeyedVector.lookup_eq_some hi.toLocated).2 ⟨hstored e he, rfl⟩
  have hround : handleExpired clock run w (q.now clock).2 batch =
      .ok ((batch.map TimerNode.cb).foldl (fun w cb => act cb w) w, rearm clock q₁) := by
    unfold handleExpired
    rw [runExpired_detached hrun, ok_bind]
    simp only [endRead, reset_returns he, ok_bind, pure_eq_ok]
  have hrearm : q₁.reads ≤ (rearm clock q₁).reads := by
    unfold rearm
    split
    · exact Nat.le_refl _
    · exact Nat.le_succ _
  refine ⟨rearm clock q₁, hround, by rwa [rearm_timerList], ?_, ?_, ?_⟩
  · intro id hid
    rw [rearm_timerList]
    exact hother id hid
  · intro e he
    rw [rearm_timerList]
    exact (hself e he).mono (Nat.le_refl _) hrearm
  · intro tie fuel q₂ hexp
    obtain ⟨rfl, -⟩ := getExpired_eq_ok hi.toLocated hexp
    unfold handleReadWith
    rw [hexp, ok_bind]
    exact hround

/-- A repeating timer with the callback `7` and a one-shot timer with the callback `8`. -/
def repeatingNode : TimerNode Nat := TimerNode.make 1 10 10000000000 7 true
def oneShotNode : TimerNode Nat := TimerNode.make 2 20 20000000000 8 false

def roundQueue : TimerQueue Nat :=
  { (make 2 2 : TimerQueue Nat) with
    timerList := (FourHeap.empty.appended repeatingNode).appended oneShotNode }

/-- A callback that is noted down and does nothing else. -/
def noteDown (cb : Nat) (w : List Nat) (q : TimerQueue Nat) : Checked (List Nat × TimerQueue Nat) :=
  .ok (w ++ [cb], q)

theorem round_effect_sample :
    (∀ cb w q, noteDown cb w q = .ok (w ++ [cb], q)) ∧ roundQueue.timerList.IndexInverse ∧
      [repeatingNode, oneShotNode].Nodup ∧
      (∀ e ∈ [repeatingNode, oneShotNode], e ∈ roundQueue.timerList.heap) ∧
      ∃ q', handleExpired sampleClock noteDown [] (roundQueue.now sampleClock).2
          [repeatingNode, oneShotNode] = .ok ([7, 8], q') ∧
        q'.timerList.toMap 1 = some (repeatingNode.setTimerStamp 60000000000) ∧
        q'.timerList.toMap 2 = none := by
  have hi : roundQueue.timerList.IndexInverse :=
    (appended_inverse (appended_inverse empty_indexInverse rfl).1 (by decide)).1
  have hnodup : [repeatingNode, oneShotNode].Nodup := by decide
  have hstored : ∀ e ∈ [repeatingNode, oneShotNode], e ∈ roundQueue.timerList.heap :=
    fun _ he => he
  obtain ⟨q', he, -, -, hself, -⟩ := round_effect sampleClock noteDown (fun cb w => w ++ [cb])
    (fun _ _ _ => rfl) hi hnodup hstored []
  obtain ⟨n, -, -, hfirst⟩ := hself repeatingNode List.mem_cons_self
  have hnext : nextTimer (sampleClock n) repeatingNode = 60000000000 := by
    rw [show sampleClock n = 50000000000 from rfl]
    decide +kernel
  refine ⟨fun _ _ _ => rfl, hi, hnodup, hstored, q', he, ?_, ?_⟩
  · rw [← hnext]
    exact hfirst
  · exact hself oneShotNode (List.mem_of_getLast? rfl)

end TimerQueue
