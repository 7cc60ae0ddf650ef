import TinyHttpServer.Base.BufferString
import TinyHttpServer.Lib.Run

/-!
# The asynchronous log (`src/base/log.cc`, `src/base/log.h`)

Threads append lines to `curr_buffer_` under the mutex and move full buffers to `buffer_`; the
back-end thread takes all buffers, writes them to the file and keeps two empty ones as spares.
Unique pointers are options, and every access through one is checked, as is every assertion on
buffers.  The steps of the model are the critical sections, the atomic accesses to `running_` and
the local steps of the back end.

* `refill_assertions_hold` — the assertions of the back end hold in every run, with `init` and
  `stop` at any time, in which it never takes the buffers while `buffer_` is empty and
  `next_buffer_` is null.
* `init_without_spare_aborts` — an `init` after enough lines leads to the excluded state.
-/

set_option autoImplicit false

open Checked Machine

/-- Where the back-end thread is in `thread_func`. -/
inductive BackPc where
  /-- in `while (!running_)` -/
  | spin
  /-- before `assert(running_ == true)` -/
  | assertRunning
  /-- before the test of the loop -/
  | head
  /-- before the mutex -/
  | locking
  /-- in `cond_.wait` -/
  | waiting
  /-- after the critical section -/
  | taken
  /-- in the loop over `buffer_write` -/
  | writing
  | finished
  /-- `assert(running_ == true)` has failed -/
  | aborted
  deriving DecidableEq, Repr

/-- `class Log` with the locals of `thread_func`.  `initPending` counts the calls of `init` that are
between `switch_log` and the test of `running_`; `written` is the number of buffers of
`buffer_write` that have been passed to `fputs`, and `output` what has been passed to it. -/
structure Log where
  running : Bool
  initPending : Nat
  currBuffer : Option Buffer
  nextBuffer : Option Buffer
  buffer : List (Option Buffer)
  pc : BackPc
  newBuffer1 : Option Buffer
  newBuffer2 : Option Buffer
  bufferWrite : List (Option Buffer)
  written : Nat
  output : Bytes
  deriving DecidableEq

namespace Log

def size : Nat := 4000

/-- `new Buffer` -/
def newBuffer : Buffer := .make Buffer.initialSizeDefault

/-- The constructor. -/
def make : Log :=
  { running := false, initPending := 0, currBuffer := some newBuffer, nextBuffer := some newBuffer,
    buffer := [], pc := .spin, newBuffer1 := none, newBuffer2 := none, bufferWrite := [],
    written := 0, output := [] }

/-- The object behind a unique pointer. -/
def deref : Option Buffer → Checked Buffer
  | some b => .ok b
  | none => .error .invalidAccess

/-- `refresh_` -/
def refresh (s : Log) (logline : Bytes) : Checked Log := do
  let buffer := s.buffer ++ [s.currBuffer]
  let curr := s.nextBuffer.getD newBuffer
  let curr ← if 0 < logline.length then curr.append logline else pure curr
  return { s with buffer, currBuffer := some curr, nextBuffer := none }

/-- `append` -/
def append (s : Log) (logline : Bytes) : Checked Log := do
  let curr ← deref s.currBuffer
  if curr.readAbleBytes + logline.length < size then
    let curr ← curr.append logline
    return { s with currBuffer := some curr }
  else s.refresh logline

/-- `loading` -/
def loading (s : Log) : Checked Log := s.refresh []

/-- `switch_log`, as far as the buffers go -/
def switchLog (s : Log) : Checked Log := do
  let curr ← deref s.currBuffer
  return { s with
    currBuffer := some curr.retrieveAll
    nextBuffer := s.nextBuffer.map Buffer.retrieveAll
    buffer := [] }

/-- The critical section of the back end, from the end of the wait on. -/
def takeBatch (s : Log) : Log :=
  let s := { s with
    bufferWrite := s.buffer ++ [s.currBuffer]
    buffer := s.bufferWrite
    currBuffer := s.newBuffer1
    newBuffer1 := none
    written := 0
    pc := .taken }
  if s.nextBuffer.isNone then { s with nextBuffer := s.newBuffer2, newBuffer2 := none } else s

section TakeBatch

variable (s : Log)

@[simp] theorem takeBatch_bufferWrite : s.takeBatch.bufferWrite = s.buffer ++ [s.currBuffer] := by
  unfold takeBatch; simp only; split <;> rfl

@[simp] theorem takeBatch_written : s.takeBatch.written = 0 := by
  unfold takeBatch; simp only; split <;> rfl

@[simp] theorem takeBatch_buffer : s.takeBatch.buffer = s.bufferWrite := by
  unfold takeBatch; simp only; split <;> rfl

@[simp] theorem takeBatch_currBuffer : s.takeBatch.currBuffer = s.newBuffer1 := by
  unfold takeBatch; simp only; split <;> rfl

@[simp] theorem takeBatch_output : s.takeBatch.output = s.output := by
  unfold takeBatch; simp only; split <;> rfl

theorem takeBatch_nextBuffer : s.takeBatch.nextBuffer = s.nextBuffer.or s.newBuffer2 := by
  unfold takeBatch
  cases s.nextBuffer <;> rfl

end TakeBatch

/-- What `fputs` writes of a string. -/
def cString (res : Bytes) : Bytes := res.takeWhile (· ≠ 0)

/-- An iteration of the loop over `buffer_write`. -/
def writeBuffer (s : Log) : Checked Log := do
  let buffer ← deref (← nth s.bufferWrite s.written)
  let (buffer, res) ← buffer.retrieveAllString
  return { s with
    bufferWrite := s.bufferWrite.set s.written (some buffer)
    written := s.written + 1
    output := s.output ++ cString res }

/-- The refill of a spare buffer: `assert(!buffer_write.empty())`, and the last buffer is taken. -/
def refill (spare : Option Buffer) (batch : List (Option Buffer)) :
    Checked (Option Buffer × List (Option Buffer)) :=
  match spare with
  | some b => return (some b, batch)
  | none => do
    require (batch ≠ [])
    let b ← deref batch.getLast?.join
    return (some b.retrieveAll, batch.dropLast)

/-- After the loop over `buffer_write`: `resize(2)`, the two refills and `clear`. -/
def recycle (s : Log) : Checked Log := do
  let batch := s.bufferWrite.take 2
  let (newBuffer1, batch) ← refill s.newBuffer1 batch
  let (newBuffer2, _) ← refill s.newBuffer2 batch
  return { s with newBuffer1, newBuffer2, bufferWrite := [], written := 0, pc := .head }

/-- The steps of the back-end thread. -/
inductive BackStep where
  | spin
  | assertRunning
  /-- the test `running_` of the loop -/
  | test
  /-- the mutex and the test `buffer_.empty()` -/
  | lock
  /-- the return from `cond_.wait`, notified or spurious -/
  | wake
  /-- `assert(!buffer_write.empty())` after the critical section -/
  | assertBatch
  | writeBuffer
  | recycle
  deriving DecidableEq, Repr

/-- The steps of all threads. -/
inductive Step where
  | append (logline : Bytes)
  | loading
  /-- `init` up to the end of `switch_log` -/
  | switchLog
  /-- `init`: `if (running_ == false) running_ = true` -/
  | start
  /-- `stop`: `running_ = false` -/
  | stop
  | back (act : BackStep)
  deriving DecidableEq

/-- A step of the back end; one that cannot be taken changes nothing. -/
def stepBack (s : Log) : BackStep → Checked Log
  | .spin => return if s.pc = .spin ∧ s.running then { s with pc := .assertRunning } else s
  | .assertRunning =>
    return if s.pc = .assertRunning then
      if s.running then
        { s with pc := .head, newBuffer1 := some newBuffer, newBuffer2 := some newBuffer }
      else { s with pc := .aborted }
    else s
  | .test =>
    return if s.pc = .head then { s with pc := if s.running then .locking else .finished } else s
  | .lock =>
    return if s.pc = .locking then
      if s.buffer = [] then { s with pc := .waiting } else s.takeBatch
    else s
  | .wake => return if s.pc = .waiting then s.takeBatch else s
  | .assertBatch =>
    if s.pc = .taken then do
      require (s.bufferWrite ≠ [])
      return { s with pc := .writing }
    else return s
  | .writeBuffer =>
    if s.pc = .writing ∧ s.written < s.bufferWrite.length then s.writeBuffer else return s
  | .recycle =>
    if s.pc = .writing ∧ s.written = s.bufferWrite.length then s.recycle else return s

def step (s : Log) : Step → Checked Log
  | .append logline => s.append logline
  | .loading => s.loading
  | .switchLog => do
    let s ← s.switchLog
    return { s with initPending := s.initPending + 1 }
  | .start =>
    return if 0 < s.initPending then
      { s with initPending := s.initPending - 1, running := true }
    else s
  | .stop => return { s with running := false }
  | .back act => s.stepBack act

/-! ## What the steps do to well-formed buffers -/

/-- The back end has its two spare buffers. -/
def hasSpares : BackPc → Bool
  | .head | .locking | .waiting => true
  | _ => false

/-- The back end has taken buffers and not given them back. -/
def hasBatch : BackPc → Bool
  | .taken | .writing => true
  | _ => false

theorem hasBatch_of_hasSpares {pc : BackPc} (h : hasSpares pc) : hasBatch pc = false := by
  cases pc <;> first | rfl | cases h

/-- The pointer is not null. -/
def Valid (b : Option Buffer) : Prop := ∃ x, b = some x ∧ x.Wf

/-- The pointer is null or points to an empty buffer. -/
def Spare (b : Option Buffer) : Prop := ∀ x, b = some x → x.Wf ∧ x.readable = []

theorem spare_none : Spare none := nofun

theorem spare_some {b : Buffer} (hw : b.Wf) (hr : b.readable = []) : Spare (some b) := by
  rintro x ⟨⟩
  exact ⟨hw, hr⟩

theorem newBuffer_spare : Spare (some newBuffer) :=
  spare_some (Buffer.make_wf _) (Buffer.make_readable _)

theorem Spare.valid {b : Option Buffer} (h : Spare b) (hsome : b ≠ none) : Valid b := by
  cases b with
  | none => exact absurd rfl hsome
  | some x => exact ⟨x, rfl, (h x rfl).1⟩

/-- The invariant of the buffers: `curr_buffer_` and all queued buffers exist, the spare buffers are
empty, and a batch has a buffer for every spare that is missing. -/
structure Sound (s : Log) : Prop where
  curr : Valid s.currBuffer
  queued : ∀ b ∈ s.buffer, Valid b
  next : Spare s.nextBuffer
  new1 : Spare s.newBuffer1
  new2 : Spare s.newBuffer2
  spares : hasSpares s.pc → s.newBuffer1 ≠ none ∧ s.newBuffer2 ≠ none
  noBatch : hasBatch s.pc = false → s.bufferWrite = []
  batch : ∀ b ∈ s.bufferWrite, Valid b
  refills : hasBatch s.pc → s.newBuffer1 = none ∧ s.bufferWrite ≠ [] ∧
    (s.newBuffer2 = none → 2 ≤ s.bufferWrite.length)

theorem make_sound : Sound make where
  curr := ⟨_, rfl, Buffer.make_wf _⟩
  queued := nofun
  next := newBuffer_spare
  new1 := spare_none
  new2 := spare_none
  spares := nofun
  noBatch _ := rfl
  batch := nofun
  refills := nofun

/-- A null `next_buffer_` comes with a queued buffer. -/
def Stocked (s : Log) : Prop := s.nextBuffer = none → s.buffer ≠ []

/-- The line that a step appends. -/
def Step.line : Step → Bytes
  | .append logline => logline
  | _ => []

/-- The step takes the buffers: the back end holds the mutex and does not wait any longer. -/
def Takes (s : Log) : Step → Prop
  | .back .lock => s.pc = .locking ∧ s.buffer ≠ []
  | .back .wake => s.pc = .waiting
  | _ => False

instance (s : Log) : ∀ act, Decidable (Takes s act)
  | .back .lock => inferInstanceAs (Decidable (_ ∧ _))
  | .back .wake => inferInstanceAs (Decidable (s.pc = .waiting))
  | .append _ | .loading | .switchLog | .start | .stop => inferInstanceAs (Decidable False)
  | .back .spin | .back .assertRunning | .back .test | .back .assertBatch | .back .writeBuffer
  | .back .recycle => inferInstanceAs (Decidable False)

/-- What a step can do to well-formed buffers. -/
inductive Move : Log → Step → Log → Prop where
  /-- nothing but the control state changes -/
  | control {s : Log} {act : Step} (running : Bool) (initPending : Nat) (pc : BackPc)
      (hline : act.line = []) (hspares : hasSpares pc → hasSpares s.pc)
      (hbatch : hasBatch pc = hasBatch s.pc) :
    Move s act { s with running, initPending, pc }
  | append {s : Log} {logline : Bytes} {curr curr' : Buffer} (hcurr : s.currBuffer = some curr)
      (hw : curr'.Wf) (hr : curr'.readable = curr.readable ++ logline) :
    Move s (.append logline) { s with currBuffer := some curr' }
  | refresh {s : Log} {act : Step} {curr : Buffer} (hw : curr.Wf) (hr : curr.readable = act.line) :
    Move s act { s with
      buffer := s.buffer ++ [s.currBuffer], currBuffer := some curr, nextBuffer := none }
  | switchLog {s : Log} {curr : Buffer} (hcurr : s.currBuffer = some curr) :
    Move s .switchLog { s with
      currBuffer := some curr.retrieveAll, nextBuffer := s.nextBuffer.map Buffer.retrieveAll,
      buffer := [], initPending := s.initPending + 1 }
  | allocate {s : Log} (hpc : s.pc = .assertRunning) :
    Move s (.back .assertRunning)
      { s with pc := .head, newBuffer1 := some newBuffer, newBuffer2 := some newBuffer }
  | take {s : Log} {act : Step} (h : Takes s act) : Move s act s.takeBatch
  | writeBuffer {s : Log} {b b' : Buffer} (hpc : s.pc = .writing)
      (hb : s.bufferWrite[s.written]? = some (some b)) (hw : b'.Wf) (hr : b'.readable = []) :
    Move s (.back .writeBuffer) { s with
      bufferWrite := s.bufferWrite.set s.written (some b'), written := s.written + 1,
      output := s.output ++ cString b.readable }
  | recycle {s : Log} {newBuffer1 newBuffer2 : Buffer} (hpc : s.pc = .writing)
      (hwritten : s.written = s.bufferWrite.length) (hspare1 : Spare (some newBuffer1))
      (hspare2 : Spare (some newBuffer2)) :
    Move s (.back .recycle) { s with
      newBuffer1 := some newBuffer1, newBuffer2 := some newBuffer2, bufferWrite := [], written := 0,
      pc := .head }

variable {s : Log}

/-- The back end is where the step begins. -/
def BackStep.Ready (s : Log) : BackStep → Prop
  | .spin => s.pc = .spin ∧ s.running = true
  | .assertRunning => s.pc = .assertRunning
  | .test => s.pc = .head
  | .lock => s.pc = .locking
  | .wake => s.pc = .waiting
  | .assertBatch => s.pc = .taken
  | .writeBuffer => s.pc = .writing ∧ s.written < s.bufferWrite.length
  | .recycle => s.pc = .writing ∧ s.written = s.bufferWrite.length

theorem stepBack_not_ready {act : BackStep} (h : ¬ act.Ready s) : s.stepBack act = .ok s := by
  unfold BackStep.Ready at h
  cases act <;> simp only [stepBack, if_neg h, pure_eq_ok]

theorem refresh_spec (h : Sound s) (logline : Bytes) :
    ∃ curr, s.refresh logline = .ok { s with
        buffer := s.buffer ++ [s.currBuffer], currBuffer := some curr, nextBuffer := none } ∧
      curr.Wf ∧ curr.readable = logline := by
  obtain ⟨hw, hr⟩ : (s.nextBuffer.getD newBuffer).Wf ∧ (s.nextBuffer.getD newBuffer).readable = [] := by
    cases hnext : s.nextBuffer with
    | none => exact newBuffer_spare _ rfl
    | some b => exact h.next b hnext
  by_cases hlen : 0 < logline.length
  · obtain ⟨curr, hcurr, hw', hr'⟩ := Buffer.append_spec hw logline
    refine ⟨curr, ?_, hw', by rw [hr', hr, List.nil_append]⟩
    simp only [refresh, if_pos hlen, hcurr]
    rfl
  · obtain rfl : logline = [] := List.eq_nil_of_length_eq_zero (by omega)
    exact ⟨_, rfl, hw, hr⟩

/-- `append` touches no buffer but those of the front end. -/
theorem append_move (h : Sound s) (logline : Bytes) :
    ∃ currBuffer nextBuffer buffer,
      s.append logline = .ok { s with currBuffer, nextBuffer, buffer } ∧
      Move s (.append logline) { s with currBuffer, nextBuffer, buffer } := by
  obtain ⟨curr, hcurr, hw⟩ := h.curr
  by_cases hroom : curr.readAbleBytes + logline.length < size
  · obtain ⟨curr', happend, hw', hr'⟩ := Buffer.append_spec hw logline
    refine ⟨some curr', s.nextBuffer, s.buffer, ?_, .append hcurr hw' hr'⟩
    simp only [append, hcurr, deref, ok_bind, if_pos hroom, happend]
    rfl
  · obtain ⟨curr', hrefresh, hw', hr'⟩ := refresh_spec h logline
    refine ⟨_, _, _, ?_, .refresh hw' hr'⟩
    simp only [append, hcurr, deref, ok_bind, if_neg hroom, hrefresh]

theorem writeBuffer_move (h : Sound s) (hpc : s.pc = .writing)
    (hlt : s.written < s.bufferWrite.length) :
    ∃ t, s.writeBuffer = .ok t ∧ Move s (.back .writeBuffer) t := by
  obtain ⟨b, hb, hw⟩ := h.batch _ (List.getElem_mem hlt)
  have hget : s.bufferWrite[s.written]? = some (some b) := by
    rw [List.getElem?_eq_getElem hlt, hb]
  obtain ⟨b', hb', hw', hr'⟩ := Buffer.retrieveAllString_spec hw
  refine ⟨_, ?_, .writeBuffer hpc hget hw' hr'⟩
  simp only [writeBuffer, nth_of_some hget, ok_bind, deref, hb']
  rfl

/-- A refill succeeds when the spare is there or the batch has a buffer left. -/
theorem refill_spec {spare : Option Buffer} {batch : List (Option Buffer)} (hspare : Spare spare)
    (hbatch : ∀ b ∈ batch, Valid b) (hne : spare = none → batch ≠ []) :
    ∃ b rest, refill spare batch = .ok (some b, rest) ∧ Spare (some b) ∧ (∀ b ∈ rest, Valid b) ∧
      batch.length ≤ rest.length + if spare = none then 1 else 0 := by
  cases spare with
  | some b => exact ⟨b, batch, rfl, hspare, hbatch, by simp⟩
  | none =>
    have hne := hne rfl
    obtain ⟨b, hb, hw⟩ := hbatch _ (List.getLast_mem hne)
    have hlast : batch.getLast?.join = some b := by
      rw [List.getLast?_eq_getLast_of_ne_nil hne, hb]
      rfl
    refine ⟨b.retrieveAll, batch.dropLast, ?_, ?_, ?_, ?_⟩
    · simp only [refill, require_of hne, ok_bind, hlast, deref]
      rfl
    · exact spare_some (Buffer.retrieveAll_wf hw) (Buffer.retrieveAll_readable b)
    · exact fun x hx => hbatch x ((List.dropLast_sublist batch).subset hx)
    · simp only [if_true, List.length_dropLast]
      omega

theorem recycle_move (h : Sound s) (hpc : s.pc = .writing)
    (hwritten : s.written = s.bufferWrite.length) :
    ∃ t, s.recycle = .ok t ∧ Move s (.back .recycle) t := by
  obtain ⟨hnull, hne, htwo⟩ := h.refills (by rw [hpc]; rfl)
  have hpos : 0 < s.bufferWrite.length := List.length_pos_iff.2 hne
  have hvalid : ∀ b ∈ s.bufferWrite.take 2, Valid b := fun b hb =>
    h.batch b (List.mem_of_mem_take hb)
  have hlen : (s.bufferWrite.take 2).length = min 2 s.bufferWrite.length := List.length_take
  obtain ⟨b1, rest, hrefill1, hspare1, hvalid1, hlen1⟩ := refill_spec h.new1 hvalid
    (fun _ hnil => by rw [hnil, List.length_nil] at hlen; omega)
  rw [if_pos hnull] at hlen1
  obtain ⟨b2, rest2, hrefill2, hspare2, -, -⟩ := refill_spec h.new2 hvalid1 (by
    intro hnull2 hnil
    have := htwo hnull2
    rw [hnil, List.length_nil] at hlen1
    omega)
  refine ⟨_, ?_, .recycle hpc hwritten hspare1 hspare2⟩
  simp only [recycle, hrefill1, ok_bind, hrefill2, pure_eq_ok]

theorem step_switchLog {curr : Buffer} (hcurr : s.currBuffer = some curr) :
    step s .switchLog = .ok { s with
      currBuffer := some curr.retrieveAll, nextBuffer := s.nextBuffer.map Buffer.retrieveAll,
      buffer := [], initPending := s.initPending + 1 } := by
  simp only [step, switchLog, hcurr, deref, ok_bind, pure_eq_ok]

/-- A step of the back end that can be taken. -/
theorem stepBack_move (h : Sound s) {act : BackStep} (hready : act.Ready s) :
    ∃ t, step s (.back act) = .ok t ∧ Move s (.back act) t := by
  cases act with
  | spin =>
    have hpc := hready.1
    refine ⟨{ s with pc := .assertRunning }, ?_, .control _ _ _ rfl nofun (by rw [hpc]; rfl)⟩
    exact congrArg Except.ok (if_pos hready)
  | assertRunning =>
    have hpc : s.pc = .assertRunning := hready
    refine ⟨_, congrArg Except.ok (if_pos hpc), ?_⟩
    split
    · exact .allocate hpc
    · exact .control _ _ _ rfl nofun (by rw [hpc]; rfl)
  | test =>
    have hpc : s.pc = .head := hready
    refine ⟨_, congrArg Except.ok (if_pos hpc), ?_⟩
    refine .control _ _ _ rfl (fun _ => by rw [hpc]; rfl) ?_
    rw [hpc]
    split <;> rfl
  | lock =>
    have hpc : s.pc = .locking := hready
    refine ⟨_, congrArg Except.ok (if_pos hpc), ?_⟩
    split
    · exact .control _ _ _ rfl (fun _ => by rw [hpc]; rfl) (by rw [hpc]; rfl)
    · rename_i hne
      exact .take ⟨hpc, hne⟩
  | wake =>
    have hpc : s.pc = .waiting := hready
    exact ⟨_, congrArg Except.ok (if_pos hpc), .take hpc⟩
  | assertBatch =>
    have hpc : s.pc = .taken := hready
    have hne := (h.refills (by rw [hpc]; rfl)).2.1
    refine ⟨{ s with pc := .writing }, ?_, .control _ _ _ rfl nofun (by rw [hpc]; rfl)⟩
    simp only [step, stepBack, if_pos hpc, require_of hne, ok_bind, pure_eq_ok]
  | writeBuffer =>
    simp only [step, stepBack, if_pos (show s.pc = .writing ∧ _ from hready)]
    exact writeBuffer_move h hready.1 hready.2
  | recycle =>
    simp only [step, stepBack, if_pos (show s.pc = .writing ∧ _ from hready)]
    exact recycle_move h hready.1 hready.2

/-- **Every step on well-formed buffers is a move**, and none of the checks fails. -/
theorem step_move (h : Sound s) (act : Step) : ∃ t, step s act = .ok t ∧ Move s act t := by
  cases act with
  | append logline =>
    obtain ⟨_, _, _, happend, hm⟩ := append_move h logline
    exact ⟨_, happend, hm⟩
  | loading =>
    obtain ⟨curr, hrefresh, hw, hr⟩ := refresh_spec h []
    exact ⟨_, hrefresh, .refresh hw hr⟩
  | switchLog =>
    obtain ⟨curr, hcurr, -⟩ := h.curr
    exact ⟨_, step_switchLog hcurr, .switchLog hcurr⟩
  | start =>
    refine ⟨_, rfl, ?_⟩
    split
    · exact .control _ _ _ rfl id rfl
    · exact .control _ _ _ rfl id rfl
  | stop => exact ⟨_, rfl, .control _ _ _ rfl id rfl⟩
  | back act =>
    by_cases hready : act.Ready s
    · exact stepBack_move h hready
    · exact ⟨s, stepBack_not_ready hready, .control _ _ _ rfl id rfl⟩

theorem Takes.hasSpares {act : Step} (h : Takes s act) : hasSpares s.pc := by
  unfold Takes at h
  split at h
  · rw [h.1]; rfl
  · rw [h]; rfl
  · exact h.elim

theorem Takes.line {act : Step} (h : Takes s act) : act.line = [] := by
  unfold Takes at h
  split at h
  · rfl
  · rfl
  · exact h.elim

/-- The back end leaves its first spare as `curr_buffer_`, and its second as `next_buffer_` if that
is null; then `buffer_` had a buffer, so that the batch has two. -/
theorem Sound.takeBatch (h : Sound s) (hpc : Log.hasSpares s.pc) (hstocked : Stocked s) :
    Sound s.takeBatch := by
  obtain ⟨hnew1, hnew2⟩ := h.spares hpc
  have hnil := h.noBatch (hasBatch_of_hasSpares hpc)
  have hvalid : ∀ b ∈ s.buffer ++ [s.currBuffer], Valid b := by
    intro b hb
    rcases List.mem_append.1 hb with hb | hb
    · exact h.queued b hb
    · rw [List.mem_singleton.1 hb]
      exact h.curr
  have hbatch : s.buffer ++ [s.currBuffer] ≠ [] := by simp
  unfold Log.takeBatch
  simp only
  split
  · rename_i hnull
    refine ⟨h.new1.valid hnew1, by rw [hnil]; nofun, h.new2, spare_none, spare_none, nofun, nofun,
      hvalid, fun _ => ⟨rfl, hbatch, fun _ => ?_⟩⟩
    have := List.length_pos_iff.2 (hstocked (Option.isNone_iff_eq_none.1 hnull))
    simp only [List.length_append, List.length_singleton]
    omega
  · exact ⟨h.new1.valid hnew1, by rw [hnil]; nofun, h.next, spare_none, h.new2, nofun, nofun, hvalid,
      fun _ => ⟨rfl, hbatch, fun hnull => absurd hnull hnew2⟩⟩

theorem Move.sound {act : Step} {t : Log} (h : Sound s) (hm : Move s act t)
    (hfed : Takes s act → Stocked s) : Sound t := by
  cases hm with
  | control running initPending pc _ hspares hbatch =>
    refine ⟨h.curr, h.queued, h.next, h.new1, h.new2, fun hpc => h.spares (hspares hpc), ?_, h.batch,
      ?_⟩
    · rw [hbatch]; exact h.noBatch
    · rw [hbatch]; exact h.refills
  | append _ hw => exact ⟨⟨_, rfl, hw⟩, h.queued, h.next, h.new1, h.new2, h.spares, h.noBatch, h.batch,
      h.refills⟩
  | refresh hw =>
    refine ⟨⟨_, rfl, hw⟩, fun b hb => ?_, spare_none, h.new1, h.new2, h.spares, h.noBatch, h.batch,
      h.refills⟩
    rcases List.mem_append.1 hb with hb | hb
    · exact h.queued b hb
    · rw [List.mem_singleton.1 hb]
      exact h.curr
  | switchLog hcurr =>
    obtain ⟨curr', hcurr', hw⟩ := h.curr
    obtain rfl := Option.some.inj (hcurr.symm.trans hcurr')
    refine ⟨⟨_, rfl, Buffer.retrieveAll_wf hw⟩, nofun, ?_, h.new1, h.new2, h.spares, h.noBatch,
      h.batch, h.refills⟩
    intro x hx
    obtain ⟨y, hy, rfl⟩ := Option.map_eq_some_iff.1 hx
    exact ⟨Buffer.retrieveAll_wf (h.next y hy).1, Buffer.retrieveAll_readable y⟩
  | allocate hpc =>
    exact ⟨h.curr, h.queued, h.next, newBuffer_spare, newBuffer_spare, fun _ => ⟨nofun, nofun⟩,
      fun _ => h.noBatch (by rw [hpc]; rfl), h.batch, nofun⟩
  | take htakes => exact h.takeBatch htakes.hasSpares (hfed htakes)
  | writeBuffer hpc hb hw hr =>
    obtain ⟨hnull, hne, htwo⟩ := h.refills (by rw [hpc]; rfl)
    refine ⟨h.curr, h.queued, h.next, h.new1, h.new2, h.spares, fun hno => ?_, fun b hb => ?_,
      fun _ => ⟨hnull, ?_, fun h2 => ?_⟩⟩
    · change hasBatch s.pc = false at hno
      rw [hpc] at hno
      cases hno
    · rcases List.mem_or_eq_of_mem_set hb with hb | rfl
      · exact h.batch b hb
      · exact ⟨_, rfl, hw⟩
    · rw [← List.length_pos_iff, List.length_set, List.length_pos_iff]
      exact hne
    · rw [List.length_set]
      exact htwo h2
  | recycle hpc _ hspare1 hspare2 =>
    exact ⟨h.curr, h.queued, h.next, hspare1, hspare2, fun _ => ⟨nofun, nofun⟩, fun _ => rfl, nofun,
      nofun⟩

/-- The back end does not take the buffers while `buffer_` is empty and `next_buffer_` is null. -/
def Fed (s : Log) (act : Step) : Prop := Takes s act → Stocked s

instance (s : Log) (act : Step) : Decidable (Fed s act) :=
  inferInstanceAs (Decidable (Takes s act → s.nextBuffer = none → s.buffer ≠ []))

/-- **The assertions of the back end hold in every run that keeps it fed.**  `init`, `stop` and the
wake-ups come at any time, from the start of the program on. -/
theorem refill_assertions_hold (acts : List Step) (hfed : Allowed step Fed make acts) :
    ∃ s, run step make acts = .ok s := by
  have hstep : ∀ s act, Sound s → Fed s act → ∃ t, step s act = .ok t ∧ Sound t := by
    intro s act h hfed
    obtain ⟨t, ht, hm⟩ := step_move h act
    exact ⟨t, ht, hm.sound h hfed⟩
  obtain ⟨s, hrun, -⟩ := run_invariant hstep acts make make_sound hfed
  exact ⟨s, hrun⟩

/-- A line before `init`, a line and a `loading` after it, and a round of the back end. -/
def sampleSteps : List Step :=
  [.append [72, 105, 10], .switchLog, .start, .back .spin, .back .assertRunning, .back .test,
    .append [79, 107, 10], .loading, .back .lock, .back .assertBatch, .back .writeBuffer,
    .back .writeBuffer, .back .recycle]

theorem refill_assertions_hold_sample : ∃ s, run step make sampleSteps = .ok s :=
  refill_assertions_hold sampleSteps (by decide +kernel)

/-- A back end that takes the buffers when it is not fed gets one buffer for two spares. -/
theorem starved_aborts (h : Sound s) (hpc : s.pc = .waiting) (hnext : s.nextBuffer = none)
    (hbuffer : s.buffer = []) :
    run step s [.back .wake, .back .assertBatch, .back .writeBuffer, .back .recycle] =
      .error .assertion := by
  obtain ⟨curr, hcurr, hw⟩ := h.curr
  obtain ⟨b, hb, -, -⟩ := Buffer.retrieveAllString_spec hw
  simp [step, stepBack, hpc, takeBatch, hnext, hbuffer, hcurr, writeBuffer, nth, deref, hb, recycle,
    refill, require]

/-- A line that fills a buffer takes `next_buffer_`, `init` empties `buffer_`, and the back end, woken
by the `notify_one` of `init`, takes one buffer, which refills the first spare only. -/
theorem long_line_before_init (logline : Bytes) (hlen : size ≤ logline.length) :
    run step make ([.append logline, .switchLog, .start, .back .spin, .back .assertRunning,
        .back .test, .back .lock] ++
      [.back .wake, .back .assertBatch, .back .writeBuffer, .back .recycle]) =
      .error .assertion := by
  obtain ⟨curr, hrefresh, hw, -⟩ := refresh_spec make_sound logline
  have happend : step make (.append logline) = .ok
      { make with buffer := [some newBuffer], currBuffer := some curr, nextBuffer := none } := by
    have hroom : ¬newBuffer.readAbleBytes + logline.length < size := by omega
    simp only [step, append, make, deref, ok_bind, if_neg hroom]
    exact hrefresh
  have hwaiting : run step make [.append logline, .switchLog, .start, .back .spin,
      .back .assertRunning, .back .test, .back .lock] = .ok
      { make with
        running := true, currBuffer := some curr.retrieveAll, nextBuffer := none, pc := .waiting,
        newBuffer1 := some newBuffer, newBuffer2 := some newBuffer } := by
    rw [run_cons, happend, ok_bind]
    rfl
  rw [run_append, hwaiting, ok_bind]
  refine starved_aborts ?_ rfl rfl rfl
  exact ⟨⟨_, rfl, Buffer.retrieveAll_wf hw⟩, nofun, spare_none, newBuffer_spare, newBuffer_spare,
    fun _ => ⟨nofun, nofun⟩, fun _ => rfl, nofun, nofun⟩

/-- A line of 4000 bytes before the first `init`. -/
theorem init_without_spare_aborts :
    run step make ([.append (List.replicate 4000 65), .switchLog, .start, .back .spin,
        .back .assertRunning, .back .test, .back .lock] ++
      [.back .wake, .back .assertBatch, .back .writeBuffer, .back .recycle]) =
      .error .assertion :=
  long_line_before_init _ (Nat.le_of_eq List.length_replicate.symm)

end Log
