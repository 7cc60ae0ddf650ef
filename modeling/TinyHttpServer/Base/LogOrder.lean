import TinyHttpServer.Base.Log
import Mathlib.Data.List.TakeWhile

/-!
# The log keeps every line in order

What has been passed to `fputs`, the unwritten buffers of the batch, `buffer_` and `curr_buffer_`
hold, in this order, every line that was appended after `init`.

* `log_keeps_every_line` — for any interleaving of the threads after an `init`.
-/

set_option autoImplicit false

open Checked Machine

namespace Log

variable {s t : Log} {act : Step}

/-- The bytes in a list of buffers. -/
def contents (buffers : List (Option Buffer)) : Bytes :=
  buffers.flatMap fun b => (b.map Buffer.readable).getD []

@[simp] theorem contents_nil : contents [] = [] := rfl

@[simp] theorem contents_append (xs ys : List (Option Buffer)) :
    contents (xs ++ ys) = contents xs ++ contents ys := List.flatMap_append

@[simp] theorem contents_cons_some (b : Buffer) (xs : List (Option Buffer)) :
    contents (some b :: xs) = b.readable ++ contents xs := rfl

theorem Spare.contents {b : Option Buffer} (h : Spare b) : contents [b] = [] := by
  cases b with
  | none => rfl
  | some x => simp [(h x rfl).2]

/-- The bytes that have not been passed to `fputs`: the rest of the batch, `buffer_` and
`curr_buffer_`. -/
def pending (s : Log) : Bytes :=
  contents (s.bufferWrite.drop s.written) ++ contents s.buffer ++ contents [s.currBuffer]

/-- All bytes: what has been passed to `fputs`, and the rest. -/
def logged (s : Log) : Bytes := s.output ++ s.pending

/-- A move puts its line at the end of what is pending, or writes the head of it. -/
theorem Move.pending (h : Sound s) (hm : Move s act t) (hact : act ≠ .switchLog) :
    (t.output = s.output ∧ t.pending = s.pending ++ act.line) ∨
      ∃ res, s.pending = res ++ t.pending ∧ t.output = s.output ++ cString res ∧
        act.line = [] := by
  cases hm with
  | control running initPending pc hline =>
    refine .inl ⟨rfl, ?_⟩
    rw [hline, List.append_nil]
    rfl
  | append hcurr hw hr =>
    refine .inl ⟨rfl, ?_⟩
    simp only [Log.pending, hcurr, contents_cons_some, hr, contents_nil, Step.line]
    simp only [List.append_assoc, List.append_nil]
  | refresh hw hr =>
    refine .inl ⟨rfl, ?_⟩
    simp only [Log.pending, contents_append, contents_cons_some, hr, contents_nil]
    simp only [List.append_assoc, List.append_nil]
  | switchLog => exact absurd rfl hact
  | allocate hpc => exact .inl ⟨rfl, (List.append_nil _).symm⟩
  | take htakes =>
    have hnil := h.noBatch (hasBatch_of_hasSpares htakes.hasSpares)
    refine .inl ⟨takeBatch_output s, ?_⟩
    rw [htakes.line, List.append_nil]
    simp [Log.pending, hnil, h.new1.contents]
  | @writeBuffer b b' hpc hb hw hr =>
    refine .inr ⟨b.readable, ?_, rfl, rfl⟩
    obtain ⟨hlt, hget⟩ := List.getElem?_eq_some_iff.1 hb
    have hdrop : s.bufferWrite.drop s.written = some b :: s.bufferWrite.drop (s.written + 1) := by
      rw [List.drop_eq_getElem_cons hlt, hget]
    have hset : (s.bufferWrite.set s.written (some b')).drop (s.written + 1) =
        s.bufferWrite.drop (s.written + 1) := List.drop_set_of_lt (by omega)
    simp only [Log.pending, hdrop, hset, contents_cons_some, List.append_assoc]
  | recycle hpc hwritten =>
    refine .inl ⟨rfl, ?_⟩
    have hdrop : s.bufferWrite.drop s.written = [] := List.drop_eq_nil_of_le (by omega)
    simp only [Log.pending, hdrop, List.drop_nil, Step.line, List.append_nil]

/-- Every move keeps a queued buffer beside a null `next_buffer_`, but for an `init` that finds it
null. -/
theorem Move.stocked (hs : Sound s) (h : Stocked s) (hm : Move s act t)
    (hinit : act = .switchLog → s.nextBuffer ≠ none) : Stocked t := by
  cases hm with
  | control => exact h
  | append => exact h
  | refresh => exact fun _ => by simp
  | switchLog => exact fun hnull => absurd (Option.map_eq_none_iff.1 hnull) (hinit rfl)
  | allocate => exact h
  | take htakes =>
    intro hnull
    rw [takeBatch_nextBuffer, Option.or_eq_none_iff] at hnull
    exact absurd hnull.2 (hs.spares htakes.hasSpares).2
  | writeBuffer => exact h
  | recycle => exact h

/-- The lines have no zero byte, and `init` finds `next_buffer_` in its place. -/
def Admissible (s : Log) : Step → Prop
  | .append logline => 0 ∉ logline
  | .switchLog => s.nextBuffer ≠ none
  | .loading | .start | .stop | .back _ => True

instance (s : Log) : ∀ act, Decidable (Admissible s act)
  | .append logline => inferInstanceAs (Decidable (0 ∉ logline))
  | .switchLog => inferInstanceAs (Decidable (s.nextBuffer ≠ none))
  | .loading | .start | .stop | .back _ => inferInstanceAs (Decidable True)

/-- The invariant behind the order of the lines. -/
structure Ordered (s : Log) : Prop where
  sound : Sound s
  stocked : Stocked s
  noZero : 0 ∉ s.pending

theorem make_ordered : Ordered make where
  sound := make_sound
  stocked := nofun
  noZero := by simp [pending, make, newBuffer, Buffer.make_readable]

theorem cString_of_noZero {res : Bytes} (h : 0 ∉ res) : cString res = res := by
  rw [cString, List.takeWhile_eq_self_iff]
  intro b hb
  simp only [decide_eq_true_eq]
  rintro rfl
  exact h hb

theorem Admissible.line (h : Admissible s act) : 0 ∉ act.line := by
  cases act with
  | append logline => exact h
  | _ => exact List.not_mem_nil

theorem Admissible.init (h : Admissible s act) : act = .switchLog → s.nextBuffer ≠ none := by
  rintro rfl
  exact h

/-- `init` drops what is queued; the batch of the back end stays. -/
theorem pending_of_switchLog (hs : Sound s) (ht : step s .switchLog = .ok t) :
    t.output = s.output ∧ t.pending = contents (s.bufferWrite.drop s.written) := by
  obtain ⟨curr, hcurr, -⟩ := hs.curr
  rw [step_switchLog hcurr] at ht
  cases ht
  exact ⟨rfl, by simp [pending]⟩

/-- A move other than `init` that puts in no zero byte keeps everything logged, and puts its line at
the end of it. -/
theorem Move.logged (h : Sound s) (hzero : 0 ∉ s.pending) (hline : 0 ∉ act.line)
    (hm : Move s act t) (hact : act ≠ .switchLog) :
    0 ∉ t.pending ∧ t.logged = s.logged ++ act.line := by
  rcases hm.pending h hact with ⟨hout, hpending⟩ | ⟨res, hpending, hout, hnil⟩
  · constructor
    · rw [hpending, List.mem_append, not_or]
      exact ⟨hzero, hline⟩
    · rw [Log.logged, Log.logged, hout, hpending, List.append_assoc]
  · rw [hpending, List.mem_append, not_or] at hzero
    refine ⟨hzero.2, ?_⟩
    rw [Log.logged, Log.logged, hout, hpending, hnil, cString_of_noZero hzero.1, List.append_nil,
      List.append_assoc]

/-- **One step.**  A step other than `init` puts its line at the end of everything logged. -/
theorem step_ordered (h : Ordered s) (hadm : Admissible s act) :
    ∃ t, step s act = .ok t ∧ Ordered t ∧ (act ≠ .switchLog → t.logged = s.logged ++ act.line) := by
  obtain ⟨t, ht, hm⟩ := step_move h.sound act
  have hsound : Sound t := hm.sound h.sound fun _ => h.stocked
  have hstocked : Stocked t := hm.stocked h.sound h.stocked hadm.init
  by_cases hact : act = .switchLog
  · subst hact
    refine ⟨t, ht, ⟨hsound, hstocked, ?_⟩, fun hne => absurd rfl hne⟩
    rw [(pending_of_switchLog h.sound ht).2]
    intro hzero
    apply h.noZero
    unfold pending
    rw [List.append_assoc]
    exact List.mem_append_left _ hzero
  · obtain ⟨hzero, hlogged⟩ := hm.logged h.sound h.noZero hadm.line hact
    exact ⟨t, ht, ⟨hsound, hstocked, hzero⟩, fun _ => hlogged⟩

/-- Before the first `init` the back end does nothing. -/
structure Unstarted (s : Log) : Prop where
  running : s.running = false
  initPending : s.initPending = 0
  pc : s.pc = .spin
  bufferWrite : s.bufferWrite = []
  output : s.output = []

theorem step_unstarted (hs : Sound s) (h : Unstarted s) (hact : act ≠ .switchLog)
    (ht : step s act = .ok t) : Unstarted t := by
  cases act with
  | append logline =>
    obtain ⟨_, _, _, happend, -⟩ := append_move hs logline
    cases happend.symm.trans ht
    exact ⟨h.running, h.initPending, h.pc, h.bufferWrite, h.output⟩
  | loading =>
    obtain ⟨curr, hrefresh, -⟩ := refresh_spec hs []
    cases hrefresh.symm.trans ht
    exact ⟨h.running, h.initPending, h.pc, h.bufferWrite, h.output⟩
  | switchLog => exact absurd rfl hact
  | start =>
    cases ht
    rw [if_neg (by rw [h.initPending]; exact Nat.lt_irrefl 0)]
    exact h
  | stop =>
    cases ht
    exact ⟨rfl, h.initPending, h.pc, h.bufferWrite, h.output⟩
  | back act =>
    have hstay : s.stepBack act = .ok s := by
      cases act <;> simp [stepBack, h.pc, h.running]
    cases hstay.symm.trans ht
    exact h

theorem run_unstarted {acts : List Step} (hadm : Allowed step Admissible make acts)
    (hacts : .switchLog ∉ acts) (ht : run step make acts = .ok t) : Unstarted t := by
  have hstep : ∀ s act, Ordered s ∧ Unstarted s → Admissible s act ∧ act ≠ .switchLog →
      ∃ t, step s act = .ok t ∧ Ordered t ∧ Unstarted t := by
    rintro s act ⟨hord, hs⟩ ⟨hadm, hact⟩
    obtain ⟨t, ht, hord', -⟩ := step_ordered hord hadm
    exact ⟨t, ht, hord', step_unstarted hord.sound hs hact ht⟩
  have hall := hadm.and_of_forall fun act hact (heq : act = .switchLog) => hacts (heq ▸ hact)
  obtain ⟨u, hu, -, h⟩ := run_invariant hstep acts make ⟨make_ordered, rfl, rfl, rfl, rfl, rfl⟩ hall
  cases hu.symm.trans ht
  exact h

/-- Along a run without `init` the lines are put at the end. -/
theorem run_logged {acts : List Step} (h : Ordered s) (hadm : Allowed step Admissible s acts)
    (hacts : .switchLog ∉ acts) :
    ∃ t, run step s acts = .ok t ∧ Ordered t ∧ t.logged = s.logged ++ acts.flatMap Step.line := by
  have hstep : ∀ s act, Ordered s → Admissible s act ∧ act ≠ .switchLog →
      ∃ t, step s act = .ok t ∧ Ordered t ∧ t.logged = s.logged ++ act.line := by
    rintro s act hord ⟨hadm, hact⟩
    obtain ⟨t, ht, hord', hlogged⟩ := step_ordered hord hadm
    exact ⟨t, ht, hord', hlogged hact⟩
  have hall := hadm.and_of_forall fun act hact (heq : act = .switchLog) => hacts (heq ▸ hact)
  obtain ⟨t, ht, hord, hlogged⟩ := run_refines Ordered logged (fun bytes act => bytes ++ act.line)
    hstep acts s h hall
  exact ⟨t, ht, hord, by rw [hlogged, List.foldl_append_eq_append, List.flatMap_def]⟩

/-- **The log keeps every line in order.**  Take any run from the start of the program with an `init`
in it, in which every `init` finds `next_buffer_` in its place and no line has a zero byte.  From
that `init` up to the next one no access or assertion fails, and what has been passed to `fputs`,
the unwritten buffers of the batch, `buffer_` and `curr_buffer_` are together what they were at the
`init`, which is nothing for the first `init`, followed by the lines in the order of their
`append`.  `curr_buffer_` is never null and the spare buffers are empty. -/
theorem log_keeps_every_line (before after : List Step)
    (hadm : Allowed step Admissible make (before ++ .switchLog :: after))
    (hafter : .switchLog ∉ after) :
    ∃ s₀ s, run step make (before ++ [.switchLog]) = .ok s₀ ∧ run step s₀ after = .ok s ∧
      s.output ++ contents (s.bufferWrite.drop s.written) ++ contents s.buffer ++
        contents [s.currBuffer] = s₀.logged ++ after.flatMap Step.line ∧
      (.switchLog ∉ before → s₀.logged = []) ∧
      s.currBuffer ≠ none ∧ Spare s.nextBuffer ∧ Spare s.newBuffer1 ∧ Spare s.newBuffer2 := by
  have hstep : ∀ s act, Ordered s → Admissible s act → ∃ t, step s act = .ok t ∧ Ordered t := by
    intro s act hord hadm
    obtain ⟨t, ht, hord', -⟩ := step_ordered hord hadm
    exact ⟨t, ht, hord'⟩
  obtain ⟨u, hu, hordu⟩ := run_invariant hstep before make make_ordered hadm.append_left
  have hadmu := hadm.append_right hu
  obtain ⟨s₀, hs₀, hord₀⟩ := hstep u .switchLog hordu hadmu.1
  obtain ⟨s, hs, hord, hlogged⟩ := run_logged hord₀ (hadmu.tail hs₀) hafter
  have hcurr : s.currBuffer ≠ none := by
    obtain ⟨curr, hcurr, -⟩ := hord.sound.curr
    rw [hcurr]
    nofun
  refine ⟨s₀, s, (run_snoc hu _).trans hs₀, hs, ?_, fun hfirst => ?_, hcurr, hord.sound.next,
    hord.sound.new1, hord.sound.new2⟩
  · rw [← hlogged]
    simp only [logged, pending, List.append_assoc]
  · have hun := run_unstarted hadm.append_left hfirst hu
    obtain ⟨hout, hpending⟩ := pending_of_switchLog hordu.sound hs₀
    rw [logged, hout, hpending, hun.output, hun.bufferWrite]
    simp

/-- A line before `init`; a line, a `loading` and a round of the back end after it. -/
theorem log_keeps_every_line_sample :
    ∃ s₀ s, run step make [.append [72, 105, 10], .switchLog] = .ok s₀ ∧
      run step s₀ [.start, .back .spin, .back .assertRunning, .back .test, .append [79, 107, 10],
        .loading, .back .lock, .back .assertBatch, .back .writeBuffer, .append [33, 10]] = .ok s ∧
      s.output ++ contents (s.bufferWrite.drop s.written) ++ contents s.buffer ++
        contents [s.currBuffer] = [79, 107, 10, 33, 10] := by
  obtain ⟨s₀, s, hs₀, hs, hlogged, hfirst, -⟩ := log_keeps_every_line [.append [72, 105, 10]]
    [.start, .back .spin, .back .assertRunning, .back .test, .append [79, 107, 10],
      .loading, .back .lock, .back .assertBatch, .back .writeBuffer, .append [33, 10]]
    (by decide +kernel) (by decide)
  refine ⟨s₀, s, hs₀, hs, ?_⟩
  rw [hlogged, hfirst (by decide)]
  rfl

end Log
