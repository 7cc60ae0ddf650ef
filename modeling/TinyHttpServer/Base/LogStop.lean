import TinyHttpServer.Base.LogOrder

/-!
# What `stop` leaves unwritten

`stop` sets `running_` outside the mutex, so the back end may be anywhere in its loop.  Before the
critical section it still takes every buffer; after it, it writes its batch, leaves the loop and
never looks at the buffers again.

* `stop_flushes_iff` — when `thread_func` has returned, every line appended before `stop` has been
  written if and only if `stop` found the back end before its critical section, or the buffers of
  the front end empty, and no line had a zero byte.
* `stop_loses_line` — a line appended while the back end writes a batch, right before `stop`.
-/

set_option autoImplicit false

open Checked Machine

namespace Log

variable {s t : Log} {act : Step}

/-! ## Runs that return -/

/-- The back end has given away both spares and has a single buffer to refill them with. -/
structure Starved (s : Log) : Prop where
  pc : hasBatch s.pc
  new1 : s.newBuffer1 = none
  new2 : s.newBuffer2 = none
  single : s.bufferWrite.length = 1

theorem eq_of_hasBatch {pc : BackPc} (h : hasBatch pc) : pc = .taken ∨ pc = .writing := by
  cases pc with
  | taken => exact .inl rfl
  | writing => exact .inr rfl
  | _ => cases h

/-- The refill of the second spare finds no buffer. -/
theorem Starved.recycle (h : Starved s) : ∀ t, s.recycle ≠ .ok t := by
  intro t ht
  obtain ⟨b, hb⟩ := List.length_eq_one_iff.1 h.single
  simp only [Log.recycle, h.new1, h.new2, hb, bind_eq_ok] at ht
  obtain ⟨⟨spare, batch⟩, hfirst, ⟨spare', batch'⟩, hsecond, -⟩ := ht
  simp only [refill, List.take_succ_cons, List.take_nil, bind_eq_ok] at hfirst
  obtain ⟨-, -, b', -, hrest⟩ := hfirst
  cases hrest
  simp [refill, require] at hsecond

theorem refresh_front {logline : Bytes} (ht : s.refresh logline = .ok t) :
    ∃ currBuffer nextBuffer buffer, t = { s with currBuffer, nextBuffer, buffer } := by
  unfold refresh at ht
  by_cases hlen : 0 < logline.length
  · simp only [if_pos hlen, bind_eq_ok] at ht
    obtain ⟨curr, -, hret⟩ := ht
    cases hret
    exact ⟨_, _, _, rfl⟩
  · simp only [if_neg hlen, pure_eq_ok, ok_bind] at ht
    cases ht
    exact ⟨_, _, _, rfl⟩

/-- `append` and `loading` touch no buffer but those of the front end. -/
theorem append_front {logline : Bytes} (ht : s.append logline = .ok t) :
    ∃ currBuffer nextBuffer buffer, t = { s with currBuffer, nextBuffer, buffer } := by
  obtain ⟨curr, -, ht⟩ := bind_eq_ok.1 ht
  by_cases hroom : curr.readAbleBytes + logline.length < size
  · rw [if_pos hroom] at ht
    obtain ⟨curr', -, hret⟩ := bind_eq_ok.1 ht
    cases hret
    exact ⟨_, _, _, rfl⟩
  · rw [if_neg hroom] at ht
    exact refresh_front ht

/-- A starved back end never gets out. -/
theorem step_starved (h : Starved s) (ht : step s act = .ok t) : Starved t := by
  cases act with
  | append logline =>
    obtain ⟨_, _, _, rfl⟩ := append_front ht
    exact ⟨h.pc, h.new1, h.new2, h.single⟩
  | loading =>
    have hrefresh : s.refresh [] = .ok t := ht
    obtain ⟨_, _, _, rfl⟩ := refresh_front hrefresh
    exact ⟨h.pc, h.new1, h.new2, h.single⟩
  | switchLog =>
    simp only [step, switchLog, bind_eq_ok] at ht
    obtain ⟨u, ⟨curr, -, hu⟩, ht⟩ := ht
    cases hu
    cases ht
    exact ⟨h.pc, h.new1, h.new2, h.single⟩
  | start =>
    cases ht
    split
    · exact ⟨h.pc, h.new1, h.new2, h.single⟩
    · exact h
  | stop =>
    cases ht
    exact ⟨h.pc, h.new1, h.new2, h.single⟩
  | back act =>
    by_cases hready : act.Ready s
    swap
    · cases (stepBack_not_ready hready).symm.trans ht
      exact h
    cases act with
    | assertBatch =>
      have htaken : s.pc = .taken := hready
      simp only [step, stepBack, if_pos htaken, bind_eq_ok] at ht
      obtain ⟨-, -, ht⟩ := ht
      cases ht
      exact ⟨rfl, h.new1, h.new2, h.single⟩
    | writeBuffer =>
      obtain ⟨hpc, hlt⟩ := hready
      simp only [step, stepBack, if_pos (And.intro hpc hlt), Log.writeBuffer, bind_eq_ok] at ht
      obtain ⟨_, -, _, -, ⟨_, _⟩, -, ht⟩ := ht
      cases ht
      exact ⟨h.pc, h.new1, h.new2, by simp only [List.length_set, h.single]⟩
    | recycle =>
      obtain ⟨hpc, hwritten⟩ := hready
      simp only [step, stepBack, if_pos (And.intro hpc hwritten)] at ht
      exact absurd ht (h.recycle t)
    | spin | assertRunning | test | lock | wake =>
      have hstay : s = t := by
        rcases eq_of_hasBatch h.pc with hpc | hpc <;> simpa [step, stepBack, hpc] using ht
      exact hstay ▸ h

theorem Takes.step (h : Takes s act) : step s act = .ok s.takeBatch := by
  unfold Takes at h
  split at h
  · simp only [Log.step, stepBack, if_pos h.1, if_neg h.2, pure_eq_ok]
  · simp only [Log.step, stepBack, if_pos h, pure_eq_ok]
  · exact h.elim

/-- A step on well-formed buffers leaves them well-formed, or starves the back end. -/
theorem step_sound_or_starved (h : Sound s) (ht : step s act = .ok t) : Starved t ∨ Sound t := by
  obtain ⟨u, hu, hm⟩ := step_move h act
  cases hu.symm.trans ht
  by_cases hfed : Takes s act → Stocked s
  · exact .inr (hm.sound h hfed)
  · obtain ⟨htakes, hstock⟩ := Classical.not_imp.1 hfed
    obtain ⟨hnull, hnil⟩ := Classical.not_imp.1 hstock
    cases htakes.step.symm.trans ht
    refine .inl ⟨?_, ?_, ?_, ?_⟩
    · simp [takeBatch, hnull, hasBatch]
    · simp [takeBatch, hnull]
    · simp [takeBatch, hnull]
    · simp [not_not.1 hnil]

/-- **Run rule.**  What every step on well-formed buffers keeps holds at the end of a run, unless
the back end is starved there. -/
theorem run_kept {P : Log → Prop} {Q : Step → Prop}
    (hstep : ∀ s act t, Sound s → P s → Q act → step s act = .ok t → P t) (acts : List Step)
    (hs : Sound s) (hP : P s) (hQ : ∀ act ∈ acts, Q act) (ht : run step s acts = .ok t) :
    Starved t ∨ Sound t ∧ P t := by
  have hinv : ∀ s act t, (Starved s ∨ Sound s ∧ P s) → Q act → step s act = .ok t →
      (Starved t ∨ Sound t ∧ P t) := by
    rintro s act t (hstarved | ⟨hs, hP⟩) hact ht
    · exact .inl (step_starved hstarved ht)
    · rcases step_sound_or_starved hs ht with hstarved | hs'
      · exact .inl hstarved
      · exact .inr ⟨hs', hstep s act t hs hP hact ht⟩
  exact run_safe hinv acts s t (.inr ⟨hs, hP⟩) (Allowed.of_forall_mem hQ) ht

/-! ## What the back end still writes after `stop` -/

/-- The back end is on its way into the critical section. -/
def beforeTake : BackPc → Bool
  | .locking | .waiting => true
  | _ => false

theorem hasSpares_of_beforeTake {pc : BackPc} (h : beforeTake pc) : hasSpares pc := by
  cases pc with
  | locking | waiting => rfl
  | _ => cases h

/-- What the front end has collected: `buffer_` and `curr_buffer_`. -/
def queued (s : Log) : Bytes := contents s.buffer ++ contents [s.currBuffer]

/-- The unwritten buffers of the batch. -/
def unwritten (s : Log) : Bytes := contents (s.bufferWrite.drop s.written)

theorem pending_eq (s : Log) : s.pending = s.unwritten ++ s.queued := List.append_assoc _ _ _

/-- What the back end passes to `fputs` if the test of the loop fails from now on. -/
def due (s : Log) : Bytes := s.unwritten ++ if beforeTake s.pc then s.queued else []

theorem due_of_beforeTake (h : beforeTake s.pc) : s.due = s.pending := by
  rw [due, if_pos h, pending_eq]

theorem due_of_not_beforeTake (h : beforeTake s.pc = false) : s.due = s.unwritten := by
  rw [due, h, if_neg Bool.false_ne_true, List.append_nil]

theorem unwritten_eq_nil (h : Sound s) (hpc : hasBatch s.pc = false) : s.unwritten = [] := by
  rw [unwritten, h.noBatch hpc, List.drop_nil, contents_nil]

/-- Where the back end stands still, a line is due only before the critical section. -/
theorem due_of_line {line : Bytes} (hpc : t.pc = s.pc) (hunwritten : t.unwritten = s.unwritten)
    (hqueued : t.queued = s.queued ++ line) :
    t.due = s.due ++ if beforeTake s.pc then line else [] := by
  rw [due, due, hpc, hunwritten, hqueued, List.append_assoc]
  cases beforeTake s.pc <;> simp

theorem queued_of_refresh {logline : Bytes} (h : Sound s) (ht : s.refresh logline = .ok t) :
    t.queued = s.queued ++ logline := by
  obtain ⟨curr, hrefresh, -, hr⟩ := refresh_spec h logline
  cases hrefresh.symm.trans ht
  simp [queued, hr]

theorem queued_of_append {logline : Bytes} (h : Sound s) (ht : s.append logline = .ok t) :
    t.queued = s.queued ++ logline := by
  obtain ⟨curr, hcurr, hw⟩ := h.curr
  simp only [append, hcurr, deref, ok_bind] at ht
  by_cases hroom : curr.readAbleBytes + logline.length < size
  · obtain ⟨curr', happend, -, hr⟩ := Buffer.append_spec hw logline
    rw [if_pos hroom, happend] at ht
    cases ht
    simp [queued, hcurr, hr]
  · rw [if_neg hroom] at ht
    exact queued_of_refresh h ht

/-- What a step after `stop` does to the bytes that are due. -/
inductive DueMove (s t : Log) : Step → Prop where
  | keep {act : Step} (hout : t.output = s.output) (hpc : beforeTake t.pc → beforeTake s.pc)
      (hdue : t.due = s.due ++ if beforeTake s.pc then act.line else []) : DueMove s t act
  | write (res : Bytes) (hout : t.output = s.output ++ cString res)
      (hpc : beforeTake t.pc → beforeTake s.pc) (hdue : s.due = res ++ t.due) :
    DueMove s t (.back .writeBuffer)

theorem DueMove.of_eq {act : Step} (hline : act.line = []) (hout : t.output = s.output)
    (hpc : beforeTake t.pc → beforeTake s.pc) (hdue : t.due = s.due) : DueMove s t act := by
  refine .keep hout hpc ?_
  rw [hline, ite_self, List.append_nil, hdue]

@[simp] theorem takeBatch_running (s : Log) : s.takeBatch.running = s.running := by
  unfold takeBatch; simp only; split <;> rfl

/-- The critical section moves what is queued into the batch. -/
theorem due_takeBatch (h : Sound s) (hpc : beforeTake s.pc) : s.takeBatch.due = s.due := by
  have hnil := unwritten_eq_nil h (hasBatch_of_hasSpares (hasSpares_of_beforeTake hpc))
  have hpc' : beforeTake s.takeBatch.pc = false := by
    unfold takeBatch
    simp only
    split <;> rfl
  rw [due_of_not_beforeTake hpc', due_of_beforeTake hpc, pending_eq, hnil]
  simp [unwritten, queued]

theorem takeBatch_dueMove (h : Sound s) (hpc : beforeTake s.pc) (hline : act.line = []) :
    DueMove s s.takeBatch act :=
  .of_eq hline (takeBatch_output s) (fun _ => hpc) (due_takeBatch h hpc)

theorem writeBuffer_due (h : Sound s) (hrunning : s.running = false) (hpc : s.pc = .writing)
    (hlt : s.written < s.bufferWrite.length) (ht : s.writeBuffer = .ok t) :
    t.running = false ∧ DueMove s t (.back .writeBuffer) := by
  obtain ⟨b, hb, hw⟩ := h.batch _ (List.getElem_mem hlt)
  have hget : s.bufferWrite[s.written]? = some (some b) := by
    rw [List.getElem?_eq_getElem hlt, hb]
  obtain ⟨b', hb', -, -⟩ := Buffer.retrieveAllString_spec hw
  simp only [Log.writeBuffer, nth_of_some hget, ok_bind, deref, hb'] at ht
  cases ht
  refine ⟨hrunning, .write b.readable rfl id ?_⟩
  have hdrop : s.bufferWrite.drop s.written = some b :: s.bufferWrite.drop (s.written + 1) := by
    rw [List.drop_eq_getElem_cons hlt, hb]
  have hset : (s.bufferWrite.set s.written (some b')).drop (s.written + 1) =
      s.bufferWrite.drop (s.written + 1) := List.drop_set_of_lt (by omega)
  simp [due, unwritten, hpc, beforeTake, hdrop, hset]

/-- A step of the back end when `running_` is false. -/
theorem stepBack_due (h : Sound s) (hrunning : s.running = false) {act : BackStep}
    (ht : s.stepBack act = .ok t) : t.running = false ∧ DueMove s t (.back act) := by
  by_cases hready : act.Ready s
  swap
  · cases (stepBack_not_ready hready).symm.trans ht
    exact ⟨hrunning, .of_eq rfl rfl id rfl⟩
  cases act with
  | spin => exact absurd hready.2 (by rw [hrunning]; exact Bool.false_ne_true)
  | assertRunning =>
    have hpc : s.pc = .assertRunning := hready
    simp only [stepBack, if_pos hpc, hrunning, Bool.false_eq_true, if_false, pure_eq_ok] at ht
    cases ht
    refine ⟨rfl, .of_eq rfl rfl (by simp [beforeTake]) ?_⟩
    simp [due, unwritten, hpc, beforeTake]
  | test =>
    have hpc : s.pc = .head := hready
    simp only [stepBack, if_pos hpc, hrunning, Bool.false_eq_true, if_false, pure_eq_ok] at ht
    cases ht
    refine ⟨rfl, .of_eq rfl rfl (by simp [beforeTake]) ?_⟩
    simp [due, unwritten, hpc, beforeTake]
  | lock =>
    have hpc : s.pc = .locking := hready
    have hbefore : beforeTake s.pc := by rw [hpc]; rfl
    by_cases hempty : s.buffer = []
    · simp only [stepBack, if_pos hpc, if_pos hempty, pure_eq_ok] at ht
      cases ht
      refine ⟨hrunning, .of_eq rfl rfl (fun _ => hbefore) ?_⟩
      rw [due_of_beforeTake rfl, due_of_beforeTake hbefore]
      rfl
    · simp only [stepBack, if_pos hpc, if_neg hempty, pure_eq_ok] at ht
      cases ht
      exact ⟨(takeBatch_running s).trans hrunning, takeBatch_dueMove h hbefore rfl⟩
  | wake =>
    have hpc : s.pc = .waiting := hready
    have hbefore : beforeTake s.pc := by rw [hpc]; rfl
    simp only [stepBack, if_pos hpc, pure_eq_ok] at ht
    cases ht
    exact ⟨(takeBatch_running s).trans hrunning, takeBatch_dueMove h hbefore rfl⟩
  | assertBatch =>
    have hpc : s.pc = .taken := hready
    simp only [stepBack, if_pos hpc, bind_eq_ok] at ht
    obtain ⟨-, -, ht⟩ := ht
    cases ht
    refine ⟨hrunning, .of_eq rfl rfl (by simp [beforeTake]) ?_⟩
    simp [due, unwritten, hpc, beforeTake]
  | writeBuffer =>
    obtain ⟨hpc, hlt⟩ := hready
    simp only [stepBack, if_pos (And.intro hpc hlt)] at ht
    exact writeBuffer_due h hrunning hpc hlt ht
  | recycle =>
    obtain ⟨hpc, hwritten⟩ := hready
    simp only [stepBack, if_pos (And.intro hpc hwritten)] at ht
    simp only [Log.recycle, bind_eq_ok] at ht
    obtain ⟨⟨_, _⟩, -, ⟨_, _⟩, -, ht⟩ := ht
    cases ht
    refine ⟨hrunning, .of_eq rfl rfl (by simp [beforeTake]) ?_⟩
    simp [due, unwritten, hpc, hwritten, beforeTake]

/-- **One step after `stop`**, other than an `init`. -/
theorem step_due (h : Sound s) (hrunning : s.running = false)
    (hact : act ≠ .switchLog ∧ act ≠ .start) (ht : step s act = .ok t) :
    t.running = false ∧ DueMove s t act := by
  cases act with
  | append logline =>
    have hqueued := queued_of_append h ht
    obtain ⟨_, _, _, rfl⟩ := append_front ht
    exact ⟨hrunning, .keep rfl id (due_of_line rfl rfl hqueued)⟩
  | loading =>
    have hrefresh : s.refresh [] = .ok t := ht
    have hqueued := queued_of_refresh h hrefresh
    obtain ⟨_, _, _, rfl⟩ := refresh_front hrefresh
    exact ⟨hrunning, .keep rfl id (due_of_line rfl rfl hqueued)⟩
  | switchLog => exact absurd rfl hact.1
  | start => exact absurd rfl hact.2
  | stop =>
    cases ht
    exact ⟨rfl, .of_eq rfl rfl id rfl⟩
  | back act => exact stepBack_due h hrunning ht

/-! ## Runs with a `stop` -/

theorem cString_le_append (xs ys : Bytes) : cString xs <+: cString (xs ++ ys) := by
  induction xs with
  | nil => exact List.nil_prefix
  | cons b xs ih =>
    by_cases hb : b = 0
    · simp [cString, hb]
    · simpa [cString, hb] using ih

theorem cString_append_le (xs ys : Bytes) : cString (xs ++ ys) <+: cString xs ++ cString ys := by
  induction xs with
  | nil => exact List.prefix_rfl
  | cons b xs ih =>
    by_cases hb : b = 0
    · simp [cString, hb]
    · simpa [cString, hb] using ih

theorem zero_not_mem_cString (res : Bytes) : 0 ∉ cString res := by
  intro hmem
  have := List.mem_takeWhile_imp hmem
  simp at this

/-- The lines are written, or will be with the bytes that are due. -/
def Secured (lines : Bytes) (s : Log) : Prop := lines <+: s.output ++ cString s.due

theorem DueMove.secured {lines : Bytes} (hm : DueMove s t act) (h : Secured lines s) :
    Secured lines t := by
  cases hm with
  | keep hout _ hdue =>
    unfold Secured
    rw [hout, hdue]
    exact h.trans (List.prefix_append_right_inj _ |>.2 (cString_le_append _ _))
  | write res hout _ hdue =>
    unfold Secured at h ⊢
    rw [hdue] at h
    rw [hout, List.append_assoc]
    exact h.trans (List.prefix_append_right_inj _ |>.2 (cString_append_le _ _))

/-- Past the critical section, what will have been written in the end can only shrink. -/
theorem DueMove.length_le (hm : DueMove s t act) (hpc : beforeTake s.pc = false) :
    beforeTake t.pc = false ∧
      t.output.length + t.due.length ≤ s.output.length + s.due.length := by
  cases hm with
  | keep hout hback hdue =>
    refine ⟨Bool.eq_false_iff.2 fun h => Bool.false_ne_true (hpc.symm.trans (hback h)), ?_⟩
    rw [hout, hdue, hpc, if_neg Bool.false_ne_true, List.append_nil]
  | write res hout hback hdue =>
    refine ⟨Bool.eq_false_iff.2 fun h => Bool.false_ne_true (hpc.symm.trans (hback h)), ?_⟩
    have hlen : (cString res).length ≤ res.length := (List.takeWhile_prefix _).length_le
    rw [hout, hdue, List.length_append, List.length_append]
    omega

theorem run_starved {acts : List Step} (h : Starved s) (ht : run step s acts = .ok t) : Starved t :=
  run_safe (fun _ _ _ hs (_ : True) ht => step_starved hs ht) acts s t h
    (Allowed.of_forall (fun _ _ => trivial) acts s) ht

theorem Starved.not_finished (h : Starved s) : s.pc ≠ .finished := by
  intro hpc
  have := h.pc
  rw [hpc] at this
  cases this

/-- `fputs` never writes a zero byte. -/
theorem step_output_noZero (hs : Sound s) (h : 0 ∉ s.output) (ht : step s act = .ok t) :
    0 ∉ t.output := by
  by_cases hact : act = .switchLog
  · subst hact
    rw [(pending_of_switchLog hs ht).1]
    exact h
  · obtain ⟨u, hu, hm⟩ := step_move hs act
    cases hu.symm.trans ht
    rcases hm.pending hs hact with ⟨hout, -⟩ | ⟨res, -, hout, -⟩
    · rw [hout]
      exact h
    · rw [hout, List.mem_append, not_or]
      exact ⟨h, zero_not_mem_cString res⟩

/-- Along a run without `init` the lines are put at the end, unless the back end gets starved. -/
theorem run_lines {acts : List Step} : ∀ {s : Log}, Sound s → 0 ∉ s.pending → .switchLog ∉ acts →
    0 ∉ acts.flatMap Step.line → run step s acts = .ok t →
    Starved t ∨ Sound t ∧ t.logged = s.logged ++ acts.flatMap Step.line := by
  induction acts with
  | nil =>
    intro s hs _ _ _ ht
    cases ht
    exact .inr ⟨hs, by simp⟩
  | cons act acts ih =>
    intro s hs hzero hacts hlines ht
    rw [List.flatMap_cons, List.mem_append, not_or] at hlines
    rw [List.mem_cons, not_or] at hacts
    rw [run_cons, bind_eq_ok] at ht
    obtain ⟨u, hu, ht⟩ := ht
    obtain ⟨u', hu', hm⟩ := step_move hs act
    cases hu'.symm.trans hu
    obtain ⟨hzero', hlogged⟩ := hm.logged hs hzero hlines.1 (Ne.symm hacts.1)
    rcases step_sound_or_starved hs hu with hstarved | hs'
    · exact .inl (run_starved hstarved ht)
    · rcases ih hs' hzero' hacts.2 hlines.2 ht with hstarved | ⟨ht', hlogged'⟩
      · exact .inl hstarved
      · refine .inr ⟨ht', ?_⟩
        rw [hlogged', hlogged, List.flatMap_cons, List.append_assoc]

/-- After the first `init` there is nothing in the log. -/
theorem run_init {before : List Step} (hbefore : .switchLog ∉ before)
    (ht : run step make (before ++ [.switchLog]) = .ok t) :
    Starved t ∨ Sound t ∧ t.output = [] ∧ t.pending = [] := by
  rw [run_append, bind_eq_ok] at ht
  obtain ⟨s, hs, ht⟩ := ht
  have hstep : ∀ s act t, Sound s → Unstarted s → act ≠ .switchLog → step s act = .ok t →
      Unstarted t := fun s act t hs h hact ht => step_unstarted hs h hact ht
  rcases run_kept hstep before make_sound ⟨rfl, rfl, rfl, rfl, rfl⟩
    (fun act hact heq => hbefore (heq ▸ hact)) hs with hstarved | ⟨hsound, hun⟩
  · exact .inl (run_starved hstarved ht)
  · rw [run_cons, bind_eq_ok] at ht
    obtain ⟨u, hu, ht⟩ := ht
    cases ht
    rcases step_sound_or_starved hsound hu with hstarved | hsound'
    · exact .inl hstarved
    · obtain ⟨hout, hpending⟩ := pending_of_switchLog hsound hu
      refine .inr ⟨hsound', hout.trans hun.output, ?_⟩
      rw [hpending, hun.bufferWrite, List.drop_nil, contents_nil]

/-- What `stop` needs to find so that nothing of the front end is lost. -/
def Flushable (s : Log) : Prop := s.pc = .locking ∨ s.pc = .waiting ∨ s.queued = []

theorem flushable_iff : Flushable s ↔ beforeTake s.pc = true ∨ s.queued = [] := by
  unfold Flushable
  cases s.pc <;> simp [beforeTake]

/-- The state right after `stop`. -/
theorem due_stop (s : Log) : { s with running := false }.due = s.due := rfl

section Stopped

variable {s₁ : Log} {rest : List Step} {lines : Bytes}

/-- From a flushable state everything that is pending at the `stop` is written in the end. -/
theorem written_of_flushable (hs₁ : Sound s₁) (hzero : 0 ∉ lines) (hlogged : s₁.logged = lines)
    (hflush : Flushable s₁) (hrest : ∀ act ∈ rest, act ≠ .switchLog ∧ act ≠ .start)
    (ht : run step s₁ (.stop :: rest) = .ok t) (hfin : t.pc = .finished) : lines <+: t.output := by
  have hstep : ∀ s act t, Sound s → s.running = false ∧ Secured lines s →
      act ≠ .switchLog ∧ act ≠ .start → step s act = .ok t →
      t.running = false ∧ Secured lines t := by
    rintro s act t hs ⟨hrunning, hsec⟩ hact ht
    obtain ⟨hrunning', hm⟩ := step_due hs hrunning hact ht
    exact ⟨hrunning', hm.secured hsec⟩
  have hdue : s₁.due = s₁.pending := by
    rcases flushable_iff.1 hflush with hpc | hnil
    · exact due_of_beforeTake hpc
    · rw [due, pending_eq, hnil, ite_self]
  have hsec : Secured lines { s₁ with running := false } := by
    unfold Secured
    rw [due_stop, hdue, cString_of_noZero]
    · exact hlogged ▸ List.prefix_rfl
    · intro hmem
      exact hzero (hlogged ▸ List.mem_append_right _ hmem)
  have hsound : Sound { s₁ with running := false } :=
    (Move.control false _ _ rfl id rfl : Move s₁ .stop _).sound hs₁ nofun
  rcases run_kept hstep rest hsound ⟨rfl, hsec⟩ hrest ht with hstarved | ⟨hsound', -, hsec'⟩
  · exact absurd hfin hstarved.not_finished
  · unfold Secured at hsec'
    have hpc : beforeTake t.pc = false := by rw [hfin]; rfl
    rw [due_of_not_beforeTake hpc, unwritten_eq_nil hsound' (by rw [hfin]; rfl)] at hsec'
    simpa [cString] using hsec'

/-- Past the critical section, no more is written than the batch of the back end. -/
theorem output_le_of_not_beforeTake (hs₁ : Sound s₁) (hpc : beforeTake s₁.pc = false)
    (hrest : ∀ act ∈ rest, act ≠ .switchLog ∧ act ≠ .start)
    (ht : run step s₁ (.stop :: rest) = .ok t) (hfin : t.pc = .finished) :
    t.output.length ≤ s₁.output.length + s₁.unwritten.length := by
  have hstep : ∀ s act t, Sound s → (s.running = false ∧ beforeTake s.pc = false ∧
        s.output.length + s.due.length ≤ s₁.output.length + s₁.unwritten.length) →
      act ≠ .switchLog ∧ act ≠ .start → step s act = .ok t →
      (t.running = false ∧ beforeTake t.pc = false ∧
        t.output.length + t.due.length ≤ s₁.output.length + s₁.unwritten.length) := by
    rintro s act t hs ⟨hrunning, hpc, hle⟩ hact ht
    obtain ⟨hrunning', hm⟩ := step_due hs hrunning hact ht
    obtain ⟨hpc', hle'⟩ := hm.length_le hpc
    exact ⟨hrunning', hpc', hle'.trans hle⟩
  have hsound : Sound { s₁ with running := false } :=
    (Move.control false _ _ rfl id rfl : Move s₁ .stop _).sound hs₁ nofun
  have hstart : s₁.output.length + { s₁ with running := false }.due.length ≤
      s₁.output.length + s₁.unwritten.length := by
    rw [due_stop, due_of_not_beforeTake hpc]
  rcases run_kept hstep rest hsound ⟨rfl, hpc, hstart⟩ hrest ht with hstarved | ⟨-, -, -, hle⟩
  · exact absurd hfin hstarved.not_finished
  · omega

end Stopped

/-- **When `stop` flushes.**  Take any run of all threads from the start of the program with one
`init` (`switchLog`, and `start` somewhere after it) and a `stop` after it, at whose end `thread_func`
has returned.  What has been passed to `fputs` begins with all lines whose `append` came between
`init` and `stop` if and only if none of these lines has a zero byte and `stop` found the back end
in front of its critical section or found `buffer_` and `curr_buffer_` empty. -/
theorem stop_flushes_iff (before acts rest : List Step) (s₁ s : Log)
    (hbefore : .switchLog ∉ before) (hacts : .switchLog ∉ acts)
    (hrest : ∀ act ∈ rest, act ≠ .switchLog ∧ act ≠ .start)
    (hs₁ : run step make (before ++ .switchLog :: acts) = .ok s₁)
    (hs : run step s₁ (.stop :: rest) = .ok s) (hfin : s.pc = .finished) :
    acts.flatMap Step.line <+: s.output ↔ 0 ∉ acts.flatMap Step.line ∧ Flushable s₁ := by
  rw [List.append_cons, run_append, bind_eq_ok] at hs₁
  obtain ⟨s₀, hs₀, hs₁⟩ := hs₁
  have hlive : ∀ {u : Log} {acts' : List Step}, run step u acts' = .ok s → ¬Starved u :=
    fun hrun hstarved => (run_starved hstarved hrun).not_finished hfin
  have hlive₀ : run step s₀ (acts ++ .stop :: rest) = .ok s := by rw [run_append, hs₁, ok_bind, hs]
  obtain ⟨hsound₀, hout₀, hpending₀⟩ := (run_init hbefore hs₀).resolve_left (hlive hlive₀)
  have hzero : 0 ∉ s.output := by
    have hkept := run_kept (fun s act t hs h (_ : True) ht => step_output_noZero hs h ht)
      (acts ++ .stop :: rest) hsound₀ (by rw [hout₀]; exact List.not_mem_nil) (fun _ _ => trivial)
      hlive₀
    exact (hkept.resolve_left (hlive (run_nil s))).2
  by_cases hlines : 0 ∈ acts.flatMap Step.line
  · exact ⟨fun hpre => absurd (hpre.subset hlines) hzero, fun h => absurd hlines h.1⟩
  · obtain ⟨hsound₁, hlogged₁⟩ := (run_lines hsound₀ (by rw [hpending₀]; exact List.not_mem_nil)
      hacts hlines hs₁).resolve_left (hlive hs)
    have hlogged₀ : s₀.logged = [] := by rw [logged, hout₀, hpending₀, List.append_nil]
    rw [hlogged₀, List.nil_append] at hlogged₁
    constructor
    · intro hpre
      refine ⟨hlines, flushable_iff.2 ?_⟩
      by_contra hbad
      rw [not_or, Bool.not_eq_true] at hbad
      have hle := output_le_of_not_beforeTake hsound₁ hbad.1 hrest hs hfin
      have hlen := congrArg List.length hlogged₁
      have hpos := List.length_pos_iff.2 hbad.2
      rw [logged, pending_eq, List.length_append, List.length_append] at hlen
      have := hpre.length_le
      omega
    · rintro ⟨-, hflush⟩
      exact written_of_flushable hsound₁ hlines hlogged₁ hflush hrest hs hfin

/-- A line while the back end waits, and then `stop`. -/
theorem stop_flushes_waiting :
    ∃ s₁ s, run step make ([] ++ .switchLog :: [.start, .back .spin, .back .assertRunning,
        .back .test, .back .lock, .append [72, 105, 10]]) = .ok s₁ ∧
      run step s₁ (.stop :: [.back .wake, .back .assertBatch, .back .writeBuffer, .back .recycle,
        .back .test]) = .ok s ∧
      s.pc = .finished ∧ [72, 105, 10] <+: s.output := by
  obtain ⟨s₁, hs₁, hpc₁⟩ := map_eq_ok.1 (show (run step make ([] ++ .switchLog :: [.start,
    .back .spin, .back .assertRunning, .back .test, .back .lock, .append [72, 105, 10]])).map pc =
      .ok .waiting by decide +kernel)
  obtain ⟨s, hs, hpc⟩ := map_eq_ok.1 (show (run step make (([] ++ .switchLog :: [.start, .back .spin,
    .back .assertRunning, .back .test, .back .lock, .append [72, 105, 10]]) ++ .stop :: [.back .wake,
      .back .assertBatch, .back .writeBuffer, .back .recycle, .back .test])).map pc =
      .ok .finished by decide +kernel)
  rw [run_append, hs₁, ok_bind] at hs
  exact ⟨s₁, s, hs₁, hs, hpc, (stop_flushes_iff _ _ _ s₁ s (by decide) (by decide) (by decide) hs₁ hs
    hpc).2 ⟨by decide, .inr (.inl hpc₁)⟩⟩

/-- A line while the back end writes a batch, and then `stop`: the second line stays in
`curr_buffer_`. -/
theorem stop_loses_line :
    ∃ s₁ s, run step make ([] ++ .switchLog :: [.start, .back .spin, .back .assertRunning,
        .back .test, .back .lock, .append [72, 105, 10], .back .wake, .back .assertBatch,
        .append [79, 107, 10]]) = .ok s₁ ∧
      run step s₁ (.stop :: [.back .writeBuffer, .back .recycle, .back .test]) = .ok s ∧
      s.pc = .finished ∧ s.output = [72, 105, 10] ∧
      ¬[72, 105, 10, 79, 107, 10] <+: s.output := by
  obtain ⟨s₁, hs₁, -⟩ := map_eq_ok.1 (show (run step make ([] ++ .switchLog :: [.start, .back .spin,
    .back .assertRunning, .back .test, .back .lock, .append [72, 105, 10], .back .wake,
    .back .assertBatch, .append [79, 107, 10]])).map pc = .ok .writing by decide +kernel)
  obtain ⟨s, hs, hview⟩ := map_eq_ok.1 (show (run step make (([] ++ .switchLog :: [.start,
    .back .spin, .back .assertRunning, .back .test, .back .lock, .append [72, 105, 10], .back .wake,
    .back .assertBatch, .append [79, 107, 10]]) ++ .stop :: [.back .writeBuffer, .back .recycle,
    .back .test])).map (fun s => (s.pc, s.output)) = .ok (.finished, [72, 105, 10]) by
      decide +kernel)
  rw [run_append, hs₁, ok_bind] at hs
  obtain ⟨hpc, hout⟩ := Prod.mk.inj hview
  refine ⟨s₁, s, hs₁, hs, hpc, hout, ?_⟩
  rw [hout]
  decide

end Log
