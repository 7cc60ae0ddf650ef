import TinyHttpServer.Base.LogOrder
import TinyHttpServer.Http.HttpFraming

/-!
# The lines of the log (`src/base/log.h`)

The macro `LOG` prints a record into a buffer of 1024 bytes, and `write` puts the stamps in front of
it.

* `lines_read_back` — the log is one line for each call of `LOG`, in the order of the calls, if the
  records have no line break of their own and fit into the buffer.
* `buffers_bounded` — the buffers of the log never hold 4000 bytes, whatever is logged.
-/

set_option autoImplicit false

open Checked Machine

/-- The levels. -/
inductive LogLevel where
  | debug
  | info
  | warn
  | error
  deriving DecidableEq, Repr

/-- A broken-down time of day, before the year 10000. -/
structure Tm where
  year : Nat
  mon : Nat
  mday : Nat
  hour : Nat
  min : Nat
  sec : Nat
  year_lt : year < 10000
  mon_lt : mon < 100
  mday_lt : mday < 100
  hour_lt : hour < 100
  min_lt : min < 100
  sec_lt : sec < 100

/-- A use of `LOG`: the level, the place in the source, the text that the format and its arguments give,
what `write` finds in `date_stamp_` and `time_stamp_`, and the times at which it asks for the two
stamps. -/
structure LogCall where
  dateStamp : Bool
  timeStamp : Bool
  level : LogLevel
  file : Bytes
  function : Bytes
  line : Nat
  message : Bytes
  dateNow : Tm
  timeNow : Tm

namespace LogLine

/-- `LEVEL`. -/
def LEVEL : LogLevel → Bytes
  | .debug => str "debug"
  | .info => str "info"
  | .warn => str "warn"
  | .error => str "error"

/-- What `snprintf` leaves of a text in a buffer of the given size. -/
def snprintf (size : Nat) (text : Bytes) : Bytes := text.take (size - 1)

/-- Two digits. -/
def twoDigits (n : Nat) : Bytes := List.leftpad 2 48 (toStr n)

/-- `datestamp`: `"%Y.%m.%d"`. -/
def datestamp (t : Tm) : Bytes :=
  toStr t.year ++ str "." ++ twoDigits t.mon ++ str "." ++ twoDigits t.mday

/-- `timerstamp`: `"%H:%M:%S"`. -/
def timerstamp (t : Tm) : Bytes :=
  twoDigits t.hour ++ str ":" ++ twoDigits t.min ++ str ":" ++ twoDigits t.sec

/-- `res_`. -/
def location (c : LogCall) : Bytes :=
  snprintf 250 (str "[" ++ c.file ++ str ":" ++ c.function ++ str ":" ++ toStr c.line ++ str "]")

/-- What `LOG` prints, without the line break: `"%100s[%5s]"` and the message. -/
def text (c : LogCall) : Bytes :=
  List.leftpad 100 32 (location c) ++ str "[" ++ List.leftpad 5 32 (LEVEL c.level) ++ str "]" ++ c.message

/-- `std::string(buf_)`. -/
def buf (c : LogCall) : Bytes := Log.cString (snprintf 1024 (text c ++ [LF]))

/-- The stamps that `write` puts in front. -/
def stamps (c : LogCall) : Bytes :=
  (if c.dateStamp then str "[" ++ datestamp c.dateNow ++ str "] " else []) ++
    if c.timeStamp then str "[" ++ timerstamp c.timeNow ++ str "] " else []

/-- The line that `write` passes to `append`. -/
def logline (c : LogCall) : Bytes := stamps c ++ buf c

/-- The line without its line break. -/
def record (c : LogCall) : Bytes := stamps c ++ text c

/-- The record has neither a line break nor a zero byte, and fits into the buffer. -/
structure Fits (c : LogCall) : Prop where
  clean : ∀ b ∈ text c, b ≠ LF ∧ b ≠ 0
  short : (text c).length < 1023

variable {c : LogCall}

/-! ## Stamps -/

theorem length_toStr_le {n k : Nat} (hk : 0 < k) (h : n < 10 ^ k) : (toStr n).length ≤ k := by
  unfold toStr
  rw [List.length_map]
  exact (Nat.length_toDigits_le_iff (by decide) hk).2 h

theorem length_twoDigits {n : Nat} (h : n < 100) : (twoDigits n).length = 2 := by
  have hle := length_toStr_le (k := 2) (by decide) h
  simp only [twoDigits, List.leftpad, List.length_append, List.length_replicate]
  omega

theorem twoDigits_printable (n : Nat) : Printable (twoDigits n) := by
  intro b hb
  obtain hb | hb := List.mem_append.1 hb
  · rw [List.eq_of_mem_replicate hb]
    decide
  · exact toStr_printable n b hb

theorem stamps_printable (c : LogCall) : Printable (stamps c) := by
  have hdate : Printable (str "[" ++ datestamp c.dateNow ++ str "] ") := by
    refine .append (.append (by decide) ?_) (by decide)
    exact (((toStr_printable _).append (by decide)).append (twoDigits_printable _)).append
      (by decide) |>.append (twoDigits_printable _)
  have htime : Printable (str "[" ++ timerstamp c.timeNow ++ str "] ") := by
    refine .append (.append (by decide) ?_) (by decide)
    exact (((twoDigits_printable _).append (by decide)).append (twoDigits_printable _)).append
      (by decide) |>.append (twoDigits_printable _)
  have hnil : Printable [] := by decide
  unfold stamps
  split
  · split
    · exact hdate.append htime
    · exact hdate.append hnil
  · split
    · exact hnil.append htime
    · exact hnil.append hnil

theorem length_stamps_le (c : LogCall) : (stamps c).length ≤ 24 := by
  have hyear := length_toStr_le (k := 4) (by decide) c.dateNow.year_lt
  have hdate : (str "[" ++ datestamp c.dateNow ++ str "] ").length ≤ 13 := by
    simp only [datestamp, List.length_append, length_twoDigits c.dateNow.mon_lt,
      length_twoDigits c.dateNow.mday_lt, show (str "[").length = 1 from rfl,
      show (str "] ").length = 2 from rfl, show (str ".").length = 1 from rfl]
    omega
  have htime : (str "[" ++ timerstamp c.timeNow ++ str "] ").length ≤ 11 := by
    simp only [timerstamp, List.length_append, length_twoDigits c.timeNow.hour_lt,
      length_twoDigits c.timeNow.min_lt, length_twoDigits c.timeNow.sec_lt,
      show (str "[").length = 1 from rfl, show (str "] ").length = 2 from rfl,
      show (str ":").length = 1 from rfl]
    omega
  unfold stamps
  rw [List.length_append]
  have hnil : ([] : Bytes).length = 0 := rfl
  split <;> split <;> omega

/-! ## Lines -/

/-- No line has a zero byte. -/
theorem zero_not_mem_logline (c : LogCall) : 0 ∉ logline c := by
  intro hmem
  obtain hmem | hmem := List.mem_append.1 hmem
  · exact absurd (stamps_printable c 0 hmem) (by decide)
  · have hne := List.mem_takeWhile_imp hmem
    simp at hne

/-- No line fills a buffer. -/
theorem length_logline_lt (c : LogCall) : (logline c).length < Log.size := by
  have hstamps := length_stamps_le c
  have hbuf : (buf c).length ≤ 1023 := by
    refine (List.takeWhile_prefix _).length_le.trans ?_
    rw [snprintf, List.length_take]
    omega
  rw [logline, List.length_append, Log.size]
  omega

/-- **A record that fits is one line.** -/
theorem logline_of_fits (h : Fits c) : logline c = record c ++ [LF] ∧ LF ∉ record c := by
  have hlen : (text c ++ [LF]).length ≤ 1024 - 1 := by
    have := h.short
    rw [List.length_append, List.length_singleton]
    omega
  have hzero : 0 ∉ text c ++ [LF] := by
    intro hmem
    obtain hmem | hmem := List.mem_append.1 hmem
    · exact (h.clean 0 hmem).2 rfl
    · cases List.mem_singleton.1 hmem
  constructor
  · rw [logline, record, buf, snprintf, List.take_of_length_le hlen, Log.cString_of_noZero hzero,
      List.append_assoc]
  · intro hmem
    obtain hmem | hmem := List.mem_append.1 hmem
    · exact (stamps_printable c).lf_not_mem hmem
    · exact (h.clean LF hmem).1 rfl

end LogLine

namespace Log

open LogLine

variable {s t : Log} {act : Step}

theorem contents_some (b : Buffer) : contents [some b] = b.readable := List.append_nil _

/-- Every buffer that may hold something holds bytes with the property. -/
def Each (P : Bytes → Prop) (s : Log) : Prop :=
  ∀ b ∈ s.bufferWrite ++ s.buffer ++ [s.currBuffer], P (contents [b])

/-- Apart from the lines that `append` puts behind others, the buffers hold one line or nothing. -/
theorem Move.each {P : Bytes → Prop} (hnil : P []) (h : Sound s) (hP : Each P s)
    (hm : Move s act t) (hact : ∀ logline, act ≠ .append logline) : Each P t := by
  have hempty : ∀ b : Buffer, b.readable = [] → P (contents [some b]) := by
    intro b hb
    rw [contents_some, hb]
    exact hnil
  simp only [Each, List.forall_mem_append, List.forall_mem_singleton] at hP ⊢
  obtain ⟨⟨hbatch, hqueued⟩, hcurr⟩ := hP
  cases hm with
  | control => exact ⟨⟨hbatch, hqueued⟩, hcurr⟩
  | append => exact absurd rfl (hact _)
  | refresh hw hr =>
    refine ⟨⟨hbatch, ?_⟩, hempty _ ?_⟩
    · simp only [List.forall_mem_append, List.forall_mem_singleton]
      exact ⟨hqueued, hcurr⟩
    · cases act with
      | append logline => exact absurd rfl (hact logline)
      | _ => exact hr
  | switchLog => exact ⟨⟨hbatch, nofun⟩, hempty _ (Buffer.retrieveAll_readable _)⟩
  | allocate => exact ⟨⟨hbatch, hqueued⟩, hcurr⟩
  | take htakes =>
    rw [takeBatch_bufferWrite, takeBatch_buffer, takeBatch_currBuffer,
      h.noBatch (hasBatch_of_hasSpares htakes.hasSpares), h.new1.contents]
    simp only [List.forall_mem_append, List.forall_mem_singleton]
    exact ⟨⟨⟨hqueued, hcurr⟩, nofun⟩, hnil⟩
  | writeBuffer hpc hb hw hr =>
    refine ⟨⟨fun x hx => ?_, hqueued⟩, hcurr⟩
    obtain hx | rfl := List.mem_or_eq_of_mem_set hx
    · exact hbatch x hx
    · exact hempty _ hr
  | recycle => exact ⟨⟨nofun, hqueued⟩, hcurr⟩

/-- `append` puts the line behind others where there is room, and else into an empty buffer. -/
theorem append_each {P : Bytes → Prop} {logline : Bytes} (h : Sound s) (hP : Each P s)
    (hroom : ∀ bytes, P bytes → bytes.length + logline.length < size → P (bytes ++ logline))
    (hline : P logline) (ht : s.append logline = .ok t) : Each P t := by
  simp only [Each, List.forall_mem_append, List.forall_mem_singleton] at hP ⊢
  obtain ⟨⟨hbatch, hqueued⟩, hcurr⟩ := hP
  obtain ⟨curr, heq, hw⟩ := h.curr
  rw [heq, contents_some] at hcurr
  simp only [append, heq, deref, ok_bind] at ht
  split at ht
  · rename_i hlt
    obtain ⟨curr', happend, -, hr⟩ := Buffer.append_spec hw logline
    rw [happend] at ht
    cases ht
    refine ⟨⟨hbatch, hqueued⟩, ?_⟩
    rw [contents_some, hr]
    rw [← Buffer.length_readable hw] at hlt
    exact hroom _ hcurr hlt
  · obtain ⟨curr', hrefresh, -, hr⟩ := refresh_spec h logline
    cases hrefresh.symm.trans ht
    simp only [List.forall_mem_append, List.forall_mem_singleton, heq, contents_some, hr]
    exact ⟨⟨hbatch, hqueued, hcurr⟩, hline⟩

/-- **One step.**  What holds of no bytes and of the line, and is kept where `append` finds room, is
kept of every buffer. -/
theorem step_each {P : Bytes → Prop} (hnil : P []) (h : Sound s) (hP : Each P s)
    (hroom : ∀ bytes, P bytes → bytes.length + act.line.length < size → P (bytes ++ act.line))
    (hline : P act.line) (ht : step s act = .ok t) : Each P t := by
  cases act with
  | append logline => exact append_each h hP hroom hline ht
  | _ =>
    obtain ⟨t', ht', hm⟩ := step_move h _
    cases ht'.symm.trans ht
    exact hm.each hnil h hP nofun

/-! ## Whole lines -/

/-- A step passes to `fputs` nothing or what one buffer of the batch holds. -/
theorem Move.output (hm : Move s act t) :
    t.output = s.output ∨ ∃ b ∈ s.bufferWrite, t.output = s.output ++ cString (contents [b]) := by
  cases hm with
  | take => exact .inl (takeBatch_output s)
  | writeBuffer hpc hb hw hr =>
    refine .inr ⟨_, List.mem_of_getElem? hb, ?_⟩
    rw [contents_some]
  | _ => exact .inl rfl

/-- Neither the buffers nor the file hold a part of a line, and no zero byte cuts one off. -/
structure Unbroken (s : Log) : Prop where
  buffers : Each (fun bytes => Lines.Whole LF bytes ∧ 0 ∉ bytes) s
  output : Lines.Whole LF s.output

theorem step_unbroken (h : Sound s) (hs : Unbroken s) (hline : Lines.Whole LF act.line)
    (hzero : 0 ∉ act.line) (ht : step s act = .ok t) : Unbroken t where
  buffers := by
    refine step_each ⟨Lines.whole_nil LF, List.not_mem_nil⟩ h hs.buffers ?_ ⟨hline, hzero⟩ ht
    intro bytes hbytes _
    refine ⟨hbytes.1.append hline, ?_⟩
    rw [List.mem_append, not_or]
    exact ⟨hbytes.2, hzero⟩
  output := by
    obtain ⟨t', ht', hm⟩ := step_move h act
    cases ht'.symm.trans ht
    obtain hout | ⟨b, hb, hout⟩ := hm.output
    · rw [hout]
      exact hs.output
    · obtain ⟨hwhole, hnot⟩ := hs.buffers b (List.mem_append_left _ (List.mem_append_left _ hb))
      rw [hout, cString_of_noZero hnot]
      exact hs.output.append hwhole

/-- What the step appends. -/
def appended : Step → Option Bytes
  | .append logline => some logline
  | _ => none

theorem flatMap_line (acts : List Step) :
    acts.flatMap Step.line = (acts.filterMap appended).flatten := by
  induction acts with
  | nil => rfl
  | cons act acts ih =>
    rw [List.flatMap_cons, ih]
    cases act <;> rfl

/-- Every line of the steps is the line of a use of `LOG`. -/
def Written (acts : List Step) : Prop :=
  ∀ line ∈ acts.filterMap appended, ∃ c, logline c = line

theorem Written.line {acts : List Step} (h : Written acts) (hact : act ∈ acts) :
    act.line = [] ∨ ∃ c, logline c = act.line := by
  cases act with
  | append line => exact .inr (h line (List.mem_filterMap.2 ⟨_, hact, rfl⟩))
  | _ => exact .inl rfl

theorem Written.admissible {acts : List Step} (h : Written acts) (hacts : .switchLog ∉ acts)
    (s : Log) : Allowed step Admissible s acts := by
  refine allowed_iff.2 fun p act hp u _ => ?_
  have hact : act ∈ acts := hp.subset (List.mem_append_right p List.mem_cons_self)
  cases act with
  | append line =>
    obtain ⟨c, rfl⟩ := h line (List.mem_filterMap.2 ⟨_, hact, rfl⟩)
    exact zero_not_mem_logline c
  | switchLog => exact absurd hact hacts
  | _ => trivial

/-- After the first `init` nothing has been written, and the buffers are empty. -/
theorem unbroken_of_switchLog (hs : Sound s) (h : Unstarted s) (ht : step s .switchLog = .ok t) :
    Unbroken t := by
  obtain ⟨curr, hcurr, -⟩ := hs.curr
  rw [step_switchLog hcurr] at ht
  cases ht
  refine ⟨?_, ?_⟩
  · intro b hb
    rw [h.bufferWrite] at hb
    obtain rfl := List.mem_singleton.1 hb
    rw [contents_some, Buffer.retrieveAll_readable]
    exact ⟨Lines.whole_nil LF, List.not_mem_nil⟩
  · change Lines.Whole LF s.output
    rw [h.output]
    exact Lines.whole_nil LF

theorem run_first_init {before : List Step} (hwritten : Written before)
    (hbefore : .switchLog ∉ before)
    (hinit : ∀ t, run step make before = .ok t → t.nextBuffer ≠ none) :
    ∃ s, run step make (before ++ [.switchLog]) = .ok s ∧ Ordered s ∧ Unbroken s ∧ s.logged = [] := by
  have hstep : ∀ s act, Ordered s → Admissible s act → ∃ t, step s act = .ok t ∧ Ordered t := by
    intro s act hord hadm
    obtain ⟨t, ht, hord', -⟩ := step_ordered hord hadm
    exact ⟨t, ht, hord'⟩
  have hadm := hwritten.admissible hbefore make
  obtain ⟨u, hu, hord⟩ := run_invariant hstep before make make_ordered hadm
  have hun := run_unstarted hadm hbefore hu
  obtain ⟨s, hs, hord'⟩ := hstep u .switchLog hord (hinit u hu)
  refine ⟨s, (run_snoc hu _).trans hs, hord', unbroken_of_switchLog hord.sound hun hs, ?_⟩
  obtain ⟨hout, hpending⟩ := pending_of_switchLog hord.sound hs
  rw [logged, hout, hpending, hun.output, hun.bufferWrite, List.drop_nil]
  rfl

/-- Along a run without `init` that appends whole lines, no line is broken off. -/
theorem run_unbroken {acts : List Step} (hord : Ordered s) (hs : Unbroken s)
    (hadm : Allowed step Admissible s acts) (hwhole : ∀ act ∈ acts, Lines.Whole LF act.line)
    (ht : run step s acts = .ok t) : Unbroken t := by
  have hstep : ∀ s act t, Ordered s ∧ Unbroken s → Admissible s act ∧ Lines.Whole LF act.line →
      step s act = .ok t → Ordered t ∧ Unbroken t := by
    rintro s act t ⟨hord, hs⟩ ⟨hadm, hline⟩ ht
    obtain ⟨t', ht', hord', -⟩ := step_ordered hord hadm
    cases ht'.symm.trans ht
    exact ⟨hord', step_unbroken hord.sound hs hline hadm.line ht⟩
  exact (run_safe hstep acts s t ⟨hord, hs⟩ (hadm.and_of_forall hwhole) ht).2

/-- **The log is one line for each use of `LOG`.**  Take any run from the start of the program with one
`init` in it, which finds `next_buffer_` in its place, and let the records after it have no line
break of their own and fit into the buffer of `LOG`.  At any moment no access or assertion has
failed, the file as far as it has been passed to `fputs` is the records of the first calls, each on a
line of its own, with no line broken off, and the file and the buffers together are the records of all
calls, in the order of the calls. -/
theorem lines_read_back (before after : List Step) (calls : List LogCall)
    (hwritten : Written before) (hbefore : .switchLog ∉ before) (hafter : .switchLog ∉ after)
    (hinit : ∀ t, run step make before = .ok t → t.nextBuffer ≠ none)
    (hcalls : after.filterMap appended = calls.map logline) (hfits : ∀ c ∈ calls, Fits c) :
    ∃ s n, run step make (before ++ .switchLog :: after) = .ok s ∧
      s.output.splitOn LF = (calls.take n).map record ++ [[]] ∧
      s.logged.splitOn LF = calls.map record ++ [[]] := by
  have hline : ∀ line ∈ after.filterMap appended, ∃ c ∈ calls, logline c = line := by
    rw [hcalls]
    exact fun line => List.mem_map.1
  have hwritten' : Written after := by
    intro line hmem
    obtain ⟨c, -, hc⟩ := hline line hmem
    exact ⟨c, hc⟩
  have hwhole : ∀ act ∈ after, Lines.Whole LF act.line := by
    intro act hact
    cases act with
    | append line =>
      obtain ⟨c, hc, rfl⟩ := hline line (List.mem_filterMap.2 ⟨_, hact, rfl⟩)
      exact .inr ⟨record c, (logline_of_fits (hfits c hc)).1⟩
    | _ => exact Lines.whole_nil LF
  obtain ⟨s₀, hs₀, hord₀, hun₀, hnil⟩ := run_first_init hwritten hbefore hinit
  have hadm := hwritten'.admissible hafter s₀
  obtain ⟨s, hs, -, hlogged⟩ := run_logged hord₀ hadm hafter
  have hun := run_unbroken hord₀ hun₀ hadm hwhole hs
  -- everything logged is the records, and the file a prefix of that
  have hlines : s.logged = Lines.terminate LF (calls.map record) := by
    rw [hlogged, hnil, flatMap_line, hcalls, Lines.terminate, List.flatMap_map, ← List.flatMap_def]
    exact List.flatMap_congr fun c hc => (logline_of_fits (hfits c hc)).1
  have hrecords : ∀ l ∈ calls.map record, LF ∉ l := by
    intro l hl
    obtain ⟨c, hc, rfl⟩ := List.mem_map.1 hl
    exact (logline_of_fits (hfits c hc)).2
  obtain ⟨n, hn⟩ := hun.output.eq_terminate hrecords (hlines ▸ List.prefix_append _ _)
  refine ⟨s, n, ?_, ?_, ?_⟩
  · rw [List.append_cons, run_append, hs₀, ok_bind, hs]
  · rw [hn, Lines.splitOn_terminate fun l hl => hrecords l (List.mem_of_mem_take hl), List.map_take]
  · rw [hlines]
    exact Lines.splitOn_terminate hrecords

/-- A line of the sample. -/
def sampleCall (message : Bytes) : LogCall :=
  { dateStamp := true, timeStamp := false, level := .info, file := str "tcpserver.cc",
    function := str "loop", line := 41, message,
    dateNow := ⟨2021, 6, 1, 8, 30, 0, by decide, by decide, by decide, by decide, by decide, by decide⟩,
    timeNow := ⟨2021, 6, 1, 8, 30, 0, by decide, by decide, by decide, by decide, by decide, by decide⟩ }

/-- A line before `init`; two lines after it, the first of which the back end writes. -/
def sampleBefore : List Step := [.append (logline (sampleCall (str "early")))]

def sampleAfter : List Step :=
  [.start, .back .spin, .back .assertRunning, .back .test, .append (logline (sampleCall (str "one"))),
    .loading, .back .lock, .back .assertBatch, .back .writeBuffer,
    .append (logline (sampleCall (str "two")))]

theorem lines_read_back_sample : ∃ (s : Log) (n : Nat),
    run step make (sampleBefore ++ .switchLog :: sampleAfter) = .ok s ∧
      s.output.splitOn LF =
        ([sampleCall (str "one"), sampleCall (str "two")].take n).map record ++ [[]] ∧
      s.logged.splitOn LF = [record (sampleCall (str "one")), record (sampleCall (str "two")), []] := by
  refine lines_read_back sampleBefore sampleAfter [sampleCall (str "one"), sampleCall (str "two")]
    ?_ (by decide +kernel) (by decide +kernel) ?_ rfl ?_
  · intro line hline
    exact ⟨_, (List.mem_singleton.1 hline).symm⟩
  · intro t ht
    have hnext : (run step make sampleBefore).toOption.any (fun s => s.nextBuffer.isSome) = true := by
      decide +kernel
    rw [ht] at hnext
    exact Option.isSome_iff_ne_none.1 hnext
  · intro c hc
    obtain rfl | hc := List.mem_cons.1 hc
    · exact ⟨by decide +kernel, by decide +kernel⟩
    · rw [List.mem_singleton.1 hc]
      exact ⟨by decide +kernel, by decide +kernel⟩

/-! ## Bounded buffers -/

/-- **The buffers are bounded.**  In every run in which the back end is kept fed, and in which every
line comes from a use of `LOG`, with any message whatsoever, every buffer of the log holds less than
`size` bytes. -/
theorem buffers_bounded (acts : List Step) (hfed : Allowed step Fed make acts)
    (hwritten : Written acts) :
    ∃ s, run step make acts = .ok s ∧ ∀ b : Buffer,
      some b ∈ s.bufferWrite ++ s.buffer ++ [s.currBuffer, s.nextBuffer, s.newBuffer1, s.newBuffer2] →
        b.readable.length < size := by
  have hstep : ∀ s act, Sound s ∧ Each (fun bytes => bytes.length < size) s →
      Fed s act ∧ act.line.length < size →
        ∃ t, step s act = .ok t ∧ Sound t ∧ Each (fun bytes => bytes.length < size) t := by
    rintro s act ⟨hs, heach⟩ ⟨hfed, hline⟩
    obtain ⟨t, ht, hm⟩ := step_move hs act
    refine ⟨t, ht, hm.sound hs hfed, step_each (by decide) hs heach ?_ hline ht⟩
    intro bytes _ hlt
    rwa [List.length_append]
  have hline : ∀ act ∈ acts, act.line.length < size := by
    intro act hact
    obtain hnil | ⟨c, hc⟩ := hwritten.line hact
    · rw [hnil]
      decide
    · rw [← hc]
      exact length_logline_lt c
  have hmake : Each (fun bytes => bytes.length < size) make := by
    intro b hb
    rw [List.mem_singleton.1 hb]
    decide +kernel
  obtain ⟨s, hs, hsound, heach⟩ := run_invariant hstep acts make ⟨make_sound, hmake⟩
    (hfed.and_of_forall hline)
  refine ⟨s, hs, fun b hb => ?_⟩
  have hspare : ∀ o, Spare o → some b = o → b.readable.length < size := by
    rintro o ho rfl
    rw [(ho b rfl).2]
    decide
  simp only [List.mem_append, List.mem_cons, List.not_mem_nil, or_false] at hb
  rcases hb with hb | hcurr | hnext | hnew1 | hnew2
  · have := heach _ (List.mem_append_left _ (List.mem_append.2 hb))
    rwa [contents_some] at this
  · have := heach _ (List.mem_append_right _ (List.mem_singleton.2 hcurr))
    rwa [contents_some] at this
  · exact hspare _ hsound.next hnext
  · exact hspare _ hsound.new1 hnew1
  · exact hspare _ hsound.new2 hnew2

theorem buffers_bounded_sample : ∃ s : Log,
    run step make [.append (logline (sampleCall (str "early"))), .switchLog, .start, .back .spin,
      .back .assertRunning, .back .test, .loading, .back .lock] = .ok s ∧ ∀ b : Buffer,
      some b ∈ s.bufferWrite ++ s.buffer ++ [s.currBuffer, s.nextBuffer, s.newBuffer1, s.newBuffer2] →
        b.readable.length < size := by
  refine buffers_bounded _ (by decide +kernel) ?_
  intro line hline
  exact ⟨_, (List.mem_singleton.1 hline).symm⟩

end Log
