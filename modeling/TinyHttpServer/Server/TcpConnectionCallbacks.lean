import TinyHttpServer.Server.TcpConnectionOutput

/-!
# The callbacks for the output of a TCP connection

`write_complete_cb_` and `high_water_mark_cb_` are queued in the loop by `send_in_loop_` and
`handle_write_` and run when the loop gets to them.  The number of pending bytes says which of them are
due: the first when a message or a write event leaves nothing pending, the second when the number comes
from below the mark to the mark or above.

* `step_calls` — the callbacks that one step makes due.
* `callbacks_exact` — over whole runs, the callbacks that have run and those that are queued are the ones
  that were due, once each and in order.
-/

set_option autoImplicit false

open Checked Machine

namespace TcpConnection

/-- `set_high_water_mark_cb`; the boolean says whether the callback is set. -/
def setHighWaterMarkCb (c : TcpConnection) (cb : Bool) (highWaterMark : Nat) : TcpConnection :=
  { c with highWaterMarkCb := cb, highWaterMark }

/-- The callback for the output that a functor calls. -/
def PendingFunc.calls : PendingFunc → List Callback
  | .writeComplete => [.writeComplete]
  | .highWaterMark len => [.highWaterMark len]
  | .forceCloseInLoop => []

/-- The callbacks for the output. -/
def Callback.ofOutput : Callback → Bool
  | .writeComplete | .highWaterMark _ => true
  | .connection | .message | .close => false

/-- The callbacks for the output that have run, and those that are queued. -/
def outputCalls (c : TcpConnection) : List Callback :=
  c.invoked.filter Callback.ofOutput ++ c.pendingFunc.flatMap PendingFunc.calls

/-- The number of bytes that wait for the kernel. -/
def pendingBytes (c : TcpConnection) : Nat := c.outputBuffer.readable.length

/-- A message goes to the kernel, which takes some of it. -/
def handedOver (c : TcpConnection) : Step → Bool
  | .send _ (.wrote _) => c.status = .connected
  | _ => false

/-- The callbacks that are due when the number of pending bytes goes from that of `c` to that of `t`. -/
def due (c : TcpConnection) (handedOver : Bool) (t : TcpConnection) : List Callback :=
  (if t.pendingBytes = 0 ∧ (0 < c.pendingBytes ∨ handedOver) ∧ c.writeCompleteCb then [.writeComplete]
    else []) ++
  (if c.pendingBytes < c.highWaterMark ∧ c.highWaterMark ≤ t.pendingBytes ∧ c.highWaterMarkCb then
    [.highWaterMark t.pendingBytes]
  else [])

/-- The callbacks that a step makes due. -/
def emits (c : TcpConnection) (s : Step) : List Callback :=
  match c.step s with
  | .ok t => c.due (c.handedOver s) t
  | .error _ => []

variable {c c' : TcpConnection}

/-- Where the number of pending bytes stays the same and nothing is handed over, nothing is due. -/
theorem due_of_eq (h : c'.pendingBytes = c.pendingBytes) : c.due false c' = [] := by
  unfold due
  rw [if_neg (by rw [h]; simp; omega), if_neg (by rw [h]; omega)]
  rfl

theorem outputCalls_eq (hinv : c'.invoked = c.invoked) {fs : List PendingFunc}
    (hfs : c'.pendingFunc = c.pendingFunc ++ fs) :
    c'.outputCalls = c.outputCalls ++ fs.flatMap PendingFunc.calls := by
  rw [outputCalls, outputCalls, hinv, hfs, List.flatMap_append, List.append_assoc]

/-! ## Sending -/

theorem noteHighWaterMark_calls (c : TcpConnection) (remaining : Nat) :
    (c.noteHighWaterMark remaining).invoked = c.invoked ∧
      (c.noteHighWaterMark remaining).pendingFunc = c.pendingFunc ++
        if c.highWaterMark ≤ c.outputBuffer.readAbleBytes + remaining ∧
            c.outputBuffer.readAbleBytes < c.highWaterMark ∧ c.highWaterMarkCb then
          [.highWaterMark (c.outputBuffer.readAbleBytes + remaining)]
        else [] := by
  unfold noteHighWaterMark
  simp only
  split
  · exact ⟨rfl, rfl⟩
  · exact ⟨rfl, (List.append_nil _).symm⟩

/-- What `send_in_loop_` keeps for later makes the high-water mark callback due, if it crosses the
mark. -/
theorem sendRest_calls (hout : c.OutputOk) {rest : Bytes} (hne : rest ≠ [])
    (h : c.sendRest rest = .ok c') :
    c'.pendingBytes = c.pendingBytes + rest.length ∧
      c'.outputCalls = c.outputCalls ++ c.due false c' := by
  obtain ⟨hinv, hfs⟩ := noteHighWaterMark_calls c rest.length
  obtain ⟨fs, hnote⟩ := noteHighWaterMark_eq c rest.length
  obtain ⟨b, happ, hw, hr⟩ := Buffer.append_spec hout.wf rest
  have hlen : c.outputBuffer.readAbleBytes = c.pendingBytes := (Buffer.length_readable hout.wf).symm
  have hafter : b.readable.length = c.pendingBytes + rest.length := by
    rw [hr, List.length_append, pendingBytes]
  have hstate : c'.invoked = c.invoked ∧ c'.pendingFunc = fs ∧ c'.outputBuffer = b := by
    unfold sendRest at h
    simp only [hnote, happ, ok_bind] at h
    split at h
    · cases h
      exact ⟨rfl, rfl, rfl⟩
    · obtain ⟨p, ch, -, rfl⟩ := onChannel_eq_ok h
      exact ⟨rfl, rfl, rfl⟩
  rw [hnote] at hfs
  obtain ⟨hinv', hfs', hbuf⟩ := hstate
  have hpending : c'.pendingBytes = c.pendingBytes + rest.length := by
    rw [pendingBytes, hbuf, hafter]
  have hpos := List.length_pos_iff.2 hne
  refine ⟨hpending, ?_⟩
  rw [outputCalls_eq hinv' (hfs'.trans hfs), due, hpending, hlen,
    if_neg (show ¬ (c.pendingBytes + rest.length = 0 ∧ _) by omega), List.nil_append]
  congr 1
  by_cases hcross : c.highWaterMark ≤ c.pendingBytes + rest.length ∧
      c.pendingBytes < c.highWaterMark ∧ c.highWaterMarkCb
  · rw [if_pos hcross, if_pos ⟨hcross.2.1, hcross.1, hcross.2.2⟩]
    rfl
  · rw [if_neg hcross, if_neg fun h => hcross ⟨h.2.1, h.1, h.2.2⟩]
    rfl

/-- Where something is pending afterwards, it does not matter what was handed over. -/
theorem due_of_pending (hpos : 0 < c'.pendingBytes) (handed handed' : Bool) :
    c.due handed c' = c.due handed' c' := by
  have hnot : ∀ o : Bool, ¬ (c'.pendingBytes = 0 ∧ (0 < c.pendingBytes ∨ o) ∧ c.writeCompleteCb) :=
    fun o h => Nat.ne_of_gt hpos h.1
  unfold due
  rw [if_neg (hnot handed), if_neg (hnot handed')]

/-- What is due depends on the number of pending bytes and on the callbacks that are set. -/
theorem due_congr {d : TcpConnection} (hpending : d.pendingBytes = c.pendingBytes)
    (hwc : d.writeCompleteCb = c.writeCompleteCb) (hmark : d.highWaterMark = c.highWaterMark)
    (hcb : d.highWaterMarkCb = c.highWaterMarkCb) (handed : Bool) :
    d.due handed c' = c.due handed c' := by
  unfold due
  rw [hpending, hwc, hmark, hcb]

/-- The answer is a number of bytes. -/
def taken : WriteResult → Bool
  | .wrote _ => true
  | .error _ => false

/-- The direct `send` makes the write-complete callback due, if it takes the whole message. -/
theorem sendDirect_calls {data : Bytes} {res : WriteResult} {c₁ : TcpConnection} {n : Nat}
    {fault : Bool} (h : c.sendDirect data res = (c₁, n, fault)) :
    c₁.invoked = c.invoked ∧ c₁.pendingBytes = c.pendingBytes ∧
      c₁.writeCompleteCb = c.writeCompleteCb ∧ c₁.highWaterMark = c.highWaterMark ∧
      c₁.highWaterMarkCb = c.highWaterMarkCb ∧
      c₁.pendingFunc = c.pendingFunc ++
        if (¬ c.channel.isWriting = true ∧ c.outputBuffer.readAbleBytes = 0) ∧ taken res ∧
            data.length ≤ n ∧ c.writeCompleteCb then [.writeComplete] else [] := by
  unfold sendDirect at h
  split at h
  · rename_i hidle
    cases res with
    | wrote m =>
      simp only [Prod.mk.injEq] at h
      obtain ⟨rfl, rfl, -⟩ := h
      by_cases hall : data.length - m = 0 ∧ (c.accept (data.take m)).writeCompleteCb
      · rw [if_pos hall, if_pos ⟨hidle, rfl, by omega, hall.2⟩]
        exact ⟨rfl, rfl, rfl, rfl, rfl, rfl⟩
      · rw [if_neg hall, if_neg fun hand => hall ⟨by omega, hand.2.2.2⟩, List.append_nil]
        exact ⟨rfl, rfl, rfl, rfl, rfl, rfl⟩
    | error errno =>
      simp only [Prod.mk.injEq] at h
      obtain ⟨rfl, rfl, -⟩ := h
      rw [if_neg fun hand => Bool.false_ne_true hand.2.1, List.append_nil]
      exact ⟨rfl, rfl, rfl, rfl, rfl, rfl⟩
  · rename_i hbusy
    simp only [Prod.mk.injEq] at h
    obtain ⟨rfl, rfl, -⟩ := h
    rw [if_neg fun hand => hbusy hand.1, List.append_nil]
    exact ⟨rfl, rfl, rfl, rfl, rfl, rfl⟩

/-- **`send_in_loop_`.** -/
theorem sendInLoop_calls (hout : c.OutputOk) (hconn : c.status = .connected) {data : Bytes}
    {res : WriteResult} (hres : ∀ errno, res = .error errno →
      errno ≠ Errno.EPIPE ∧ errno ≠ Errno.ECONNRESET)
    (h : c.sendInLoop data res = .ok c') :
    c'.outputCalls = c.outputCalls ++ c.due (taken res) c' := by
  have hlen : c.outputBuffer.readAbleBytes = c.pendingBytes := (Buffer.length_readable hout.wf).symm
  obtain ⟨c₁, n, fault, hdir⟩ : ∃ c₁ n fault, c.sendDirect data res = (c₁, n, fault) := ⟨_, _, _, rfl⟩
  obtain ⟨hbuf, hch, -, -, hfault⟩ := sendDirect_effect hout data res hdir
  obtain ⟨hinv, hpending, hwc, hmark, hcb, hfs⟩ := sendDirect_calls hdir
  have hnofault : ¬ fault = true := by
    intro hf
    obtain ⟨-, errno, herr, hbad⟩ := hfault hf
    exact hbad.elim (hres errno herr).1 (hres errno herr).2
  have hout₁ : c₁.OutputOk := ⟨by rw [hbuf]; exact hout.wf, by rw [hbuf, hch]; exact hout.interest⟩
  unfold sendInLoop at h
  rw [if_neg (by simp [hconn]), hdir] at h
  simp only [require_of (Nat.sub_le _ _), ok_bind] at h
  split at h
  · -- some of the message is left, so the whole of it was not taken
    rename_i hrest
    have hne : data.drop n ≠ [] := by
      rw [ne_eq, List.drop_eq_nil_iff]
      omega
    obtain ⟨hafter, hcalls⟩ := sendRest_calls hout₁ hne h
    have hpos := List.length_pos_iff.2 hne
    rw [if_neg fun hand => by omega] at hfs
    rw [hcalls, outputCalls_eq hinv hfs, due_congr hpending hwc hmark hcb,
      due_of_pending (by omega) false (taken res)]
    simp
  · rename_i hnone
    have hall : data.length ≤ n := by simp [hnofault] at hnone; omega
    cases h
    rw [outputCalls_eq hinv hfs]
    congr 1
    by_cases hidle : ¬ c.channel.isWriting = true ∧ c.outputBuffer.readAbleBytes = 0
    · have hzero : c.pendingBytes = 0 := hlen ▸ hidle.2
      rw [due, hpending, hzero, if_neg (show ¬ (0 < c.highWaterMark ∧ c.highWaterMark ≤ 0 ∧ _) by omega)]
      by_cases hgo : taken res = true ∧ c.writeCompleteCb
      · rw [if_pos ⟨hidle, hgo.1, hall, hgo.2⟩, if_pos ⟨rfl, .inr hgo.1, hgo.2⟩]
        rfl
      · rw [if_neg fun hand => hgo ⟨hand.2.1, hand.2.2.2⟩, if_neg fun hand => hgo
          ⟨hand.2.1.resolve_left (Nat.lt_irrefl 0), hand.2.2⟩]
        rfl
    · have hpos : 0 < c.pendingBytes := by
        by_contra hzero
        exact hidle ⟨fun hw => hout.interest.1 hw (by omega), by omega⟩
      rw [if_neg fun hand => hidle hand.1, due_of_pending (by omega) _ false, due_of_eq hpending]
      rfl

/-! ## Write events -/

theorem writeDrained_calls (h : c.writeDrained = .ok c') :
    c'.pendingBytes = c.pendingBytes ∧ c'.invoked = c.invoked ∧ c'.pendingFunc = c.pendingFunc ++
      if c.writeCompleteCb then [.writeComplete] else [] := by
  unfold writeDrained at h
  rw [bind_eq_ok] at h
  obtain ⟨d, hd, h⟩ := h
  obtain ⟨p, ch, -, rfl⟩ := onChannel_eq_ok hd
  simp only [shutdownInLoop_of_disconnecting, pure_eq_ok, Except.ok.injEq] at h
  subst h
  split
  · exact ⟨rfl, rfl, rfl⟩
  · exact ⟨rfl, rfl, (List.append_nil _).symm⟩

theorem handleWrite_calls (hout : c.OutputOk) {res : WriteResult}
    (hk : ∀ n, res = .wrote n → n ≤ c.outputBuffer.readAbleBytes) (h : c.handleWrite res = .ok c') :
    c'.outputCalls = c.outputCalls ++ c.due false c' := by
  unfold handleWrite at h
  split at h
  · rename_i hwriting
    have hpos : 0 < c.pendingBytes := by
      have := hout.interest.1 hwriting
      rw [pendingBytes, Buffer.length_readable hout.wf]
      omega
    split at h
    · cases h
      rw [due_of_eq rfl, List.append_nil]
    · rename_i n
      obtain ⟨b, hb, hw, hr⟩ := Buffer.retrieve_spec hout.wf (hk n rfl)
      simp only at h
      split at h
      · rw [show (c.accept (c.outputBuffer.readable.take n)).outputBuffer.retrieve n = .ok b from hb,
          ok_bind] at h
        have hafter : b.readable.length ≤ c.pendingBytes := by
          rw [hr, List.length_drop]
          exact Nat.sub_le _ _
        split at h
        · rename_i hempty
          obtain ⟨hpending, hinv, hfs⟩ := writeDrained_calls h
          have hzero : c'.pendingBytes = 0 := by
            rw [hpending, pendingBytes, Buffer.length_readable hw]
            exact hempty
          have hbelow : ¬ (c.pendingBytes < c.highWaterMark ∧ c.highWaterMark ≤ 0 ∧
              c.highWaterMarkCb = true) := by omega
          rw [outputCalls_eq hinv hfs, due, hzero, if_neg hbelow, List.append_nil]
          congr 1
          show (if c.writeCompleteCb then [PendingFunc.writeComplete] else []).flatMap _ = _
          by_cases hcb : c.writeCompleteCb = true
          · rw [if_pos hcb, if_pos ⟨rfl, .inl hpos, hcb⟩]
            rfl
          · rw [if_neg hcb, if_neg fun hand => hcb hand.2.2]
            rfl
        · rename_i hmore
          cases h
          have hmore' : b.readable.length ≠ 0 := by
            rw [Buffer.length_readable hw]
            exact hmore
          rw [due, if_neg fun hand => hmore' hand.1, if_neg fun hand => ?_]
          · exact (List.append_nil _).symm
          · have hcross : c.highWaterMark ≤ b.readable.length := hand.2.1
            omega
      · cases h
        have hsame : (c.accept (c.outputBuffer.readable.take n)).pendingBytes = c.pendingBytes := rfl
        rw [due_of_eq hsame, List.append_nil]
        rfl
  · cases h
    rw [due_of_eq rfl, List.append_nil]

/-! ## Every step -/

/-- A step that leaves the pending bytes and the calls alone makes nothing due. -/
theorem calls_of_eq {s : Step} (h : c.step s = .ok c') (hover : c.handedOver s = false)
    (hpending : c'.pendingBytes = c.pendingBytes) (hcalls : c'.outputCalls = c.outputCalls) :
    c'.outputCalls = c.outputCalls ++ c.emits s := by
  unfold emits
  rw [h, hcalls]
  simp only [hover, due_of_eq hpending, List.append_nil]

/-- The next functor makes the call that it was queued for. -/
theorem dopendingFunc_calls (h : c.step .dopendingFunc = .ok c') :
    c'.pendingBytes = c.pendingBytes ∧ c'.outputCalls = c.outputCalls := by
  simp only [step] at h
  split at h
  · cases h
    exact ⟨rfl, rfl⟩
  · rename_i f fs hfs
    unfold outputCalls
    rw [hfs]
    cases f with
    | writeComplete =>
      cases h
      refine ⟨rfl, ?_⟩
      rw [invoke, List.filter_append, List.append_assoc]
      rfl
    | highWaterMark len =>
      cases h
      refine ⟨rfl, ?_⟩
      rw [invoke, List.filter_append, List.append_assoc]
      rfl
    | forceCloseInLoop =>
      simp only [runFunctor, forceCloseInLoop_eq, Except.ok.injEq] at h
      subst h
      exact ⟨rfl, by simp [PendingFunc.calls]⟩

/-- **One step.** -/
theorem step_calls (ho : c.Open) (s : Step) (hs : c.StreamStep s) (h : c.step s = .ok c') :
    c'.outputCalls = c.outputCalls ++ c.emits s := by
  cases s with
  | send message res =>
    by_cases hconn : c.status = .connected
    · have hsend : c.sendInLoop message res = .ok c' := by
        rw [← h]
        exact (if_pos hconn).symm
      have hres : ∀ errno, res = .error errno → errno ≠ Errno.EPIPE ∧ errno ≠ Errno.ECONNRESET := by
        rintro errno rfl
        exact hs
      rw [sendInLoop_calls ho.output hconn hres hsend, emits, h]
      cases res with
      | wrote n => simp [handedOver, hconn, taken]
      | error errno => rfl
    · have hsame : c = c' := Except.ok.inj ((if_neg hconn).symm.trans h)
      subst hsame
      refine calls_of_eq h ?_ rfl rfl
      cases res with
      | wrote n => exact decide_eq_false hconn
      | error errno => rfl
  | handleWrite res =>
    have hk : ∀ n, res = .wrote n → n ≤ c.outputBuffer.readAbleBytes := by
      rintro n rfl
      exact hs
    rw [handleWrite_calls ho.output hk h, emits, h]
    rfl
  | handleRead res =>
    obtain ⟨b, hb, -, -⟩ := Buffer.readFd_spec ho.input res
    have hread := h
    simp only [step, handleRead, hb, ok_bind] at hread
    cases res with
    | error errno =>
      cases hread
      exact calls_of_eq h rfl rfl rfl
    | data bytes =>
      cases bytes with
      | nil => exact absurd rfl hs.1
      | cons x xs =>
        cases hread
        refine calls_of_eq h rfl rfl ?_
        simp [outputCalls, invoke, Callback.ofOutput]
  | retrieveInput len =>
    have hret := h
    simp only [step] at hret
    rw [bind_eq_ok] at hret
    obtain ⟨b, -, hret⟩ := hret
    cases hret
    exact calls_of_eq h rfl rfl rfl
  | shutdown =>
    have hshut : c.shutdownInLoop = c' := Except.ok.inj h
    refine calls_of_eq h rfl ?_ ?_
    · rw [← hshut]
      unfold shutdownInLoop
      simp only
      split
      · split <;> rfl
      · rfl
    · rw [← hshut]
      unfold shutdownInLoop
      simp only
      split
      · split <;> rfl
      · rfl
  | forceClose =>
    have hforce : c.forceClose = c' := Except.ok.inj h
    refine calls_of_eq h rfl ?_ ?_
    · rw [← hforce]
      unfold forceClose
      split <;> rfl
    · rw [← hforce]
      unfold forceClose
      split
      · simp [outputCalls, queueInLoop, PendingFunc.calls]
      · rfl
  | dopendingFunc =>
    obtain ⟨hpending, hcalls⟩ := dopendingFunc_calls h
    exact calls_of_eq h rfl hpending hcalls
  | sendInLoop _ _ => exact hs.elim
  | startRead => exact hs.elim
  | stopRead => exact hs.elim
  | handleClose => exact hs.elim
  | destroyConnect => exact hs.elim

/-- **The callbacks for the output, exactly.**  In every run of an open connection, with any high-water
mark, the callbacks that have run, followed by those that are queued in the loop, are in this order the
ones that were due: `write_complete_cb_` for every step after which nothing is pending, where something
was pending before or a message was handed over, and `high_water_mark_cb_` for every step that takes the
number of pending bytes from below the mark to the mark or above, with this number. -/
theorem callbacks_exact {p : Epoller} {address : Nat} {fd : Int} {wc : Bool}
    (hbuild : (make p address fd wc).buildConnect = .ok c) (cb : Bool) (highWaterMark : Nat)
    (steps : List Step)
    (hsteps : Allowed step StreamStep (c.setHighWaterMarkCb cb highWaterMark) steps) :
    ∃ c', run step (c.setHighWaterMarkCb cb highWaterMark) steps = .ok c' ∧
      c'.outputCalls = outputs step emits (c.setHighWaterMarkCb cb highWaterMark) steps := by
  obtain ⟨ho, -, -, -⟩ := make_buildConnect hbuild
  have hopen : (c.setHighWaterMarkCb cb highWaterMark).Open := ho.frame rfl rfl rfl
  have hnone : (c.setHighWaterMarkCb cb highWaterMark).outputCalls = [] := by
    obtain ⟨-, q, ch, -, rfl⟩ := buildConnect_eq_ok hbuild
    rfl
  have hstep : ∀ (d : TcpConnection) (s : Step), d.Open → d.StreamStep s →
      ∃ t, d.step s = .ok t ∧ t.Open ∧ t.outputCalls = d.outputCalls ++ d.emits s := by
    intro d s hd hs
    obtain ⟨t, ht, ho', -⟩ := step_stream hd s hs
    exact ⟨t, ht, ho', step_calls hd s hs ht⟩
  obtain ⟨c', hrun, -, hcalls⟩ := run_outputs Open outputCalls emits hstep steps _ hopen hsteps
  exact ⟨c', hrun, by rw [hcalls, hnone, List.nil_append]⟩

/-- With a mark of three bytes: two messages, of which the second crosses the mark, and write events that
drain the output; the functors run in between. -/
theorem callbacks_exact_sample :
    ∃ c', run step (sampleConn.setHighWaterMarkCb true 3)
        [.send [1, 2] (.wrote 1), .send [3, 4] (.wrote 0), .dopendingFunc, .handleWrite (.wrote 2),
          .handleWrite (.wrote 1), .dopendingFunc, .send [5] (.wrote 1)] = .ok c' ∧
      c'.outputCalls = [.highWaterMark 3, .writeComplete, .writeComplete] := by
  obtain ⟨c', hrun, hcalls⟩ := callbacks_exact sampleConn_build true 3
    [.send [1, 2] (.wrote 1), .send [3, 4] (.wrote 0), .dopendingFunc, .handleWrite (.wrote 2),
      .handleWrite (.wrote 1), .dopendingFunc, .send [5] (.wrote 1)] (by decide +kernel)
  refine ⟨c', hrun, hcalls.trans ?_⟩
  decide +kernel

end TcpConnection
