import TinyHttpServer.Lib.Run
import TinyHttpServer.Base.BufferString
import TinyHttpServer.Server.TcpConnection

/-!
# The output side of a TCP connection

`OutputOk` ties the write interest of the channel to the pending output.  For each function
there is an effect lemma (if it returns, what it did to the stream of bytes) and, where the
channel is registered and reading, a lemma that it returns.

`output_stream_intact` is the statement about whole runs: accepted bytes followed by pending
bytes are the messages sent.
-/

set_option autoImplicit false

open Checked Machine

namespace TcpConnection

variable {c c' : TcpConnection}

/-- The bytes that the socket has accepted, followed by those still pending. -/
def stream (c : TcpConnection) : Bytes := c.socket.accepted ++ c.outputBuffer.readable

/-- Write interest is enabled exactly when output is pending. -/
structure OutputOk (c : TcpConnection) : Prop where
  wf : c.outputBuffer.Wf
  interest : c.channel.isWriting = true ↔ c.outputBuffer.readAbleBytes ≠ 0

/-- The channel is registered with the poller and reading. -/
structure Reading (c : TcpConnection) : Prop where
  added : c.channel.status = .add
  read : c.channel.events.read = true

theorem OutputOk.idle (hout : c.OutputOk) (h : ¬ c.channel.isWriting = true) :
    c.outputBuffer.readable = [] := by
  rw [Buffer.readable_eq_nil hout.wf]
  exact not_not.1 fun hne => h (hout.interest.2 hne)

/-! ## The channel -/

theorem onChannel_eq_ok {op : Epoller → Channel → Checked (Epoller × Channel)}
    (h : c.onChannel op = .ok c') :
    ∃ p ch, op c.poller c.channel = .ok (p, ch) ∧ c' = { c with poller := p, channel := ch } := by
  unfold onChannel at h
  rw [bind_eq_ok] at h
  obtain ⟨⟨p, ch⟩, hop, h⟩ := h
  cases h
  exact ⟨p, ch, hop, rfl⟩

/-- Changing the interest changes the connection in its channel and its poller only. -/
theorem onChannel_setEvents {f : Events → Events}
    (h : c.onChannel (fun p ch => Channel.setEvents p ch (f ch.events)) = .ok c') :
    ∃ p ch, c' = { c with poller := p, channel := ch } ∧ ch.events = f c.channel.events := by
  obtain ⟨p, ch, hop, rfl⟩ := onChannel_eq_ok h
  exact ⟨p, ch, rfl, (Channel.setEvents_eq_ok hop).1⟩

/-- On a registered channel a change of the write interest returns. -/
theorem Reading.setWrite (hr : c.Reading) (w : Bool) :
    ∃ c', c.onChannel (fun p ch => Channel.setEvents p ch { ch.events with write := w }) = .ok c' ∧
      c'.Reading := by
  have hne : ({ c.channel.events with write := w } : Events) ≠ .none := by
    intro h
    have := congrArg Events.read h
    simp [Events.none, hr.read] at this
  unfold onChannel
  simp only [Channel.setEvents_added hr.added hne, ok_bind]
  exact ⟨_, rfl, ⟨hr.added, hr.read⟩⟩

/-! ## Sending -/

/-- The direct `send` adds what the kernel took to the stream; it is tried only when nothing is
pending, so it cannot overtake. -/
theorem sendDirect_effect (hout : c.OutputOk) (data : Bytes) (res : WriteResult) {c₁ : TcpConnection}
    {n : Nat} {fault : Bool} (h : c.sendDirect data res = (c₁, n, fault)) :
    c₁.outputBuffer = c.outputBuffer ∧ c₁.channel = c.channel ∧
      c₁.inputBuffer = c.inputBuffer ∧ c₁.stream = c.stream ++ data.take n ∧
      (fault = true → n = 0 ∧ ∃ errno, res = .error errno ∧
        (errno = Errno.EPIPE ∨ errno = Errno.ECONNRESET)) := by
  unfold sendDirect at h
  split at h
  · rename_i hidle
    split at h
    · cases h
      have hstream : (c.accept (data.take n)).stream = c.stream ++ data.take n := by
        unfold stream accept
        simp only [hout.idle hidle.1, List.append_nil]
      split
      · exact ⟨rfl, rfl, rfl, hstream, by simp⟩
      · exact ⟨rfl, rfl, rfl, hstream, by simp⟩
    · rename_i errno
      cases h
      exact ⟨rfl, rfl, rfl, by simp, fun hf => ⟨rfl, errno, rfl, by simpa using hf⟩⟩
  · cases h
    exact ⟨rfl, rfl, rfl, by simp, by simp⟩

theorem noteHighWaterMark_eq (c : TcpConnection) (remaining : Nat) :
    ∃ fs, c.noteHighWaterMark remaining = { c with pendingFunc := fs } := by
  unfold noteHighWaterMark
  simp only
  split
  · exact ⟨_, rfl⟩
  · exact ⟨_, rfl⟩

/-- The connection with `rest` behind the pending output. -/
theorem sendRest_eq (hout : c.OutputOk) (rest : Bytes) :
    ∃ fs b, b.Wf ∧ b.readable = c.outputBuffer.readable ++ rest ∧
      c.sendRest rest =
        if c.channel.isWriting then .ok { c with pendingFunc := fs, outputBuffer := b }
        else onChannel { c with pendingFunc := fs, outputBuffer := b } Channel.enableWriting := by
  obtain ⟨fs, hfs⟩ := noteHighWaterMark_eq c rest.length
  obtain ⟨b, he, hw, hr⟩ := Buffer.append_spec hout.wf rest
  refine ⟨fs, b, hw, hr, ?_⟩
  unfold sendRest
  simp only [hfs, he, ok_bind, pure_eq_ok]

/-- What is left over is appended to the stream, and write interest is on afterwards. -/
theorem sendRest_effect (hout : c.OutputOk) {rest : Bytes} (hne : rest ≠ [])
    (h : c.sendRest rest = .ok c') :
    c'.OutputOk ∧ c'.inputBuffer = c.inputBuffer ∧ c'.stream = c.stream ++ rest := by
  obtain ⟨fs, b, hw, hr, heq⟩ := sendRest_eq hout rest
  have hpos : b.readAbleBytes ≠ 0 := by
    rw [Ne, ← Buffer.readable_eq_nil hw, hr]
    simp [hne]
  rw [heq] at h
  split at h
  · rename_i hwr
    cases h
    exact ⟨⟨hw, iff_of_true hwr hpos⟩, rfl, by simp [stream, hr]⟩
  · obtain ⟨p, ch, rfl, hev⟩ := onChannel_setEvents
      (f := fun events => { events with write := true }) h
    exact ⟨⟨hw, iff_of_true (by simp [Channel.isWriting, hev]) hpos⟩, rfl, by simp [stream, hr]⟩

theorem sendRest_returns (hout : c.OutputOk) (hr : c.Reading) (rest : Bytes) :
    ∃ c', c.sendRest rest = .ok c' ∧ c'.Reading := by
  obtain ⟨fs, b, _, _, heq⟩ := sendRest_eq hout rest
  rw [heq]
  split
  · exact ⟨_, rfl, ⟨hr.added, hr.read⟩⟩
  · have hr' : Reading { c with pendingFunc := fs, outputBuffer := b } := ⟨hr.added, hr.read⟩
    exact hr'.setWrite true

/-- **`send_in_loop_`.**  The message is appended to the stream as a whole, or, after `EPIPE` and
`ECONNRESET`, not at all. -/
theorem sendInLoop_effect (hout : c.OutputOk) {data : Bytes} {res : WriteResult}
    (h : c.sendInLoop data res = .ok c') :
    c'.OutputOk ∧ c'.inputBuffer = c.inputBuffer ∧
      (c'.stream = c.stream ++ data ∨ c'.stream = c.stream ∧ (c.status = .disconnected ∨
        ∃ errno, res = .error errno ∧ (errno = Errno.EPIPE ∨ errno = Errno.ECONNRESET))) := by
  unfold sendInLoop at h
  split at h
  · rename_i hd
    cases h
    exact ⟨hout, rfl, .inr ⟨rfl, .inl hd⟩⟩
  · obtain ⟨c₁, n, fault, hdir⟩ : ∃ c₁ n fault, c.sendDirect data res = (c₁, n, fault) :=
      ⟨_, _, _, rfl⟩
    obtain ⟨hbuf, hch, hin, hstream, hfault⟩ := sendDirect_effect hout data res hdir
    have hout₁ : c₁.OutputOk := ⟨by rw [hbuf]; exact hout.wf, by rw [hbuf, hch]; exact hout.interest⟩
    rw [hdir] at h
    simp only [require_of (Nat.sub_le _ _), ok_bind] at h
    split at h
    · rename_i hrest
      have hne : data.drop n ≠ [] := by
        intro hnil
        have := congrArg List.length hnil
        simp only [List.length_drop, List.length_nil] at this
        omega
      obtain ⟨hout', hin', hstream'⟩ := sendRest_effect hout₁ hne h
      refine ⟨hout', hin'.trans hin, .inl ?_⟩
      rw [hstream', hstream, List.append_assoc, List.take_append_drop]
    · rename_i hstop
      cases h
      refine ⟨hout₁, hin, ?_⟩
      by_cases hf : fault = true
      · obtain ⟨rfl, herr⟩ := hfault hf
        exact .inr ⟨by simpa using hstream, .inr herr⟩
      · have hlen : data.length ≤ n := by simp [hf] at hstop; omega
        exact .inl (by rw [hstream, List.take_of_length_le hlen])

theorem sendInLoop_returns (hout : c.OutputOk) (hr : c.Reading) (data : Bytes) (res : WriteResult) :
    ∃ c', c.sendInLoop data res = .ok c' ∧ c'.Reading := by
  unfold sendInLoop
  split
  · exact ⟨c, rfl, hr⟩
  · obtain ⟨c₁, n, fault, hdir⟩ : ∃ c₁ n fault, c.sendDirect data res = (c₁, n, fault) :=
      ⟨_, _, _, rfl⟩
    obtain ⟨hbuf, hch, _, _, _⟩ := sendDirect_effect hout data res hdir
    have hout₁ : c₁.OutputOk := ⟨by rw [hbuf]; exact hout.wf, by rw [hbuf, hch]; exact hout.interest⟩
    have hr₁ : c₁.Reading := ⟨by rw [hch]; exact hr.added, by rw [hch]; exact hr.read⟩
    rw [hdir]
    simp only [require_of (Nat.sub_le _ _), ok_bind]
    split
    · exact sendRest_returns hout₁ hr₁ _
    · exact ⟨c₁, rfl, hr₁⟩

/-! ## Write events -/

/-- `shutdown_in_loop_` acts in the status `CONNECTED` only. -/
theorem shutdownInLoop_of_ne (h : c.status ≠ .connected) : c.shutdownInLoop = c := if_neg h

/-- `handle_write_` calls `shutdown_in_loop_` in the status `DISCONNECTING` only. -/
theorem shutdownInLoop_of_disconnecting (c : TcpConnection) :
    (if c.status = .disconnecting then c.shutdownInLoop else c) = c := by
  split
  · rename_i hst
    exact shutdownInLoop_of_ne (by simp [hst])
  · rfl

/-- **The drained branch of `handle_write_`.**  Its call of `shutdown_in_loop_` does nothing: it
is made when the status is `DISCONNECTING`. -/
theorem writeDrained_eq (c : TcpConnection) :
    ∃ f : TcpConnection → List PendingFunc, c.writeDrained =
      c.onChannel Channel.disableWriting >>= fun c => .ok { c with pendingFunc := f c } := by
  refine ⟨fun c => if c.writeCompleteCb then c.pendingFunc ++ [.writeComplete] else c.pendingFunc,
    ?_⟩
  unfold writeDrained
  congr 1
  funext d
  simp only [shutdownInLoop_of_disconnecting, pure_eq_ok]
  split <;> rfl

theorem writeDrained_effect (hw : c.outputBuffer.Wf) (hempty : c.outputBuffer.readAbleBytes = 0)
    (h : c.writeDrained = .ok c') :
    c'.OutputOk ∧ c'.inputBuffer = c.inputBuffer ∧ c'.stream = c.stream := by
  obtain ⟨f, heq⟩ := writeDrained_eq c
  rw [heq, bind_eq_ok] at h
  obtain ⟨d, hd, h⟩ := h
  cases h
  obtain ⟨p, ch, rfl, hev⟩ := onChannel_setEvents
    (f := fun events => { events with write := false }) hd
  exact ⟨⟨hw, iff_of_false (by simp [Channel.isWriting, hev]) (by simpa using hempty)⟩, rfl, rfl⟩

/-- What a write event that moves `n` pending bytes to the socket starts from. -/
theorem accept_retrieve (hout : c.OutputOk) {n : Nat} (hn : n ≤ c.outputBuffer.readAbleBytes) :
    ∃ b, c.outputBuffer.retrieve n = .ok b ∧ b.Wf ∧
      (c.accept (c.outputBuffer.readable.take n)).socket.accepted ++ b.readable = c.stream := by
  obtain ⟨b, he, hw, hr⟩ := Buffer.retrieve_spec hout.wf hn
  refine ⟨b, he, hw, ?_⟩
  simp only [accept, stream, hr, List.append_assoc, List.take_append_drop]

/-- **`handle_write_`** moves bytes from the pending output to the socket, in order. -/
theorem handleWrite_effect (hout : c.OutputOk) {res : WriteResult}
    (hk : ∀ n, res = .wrote n → n ≤ c.outputBuffer.readAbleBytes) (h : c.handleWrite res = .ok c') :
    c'.OutputOk ∧ c'.inputBuffer = c.inputBuffer ∧ c'.stream = c.stream := by
  unfold handleWrite at h
  split at h
  · rename_i hwr
    split at h
    · cases h
      exact ⟨hout, rfl, rfl⟩
    · rename_i n
      obtain ⟨b, he, hw, hstream⟩ := accept_retrieve hout (hk n rfl)
      simp only at h
      split at h
      · have he' : (c.accept (c.outputBuffer.readable.take n)).outputBuffer.retrieve n = .ok b := he
        rw [he', ok_bind] at h
        split at h
        · rename_i hempty
          obtain ⟨hout', hin, hst⟩ := writeDrained_effect hw hempty h
          exact ⟨hout', hin, hst.trans hstream⟩
        · rename_i hmore
          cases h
          exact ⟨⟨hw, iff_of_true hwr hmore⟩, rfl, hstream⟩
      · rename_i hzero
        cases h
        obtain rfl : n = 0 := by omega
        exact ⟨⟨hout.wf, hout.interest⟩, rfl, by simp [accept, stream]⟩
  · cases h
    exact ⟨hout, rfl, rfl⟩

theorem handleWrite_returns (hout : c.OutputOk) (hr : c.Reading) {res : WriteResult}
    (hk : ∀ n, res = .wrote n → n ≤ c.outputBuffer.readAbleBytes) :
    ∃ c', c.handleWrite res = .ok c' ∧ c'.Reading := by
  unfold handleWrite
  split
  · split
    · exact ⟨c, rfl, hr⟩
    · rename_i n
      obtain ⟨b, he, _, _⟩ := accept_retrieve hout (hk n rfl)
      simp only
      split
      · have he' : (c.accept (c.outputBuffer.readable.take n)).outputBuffer.retrieve n = .ok b := he
        rw [he', ok_bind]
        split
        · obtain ⟨f, heq⟩ := writeDrained_eq
            { c.accept (c.outputBuffer.readable.take n) with outputBuffer := b }
          have hr' : Reading { c.accept (c.outputBuffer.readable.take n) with outputBuffer := b } :=
            ⟨hr.added, hr.read⟩
          obtain ⟨d, hd, hrd⟩ := hr'.setWrite false
          refine ⟨{ d with pendingFunc := f d }, ?_, ⟨hrd.added, hrd.read⟩⟩
          rw [heq]
          exact bind_eq_ok.2 ⟨d, hd, rfl⟩
        · exact ⟨_, rfl, ⟨hr.added, hr.read⟩⟩
      · exact ⟨_, rfl, ⟨hr.added, hr.read⟩⟩
  · exact ⟨c, rfl, hr⟩

/-! ## Byte-stream integrity -/

/-- The invariant of an open connection. -/
structure Open (c : TcpConnection) : Prop where
  output : c.OutputOk
  reading : c.Reading
  input : c.inputBuffer.Wf

/-- A step that touches neither the buffers nor the channel keeps the invariant. -/
theorem Open.frame (ho : c.Open) (hout : c'.outputBuffer = c.outputBuffer)
    (hch : c'.channel = c.channel) (hin : c'.inputBuffer = c.inputBuffer) : c'.Open := by
  refine ⟨⟨?_, ?_⟩, ⟨?_, ?_⟩, ?_⟩
  · rw [hout]; exact ho.output.wf
  · rw [hout, hch]; exact ho.output.interest
  · rw [hch]; exact ho.reading.added
  · rw [hch]; exact ho.reading.read
  · rw [hin]; exact ho.input

/-- The guard of `force_close_in_loop_` is never met. -/
theorem forceCloseInLoop_eq (c : TcpConnection) : c.forceCloseInLoop = .ok c := by
  refine if_neg ?_
  rintro ⟨h, h'⟩
  simp [h] at h'

/-- A queued functor does nothing to the connection but call a callback. -/
theorem dopendingFunc_eq (c : TcpConnection) :
    ∃ fs cbs, c.step .dopendingFunc = .ok { c with pendingFunc := fs, invoked := cbs } := by
  unfold step
  simp only
  split
  · exact ⟨_, _, rfl⟩
  · rename_i f fs _
    cases f with
    | writeComplete => exact ⟨_, _, rfl⟩
    | highWaterMark len => exact ⟨_, _, rfl⟩
    | forceCloseInLoop => exact ⟨_, _, forceCloseInLoop_eq _⟩

theorem startReadInLoop_eq_ok (h : c.startReadInLoop = .ok c') :
    c' = c ∧ c.channel.isReading = true ∨
      ∃ p ch, c' = { c with poller := p, channel := ch, reading := true } ∧
        ch.events = { c.channel.events with read := true } := by
  unfold startReadInLoop at h
  split at h
  · rw [bind_eq_ok] at h
    obtain ⟨d, hd, h⟩ := h
    cases h
    obtain ⟨p, ch, rfl, hev⟩ := onChannel_setEvents
      (f := fun events => { events with read := true }) hd
    exact .inr ⟨p, ch, rfl, hev⟩
  · rename_i hread
    cases h
    rw [not_or, not_not, not_not] at hread
    exact .inl ⟨rfl, hread.2⟩

theorem stopReadInLoop_eq_ok (h : c.stopReadInLoop = .ok c') :
    c' = c ∧ c.channel.isReading = false ∨
      ∃ p ch, c' = { c with poller := p, channel := ch, reading := false } ∧
        ch.events = { c.channel.events with read := false } := by
  unfold stopReadInLoop at h
  split at h
  · rw [bind_eq_ok] at h
    obtain ⟨d, hd, h⟩ := h
    cases h
    obtain ⟨p, ch, rfl, hev⟩ := onChannel_setEvents
      (f := fun events => { events with read := false }) hd
    exact .inr ⟨p, ch, rfl, hev⟩
  · rename_i hread
    cases h
    rw [not_or, Bool.not_eq_true, Bool.not_eq_true] at hread
    exact .inl ⟨rfl, hread.2⟩

theorem buildConnect_eq_ok (h : c.buildConnect = .ok c') :
    c.status = .connecting ∧ ∃ p ch, Channel.enableReading c.poller c.channel = .ok (p, ch) ∧
      c' = { c with status := .connected, poller := p, channel := ch,
                    invoked := c.invoked ++ [.connection] } := by
  unfold buildConnect at h
  rw [bind_eq_ok] at h
  obtain ⟨_, hreq, h⟩ := h
  simp only at h
  rw [bind_eq_ok] at h
  obtain ⟨d, hd, h⟩ := h
  obtain ⟨p, ch, hop, rfl⟩ := onChannel_eq_ok hd
  cases h
  exact ⟨require_eq_ok.1 hreq, p, ch, hop, rfl⟩

/-- A connection as `build_connect` leaves it. -/
theorem make_buildConnect {p : Epoller} {address : Nat} {fd : Int} {wc : Bool}
    (h : (make p address fd wc).buildConnect = .ok c) :
    c.Open ∧ c.status = .connected ∧ c.stream = [] ∧ c.socket.shutdownWrites = [] := by
  obtain ⟨-, q, ch, hop, rfl⟩ := buildConnect_eq_ok h
  have hev : ch.events = ⟨true, false⟩ := (Channel.setEvents_eq_ok hop).1
  have hadd : ch.status = .add := (Channel.setEvents_eq_ok hop).2 (by simp [Events.none])
  have hbuf := Buffer.make_wf Buffer.initialSizeDefault
  have hempty := Buffer.make_readable Buffer.initialSizeDefault
  refine ⟨⟨⟨hbuf, ?_⟩, ⟨hadd, by simp [hev]⟩, hbuf⟩, rfl, ?_, rfl⟩
  · exact iff_of_false (by simp [Channel.isWriting, hev])
      (not_not.2 ((Buffer.readable_eq_nil hbuf).1 hempty))
  · simp only [stream, make, hempty, List.append_nil]

/-- The steps of an open connection: sends and write events with an answer of the kernel other
than `EPIPE` and `ECONNRESET`, a read that is not an end of file, what user code does with the
input buffer, shutting down, and the execution of queued functors. -/
def StreamStep (c : TcpConnection) : Step → Prop
  | .send message (.wrote n) => n ≤ message.length
  | .send _ (.error errno) => errno ≠ Errno.EPIPE ∧ errno ≠ Errno.ECONNRESET
  | .handleWrite (.wrote n) => n ≤ c.outputBuffer.readAbleBytes
  | .handleWrite (.error errno) => errno ≠ Errno.EPIPE ∧ errno ≠ Errno.ECONNRESET
  | .handleRead (.data bytes) => bytes ≠ [] ∧
    bytes.length ≤ c.inputBuffer.writeAbleBytes + Buffer.extrabufSize
  | .handleRead (.error _) => True
  | .retrieveInput len => len ≤ c.inputBuffer.readAbleBytes
  | .shutdown => True
  | .forceClose => True
  | .dopendingFunc => True
  | _ => False

instance (c : TcpConnection) : ∀ s, Decidable (c.StreamStep s)
  | .send message (.wrote n) => inferInstanceAs (Decidable (n ≤ message.length))
  | .send _ (.error errno) | .handleWrite (.error errno) =>
    inferInstanceAs (Decidable (errno ≠ Errno.EPIPE ∧ errno ≠ Errno.ECONNRESET))
  | .handleWrite (.wrote n) => inferInstanceAs (Decidable (n ≤ c.outputBuffer.readAbleBytes))
  | .handleRead (.data bytes) =>
    inferInstanceAs (Decidable (bytes ≠ [] ∧
      bytes.length ≤ c.inputBuffer.writeAbleBytes + Buffer.extrabufSize))
  | .retrieveInput len => inferInstanceAs (Decidable (len ≤ c.inputBuffer.readAbleBytes))
  | .handleRead (.error _) | .shutdown | .forceClose | .dopendingFunc => .isTrue trivial
  | .sendInLoop _ _ | .startRead | .stopRead | .handleClose | .destroyConnect => .isFalse id

/-- The bytes that a step hands over for sending while the status is `CONNECTED`. -/
def sentBy (c : TcpConnection) : Step → Bytes
  | .send message _ => if c.status = .connected then message else []
  | _ => []

/-- **One step.** -/
theorem step_stream (ho : c.Open) (s : Step) (hs : c.StreamStep s) :
    ∃ c', c.step s = .ok c' ∧ c'.Open ∧ c'.stream = c.stream ++ c.sentBy s := by
  cases s with
  | send message res =>
    simp only [step, send, sentBy]
    split
    · rename_i hconn
      obtain ⟨c', he, hr⟩ := sendInLoop_returns ho.output ho.reading message res
      obtain ⟨hout, hin, hst⟩ := sendInLoop_effect ho.output he
      refine ⟨c', he, ⟨hout, hr, by rw [hin]; exact ho.input⟩, hst.resolve_right ?_⟩
      rintro ⟨-, hd | ⟨errno, rfl, herr⟩⟩
      · simp [hconn] at hd
      · exact herr.elim hs.1 hs.2
    · exact ⟨c, rfl, ho, by simp⟩
  | handleWrite res =>
    have hk : ∀ n, res = .wrote n → n ≤ c.outputBuffer.readAbleBytes := by
      rintro n rfl; exact hs
    obtain ⟨c', he, hr⟩ := handleWrite_returns ho.output ho.reading hk
    obtain ⟨hout, hin, hst⟩ := handleWrite_effect ho.output hk he
    exact ⟨c', he, ⟨hout, hr, by rw [hin]; exact ho.input⟩, by rw [hst]; simp [sentBy]⟩
  | handleRead res =>
    obtain ⟨b, he, hw, -⟩ := Buffer.readFd_spec ho.input res
    have hopen : ∀ cbs, Open { c with inputBuffer := b, invoked := cbs } := fun cbs =>
      ⟨⟨ho.output.wf, ho.output.interest⟩, ⟨ho.reading.added, ho.reading.read⟩, hw⟩
    unfold step handleRead
    simp only [he, ok_bind]
    cases res with
    | error errno => exact ⟨_, rfl, hopen _, by simp [sentBy, stream]⟩
    | data bytes =>
      cases bytes with
      | nil => exact absurd rfl hs.1
      | cons x xs => exact ⟨_, rfl, hopen _, by simp [sentBy, stream, invoke]⟩
  | retrieveInput len =>
    obtain ⟨b, he, hw, -⟩ := Buffer.retrieve_spec ho.input hs
    refine ⟨{ c with inputBuffer := b }, by simp [step, he], ?_, by simp [sentBy, stream]⟩
    exact ⟨⟨ho.output.wf, ho.output.interest⟩, ⟨ho.reading.added, ho.reading.read⟩, hw⟩
  | shutdown =>
    refine ⟨c.shutdownInLoop, rfl, ?_⟩
    unfold shutdownInLoop
    simp only
    split
    · split
      · exact ⟨ho.frame rfl rfl rfl, by simp [sentBy, stream]⟩
      · exact ⟨ho.frame rfl rfl rfl, by simp [sentBy, stream, shutdownWrite]⟩
    · exact ⟨ho, by simp [sentBy]⟩
  | forceClose =>
    refine ⟨c.forceClose, rfl, ?_⟩
    unfold forceClose
    split
    · exact ⟨ho.frame rfl rfl rfl, by simp [sentBy, stream, queueInLoop]⟩
    · exact ⟨ho, by simp [sentBy]⟩
  | dopendingFunc =>
    obtain ⟨fs, cbs, heq⟩ := dopendingFunc_eq c
    exact ⟨_, heq, ho.frame rfl rfl rfl, by simp [sentBy, stream]⟩
  | sendInLoop _ _ => exact hs.elim
  | startRead => exact hs.elim
  | stopRead => exact hs.elim
  | handleClose => exact hs.elim
  | destroyConnect => exact hs.elim

/-- **Byte-stream integrity.**  Every run of an open connection returns.  The bytes accepted by the
socket followed by the pending ones are the messages sent while the status was `CONNECTED`, and
write interest is on exactly when bytes are pending. -/
theorem output_stream_intact {p : Epoller} {address : Nat} {fd : Int} {wc : Bool}
    (hbuild : (make p address fd wc).buildConnect = .ok c) (steps : List Step)
    (hsteps : Allowed step StreamStep c steps) :
    ∃ c', run step c steps = .ok c' ∧
      c'.socket.accepted ++ c'.outputBuffer.readable = outputs step sentBy c steps ∧
      (c'.channel.isWriting = true ↔ c'.outputBuffer.readable ≠ []) := by
  obtain ⟨ho, -, hempty, -⟩ := make_buildConnect hbuild
  obtain ⟨c', he, ho', hst⟩ := run_outputs Open stream sentBy
    (fun c s ho hs => step_stream ho s hs) steps c ho hsteps
  refine ⟨c', he, by rw [← List.nil_append (outputs _ _ _ _), ← hempty, ← hst]; rfl, ?_⟩
  rw [Ne, Buffer.readable_eq_nil ho'.output.wf]
  exact ho'.output.interest

/-- A connection on a new poller. -/
def sampleConn : TcpConnection :=
  match (make Epoller.make 1 5 true).buildConnect with
  | .ok c => c
  | .error _ => make Epoller.make 1 5 true

theorem sampleConn_build : (make Epoller.make 1 5 true).buildConnect = .ok sampleConn := rfl

/-- Two messages under back-pressure: a partial direct write, a message queued behind it, a
write event that fails, and two that drain the output. -/
def sampleSteps : List Step :=
  [.send [1, 2, 3] (.wrote 1), .send [4, 5] (.wrote 2), .handleWrite (.error 11),
    .handleWrite (.wrote 3), .handleWrite (.wrote 1), .send [6] (.error 11), .shutdown,
    .send [7] (.wrote 1)]

theorem output_stream_intact_sample :
    Allowed step StreamStep sampleConn sampleSteps ∧
      ∃ c', run step sampleConn sampleSteps = .ok c' ∧
        c'.socket.accepted ++ c'.outputBuffer.readable =
          outputs step sentBy sampleConn sampleSteps ∧
        (c'.channel.isWriting = true ↔ c'.outputBuffer.readable ≠ []) := by
  have hsteps : Allowed step StreamStep sampleConn sampleSteps := by decide +kernel
  exact ⟨hsteps, output_stream_intact sampleConn_build sampleSteps hsteps⟩

end TcpConnection
