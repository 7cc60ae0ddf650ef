import TinyHttpServer.Http.HttpRead
import TinyHttpServer.Http.HttpServer
import TinyHttpServer.Server.TcpConnectionShutdown

/-!
# The HTTP server with its connections (`src/httpserver.cc`, `src/httpserver.h`)

The callbacks of `HttpServer` on the connections they are called for: the wheel, the poller of the
loop, and for each connection its `TcpConnection` and its `context_`.  There is one loop: all
connections run in the loop of the server, as they do unless `set_thread_num` is called, so
`run_in_loop` runs its functor at once, and `handle_close_` comes back when `destroy_connect` has been
called.  (With IO loops the bucket list is shared between threads without a lock, and a tick only
queues `shutdown_in_loop_`.)

What a request finds in the files and in the table of users comes with the step that reads it, so
other connections and other programs may change both at any time.

`message_cb` reads the whole input buffer into the context and sends the write buffer, if the entry of
the connection is still alive; otherwise it leaves the input where it is.

* `handleClose_destroyConnect` — an open connection that is closed leaves the poller.
* `sendInLoop_stream` — a response goes behind what was sent before, as a whole, unless the kernel
  refuses it because the peer is gone.
* `respond_refines` — the answer to a message is what `serve` computes from the bytes.
-/

set_option autoImplicit false

open Checked Machine

/-- A `TcpConnection` and its `context_`. -/
structure HttpConn where
  conn : TcpConnection
  context : HttpContext

namespace HttpConn

/-- `send(Buffer &)` with the write buffer of the context, in the loop thread. -/
def sendWritten (x : HttpConn) (res : WriteResult) : Checked HttpConn :=
  if x.conn.status = .connected then do
    let conn ← x.conn.sendInLoop x.context.writeBuff.readable res
    return { conn, context := { x.context with writeBuff := x.context.writeBuff.retrieveAll } }
  else return x

/-- `context->read(buff)` and `conn->send(context->write())`. -/
def respond (env : HttpEnv) (x : HttpConn) (res : WriteResult) : Checked HttpConn := do
  let (context, inputBuffer, _) ← x.context.read env x.conn.inputBuffer
  sendWritten { conn := { x.conn with inputBuffer }, context } res

end HttpConn

/-- `class HttpServer` with the poller of its loop.  A connection is known by its place in the order
of acceptance, as in `next_id`. -/
structure HttpService where
  wheel : HttpServer Nat
  poller : Epoller
  conns : List HttpConn

namespace HttpService

/-- A server that has accepted nothing. -/
def make : HttpService := { wheel := .make, poller := .make, conns := [] }

/-- What happens in the loop.  Where a response is sent, `sent` is the kernel's answer. -/
inductive Step where
  /-- `new_connection` with `build_connect` -/
  | accept (address : Nat) (fd : Int)
  /-- the channel is readable; `env` is what a request finds -/
  | read (k : Nat) (env : HttpEnv) (res : ReadResult) (sent : WriteResult)
  /-- the channel is writable -/
  | write (k : Nat) (res : WriteResult)
  /-- the channel is hung up -/
  | hangup (k : Nat)
  /-- the next functor that the connection has queued -/
  | dopendingFunc (k : Nat)
  | ontime
  /-- the last pointer to the connection goes -/
  | release (k : Nat)

/-- The connection, on the poller of the loop. -/
def attach (s : HttpService) (x : HttpConn) : HttpConn :=
  { x with conn := { x.conn with poller := s.poller } }

/-- The connection has become `x`. -/
def store (s : HttpService) (k : Nat) (x : HttpConn) : HttpService :=
  { s with poller := x.conn.poller, conns := s.conns.set k x }

/-- What follows `handle_close_`: `connection_cb` for a connection that is down, and
`remove_connection` with `destroy_connect`. -/
def closed (s : HttpService) (k : Nat) (x : HttpConn) : Checked HttpService := do
  let conn ← x.conn.destroyConnect
  return { s with wheel := s.wheel.connectionCb k false }.store k { x with conn }

/-- `message_cb`. -/
def messageCb (env : HttpEnv) (s : HttpService) (k : Nat) (x : HttpConn) (sent : WriteResult) :
    Checked HttpService := do
  let wheel ← s.wheel.messageCb k
  if (s.wheel.entry k).any s.wheel.lock then
    let x ← x.respond env sent
    return { s with wheel }.store k x
  else return { s with wheel }.store k x

/-- What the destructors of the entries do to connection `k` in a tick. -/
def evict (s : HttpService) (k : Nat) (x : HttpConn) : HttpConn :=
  { x with conn :=
    TcpConnection.shutdown^[s.wheel.ontime.shutdowns k - s.wheel.shutdowns k] x.conn }

/-- `new_connection`; `connection_cb` is called at the end of `build_connect`. -/
def newConnection (s : HttpService) (address : Nat) (fd : Int) : Checked HttpService := do
  let conn ← (TcpConnection.make s.poller address fd false).buildConnect
  return { wheel := s.wheel.connectionCb s.conns.length true, poller := conn.poller,
           conns := s.conns ++ [{ conn, context := .make }] }

/-- `handle_read_` with the callback that it calls. -/
def handleRead (env : HttpEnv) (s : HttpService) (k : Nat) (x : HttpConn) (res : ReadResult)
    (sent : WriteResult) : Checked HttpService := do
  let conn ← (s.attach x).conn.handleRead res
  match res with
  | .data [] => s.closed k { x with conn }
  | .data (_ :: _) => s.messageCb env k { x with conn } sent
  | .error _ => return s.store k { x with conn }

/-- The effect of a step. -/
def step (s : HttpService) : Step → Checked HttpService
  | .accept address fd => s.newConnection address fd
  | .read k env res sent =>
    match s.conns[k]? with
    | none => return s
    | some x => s.handleRead env k x res sent
  | .write k res =>
    match s.conns[k]? with
    | none => return s
    | some x => do
      let conn ← (s.attach x).conn.handleWrite res
      return s.store k { x with conn }
  | .hangup k =>
    match s.conns[k]? with
    | none => return s
    | some x => do
      let conn ← (s.attach x).conn.handleClose
      s.closed k { x with conn }
  | .dopendingFunc k =>
    match s.conns[k]? with
    | none => return s
    | some x => do
      let conn ← (s.attach x).conn.step .dopendingFunc
      return s.store k { x with conn }
  | .ontime => return { s with wheel := s.wheel.ontime, conns := s.conns.mapIdx s.evict }
  | .release k => do return { s with wheel := ← s.wheel.step (.expire k) }

/-- The kernel takes at most `len` bytes. -/
def AtMost (len : Nat) : WriteResult → Prop
  | .wrote n => n ≤ len
  | .error _ => True

instance (len : Nat) : ∀ res, Decidable (AtMost len res)
  | .wrote n => inferInstanceAs (Decidable (n ≤ len))
  | .error _ => .isTrue trivial

/-- The kernel hands out a descriptor that no channel is registered with, and reports the events that a
channel has asked for; a connection is destroyed after it has been closed. -/
def Admissible (s : HttpService) : Step → Prop
  | .accept _ fd => ∀ x ∈ s.conns, x.conn.channel.status ≠ .new → x.conn.channel.fd ≠ fd
  | .read k _ _ _ => ∃ x ∈ s.conns[k]?, x.conn.channel.isReading = true
  | .write k res => ∃ x ∈ s.conns[k]?, AtMost x.conn.outputBuffer.readAbleBytes res
  | .hangup k => ∃ x ∈ s.conns[k]?, x.conn.channel.status = .add
  | .release k => ∃ x ∈ s.conns[k]?, x.conn.status = .disconnected
  | .dopendingFunc _ | .ontime => True

instance (s : HttpService) : ∀ act, Decidable (s.Admissible act)
  | .accept _ fd => inferInstanceAs (Decidable (∀ x ∈ s.conns, x.conn.channel.status ≠ .new →
    x.conn.channel.fd ≠ fd))
  | .read k _ _ _ => inferInstanceAs (Decidable (∃ x ∈ s.conns[k]?, x.conn.channel.isReading = true))
  | .write k res => inferInstanceAs (Decidable (∃ x ∈ s.conns[k]?,
    AtMost x.conn.outputBuffer.readAbleBytes res))
  | .hangup k => inferInstanceAs (Decidable (∃ x ∈ s.conns[k]?, x.conn.channel.status = .add))
  | .release k => inferInstanceAs (Decidable (∃ x ∈ s.conns[k]?, x.conn.status = .disconnected))
  | .dopendingFunc _ | .ontime => .isTrue trivial

end HttpService

/-! ## What the functions of a connection leave alone -/

/-- `epoll_ctl` is no change of `channels_`. -/
@[simp] theorem Epoller.update_channels (p : Epoller) (tag : EpollCtl) (ch : Channel) :
    (p.update tag ch).channels = p.channels := by
  unfold Epoller.update
  split <;> rfl

namespace Channel

variable {p p' : Epoller} {ch ch' : Channel} {events : Events}

/-- The interest of a registered channel changes without a change of `channels_`. -/
theorem setEvents_channels (hadd : ch.status = .add) (h : setEvents p ch events = .ok (p', ch')) :
    p'.channels = p.channels ∧ ch'.fd = ch.fd := by
  unfold setEvents Epoller.updateChannel at h
  rw [if_neg (by simp [hadd])] at h
  split at h
  · cases h
    exact ⟨Epoller.update_channels .., rfl⟩
  · cases h
    exact ⟨Epoller.update_channels .., rfl⟩

/-- A new channel is entered where the poller does not have its descriptor. -/
theorem enableReading_new (hnew : ch.status = .new) (hfree : p.channels ch.fd = none) :
    ∃ p' ch', enableReading p ch = .ok (p', ch') ∧ ch'.fd = ch.fd ∧
      p'.channels = Function.update p.channels ch.fd (some ch.address) := by
  unfold enableReading setEvents Epoller.updateChannel Epoller.enter
  simp only [hnew, hfree, true_or, if_true, require_of, ok_bind, pure_eq_ok]
  exact ⟨_, _, rfl, rfl, Epoller.update_channels ..⟩

/-- `disable_all` and `remove` of a registered channel. -/
theorem disableAll_remove (hadd : ch.status = .add) :
    ∃ p₁ ch₁ p₂ ch₂, disableAll p ch = .ok (p₁, ch₁) ∧ remove p₁ ch₁ = .ok (p₂, ch₂) ∧
      ch₂.status = .new ∧ ch₂.events = .none ∧
      p₂.channels = Function.update p.channels ch.fd none := by
  refine ⟨p.update .del { ch with events := .none, addedToLoop := true },
    { ch with events := .none, addedToLoop := true, status := .del }, _, _, ?_, rfl, rfl, rfl, ?_⟩
  · unfold disableAll setEvents Epoller.updateChannel
    rw [if_neg (by simp [hadd])]
    rfl
  · simp

end Channel

namespace TcpConnection

variable {c c' : TcpConnection}

/-- The map of the poller is as before, and the channel is the one of the same descriptor. -/
structure SameMap (c c' : TcpConnection) : Prop where
  channels : c'.poller.channels = c.poller.channels
  fd : c'.channel.fd = c.channel.fd

theorem SameMap.refl (c : TcpConnection) : SameMap c c := ⟨rfl, rfl⟩

theorem Touched.sameMap (h : Touched c c') (hadd : c.channel.status = .add) : SameMap c c' := by
  rcases h.channel with ⟨hp, hch⟩ | ⟨events, hset⟩
  · exact ⟨by rw [hp], by rw [hch]⟩
  · obtain ⟨hchannels, hfd⟩ := Channel.setEvents_channels hadd hset
    exact ⟨hchannels, hfd⟩

/-- The direct `send` of `send_in_loop_` is tried, and the kernel answers that the peer is gone. -/
def Refused (c : TcpConnection) : WriteResult → Prop
  | .wrote _ => False
  | .error errno => (¬ c.channel.isWriting ∧ c.outputBuffer.readAbleBytes = 0) ∧
      (errno = Errno.EPIPE ∨ errno = Errno.ECONNRESET)

instance (c : TcpConnection) : ∀ res, Decidable (c.Refused res)
  | .wrote _ => .isFalse id
  | .error errno => inferInstanceAs (Decidable ((¬ c.channel.isWriting ∧
      c.outputBuffer.readAbleBytes = 0) ∧ (errno = Errno.EPIPE ∨ errno = Errno.ECONNRESET)))

/-- **`send_in_loop_`** on an open connection: the data goes behind the stream, unless the kernel
refuses it; then nothing of it is sent or kept. -/
theorem sendInLoop_stream (hout : c.OutputOk) (hopen : c.status ≠ .disconnected) {data : Bytes}
    {res : WriteResult} (h : c.sendInLoop data res = .ok c') :
    c'.stream = c.stream ++ if c.Refused res then [] else data := by
  obtain ⟨-, -, hstream⟩ := sendInLoop_effect hout h
  by_cases href : c.Refused res
  · rw [if_pos href, List.append_nil]
    cases res with
    | wrote n => exact href.elim
    | error errno =>
      obtain ⟨hidle, herr⟩ := href
      simp only [sendInLoop, if_neg hopen, sendDirect, if_pos hidle, herr, decide_true,
        Nat.sub_zero, le_refl, require_of, ok_bind, not_true_eq_false, false_and, if_false,
        pure_eq_ok] at h
      cases h
      rfl
  · rw [if_neg href]
    rcases hstream with hsent | ⟨hsame, hdisc | ⟨errno, rfl, herr⟩⟩
    · exact hsent
    · exact absurd hdisc hopen
    · -- something is pending, so the kernel has not been asked
      have hbusy : ¬ (¬ c.channel.isWriting ∧ c.outputBuffer.readAbleBytes = 0) :=
        fun hidle => href ⟨hidle, herr⟩
      simp only [sendInLoop, if_neg hopen, sendDirect, if_neg hbusy, Nat.sub_zero, le_refl,
        require_of, ok_bind, List.drop_zero] at h
      by_cases hempty : data = []
      · rw [hsame, hempty, List.append_nil]
      · have hpos : 0 < data.length := List.length_pos_iff.2 hempty
        rw [if_pos ⟨by simp, hpos⟩] at h
        exact (sendRest_effect hout hempty h).2.2

/-- `build_connect` on a poller that does not have the descriptor. -/
theorem make_buildConnect_returns {p : Epoller} (address : Nat) {fd : Int} (wc : Bool)
    (hfree : p.channels fd = none) :
    ∃ c, (make p address fd wc).buildConnect = .ok c ∧ c.channel.fd = fd ∧
      c.poller.channels = Function.update p.channels fd (some address) ∧
      c.inputBuffer.readable = [] := by
  obtain ⟨p', ch', hop, hfd, hchannels⟩ := Channel.enableReading_new
    (show (Channel.make address fd).status = .new from rfl) hfree
  refine ⟨{ make p' address fd wc with
    status := .connected, channel := ch', invoked := [.connection] }, ?_, hfd, hchannels,
    Buffer.make_readable _⟩
  unfold buildConnect onChannel
  rw [require_of (by rfl), ok_bind]
  simp only [make, hop, ok_bind, pure_eq_ok, invoke, List.nil_append]

/-- **`handle_close_` with `destroy_connect`**, for an open connection: its bytes stay what they are,
and the poller forgets the descriptor. -/
theorem handleClose_destroyConnect (hst : c.status = .connected ∨ c.status = .disconnecting)
    (hadd : c.channel.status = .add) :
    ∃ d e, c.handleClose = .ok d ∧ d.destroyConnect = .ok e ∧ e.status = .disconnected ∧
      e.channel.status = .new ∧ e.channel.events = .none ∧ e.outputBuffer = c.outputBuffer ∧
      e.inputBuffer = c.inputBuffer ∧ e.socket = c.socket ∧
      e.poller.channels = Function.update c.poller.channels c.channel.fd none := by
  obtain ⟨p₁, ch₁, p₂, ch₂, hoff, hremove, hnew, hnone, hchannels⟩ :=
    Channel.disableAll_remove (p := c.poller) hadd
  refine ⟨{ c with status := .disconnected, poller := p₁, channel := ch₁,
                   invoked := c.invoked ++ [.connection] ++ [.close] },
    { c with status := .disconnected, poller := p₂, channel := ch₂,
             invoked := c.invoked ++ [.connection] ++ [.close] },
    ?_, ?_, rfl, hnew, hnone, rfl, rfl, rfl, hchannels⟩
  · unfold handleClose onChannel
    rw [require_of hst, ok_bind]
    simp only [hoff, ok_bind, pure_eq_ok, invoke]
  · unfold destroyConnect onChannel
    rw [if_neg (by simp)]
    simp only [hremove, ok_bind, pure_eq_ok]

end TcpConnection

namespace HttpConn

/-! ## One connection -/

variable {env : HttpEnv} {x x' : HttpConn}

/-- What holds of an open connection between two steps: nothing is left in the write buffer of the
context. -/
structure Ready (x : HttpConn) : Prop where
  conn : x.conn.Open
  context : x.context.Wf
  sent : x.context.writeBuff.readable = []

theorem sendWritten_spec (ho : x.conn.Open) (hw : x.context.Wf) (hconn : x.conn.status = .connected)
    (res : WriteResult) :
    ∃ x', x.sendWritten res = .ok x' ∧ x'.Ready ∧
      x'.conn.stream = x.conn.stream ++
        (if x.conn.Refused res then [] else x.context.writeBuff.readable) ∧
      x'.context.readBuff = x.context.readBuff ∧ x'.conn.inputBuffer = x.conn.inputBuffer ∧
      TcpConnection.SameLife x.conn x'.conn ∧ TcpConnection.SameMap x.conn x'.conn := by
  obtain ⟨conn, hsend, hr⟩ := TcpConnection.sendInLoop_returns ho.output ho.reading
    x.context.writeBuff.readable res
  obtain ⟨hout, hin, -⟩ := TcpConnection.sendInLoop_effect ho.output hsend
  have hstream := TcpConnection.sendInLoop_stream ho.output (by simp [hconn]) hsend
  have htouched := TcpConnection.sendInLoop_touched hsend
  refine ⟨{ conn, context := { x.context with writeBuff := x.context.writeBuff.retrieveAll } }, ?_,
    ⟨⟨hout, hr, ?_⟩, ⟨hw.readBuff, Buffer.retrieveAll_wf hw.writeBuff⟩,
      Buffer.retrieveAll_readable _⟩, hstream, rfl, hin, htouched.toSameLife,
    htouched.sameMap ho.reading.added⟩
  · simp only [sendWritten, if_pos hconn, hsend, ok_bind, pure_eq_ok]
  · show conn.inputBuffer.Wf
    rw [hin]
    exact ho.input

theorem read_takes {ctx ctx' : HttpContext} {buff buff' : Buffer} {n : Nat} (hb : buff.Wf)
    (h : ctx.read env buff = .ok (ctx', buff', n)) : buff'.Wf ∧ buff'.readable = [] := by
  obtain ⟨taken, htaken, hw, hempty⟩ := Buffer.retrieveAllString_spec hb
  unfold HttpContext.read at h
  rw [htaken, ok_bind] at h
  obtain ⟨readBuff, -, h⟩ := bind_eq_ok.1 h
  obtain ⟨processed, -, h⟩ := bind_eq_ok.1 h
  cases h
  exact ⟨hw, hempty⟩

/-- `x'` is `x` with `served.2` sent, unless it was refused, and `served.1` unread; the input has been
taken over. -/
structure Responded (res : WriteResult) (x x' : HttpConn) (served : Bytes × Bytes) : Prop where
  ready : x'.Ready
  stream : x'.conn.stream = x.conn.stream ++ if x.conn.Refused res then [] else served.2
  unread : x'.context.readBuff.readable = served.1
  taken : x'.conn.inputBuffer.readable = []
  life : TcpConnection.SameLife x.conn x'.conn
  map : TcpConnection.SameMap x.conn x'.conn

/-- **The answer to a message** on a connection with a live entry is what `serve` computes from the
unread bytes and the new ones, and it goes behind everything that was sent before. -/
theorem respond_refines (env : HttpEnv) (h : x.Ready) (hconn : x.conn.status = .connected)
    (hne : x.conn.inputBuffer.readable ≠ []) (res : WriteResult) :
    Refines (Responded res x) (x.respond env res)
      (serve env (x.context.readBuff.readable ++ x.conn.inputBuffer.readable)) := by
  have hread := (HttpContext.read_refines env h.context h.conn.input hne).and
    (P := fun a => a.2.1.Wf ∧ a.2.1.readable = []) fun _ ha => read_takes h.conn.input ha
  unfold respond
  rw [← bind_pure (serve env _)]
  refine hread.bind ?_
  rintro ⟨context, buff, n⟩ served ⟨hserved, hbuff, hempty⟩
  have ho : TcpConnection.Open { x.conn with inputBuffer := buff } :=
    ⟨⟨h.conn.output.wf, h.conn.output.interest⟩, ⟨h.conn.reading.added, h.conn.reading.read⟩, hbuff⟩
  obtain ⟨x', hsend, hready, hstream, hunread, hin, hlife, hmap⟩ := sendWritten_spec
    (x := { conn := { x.conn with inputBuffer := buff }, context }) ho hserved.wf hconn res
  simp only [hsend, pure_eq_ok]
  refine .ok ⟨hready, ?_, ?_, ?_, ⟨hlife.status, hlife.shutdownWrites⟩, ⟨hmap.channels, hmap.fd⟩⟩
  · rw [hstream, hserved.written, h.sent, List.nil_append]
    rfl
  · rw [hunread, hserved.unread]
  · rw [hin, hempty]

end HttpConn
