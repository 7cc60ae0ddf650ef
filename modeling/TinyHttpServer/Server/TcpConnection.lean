import TinyHttpServer.Base.Buffer
import TinyHttpServer.Event.Channel

/-!
# TCP connections (`src/server/tcpconnection.cc`)

The state of one `TcpConnection` together with what its functions reach: the poller and the
functor queue of its loop, and its socket.  The functions run in the loop thread.

* The kernel's side of `send`, `write` and `readv` is an argument of the function that calls it.
* A user callback is recorded when it is invoked.  What it does with the connection (sending,
  reading the input buffer, shutting down) are the steps that follow.
-/

set_option autoImplicit false

open Checked

/-- `TcpConnection::Status`. -/
inductive TcpConnection.Status where
  | disconnected
  | connecting
  | connected
  | disconnecting
  deriving DecidableEq, Repr

/-- The functors that a connection queues in its loop. -/
inductive TcpConnection.PendingFunc where
  | writeComplete
  | highWaterMark (len : Nat)
  | forceCloseInLoop
  deriving DecidableEq, Repr

/-- The user callbacks of a connection. -/
inductive TcpConnection.Callback where
  | connection
  | message
  | writeComplete
  | highWaterMark (len : Nat)
  | close
  deriving DecidableEq, Repr

/-- The socket: the bytes that the kernel has accepted, and for each call of `shutdown_write`
the number of bytes that `output_buffer_` held at the call. -/
structure Socket where
  accepted : Bytes
  shutdownWrites : List Nat
  deriving DecidableEq, Repr

namespace Errno

def EPIPE : Int := 32
def ECONNRESET : Int := 104

end Errno

/-- `class TcpConnection`.  The two booleans say whether the callback is set. -/
structure TcpConnection where
  poller : Epoller
  pendingFunc : List TcpConnection.PendingFunc
  invoked : List TcpConnection.Callback
  status : TcpConnection.Status
  reading : Bool
  socket : Socket
  channel : Channel
  writeCompleteCb : Bool
  highWaterMarkCb : Bool
  highWaterMark : Nat
  inputBuffer : Buffer
  outputBuffer : Buffer

namespace TcpConnection

/-- The constructor, for a descriptor and a channel of the given address. -/
def make (poller : Epoller) (address : Nat) (fd : Int) (writeCompleteCb : Bool) : TcpConnection :=
  { poller
    pendingFunc := []
    invoked := []
    status := .connecting
    reading := true
    socket := { accepted := [], shutdownWrites := [] }
    channel := Channel.make address fd
    writeCompleteCb
    highWaterMarkCb := true
    highWaterMark := 64 * 1024 * 1024
    inputBuffer := Buffer.make Buffer.initialSizeDefault
    outputBuffer := Buffer.make Buffer.initialSizeDefault }

def queueInLoop (c : TcpConnection) (f : PendingFunc) : TcpConnection :=
  { c with pendingFunc := c.pendingFunc ++ [f] }

def invoke (c : TcpConnection) (cb : Callback) : TcpConnection :=
  { c with invoked := c.invoked ++ [cb] }

/-- An operation of `channel_`. -/
def onChannel (c : TcpConnection) (op : Epoller → Channel → Checked (Epoller × Channel)) :
    Checked TcpConnection := do
  let (poller, channel) ← op c.poller c.channel
  return { c with poller, channel }

/-- `socket_->shutdown_write()`. -/
def shutdownWrite (c : TcpConnection) : TcpConnection :=
  { c with socket :=
    { c.socket with
      shutdownWrites := c.socket.shutdownWrites ++ [c.outputBuffer.readAbleBytes] } }

/-- The kernel takes `bytes`. -/
def accept (c : TcpConnection) (bytes : Bytes) : TcpConnection :=
  { c with socket := { c.socket with accepted := c.socket.accepted ++ bytes } }

/-- `build_connect`. -/
def buildConnect (c : TcpConnection) : Checked TcpConnection := do
  require (c.status = .connecting)
  let c := { c with status := .connected }
  let c ← c.onChannel Channel.enableReading
  return c.invoke .connection

/-- `destroy_connect`. -/
def destroyConnect (c : TcpConnection) : Checked TcpConnection := do
  let c ← (if c.status = .connected then do
      let c := { c with status := .disconnecting }
      let c ← c.onChannel Channel.disableAll
      return c.invoke .connection
    else return c)
  c.onChannel Channel.remove

/-- `shutdown_in_loop_`. -/
def shutdownInLoop (c : TcpConnection) : TcpConnection :=
  if c.status = .connected then
    let c := { c with status := .disconnecting }
    if c.channel.isWriting then c else c.shutdownWrite
  else c

/-- `shutdown`, in the loop thread. -/
def shutdown (c : TcpConnection) : TcpConnection := c.shutdownInLoop

/-- `force_close`. -/
def forceClose (c : TcpConnection) : TcpConnection :=
  if c.status = .connected ∨ c.status = .connecting then
    queueInLoop { c with status := .disconnecting } .forceCloseInLoop
  else c

/-- `handle_close_`. -/
def handleClose (c : TcpConnection) : Checked TcpConnection := do
  require (c.status = .connected ∨ c.status = .disconnecting)
  let c := { c with status := .disconnected }
  let c ← c.onChannel Channel.disableAll
  return (c.invoke .connection).invoke .close

/-- `force_close_in_loop_`. -/
def forceCloseInLoop (c : TcpConnection) : Checked TcpConnection :=
  if c.status = .connected ∧ c.status = .connecting then c.handleClose else return c

/-- `handle_read_`. -/
def handleRead (c : TcpConnection) (res : ReadResult) : Checked TcpConnection := do
  let inputBuffer ← c.inputBuffer.readFd res
  let c := { c with inputBuffer }
  match res with
  | .data [] => c.handleClose
  | .data (_ :: _) => return c.invoke .message
  | .error _ => return c

/-- The part of `handle_write_` after the last pending byte was written. -/
def writeDrained (c : TcpConnection) : Checked TcpConnection := do
  let c ← c.onChannel Channel.disableWriting
  let c := if c.writeCompleteCb then c.queueInLoop .writeComplete else c
  return if c.status = .disconnecting then c.shutdownInLoop else c

/-- `handle_write_`; `write` is offered the readable bytes of `output_buffer_`. -/
def handleWrite (c : TcpConnection) (res : WriteResult) : Checked TcpConnection :=
  if c.channel.isWriting then
    match res with
    | .error _ => return c
    | .wrote n => do
      let c := c.accept (c.outputBuffer.readable.take n)
      if 0 < n then
        let outputBuffer ← c.outputBuffer.retrieve n
        let c := { c with outputBuffer }
        if c.outputBuffer.readAbleBytes = 0 then c.writeDrained else return c
      else return c
  else return c

/-- The high-water mark callback is queued when `remaining` further bytes reach the mark. -/
def noteHighWaterMark (c : TcpConnection) (remaining : Nat) : TcpConnection :=
  let oldLen := c.outputBuffer.readAbleBytes
  if c.highWaterMark ≤ oldLen + remaining ∧ oldLen < c.highWaterMark ∧ c.highWaterMarkCb then
    c.queueInLoop (.highWaterMark (oldLen + remaining))
  else c

/-- The second half of `send_in_loop_`: what the kernel did not take goes to `output_buffer_`. -/
def sendRest (c : TcpConnection) (rest : Bytes) : Checked TcpConnection := do
  let c := c.noteHighWaterMark rest.length
  let outputBuffer ← c.outputBuffer.append rest
  let c := { c with outputBuffer }
  if c.channel.isWriting then return c else c.onChannel Channel.enableWriting

/-- The direct `send` of `send_in_loop_`: the connection after it, the number of bytes that the
kernel took and the flag `fault_error`. -/
def sendDirect (c : TcpConnection) (data : Bytes) (res : WriteResult) :
    TcpConnection × Nat × Bool :=
  if ¬ c.channel.isWriting ∧ c.outputBuffer.readAbleBytes = 0 then
    match res with
    | .wrote n =>
      let c := c.accept (data.take n)
      (if data.length - n = 0 ∧ c.writeCompleteCb then c.queueInLoop .writeComplete else c, n, false)
    | .error errno => (c, 0, errno = Errno.EPIPE ∨ errno = Errno.ECONNRESET)
  else (c, 0, false)

/-- `send_in_loop_`. -/
def sendInLoop (c : TcpConnection) (data : Bytes) (res : WriteResult) : Checked TcpConnection :=
  if c.status = .disconnected then return c
  else do
    let (c, nwrote, faultError) := c.sendDirect data res
    let remaining := data.length - nwrote
    require (remaining ≤ data.length)
    if ¬ faultError ∧ 0 < remaining then c.sendRest (data.drop nwrote) else return c

/-- `send`, in the loop thread. -/
def send (c : TcpConnection) (message : Bytes) (res : WriteResult) : Checked TcpConnection :=
  if c.status = .connected then c.sendInLoop message res else return c

/-- `start_read_in_loop_`. -/
def startReadInLoop (c : TcpConnection) : Checked TcpConnection :=
  if ¬ c.reading ∨ ¬ c.channel.isReading then do
    let c ← c.onChannel Channel.enableReading
    return { c with reading := true }
  else return c

/-- `stop_read_in_loop_`. -/
def stopReadInLoop (c : TcpConnection) : Checked TcpConnection :=
  if c.reading ∨ c.channel.isReading then do
    let c ← c.onChannel Channel.disableReading
    return { c with reading := false }
  else return c

/-- A functor of the loop's queue is executed. -/
def runFunctor (c : TcpConnection) : PendingFunc → Checked TcpConnection
  | .writeComplete => return c.invoke .writeComplete
  | .highWaterMark len => return c.invoke (.highWaterMark len)
  | .forceCloseInLoop => c.forceCloseInLoop

/-! ## Steps -/

/-- What can happen to a connection in its loop: calls by user code, events, and the execution
of queued functors.  `sendInLoop`, `startRead` and `stopRead` also stand for the execution of
functors that other threads have queued. -/
inductive Step where
  | send (message : Bytes) (res : WriteResult)
  | sendInLoop (data : Bytes) (res : WriteResult)
  | shutdown
  | forceClose
  | startRead
  | stopRead
  | retrieveInput (len : Nat)
  | handleRead (res : ReadResult)
  | handleWrite (res : WriteResult)
  | handleClose
  | dopendingFunc
  | destroyConnect
  deriving DecidableEq, Repr

/-- The effect of a step. -/
def step (c : TcpConnection) : Step → Checked TcpConnection
  | .send message res => c.send message res
  | .sendInLoop data res => c.sendInLoop data res
  | .shutdown => return c.shutdown
  | .forceClose => return c.forceClose
  | .startRead => c.startReadInLoop
  | .stopRead => c.stopReadInLoop
  | .retrieveInput len => do return { c with inputBuffer := ← c.inputBuffer.retrieve len }
  | .handleRead res => c.handleRead res
  | .handleWrite res => c.handleWrite res
  | .handleClose => c.handleClose
  | .dopendingFunc =>
    match c.pendingFunc with
    | [] => return c
    | f :: fs => runFunctor { c with pendingFunc := fs } f
  | .destroyConnect => c.destroyConnect

/-- What the kernel can answer: it takes at most the bytes that it is offered. -/
def KernelOk (c : TcpConnection) : Step → Prop
  | .send message (.wrote n) => n ≤ message.length
  | .sendInLoop data (.wrote n) => n ≤ data.length
  | .handleWrite (.wrote n) => n ≤ c.outputBuffer.readAbleBytes
  | .handleRead (.data bytes) =>
    bytes.length ≤ c.inputBuffer.writeAbleBytes + Buffer.extrabufSize
  | _ => True

instance (c : TcpConnection) (s : Step) : Decidable (c.KernelOk s) := by
  unfold KernelOk; split <;> infer_instance

end TcpConnection
