import TinyHttpServer.Http.HttpResponse
import TinyHttpServer.Lib.Run
import TinyHttpServer.Server.TcpConnection

/-!
# The server and its loops (`src/server/tcpserver.cc`, `src/server/eventloopthreadpool.cc`)

The base loop, any number of IO loops and the connections that are spread over them.  A loop is
known by a number, the base loop by `0`; a connection is known by a number that stands for its
address.  The loops share the queues of functors and the map `connection_`.

* `run_in_loop` runs the functor at once in the target loop and queues it in every other loop.
* User callbacks call `send` and `shutdown` of any connections.  What they call is part of the step
  in which they run.
* Only the channels of connections are in the pollers of the model.
-/

set_option autoImplicit false

open Checked Machine

/-- The functors in the queues of the loops. -/
inductive TcpServer.Functor where
  | buildConnect (i : Nat)
  | removeConnectionInLoop (i : Nat)
  | destroyConnect (i : Nat)
  | sendInLoop (i : Nat) (data : Bytes)
  | shutdownInLoop (i : Nat)
  | pending (i : Nat) (f : TcpConnection.PendingFunc)
  deriving DecidableEq, Repr

/-- A call that user code makes; `res` is the kernel's answer to a direct `send`. -/
inductive TcpServer.UserCall where
  | send (i : Nat) (message : Bytes) (res : WriteResult)
  | shutdown (i : Nat)
  deriving DecidableEq, Repr

/-- The calls of each user callback. -/
abbrev TcpServer.UserCode := TcpConnection.Callback → List TcpServer.UserCall

/-- What is recorded about a connection: the calls of its functions, the dispatched events, and the
calls of `connection_cb_` with the status at the call. -/
inductive TcpServer.LifeEvent where
  | buildConnect
  | connectionCb (status : TcpConnection.Status)
  | handleEvent
  | removeConnectionInLoop
  | destroyConnect
  deriving DecidableEq, Repr

/-- A connection, the loop and the name that it was created with, and its record.  The poller and
the functors of `conn` are those of its loop; they are put in place when one of its functions runs. -/
structure ServerConn where
  loop : Nat
  name : Bytes
  conn : TcpConnection
  life : List TcpServer.LifeEvent

/-- The parts of an `EventLoop` that the server uses. -/
structure ServerLoop where
  poller : Epoller
  pendingFunc : List TcpServer.Functor

/-- `class EventLoopThreadPool`, after `start`. -/
structure EventLoopThreadPool where
  loops : List Nat
  next : Nat
  deriving DecidableEq, Repr

/-- `get_loop`. -/
def EventLoopThreadPool.getLoop (pool : EventLoopThreadPool) :
    Checked (Nat × EventLoopThreadPool) :=
  if pool.loops = [] then return (0, pool)
  else do
    let loop ← nth pool.loops pool.next
    let next := pool.next + 1
    return (loop, { pool with next := if pool.loops.length ≤ next then 0 else next })

/-- `class TcpServer`, with the loops and the connections.  `accepted` is the number of connections
accepted so far, and the next free address. -/
structure TcpServer where
  name : Bytes
  ipPort : Bytes
  writeCompleteCb : Bool
  threadPool : EventLoopThreadPool
  nextId : Int
  connection : Bytes → Option Nat
  conns : Nat → Option ServerConn
  accepted : Nat
  loops : Nat → ServerLoop

/-- The kernel takes at most the bytes that it is offered. -/
def WriteResult.upTo (res : WriteResult) (len : Nat) : WriteResult :=
  match res with
  | .wrote n => .wrote (min n len)
  | .error errno => .error errno

/-- `revents_`. -/
structure Revents where
  pollin : Bool
  pollpri : Bool
  pollout : Bool
  pollerr : Bool
  pollhup : Bool
  pollnval : Bool
  pollrdhup : Bool
  deriving DecidableEq, Repr

namespace TcpServer

/-- After `start`, with the given number of IO threads. -/
def make (name ipPort : Bytes) (writeCompleteCb : Bool) (numThreads : Nat) : TcpServer :=
  { name
    ipPort
    writeCompleteCb
    threadPool := { loops := (List.range numThreads).map (· + 1), next := 0 }
    nextId := 1
    connection := fun _ => none
    conns := fun _ => none
    accepted := 0
    loops := fun _ => { poller := Epoller.make, pendingFunc := [] } }

/-- A change of the queue of a loop. -/
def setPending (s : TcpServer) (l : Nat) (fs : List Functor) : TcpServer :=
  { s with loops := Function.update s.loops l { s.loops l with pendingFunc := fs } }

/-- `queue_in_loop`. -/
def queueInLoop (s : TcpServer) (l : Nat) (f : Functor) : TcpServer :=
  s.setPending l ((s.loops l).pendingFunc ++ [f])

/-- `run_in_loop` of loop `l`, called in loop `cur`; `now` is what the functor does. -/
def runInLoop (s : TcpServer) (cur l : Nat) (f : Functor) (now : TcpServer → Checked TcpServer) :
    Checked TcpServer :=
  if cur = l then now s else return s.queueInLoop l f

/-- Access through a pointer to a connection. -/
def deref (s : TcpServer) (i : Nat) : Checked ServerConn :=
  match s.conns i with
  | some sc => return sc
  | none => .error .invalidAccess

/-! ## Functions of a connection -/

/-- A connection as its functions see it. -/
def view (s : TcpServer) (sc : ServerConn) : TcpConnection :=
  { sc.conn with poller := (s.loops sc.loop).poller, pendingFunc := [], invoked := [] }

/-- The calls of `connection_cb_` in a function that left the connection as `c`. -/
def connectionCbs (c : TcpConnection) : List LifeEvent :=
  (c.invoked.filter (· = .connection)).map fun _ => .connectionCb c.status

/-- The connection at `i` has become `c`; its poller and the functors that it queued go to its
loop. -/
def store (s : TcpServer) (i : Nat) (sc : ServerConn) (entry : List LifeEvent) (c : TcpConnection) :
    TcpServer :=
  { s with
    conns := Function.update s.conns i
      (some { sc with conn := c, life := sc.life ++ (entry ++ connectionCbs c) })
    loops := Function.update s.loops sc.loop
      { poller := c.poller
        pendingFunc := (s.loops sc.loop).pendingFunc ++ c.pendingFunc.map (.pending i) } }

/-- A function of the connection at `i` runs in loop `cur`, after its `assert_in_loop`. -/
def onConn (s : TcpServer) (cur i : Nat) (entry : List LifeEvent)
    (op : TcpConnection → Checked TcpConnection) : Checked TcpServer := do
  let sc ← s.deref i
  require (cur = sc.loop)
  let c ← op (s.view sc)
  return s.store i sc entry c

/-- An entry in the record of a connection; the connection is left as it is. -/
def note (s : TcpServer) (i : Nat) (e : LifeEvent) : Checked TcpServer := do
  let sc ← s.deref i
  return s.store i sc [e] (s.view sc)

/-! ## User code -/

/-- `TcpConnection::send` and `TcpConnection::shutdown`, called in loop `cur`.  A `send` for another
loop tests the status and queues its functor in one step here; `Threaded` has the two apart. -/
def userCall (s : TcpServer) (cur : Nat) : UserCall → Checked TcpServer
  | .send i message res =>
    match s.conns i with
    | none => return s
    | some sc =>
      if cur = sc.loop then s.onConn cur i [] (·.send message (res.upTo message.length))
      else if sc.conn.status = .connected then return s.queueInLoop sc.loop (.sendInLoop i message)
      else return s
  | .shutdown i =>
    match s.conns i with
    | none => return s
    | some sc => s.runInLoop cur sc.loop (.shutdownInLoop i) fun s =>
        s.onConn cur i [] fun c => return c.shutdownInLoop

/-- The calls of one callback. -/
def userCalls (s : TcpServer) (cur : Nat) (calls : List UserCall) : Checked TcpServer :=
  run (fun s call => s.userCall cur call) s calls

/-! ## Opening and closing -/

/-- `TcpConnection::build_connect`. -/
def buildConnect (s : TcpServer) (cur i : Nat) (code : UserCode) : Checked TcpServer := do
  let s ← s.onConn cur i [.buildConnect] TcpConnection.buildConnect
  s.userCalls cur (code .connection)

/-- The part of `destroy_connect` for a connection that is still connected. -/
def takeDown (c : TcpConnection) : Checked TcpConnection := do
  let c := { c with status := .disconnecting }
  let c ← c.onChannel Channel.disableAll
  return c.invoke .connection

/-- `TcpConnection::destroy_connect`. -/
def destroyConnect (s : TcpServer) (cur i : Nat) (code : UserCode) : Checked TcpServer := do
  let sc ← s.deref i
  let s ← (if sc.conn.status = .connected then do
      let s ← s.onConn cur i [] takeDown
      s.userCalls cur (code .connection)
    else return s)
  s.onConn cur i [.destroyConnect] (·.onChannel Channel.remove)

/-- `remove_connection_in_loop`. -/
def removeConnectionInLoop (s : TcpServer) (cur i : Nat) (code : UserCode) : Checked TcpServer := do
  require (cur = 0)
  let sc ← s.deref i
  -- `n == 1`
  require ((s.connection sc.name).isSome)
  let s := { s with connection := Function.update s.connection sc.name none }
  let s ← s.note i .removeConnectionInLoop
  s.runInLoop cur sc.loop (.destroyConnect i) fun s => s.destroyConnect cur i code

/-- `remove_connection`. -/
def removeConnection (s : TcpServer) (cur i : Nat) (code : UserCode) : Checked TcpServer :=
  s.runInLoop cur 0 (.removeConnectionInLoop i) fun s => s.removeConnectionInLoop cur i code

/-- The callbacks at the end of `handle_close_`: `connection_cb_`, and `close_cb_`, which is
`remove_connection`. -/
def closeCallbacks (s : TcpServer) (cur i : Nat) (code : UserCode) : Checked TcpServer := do
  let s ← s.userCalls cur (code .connection)
  s.removeConnection cur i code

/-- `TcpConnection::handle_close_`. -/
def handleClose (s : TcpServer) (cur i : Nat) (code : UserCode) : Checked TcpServer := do
  let s ← s.onConn cur i [] TcpConnection.handleClose
  s.closeCallbacks cur i code

/-- `TcpConnection::handle_read_`; an end of file closes the connection. -/
def handleRead (s : TcpServer) (cur i : Nat) (res : ReadResult) (code : UserCode) :
    Checked TcpServer := do
  let s ← s.onConn cur i [] (·.handleRead res)
  match res with
  | .data [] => s.closeCallbacks cur i code
  | .data (_ :: _) => s.userCalls cur (code .message)
  | .error _ => return s

/-- `TcpConnection::handle_write_`. -/
def handleWrite (s : TcpServer) (cur i : Nat) (res : WriteResult) : Checked TcpServer :=
  s.onConn cur i [] fun c => c.handleWrite (res.upTo c.outputBuffer.readAbleBytes)

/-- `Channel::handle_event` of the channel of a connection. -/
def handleEvent (s : TcpServer) (cur i : Nat) (revents : Revents) (read : ReadResult)
    (write : WriteResult) (code : UserCode) : Checked TcpServer := do
  let s ← s.note i .handleEvent
  let s ← (if revents.pollhup ∧ ¬ revents.pollin then s.handleClose cur i code else return s)
  -- `POLLERR` and `POLLNVAL`: `handle_error_` logs and does nothing else
  let s ← (if revents.pollin ∨ revents.pollpri ∨ revents.pollrdhup then s.handleRead cur i read code
    else return s)
  if revents.pollout then s.handleWrite cur i write else return s

/-! ## Accepting -/

/-- The name of a connection. -/
def connName (s : TcpServer) (id : Int) : Bytes :=
  s.name ++ str "-" ++ s.ipPort ++ str "#" ++ intStr id

/-- `new_connection`; `next_id` is an `int`. -/
def newConnection (s : TcpServer) (fd : Int) (code : UserCode) : Checked TcpServer := do
  let (loop, threadPool) ← s.threadPool.getLoop
  let i := s.accepted
  let name := s.connName s.nextId
  let conn := TcpConnection.make (s.loops loop).poller i fd s.writeCompleteCb
  let s := { s with
    threadPool
    nextId := (s.nextId + 1).bmod (2 ^ 32)
    connection := Function.update s.connection name (some i)
    conns := Function.update s.conns i (some { loop, name, conn, life := [] })
    accepted := i + 1 }
  s.runInLoop 0 loop (.buildConnect i) fun s => s.buildConnect 0 i code

/-! ## Steps -/

/-- The user code of a queued callback. -/
def pendingCalls (code : UserCode) : TcpConnection.PendingFunc → List UserCall
  | .writeComplete => code .writeComplete
  | .highWaterMark len => code (.highWaterMark len)
  | .forceCloseInLoop => []

/-- Loop `cur` executes a functor. -/
def execute (s : TcpServer) (cur : Nat) (res : WriteResult) (code : UserCode) :
    Functor → Checked TcpServer
  | .buildConnect i => s.buildConnect cur i code
  | .removeConnectionInLoop i => s.removeConnectionInLoop cur i code
  | .destroyConnect i => s.destroyConnect cur i code
  | .sendInLoop i data => s.onConn cur i [] (·.sendInLoop data (res.upTo data.length))
  | .shutdownInLoop i => s.onConn cur i [] fun c => return c.shutdownInLoop
  | .pending i f => do
    let s ← s.onConn cur i [] (·.runFunctor f)
    s.userCalls cur (pendingCalls code f)

/-- What can happen: the base loop accepts a connection with descriptor `fd`, the loop of a
connection dispatches an event on its channel, and loop `l` executes the next functor of its queue. -/
inductive Act where
  | accept (fd : Int) (code : UserCode)
  | event (i : Nat) (revents : Revents) (read : ReadResult) (write : WriteResult) (code : UserCode)
  | exec (l : Nat) (res : WriteResult) (code : UserCode)

def step (s : TcpServer) : Act → Checked TcpServer
  | .accept fd code => s.newConnection fd code
  | .event i revents read write code => do
    let sc ← s.deref i
    s.handleEvent sc.loop i revents read write code
  | .exec l res code =>
    match (s.loops l).pendingFunc with
    | [] => return s
    | f :: fs => (s.setPending l fs).execute l res code f

/-- The descriptor is not that of a connection; a descriptor is closed with its connection, which
lives until `destroy_connect` has run. -/
def FreshFd (s : TcpServer) (fd : Int) : Prop :=
  ∀ i < s.accepted, ∀ sc ∈ s.conns i, .destroyConnect ∉ sc.life → sc.conn.channel.fd ≠ fd

/-- The kernel has the channel of the connection in its list. -/
def Registered (s : TcpServer) (i : Nat) : Prop :=
  ∃ sc ∈ s.conns i, (s.loops sc.loop).poller.channels sc.conn.channel.fd = some i ∧
    (s.loops sc.loop).poller.interest sc.conn.channel.fd ≠ none

/-- What the kernel does: descriptors in use are not given out again, events are reported for
registered channels, and `POLLHUP` without `POLLIN` comes without `POLLPRI` and `POLLRDHUP`.  Fewer than
`2 ^ 31` connections are accepted. -/
def Admissible (s : TcpServer) : Act → Prop
  | .accept fd _ => s.FreshFd fd ∧ s.accepted + 1 < 2 ^ 31
  | .event i revents _ _ _ => s.Registered i ∧
    (revents.pollhup ∧ ¬ revents.pollin → ¬ revents.pollpri ∧ ¬ revents.pollrdhup)
  | .exec _ _ _ => True

end TcpServer
