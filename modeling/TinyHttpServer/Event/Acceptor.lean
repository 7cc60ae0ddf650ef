import TinyHttpServer.Lib.Run

/-!
# The acceptor (`src/event/acceptor.cc`, `src/server/socketserver.cc`)

`handle_read_` accepts one connection.  When the descriptors are exhausted, `::accept` fails with
`EMFILE` and leaves the connection pending; the acceptor then closes `idle_fd_`, accepts the connection
in the slot that has become free, closes it and opens `idle_fd_` again.

The thread has one `errno`, which every failing call sets (`Sys.emit`), and everything it does is
recorded.  What the kernel answers, and the error codes that the library calls inside a log statement
or in the callback leave behind, are arguments.

* `accept_error` — after a failing `::accept`, `setnonblocking(-1)` fails too, so that the code which
  `accept` saves and classifies is `EBADF`, whatever the reason of the failure was.
* `sheds_iff`, `handle_read_sheds_iff` — one call, and every call of a run, does what the idle
  descriptor is there for if and only if the calls meet `Answers.Survives`.
* `exhausted_not_shed` — one call of `::accept` that fails with `EMFILE`.
-/

set_option autoImplicit false

open Checked Machine

namespace Errno

def EPERM : Int := 1
def EINTR : Int := 4
def EBADF : Int := 9
def EAGAIN : Int := 11
def ENOMEM : Int := 12
def EFAULT : Int := 14
def EINVAL : Int := 22
def ENFILE : Int := 23
def EMFILE : Int := 24
def EPROTO : Int := 71
def ENOTSOCK : Int := 88
def EOPNOTSUPP : Int := 95
def ECONNABORTED : Int := 103
def ENOBUFS : Int := 105

end Errno

open Errno

/-- The result of a system call that makes a descriptor. -/
inductive FdResult where
  | fd (n : Nat)
  | error (errno : Int)
  deriving DecidableEq, Repr

/-- The value returned. -/
def FdResult.ret : FdResult → Int
  | .fd n => n
  | .error _ => -1

/-- The error code left in `errno`, if any. -/
def FdResult.failed : FdResult → Option Int
  | .fd _ => none
  | .error errno => some errno

theorem FdResult.failed_eq_none {res : FdResult} : res.failed = none ↔ ∃ n, res = .fd n := by
  cases res <;> simp [FdResult.failed]

/-- What the thread does, in the order in which it does it. -/
inductive Event (Addr : Type) where
  | accept (res : FdResult)
  | getfl (fd : Int)
  | setfl (fd : Int) (option : BitVec 32)
  | logWarn (text : String)
  | logError (text : String)
  | newConn (connfd : Int) (peeraddr : Addr)
  | close (fd : Int)
  | openNull (res : FdResult)
  deriving DecidableEq, Repr

/-- `errno` and the record of the thread. -/
structure Sys (Addr : Type) where
  errno : Int
  events : List (Event Addr)

namespace Sys

variable {Addr : Type}

/-- A call is made; `failed` is the error code it leaves behind, if any. -/
def emit (s : Sys Addr) (event : Event Addr) (failed : Option Int) : Sys Addr :=
  { errno := failed.getD s.errno, events := s.events ++ [event] }

/-- A call on a descriptor that is not one fails with `EBADF`. -/
def badFd (fd : Int) : Option Int := if fd < 0 then some EBADF else none

/-- `::accept`. -/
def accept (s : Sys Addr) (res : FdResult) : Int × Sys Addr :=
  (res.ret, s.emit (.accept res) res.failed)

/-- `fcntl(fd, F_GETFL)`; `flags` are those of an open descriptor. -/
def getfl (s : Sys Addr) (fd : Int) (flags : BitVec 32) : BitVec 32 × Sys Addr :=
  (if fd < 0 then -1 else flags, s.emit (.getfl fd) (badFd fd))

/-- `fcntl(fd, F_SETFL, option)`. -/
def setfl (s : Sys Addr) (fd : Int) (option : BitVec 32) : Sys Addr :=
  s.emit (.setfl fd option) (badFd fd)

/-- `::close`. -/
def close (s : Sys Addr) (fd : Int) : Sys Addr := s.emit (.close fd) (badFd fd)

/-- `::open("/dev/null", O_RDONLY | O_CLOEXEC)`. -/
def openNull (s : Sys Addr) (res : FdResult) : Int × Sys Addr :=
  (res.ret, s.emit (.openNull res) res.failed)

end Sys

/-- What the thread is answered during one call of `handle_read_`: the results of the two calls of
`::accept` and of `::open`, the address and the flags that go with a new descriptor, and the error codes
left behind by the three log statements and by the callback.  `errno` is its value before the call. -/
structure Answers (Addr : Type) where
  errno : Int
  accept : FdResult
  client : Addr
  flags : BitVec 32
  acceptWarn : Option Int
  acceptError : Option Int
  handleWarn : Option Int
  callback : Option Int
  idleAccept : FdResult
  idleOpen : FdResult

section Functions

variable {Addr : Type}

def O_NONBLOCK : BitVec 32 := 2048

/-- `setnonblocking`. -/
def setnonblocking (s : Sys Addr) (fd : Int) (flags : BitVec 32) : BitVec 32 × Sys Addr :=
  let (oldOption, s) := s.getfl fd flags
  let newOption := oldOption ||| O_NONBLOCK
  let s := s.setfl fd newOption
  (oldOption, s)

/-- The `switch` of `accept`: the codes that are restored, the codes that are reported as unexpected,
and all others. -/
def SocketServer.classify (s : Sys Addr) (savedErrno : Int) (failed : Option Int) : Sys Addr :=
  if savedErrno ∈ [EAGAIN, ECONNABORTED, EINTR, EPROTO, EPERM, EMFILE] then
    { s with errno := savedErrno }
  else if savedErrno ∈ [EBADF, EFAULT, EINVAL, ENFILE, ENOBUFS, ENOMEM, ENOTSOCK, EOPNOTSUPP] then
    s.emit (.logError ("unexpected error of ::accept " ++ toString savedErrno)) failed
  else
    s.emit (.logError ("unknown error of ::accept " ++ toString savedErrno)) failed

/-- `SocketServer::accept(InetAddress &)`. -/
def SocketServer.accept (s : Sys Addr) (w : Answers Addr) (peeraddr : Addr) :
    Int × Addr × Sys Addr :=
  let (connfd, s) := s.accept w.accept
  let (_, s) := setnonblocking s connfd w.flags
  if connfd < 0 then
    let savedErrno := s.errno
    let s := s.emit (.logWarn "Socket::accept") w.acceptWarn
    (connfd, peeraddr, SocketServer.classify s savedErrno w.acceptError)
  else (connfd, w.client, s)

end Functions

namespace Answers

variable {Addr : Type} (w : Answers Addr)

/-- The error code of the last library call that fails inside the log statements after a failing
`::accept`. -/
def logErrno : Option Int := w.handleWarn <|> w.acceptError <|> w.acceptWarn

/-- `::accept` does not fail, or it fails with another code than `EMFILE` and the log statements do not
leave `EMFILE` behind; or it fails with `EMFILE`, the log statements happen to leave `EMFILE` behind, and
the second `::accept` and the `::open` succeed. -/
def Survives : Prop :=
  ∀ e, w.accept = .error e →
    (e ≠ EMFILE ∧ w.logErrno ≠ some EMFILE) ∨
      (e = EMFILE ∧ w.logErrno = some EMFILE ∧ w.idleAccept.failed = none ∧ w.idleOpen.failed = none)

end Answers

/-- `class Acceptor`, as far as `handle_read_` uses it.  The boolean says whether the callback is
set. -/
structure Acceptor where
  idleFd : Int
  newConnCallback : Bool
  deriving DecidableEq, Repr

namespace Acceptor

variable {Addr : Type} [Inhabited Addr]

/-- `handle_read_`. -/
def handleRead (a : Acceptor) (w : Answers Addr) : Acceptor × Sys Addr :=
  let s : Sys Addr := { errno := w.errno, events := [] }
  let (connfd, peeraddr, s) := SocketServer.accept s w default
  if connfd ≥ 0 then
    if a.newConnCallback then (a, s.emit (.newConn connfd peeraddr) w.callback)
    else (a, s.close connfd)
  else
    let s := s.emit (.logWarn "in Accrptor handle") w.handleWarn
    if s.errno = EMFILE then
      let s := s.close a.idleFd
      let (idleFd, s) := s.accept w.idleAccept
      let s := s.close idleFd
      let (idleFd, s) := s.openNull w.idleOpen
      ({ a with idleFd }, s)
    else (a, s)

/-- One call of a run. -/
def step (a : Acceptor) (w : Answers Addr) : Checked Acceptor := .ok (a.handleRead w).1

/-! ## What the idle descriptor is there for -/

/-- The branch of the idle descriptor is taken exactly if `::accept` has failed with `EMFILE`.  The
connection is then accepted in the slot of the idle descriptor and closed, and the idle descriptor is
open again; otherwise it is left alone. -/
structure Sheds (a : Acceptor) (w : Answers Addr) : Prop where
  taken : (∃ res, .openNull res ∈ (a.handleRead w).2.events) ↔ w.accept = .error EMFILE
  shed : w.accept = .error EMFILE → 0 ≤ a.idleFd ∧ ∃ (evs : List (Event Addr)) (n m : Nat),
    (a.handleRead w).2.events =
      evs ++ [.close a.idleFd, .accept (.fd n), .close n, .openNull (.fd m)] ∧
    (a.handleRead w).1.idleFd = (m : Int)
  kept : w.accept ≠ .error EMFILE → (a.handleRead w).1.idleFd = a.idleFd

/-! ## One call -/

section Functions

variable {w : Answers Addr}

omit [Inhabited Addr]

theorem setnonblocking_fd (s : Sys Addr) (n : Nat) (flags : BitVec 32) :
    setnonblocking s n flags =
      (flags, ⟨s.errno, s.events ++ [.getfl n, .setfl n (flags ||| O_NONBLOCK)]⟩) := by
  have hn : ¬ (n : Int) < 0 := by omega
  simp [setnonblocking, Sys.getfl, Sys.setfl, Sys.emit, Sys.badFd, hn]

/-- On a negative descriptor both calls of `fcntl` fail. -/
theorem setnonblocking_error (s : Sys Addr) (flags : BitVec 32) :
    setnonblocking s (-1) flags =
      (-1, ⟨EBADF, s.events ++ [.getfl (-1), .setfl (-1) (-1)]⟩) := by
  have hoption : (-1 : BitVec 32) ||| O_NONBLOCK = -1 := by decide
  simp [setnonblocking, Sys.getfl, Sys.setfl, Sys.emit, Sys.badFd]
  exact hoption

theorem classify_ebadf (s : Sys Addr) (failed : Option Int) :
    SocketServer.classify s EBADF failed =
      s.emit (.logError "unexpected error of ::accept 9") failed := by
  unfold SocketServer.classify
  rw [if_neg (by decide), if_pos (by decide)]
  rfl

/-- `accept` on a new descriptor. -/
theorem accept_fd (s : Sys Addr) (peeraddr : Addr) {n : Nat} (hw : w.accept = .fd n) :
    SocketServer.accept s w peeraddr =
      ((n : Int), w.client, (⟨s.errno, s.events ++
        [.accept (.fd n), .getfl n, .setfl n (w.flags ||| O_NONBLOCK)]⟩ : Sys Addr)) := by
  have hn : ¬ (n : Int) < 0 := by omega
  unfold SocketServer.accept
  rw [hw]
  simp only [Sys.accept, FdResult.ret, FdResult.failed, setnonblocking_fd]
  rw [if_neg hn]
  simp [Sys.emit]

/-- What `accept` does when `::accept` fails. -/
def failedEvents (e : Int) : List (Event Addr) :=
  [.accept (.error e), .getfl (-1), .setfl (-1) (-1), .logWarn "Socket::accept",
    .logError "unexpected error of ::accept 9"]

/-- `accept` after a failing `::accept`: the code that is saved and classified is that of `fcntl`. -/
theorem accept_error (s : Sys Addr) (peeraddr : Addr) {e : Int} (hw : w.accept = .error e) :
    SocketServer.accept s w peeraddr =
      (-1, peeraddr,
        ⟨(w.acceptError <|> w.acceptWarn).getD EBADF, s.events ++ failedEvents e⟩) := by
  unfold SocketServer.accept
  rw [hw]
  simp only [Sys.accept, FdResult.ret, FdResult.failed, setnonblocking_error]
  rw [if_pos (by decide), classify_ebadf]
  cases w.acceptError <;> simp [Sys.emit, failedEvents]

end Functions

variable {a : Acceptor} {w : Answers Addr}

/-- After a failing `::accept` the handler tests the code of the last library call that failed in a log
statement, and `EBADF` if there is none. -/
theorem handleRead_error {e : Int} (hw : w.accept = .error e) :
    a.handleRead w =
      if w.logErrno = some EMFILE then
        ({ a with idleFd := w.idleOpen.ret },
          ⟨w.idleOpen.failed.getD
            ((Sys.badFd w.idleAccept.ret).getD (w.idleAccept.failed.getD
              ((Sys.badFd a.idleFd).getD EMFILE))),
            failedEvents e ++ [.logWarn "in Accrptor handle"] ++
              [.close a.idleFd, .accept w.idleAccept, .close w.idleAccept.ret,
                .openNull w.idleOpen]⟩)
      else (a, ⟨w.logErrno.getD EBADF,
        failedEvents e ++ [.logWarn "in Accrptor handle"]⟩) := by
  have hcode : (w.handleWarn.getD ((w.acceptError <|> w.acceptWarn).getD EBADF)) =
      w.logErrno.getD EBADF := by
    unfold Answers.logErrno
    cases w.handleWarn <;> rfl
  have htest : w.logErrno.getD EBADF = EMFILE ↔ w.logErrno = some EMFILE := by
    cases w.logErrno with
    | none => decide
    | some code => simp
  unfold handleRead
  simp only [accept_error _ _ hw]
  rw [if_neg (by decide)]
  simp only [Sys.emit, hcode, htest]
  split
  · rename_i hlog
    simp [Sys.close, Sys.accept, Sys.openNull, Sys.emit, failedEvents, hlog]
  · simp [failedEvents]

/-- A connection is handed over or closed, and the idle descriptor is not used. -/
theorem handleRead_fd {n : Nat} (hw : w.accept = .fd n) :
    (a.handleRead w).1 = a ∧ ∀ res, .openNull res ∉ (a.handleRead w).2.events := by
  have hn : (n : Int) ≥ 0 := by omega
  unfold handleRead
  simp only [accept_fd _ _ hw]
  rw [if_pos hn]
  split <;> simp [Sys.emit, Sys.close]

theorem sheds_of_fd {n : Nat} (hw : w.accept = .fd n) : a.Sheds w := by
  obtain ⟨hsame, hnone⟩ := handleRead_fd (a := a) hw
  have hne : w.accept ≠ .error EMFILE := fun h => by rw [hw] at h; cases h
  refine ⟨iff_of_false ?_ hne, fun h => absurd h hne, fun _ => by rw [hsame]⟩
  rintro ⟨res, hres⟩
  exact hnone res hres

/-- The branch is not taken. -/
theorem sheds_of_error {e : Int} (hw : w.accept = .error e) (hlog : w.logErrno ≠ some EMFILE) :
    a.Sheds w ↔ e ≠ EMFILE := by
  have hret := handleRead_error (a := a) hw
  rw [if_neg hlog] at hret
  have hnone : ¬ ∃ res, .openNull res ∈ (a.handleRead w).2.events := by
    rw [hret]
    simp [failedEvents]
  constructor
  · rintro hs rfl
    exact hnone (hs.taken.2 hw)
  · intro he
    have hne : w.accept ≠ .error EMFILE := fun h => by
      rw [hw] at h
      cases h
      exact he rfl
    exact ⟨iff_of_false hnone hne, fun h => absurd h hne, fun _ => by rw [hret]⟩

/-- The branch is taken, since a log statement has left `EMFILE` behind. -/
theorem sheds_of_emfile {e : Int} (hidle : 0 ≤ a.idleFd) (hw : w.accept = .error e)
    (hlog : w.logErrno = some EMFILE) :
    a.Sheds w ↔ e = EMFILE ∧ w.idleAccept.failed = none ∧ w.idleOpen.failed = none := by
  have hret := handleRead_error (a := a) hw
  rw [if_pos hlog] at hret
  have htaken : ∃ res, .openNull res ∈ (a.handleRead w).2.events :=
    ⟨w.idleOpen, by rw [hret]; simp⟩
  constructor
  · intro hs
    have hemfile := hs.taken.1 htaken
    obtain ⟨-, evs, n, m, hevents, -⟩ := hs.shed hemfile
    rw [hret] at hevents
    have hlast := List.append_inj_right' hevents rfl
    simp only [List.cons.injEq, Event.accept.injEq, Event.openNull.injEq] at hlast
    obtain ⟨-, haccept, -, hopen, -⟩ := hlast
    rw [hw] at hemfile
    cases hemfile
    exact ⟨rfl, by rw [haccept]; rfl, by rw [hopen]; rfl⟩
  · rintro ⟨rfl, haccept, hopen⟩
    refine ⟨iff_of_true htaken hw, fun _ => ⟨hidle, ?_⟩, fun h => absurd hw h⟩
    obtain ⟨n, hn⟩ := FdResult.failed_eq_none.1 haccept
    obtain ⟨m, hm⟩ := FdResult.failed_eq_none.1 hopen
    rw [hret, hn, hm]
    exact ⟨_, n, m, rfl, rfl⟩

/-- **One call**, made while the idle descriptor is open. -/
theorem sheds_iff (hidle : 0 ≤ a.idleFd) : a.Sheds w ↔ w.Survives := by
  unfold Answers.Survives
  cases hw : w.accept with
  | fd n => exact iff_of_true (sheds_of_fd hw) fun e he => by cases he
  | error e =>
    by_cases hlog : w.logErrno = some EMFILE
    · rw [sheds_of_emfile hidle hw hlog]
      constructor
      · rintro ⟨rfl, haccept, hopen⟩ e' he
        cases he
        exact Or.inr ⟨rfl, hlog, haccept, hopen⟩
      · intro hs
        rcases hs e rfl with ⟨-, hne⟩ | ⟨he, -, haccept, hopen⟩
        · exact absurd hlog hne
        · exact ⟨he, haccept, hopen⟩
    · rw [sheds_of_error hw hlog]
      constructor
      · intro hne e' he
        cases he
        exact Or.inl ⟨hne, hlog⟩
      · intro hs
        rcases hs e rfl with ⟨hne, -⟩ | ⟨-, hemfile, -, -⟩
        · exact hne
        · exact absurd hemfile hlog

/-- A call that does its part leaves the idle descriptor open. -/
theorem Sheds.idle_open (hs : a.Sheds w) (hidle : 0 ≤ a.idleFd) :
    0 ≤ (a.handleRead w).1.idleFd := by
  by_cases hw : w.accept = .error EMFILE
  · obtain ⟨-, evs, n, m, -, hm⟩ := hs.shed hw
    omega
  · rw [hs.kept hw]
    exact hidle

/-! ## Runs -/

/-- **Every call of a run** of `handle_read_` from an open idle descriptor does what the idle descriptor
is there for if and only if the answers of every call meet the condition. -/
theorem handle_read_sheds_iff (a : Acceptor) (hidle : 0 ≤ a.idleFd) (ws : List (Answers Addr)) :
    (∀ p w, p ++ [w] <+: ws → ∀ b, run step a p = .ok b → b.Sheds w) ↔ ∀ w ∈ ws, w.Survives := by
  rw [← allowed_iff]
  induction ws generalizing a with
  | nil => exact iff_of_true trivial fun w hw => by cases hw
  | cons w ws ih =>
    rw [List.forall_mem_cons]
    constructor
    · intro hall
      exact ⟨(sheds_iff hidle).1 hall.1, (ih _ (hall.1.idle_open hidle)).1 (hall.tail rfl)⟩
    · rintro ⟨hw, hws⟩
      have hs := (sheds_iff hidle).2 hw
      exact ⟨hs, (ih _ (hs.idle_open hidle)).2 hws⟩

/-- `::accept` fails with `EMFILE` and every log statement goes well. -/
def exhausted : Answers Unit :=
  { errno := 0, accept := .error EMFILE, client := (), flags := 0, acceptWarn := none,
    acceptError := none, handleWarn := none, callback := none, idleAccept := .fd 7,
    idleOpen := .fd 7 }

theorem handle_read_sheds_sample :
    (∀ p w, p ++ [w] <+: [{ exhausted with accept := .fd 8 }, exhausted] →
        ∀ b, run step (⟨7, true⟩ : Acceptor) p = .ok b → b.Sheds w) ↔
      ∀ w ∈ [{ exhausted with accept := .fd 8 }, exhausted], w.Survives :=
  handle_read_sheds_iff ⟨7, true⟩ (by decide) _

/-- The idle descriptor is not used: the connection stays where it is. -/
theorem exhausted_not_shed :
    ∃ p w b, p ++ [w] <+: [exhausted] ∧ run step (⟨7, true⟩ : Acceptor) p = .ok b ∧
      (b.handleRead w).2.errno = EBADF ∧ ¬ b.Sheds w := by
  have hlog : exhausted.logErrno ≠ some EMFILE := by decide
  exact ⟨[], exhausted, ⟨7, true⟩, List.prefix_rfl, rfl, rfl, fun hs =>
    (sheds_of_error rfl hlog).1 hs rfl⟩

end Acceptor
