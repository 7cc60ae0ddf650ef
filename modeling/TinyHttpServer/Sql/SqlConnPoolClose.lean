import TinyHttpServer.Lib.Monitor
import TinyHttpServer.Sql.SqlConnPool

/-!
# Closing the connection pool (`src/sql/sqlconnpool.cc`)

`ClosePool`, which is also what the destructor does, closes the connections in the queue under the
mutex; `GetFreeConnCount` reads the length of the queue.  Neither touches the semaphore: after
`ClosePool` it still counts the connections that have been closed.

* `close_conserves` — a connection is in the queue, with one thread or closed, and closed once; what a
  thread holds stays open.
* `pops_return_iff` — the threads of `GetConn` find a connection exactly as long as the semaphore and
  the threads behind `sem_wait` exceed the number of connections closed.
-/

set_option autoImplicit false

open Checked Machine Monitor
open scoped List

/-- Where a thread is in `ClosePool` or `GetFreeConnCount`. -/
inductive ClosePc where
  | idle
  /-- before the mutex -/
  | closeLock
  /-- before the test of `conn_que_.empty()` -/
  | closeLoop
  /-- before the release of the mutex -/
  | closeUnlock
  | countLock
  /-- before `conn_que_.size()` -/
  | countRead
  | countUnlock (count : Nat)
  deriving DecidableEq, Repr

/-- The thread has the mutex. -/
def ClosePc.holds : ClosePc → Bool
  | .closeLoop | .closeUnlock | .countRead | .countUnlock _ => true
  | _ => false

/-- The thread has the mutex. -/
def PoolPc.holds : PoolPc → Bool
  | .getPop | .getUnlock _ | .freePush _ | .freePost | .freeUnlock => true
  | _ => false

/-- The pool with its threads, and further threads that call `ClosePool` and `GetFreeConnCount`.
`closed` are the arguments of `mysql_close`. -/
structure PoolUsers where
  clients : PoolClients
  closers : List ClosePc
  closed : List (Option Mysql)
  deriving DecidableEq, Repr

inductive UsersAct where
  | client (act : PoolAct)
  /-- thread `k` calls `ClosePool` -/
  | closePool (k : Nat)
  /-- thread `k` calls `GetFreeConnCount` -/
  | getFreeConnCount (k : Nat)
  /-- thread `k` takes the next step of its call -/
  | next (k : Nat)
  deriving DecidableEq, Repr

namespace PoolUsers

def start (pool : SqlConnPool) (n m : Nat) : PoolUsers :=
  { clients := .start pool n, closers := List.replicate m .idle, closed := [] }

def setPool (s : PoolUsers) (pool : SqlConnPool) : PoolUsers :=
  { s with clients := { s.clients with pool } }

def setCloser (s : PoolUsers) (k : Nat) (pc : ClosePc) : PoolUsers :=
  { s with closers := s.closers.set k pc }

/-- The number by which thread `k` is known to the mutex. -/
def closerId (s : PoolUsers) (k : Nat) : Nat := s.clients.threads.length + k

/-- The next step of thread `k` in `ClosePool` or `GetFreeConnCount`. -/
def stepCloser (s : PoolUsers) (k : Nat) : ClosePc → PoolUsers
  | .idle => s
  | .closeLock =>
    if s.clients.pool.mtx = none then
      (s.setPool { s.clients.pool with mtx := some (s.closerId k) }).setCloser k .closeLoop
    else s
  | .closeLoop =>
    match s.clients.pool.connQue with
    | [] => s.setCloser k .closeUnlock
    | sql :: rest =>
      { s.setPool { s.clients.pool with connQue := rest } with closed := s.closed ++ [sql] }
  | .closeUnlock => (s.setPool { s.clients.pool with mtx := none }).setCloser k .idle
  | .countLock =>
    if s.clients.pool.mtx = none then
      (s.setPool { s.clients.pool with mtx := some (s.closerId k) }).setCloser k .countRead
    else s
  | .countRead => s.setCloser k (.countUnlock s.clients.pool.connQue.length)
  | .countUnlock _ => (s.setPool { s.clients.pool with mtx := none }).setCloser k .idle

def step (s : PoolUsers) : UsersAct → Checked PoolUsers
  | .client act => do
    let clients ← s.clients.step act
    return { s with clients }
  | .closePool k =>
    return if s.closers[k]? = some .idle then s.setCloser k .closeLock else s
  | .getFreeConnCount k =>
    return if s.closers[k]? = some .idle then s.setCloser k .countLock else s
  | .next k =>
    return match s.closers[k]? with
    | some pc => s.stepCloser k pc
    | none => s

/-- A thread frees only a connection that it holds. -/
def FreesHeld (s : PoolUsers) : UsersAct → Prop
  | .client act => s.clients.FreesHeld act
  | .closePool _ | .getFreeConnCount _ | .next _ => True

instance (s : PoolUsers) : ∀ act, Decidable (s.FreesHeld act)
  | .client act => inferInstanceAs (Decidable (s.clients.FreesHeld act))
  | .closePool _ | .getFreeConnCount _ | .next _ => inferInstanceAs (Decidable True)

end PoolUsers

/-! ## A step of the clients -/

namespace SqlConnPool

variable {pool pool' : SqlConnPool} {tid : Nat} {pc pc' : PoolPc}

/-- What a step does to the mutex, and that it needs the mutex to change the queue. -/
theorem step_passes (h : pool.step tid pc = .ok (pool', pc')) :
    Passes tid pool.mtx pool'.mtx pc.holds pc'.holds ∧
      (pool'.connQue = pool.connQue ∨ pc.holds) := by
  cases pc with
  | getTest =>
    cases h
    refine ⟨?_, .inl rfl⟩
    split
    · exact .stay _ false
    · exact .stay _ false
  | getWait =>
    have h := Except.ok.inj h
    split at h
    · cases h
      exact ⟨.stay _ false, .inl rfl⟩
    · cases h
      exact ⟨.stay _ false, .inl rfl⟩
  | getLock | freeLock sql =>
    have h := Except.ok.inj h
    split at h
    · rename_i hfree
      cases h
      rw [hfree]
      exact ⟨.acquire _, .inl rfl⟩
    · cases h
      exact ⟨.stay _ false, .inl rfl⟩
  | getPop =>
    simp only [step] at h
    split at h
    · cases h
    · cases h
      exact ⟨.stay _ true, .inr rfl⟩
  | getUnlock sql | freeUnlock =>
    cases h
    exact ⟨.release _, .inl rfl⟩
  | freeAssert sql =>
    obtain ⟨-, -, h⟩ := bind_eq_ok.1 h
    cases h
    exact ⟨.stay _ false, .inl rfl⟩
  | freePush sql | freePost =>
    cases h
    exact ⟨.stay _ true, .inr rfl⟩
  | done sql =>
    cases h
    exact ⟨.stay _ false, .inl rfl⟩

end SqlConnPool

namespace PoolClients

variable {s t : PoolClients} {tid : Nat} {th th' : PoolThread} {pool' : SqlConnPool}

theorem holds_proceed (th : PoolThread) (pc : PoolPc) : (th.proceed pc).pc.holds = pc.holds := by
  cases pc <;> rfl

/-- The thread with this number has the mutex. -/
def Inside (s : PoolClients) (tid : Nat) : Prop := ∃ th ∈ s.threads[tid]?, th.pc.holds

/-- What a step of thread `tid` does: connections are exchanged between the queue and the threads, the
account of the semaphore stays as it is, and only the thread with the mutex changes the queue. -/
structure Changes (tid : Nat) (s t : PoolClients) : Prop where
  bound : tid < s.threads.length
  items : t.pool.queued ++ t.threads.flatMap PoolThread.owned ~
    s.pool.queued ++ s.threads.flatMap PoolThread.owned
  account : t.pool.semId + t.granted + t.posting + s.pool.connQue.length =
    s.pool.semId + s.granted + s.posting + t.pool.connQue.length
  frees : (∀ th ∈ s.threads, th.pc ≠ .freeAssert none) → ∀ th ∈ t.threads, th.pc ≠ .freeAssert none
  length : t.threads.length = s.threads.length
  mutex : ∃ b b', Passes tid s.pool.mtx t.pool.mtx b b' ∧ (s.Inside tid ↔ b = true) ∧
    (t.Inside tid ↔ b' = true)
  others : ∀ i, i ≠ tid → (t.Inside i ↔ s.Inside i)
  queue : t.pool.connQue = s.pool.connQue ∨ s.Inside tid

theorem inside_iff (hth : s.threads[tid]? = some th) : s.Inside tid ↔ th.pc.holds := by
  simp [Inside, hth]

/-- A step of one thread, from what it does locally. -/
theorem Changes.set (hth : s.threads[tid]? = some th)
    (hitems : pool'.queued ++ th'.owned ~ s.pool.queued ++ th.owned)
    (haccount : pool'.semId + SqlConnPool.credit th'.pc + s.pool.connQue.length =
      s.pool.semId + SqlConnPool.credit th.pc + pool'.connQue.length)
    (hfree : th'.pc ≠ .freeAssert none)
    (hpasses : Passes tid s.pool.mtx pool'.mtx th.pc.holds th'.pc.holds)
    (hqueue : pool'.connQue = s.pool.connQue ∨ th.pc.holds) :
    Changes tid s { pool := pool', threads := s.threads.set tid th' } where
  bound := (List.getElem?_eq_some_iff.1 hth).1
  items := Parties.perm_set hth hitems
  account := by
    have hgranted := Parties.countP_set_add (fun th => th.pc.granted) hth th'
    have hposting := Parties.countP_set_add (fun th => th.pc.posting) hth th'
    simp only [granted, posting, SqlConnPool.credit] at haccount ⊢
    omega
  frees := by
    intro hall u hu
    obtain hu | rfl := List.mem_or_eq_of_mem_set hu
    · exact hall u hu
    · exact hfree
  length := List.length_set ..
  mutex := by
    obtain ⟨hi, -⟩ := List.getElem?_eq_some_iff.1 hth
    exact ⟨_, _, hpasses, inside_iff hth, inside_iff (List.getElem?_set_self hi)⟩
  others := by
    intro i hi
    simp only [Inside, List.getElem?_set_ne hi.symm]
  queue := hqueue.imp_right (inside_iff hth).2

/-- The thread that an action is about. -/
def tidOf : PoolAct → Nat
  | .getConn tid | .freeConn tid _ | .next tid => tid

/-- A call begins. -/
theorem Changes.call (hth : s.threads[tid]? = some th) (hidle : th.pc = .done none)
    (howned : th'.owned ~ th.owned) (hcredit : SqlConnPool.credit th'.pc = 0)
    (hfree : th'.pc ≠ .freeAssert none) (hholds : th'.pc.holds = false) :
    Changes tid s { s with threads := s.threads.set tid th' } := by
  refine .set hth (howned.append_left _) ?_ hfree ?_ (.inl rfl)
  · rw [hcredit, hidle]
    rfl
  · rw [hholds, hidle]
    exact .stay _ false

/-- **One step of the clients.** -/
theorem step_changes {act : PoolAct} (hadm : s.FreesHeld act) (h : s.step act = .ok t) :
    t = s ∨ Changes (tidOf act) s t := by
  cases act with
  | getConn tid =>
    have h := Except.ok.inj h
    split at h
    · rename_i th hth
      split at h
      · rename_i hidle
        cases h
        refine .inr (.call hth hidle ?_ rfl ?_ rfl)
        · rw [PoolThread.owned, PoolThread.owned, hidle]
          exact .refl _
        · intro hnull
          cases hnull
      · exact .inl h.symm
    · exact .inl h.symm
  | freeConn tid sql =>
    obtain ⟨th, hmem, x, hx, rfl⟩ := hadm
    have hth : s.threads[tid]? = some th := hmem
    have h := Except.ok.inj h
    simp only [hth] at h
    split at h
    · rename_i hidle
      cases h
      refine .inr (.call hth hidle ?_ rfl ?_ rfl)
      · -- the connection moves from `held` into the call
        have herase : x :: th.held.erase x ~ th.held := (List.perm_cons_erase hx).symm
        have hcall : th.held.erase x ++ [x] ~ th.held := (List.perm_append_singleton x _).trans herase
        rw [PoolThread.owned, PoolThread.owned, hidle]
        simpa [PoolPc.inFlight] using hcall
      · intro hnull
        cases hnull
    · exact .inl h.symm
  | next tid =>
    simp only [step] at h
    split at h
    · rename_i th hth
      obtain ⟨⟨pool', pc'⟩, hstep, h⟩ := bind_eq_ok.1 h
      cases h
      have hpop : th.pc = .getPop → s.pool.connQue ≠ [] := by
        intro hpc hnil
        simp only [hpc, SqlConnPool.step, hnil] at hstep
        cases hstep
      have hassert : th.pc ≠ .freeAssert none := by
        intro hpc
        rw [hpc] at hstep
        cases hstep
      obtain ⟨pool'', pc'', hstep', hkeeps⟩ := SqlConnPool.step_keeps tid hpop hassert
      rw [hstep] at hstep'
      cases hstep'
      obtain ⟨hpasses, hqueue⟩ := SqlConnPool.step_passes hstep
      refine .inr (.set hth ?_ ?_ ?_ ?_ hqueue)
      · rw [PoolThread.owned_proceed, PoolThread.owned]
        calc
          pool'.queued ++ (th.held ++ pc'.inFlight)
          _ ~ th.held ++ (pool'.queued ++ pc'.inFlight) := List.perm_append_comm_assoc _ _ _
          _ ~ th.held ++ (s.pool.queued ++ th.pc.inFlight) := hkeeps.items.append_left _
          _ ~ s.pool.queued ++ (th.held ++ th.pc.inFlight) := List.perm_append_comm_assoc _ _ _
      · rw [SqlConnPool.credit, PoolThread.granted_proceed, PoolThread.posting_proceed]
        exact hkeeps.account
      · intro hpc
        apply hkeeps.called
        cases pc' <;> first | exact hpc | cases hpc
      · rw [holds_proceed]
        exact hpasses
    · exact .inl (Except.ok.inj h).symm

/-- The action is `front` with `pop` of a thread in `GetConn`. -/
def Pops (s : PoolClients) : PoolAct → Prop
  | .next tid => ∃ th ∈ s.threads[tid]?, th.pc = .getPop
  | .getConn _ | .freeConn _ _ => False

/-- A step returns unless it pops from an empty queue. -/
theorem step_returns_iff {act : PoolAct} (hfrees : ∀ th ∈ s.threads, th.pc ≠ .freeAssert none) :
    (∃ t, s.step act = .ok t) ↔ (s.Pops act → s.pool.connQue ≠ []) := by
  cases act with
  | getConn tid => exact iff_of_true ⟨_, rfl⟩ nofun
  | freeConn tid sql => exact iff_of_true ⟨_, rfl⟩ nofun
  | next tid =>
    cases hth : s.threads[tid]? with
    | none =>
      refine iff_of_true ⟨s, by simp only [step, hth, pure_eq_ok]⟩ ?_
      rintro ⟨th, hmem, -⟩
      rw [hth] at hmem
      cases hmem
    | some th =>
      constructor
      · rintro ⟨t, ht⟩ ⟨th', hmem, hpc⟩ hnil
        obtain rfl : th = th' := Option.some.inj (hth.symm.trans hmem)
        simp only [step, hth, hpc, SqlConnPool.step, hnil] at ht
        cases ht
      · intro hpop
        obtain ⟨pool', pc', hstep, -⟩ := SqlConnPool.step_keeps tid (fun hpc => hpop ⟨th, hth, hpc⟩)
          (hfrees th (List.mem_of_getElem? hth))
        refine ⟨{ pool := pool', threads := s.threads.set tid (th.proceed pc') }, ?_⟩
        simp only [step, hth, hstep, ok_bind, pure_eq_ok]

end PoolClients

namespace PoolUsers

variable {conns : List Mysql} {s t : PoolUsers} {k : Nat} {pc : ClosePc}

/-! ## The invariant -/

/-- The thread with this number has the mutex. -/
def Inside (s : PoolUsers) (tid : Nat) : Prop :=
  s.clients.Inside tid ∨ ∃ k, tid = s.closerId k ∧ ∃ pc ∈ s.closers[k]?, pc.holds

/-- What a thread has found out about the queue and still holds. -/
def Settled (connQue : List (Option Mysql)) : ClosePc → Prop
  | .closeUnlock => connQue = []
  | .countUnlock count => count = connQue.length
  | _ => True

/-- Every connection is in one place, and the semaphore counts those that have been closed, too. -/
structure Inv (conns : List Mysql) (s : PoolUsers) : Prop where
  items : s.clients.pool.queued ++ s.clients.threads.flatMap PoolThread.owned ++
    s.closed.filterMap id ~ conns
  account : s.clients.pool.semId + s.clients.granted + s.clients.posting =
    s.clients.pool.connQue.length + s.closed.length
  frees : ∀ th ∈ s.clients.threads, th.pc ≠ .freeAssert none
  guarded : Guarded s.clients.pool.mtx s.Inside
  settled : ∀ pc ∈ s.closers, Settled s.clients.pool.connQue pc

theorem not_inside_closerId (s : PoolUsers) (k : Nat) : ¬ s.clients.Inside (s.closerId k) := by
  rintro ⟨th, hmem, -⟩
  have hlt := (List.getElem?_eq_some_iff.1 hmem).1
  simp only [closerId] at hlt
  omega

theorem inside_closer (hpc : s.closers[k]? = some pc) : s.Inside (s.closerId k) ↔ pc.holds := by
  constructor
  · rintro (hin | ⟨l, heq, pc', hmem, hholds⟩)
    · exact absurd hin (s.not_inside_closerId k)
    · obtain rfl : k = l := Nat.add_left_cancel heq
      obtain rfl : pc = pc' := Option.some.inj (hpc.symm.trans hmem)
      exact hholds
  · exact fun hholds => .inr ⟨k, rfl, pc, hpc, hholds⟩

theorem settled_of_not_holds (h : pc.holds = false) (connQue : List (Option Mysql)) :
    Settled connQue pc := by
  cases pc with
  | idle | closeLock | closeLoop | countLock | countRead => trivial
  | closeUnlock | countUnlock => cases h

/-- Who else has the mutex while thread `tid` has it?  Nobody, so nothing is settled. -/
theorem Inv.not_holds (h : Inv conns s) {tid : Nat} (hin : s.Inside tid) (hne : tid ≠ s.closerId k)
    (hpc : s.closers[k]? = some pc) : pc.holds = false := by
  cases hholds : pc.holds with
  | false => rfl
  | true => exact absurd (h.guarded.eq hin ((inside_closer hpc).2 hholds)) hne

/-! ## Steps -/

/-- **A step of the clients.** -/
theorem Inv.client (h : Inv conns s) {tid : Nat} {clients : PoolClients}
    (hch : PoolClients.Changes tid s.clients clients) : Inv conns { s with clients } where
  items := (hch.items.append_right _).trans h.items
  account := by
    have hbefore := h.account
    have hchange := hch.account
    simp only
    omega
  frees := hch.frees h.frees
  guarded := by
    obtain ⟨b, b', hpasses, hb, hb'⟩ := hch.mutex
    have hne : ∀ k, tid ≠ s.closerId k := by
      intro k
      have := hch.bound
      simp only [closerId]
      omega
    have hid : ∀ k, closerId { s with clients } k = s.closerId k := by
      intro k
      simp only [closerId, hch.length]
    refine h.guarded.step hpasses ?_ ?_ fun o ho => ?_
    · rw [← hb]
      refine or_iff_left ?_
      rintro ⟨k, heq, -⟩
      exact hne k heq
    · rw [← hb']
      refine or_iff_left ?_
      rintro ⟨k, heq, -⟩
      exact hne k (heq.trans (hid k))
    · simp only [Inside, hid, hch.others o ho]
  settled := by
    intro pc hpc
    obtain heq | hin := hch.queue
    · simp only [heq]
      exact h.settled pc hpc
    · obtain ⟨k, hk⟩ := List.mem_iff_getElem?.1 hpc
      refine settled_of_not_holds (h.not_holds (.inl hin) ?_ hk) _
      have := hch.bound
      simp only [closerId]
      omega

/-- **A step of a thread in `ClosePool` or `GetFreeConnCount`.** -/
theorem Inv.closer (h : Inv conns s) (hpc : s.closers[k]? = some pc) {pool : SqlConnPool}
    {closed : List (Option Mysql)} {pc' : ClosePc}
    (hitems : pool.queued ++ closed.filterMap id ~ s.clients.pool.queued ++ s.closed.filterMap id)
    (hlength : pool.connQue.length + closed.length =
      s.clients.pool.connQue.length + s.closed.length)
    (hsem : pool.semId = s.clients.pool.semId)
    (hpasses : Passes (s.closerId k) s.clients.pool.mtx pool.mtx pc.holds pc'.holds)
    (hqueue : pool.connQue = s.clients.pool.connQue ∨ pc.holds)
    (hsettled : Settled pool.connQue pc') :
    Inv conns { s.setPool pool with closers := s.closers.set k pc', closed } where
  items := by
    have hmove : pool.queued ++ s.clients.threads.flatMap PoolThread.owned ++ closed.filterMap id ~
        s.clients.pool.queued ++ s.clients.threads.flatMap PoolThread.owned ++
          s.closed.filterMap id := by
      calc
        pool.queued ++ s.clients.threads.flatMap PoolThread.owned ++ closed.filterMap id
        _ ~ s.clients.threads.flatMap PoolThread.owned ++ pool.queued ++ closed.filterMap id :=
          List.perm_append_comm.append_right _
        _ = s.clients.threads.flatMap PoolThread.owned ++ (pool.queued ++ closed.filterMap id) :=
          List.append_assoc _ _ _
        _ ~ s.clients.threads.flatMap PoolThread.owned ++
            (s.clients.pool.queued ++ s.closed.filterMap id) := hitems.append_left _
        _ = s.clients.threads.flatMap PoolThread.owned ++ s.clients.pool.queued ++
            s.closed.filterMap id := (List.append_assoc _ _ _).symm
        _ ~ s.clients.pool.queued ++ s.clients.threads.flatMap PoolThread.owned ++
            s.closed.filterMap id := List.perm_append_comm.append_right _
    exact hmove.trans h.items
  account := by
    have haccount := h.account
    simp only [setPool, PoolClients.granted, PoolClients.posting] at haccount ⊢
    omega
  frees := h.frees
  guarded := by
    have hpc' : (s.closers.set k pc')[k]? = some pc' := by
      obtain ⟨hk, -⟩ := List.getElem?_eq_some_iff.1 hpc
      exact List.getElem?_set_self hk
    refine h.guarded.step hpasses (inside_closer hpc)
      (inside_closer (s := { s.setPool pool with closers := s.closers.set k pc', closed }) hpc')
      fun o ho => ?_
    refine or_congr Iff.rfl (exists_congr fun l => and_congr_right fun heq => ?_)
    have hkl : k ≠ l := by
      rintro rfl
      exact ho heq
    rw [List.getElem?_set_ne hkl]
  settled := by
    intro pd hpd
    obtain ⟨l, hl⟩ := List.mem_iff_getElem?.1 hpd
    obtain ⟨-, rfl⟩ | ⟨hkl, hl⟩ := Parties.getElem?_set_cases hl
    · exact hsettled
    · obtain heq | hholds := hqueue
      · have hset := h.settled pd (List.mem_of_getElem? hl)
        rw [← heq] at hset
        exact hset
      · refine settled_of_not_holds (h.not_holds ((inside_closer hpc).2 hholds) ?_ hl) _
        exact fun heq => hkl (Nat.add_left_cancel heq)

/-- A step that leaves the queue as it is. -/
theorem Inv.moveCloser (h : Inv conns s) (hpc : s.closers[k]? = some pc) {mtx : Option Nat}
    {pc' : ClosePc} (hpasses : Passes (s.closerId k) s.clients.pool.mtx mtx pc.holds pc'.holds)
    (hsettled : Settled s.clients.pool.connQue pc') :
    Inv conns ((s.setPool { s.clients.pool with mtx }).setCloser k pc') :=
  h.closer hpc (.refl _) rfl rfl hpasses (.inl rfl) hsettled

/-- A connection goes from the queue to those that are closed. -/
theorem queued_close {pool : SqlConnPool} {sql : Option Mysql} {rest : List (Option Mysql)}
    (closed : List (Option Mysql)) (hque : pool.connQue = sql :: rest) :
    SqlConnPool.queued { pool with connQue := rest } ++ (closed ++ [sql]).filterMap id ~
      pool.queued ++ closed.filterMap id := by
  cases sql with
  | none => simp [SqlConnPool.queued, hque]
  | some x =>
    simp only [SqlConnPool.queued, hque, List.filterMap_append, List.filterMap_cons, id,
      List.filterMap_nil]
    calc
      rest.filterMap id ++ (closed.filterMap id ++ [x])
      _ = (rest.filterMap id ++ closed.filterMap id) ++ [x] := (List.append_assoc _ _ _).symm
      _ ~ x :: (rest.filterMap id ++ closed.filterMap id) := List.perm_append_singleton _ _

/-- **A step of `ClosePool` or `GetFreeConnCount`.** -/
theorem stepCloser_inv (h : Inv conns s) (hpc : s.closers[k]? = some pc) :
    Inv conns (s.stepCloser k pc) := by
  cases pc with
  | idle => exact h
  | closeLock | countLock =>
    simp only [stepCloser]
    split
    · rename_i hfree
      exact h.moveCloser hpc (by rw [hfree]; exact .acquire _) trivial
    · exact h
  | closeLoop =>
    simp only [stepCloser]
    split
    · rename_i hnil
      exact h.moveCloser hpc (.stay s.clients.pool.mtx true) hnil
    · rename_i sql rest hque
      have hlength : rest.length + (s.closed ++ [sql]).length =
          s.clients.pool.connQue.length + s.closed.length := by
        simp only [hque, List.length_cons, List.length_append, List.length_nil]
        omega
      have hclose := h.closer hpc (queued_close s.closed hque) hlength rfl (.stay _ true) (.inr rfl)
        (show Settled rest .closeLoop from trivial)
      rwa [Parties.set_self hpc] at hclose
  | closeUnlock => exact h.moveCloser hpc (.release _) trivial
  | countRead => exact h.moveCloser hpc (.stay s.clients.pool.mtx true) rfl
  | countUnlock count => exact h.moveCloser hpc (.release _) trivial

/-- The action is `front` with `pop` of a thread in `GetConn`. -/
def Pops (s : PoolUsers) : UsersAct → Prop
  | .client act => s.clients.Pops act
  | .closePool _ | .getFreeConnCount _ | .next _ => False

/-- **Step lemma.** -/
theorem step_inv {act : UsersAct} (h : Inv conns s) (hadm : s.FreesHeld act)
    (ht : s.step act = .ok t) : Inv conns t := by
  cases act with
  | client act =>
    obtain ⟨clients, hclients, ht⟩ := bind_eq_ok.1 ht
    cases ht
    obtain rfl | hch := PoolClients.step_changes hadm hclients
    · exact h
    · exact h.client hch
  | closePool k | getFreeConnCount k =>
    rw [← Except.ok.inj ht]
    split
    · rename_i hidle
      exact h.moveCloser hidle (.stay s.clients.pool.mtx false) trivial
    · exact h
  | next k =>
    rw [← Except.ok.inj ht]
    split
    · rename_i pc hpc
      exact stepCloser_inv h hpc
    · exact h

/-- A step returns unless it pops from an empty queue. -/
theorem step_returns_iff {act : UsersAct} (h : Inv conns s) :
    (∃ t, s.step act = .ok t) ↔ (s.Pops act → s.clients.pool.connQue ≠ []) := by
  cases act with
  | client act =>
    refine Iff.trans ?_ (PoolClients.step_returns_iff h.frees)
    constructor
    · rintro ⟨t, ht⟩
      obtain ⟨clients, hclients, -⟩ := bind_eq_ok.1 ht
      exact ⟨clients, hclients⟩
    · rintro ⟨clients, hclients⟩
      exact ⟨{ s with clients }, by simp only [step, hclients, ok_bind, pure_eq_ok]⟩
  | closePool k => exact iff_of_true ⟨_, rfl⟩ nofun
  | getFreeConnCount k => exact iff_of_true ⟨_, rfl⟩ nofun
  | next k => exact iff_of_true ⟨_, rfl⟩ nofun

/-- A thread that pops has the mutex, so that no `FreeConn` is between `push` and `sem_post`. -/
theorem Inv.posting_eq_zero (h : Inv conns s) {act : UsersAct} (hpops : s.Pops act) :
    s.clients.posting = 0 := by
  cases act with
  | closePool k | getFreeConnCount k | next k => cases hpops
  | client act =>
    cases act with
    | getConn tid | freeConn tid sql => cases hpops
    | next tid =>
      obtain ⟨th, hth, hpc⟩ := hpops
      rw [PoolClients.posting, List.countP_eq_zero]
      intro u hu hposting
      obtain ⟨i, hi⟩ := List.mem_iff_getElem?.1 hu
      have hin : s.Inside tid := .inl ⟨th, hth, by rw [hpc]; rfl⟩
      have hin' : s.Inside i := by
        refine .inl ⟨u, hi, ?_⟩
        cases hupc : u.pc with
        | freePost => rfl
        | _ => rw [hupc] at hposting; cases hposting
      obtain rfl := h.guarded.eq hin hin'
      obtain rfl : th = u := Option.some.inj (hth.symm.trans hi)
      rw [hpc] at hposting
      cases hposting

/-- Who pops finds a connection as long as the semaphore, with the threads behind `sem_wait`, exceeds
the number of connections closed. -/
theorem Inv.connQue_ne_nil_iff (h : Inv conns s) {act : UsersAct} (hpops : s.Pops act) :
    s.clients.pool.connQue ≠ [] ↔
      s.closed.length < s.clients.pool.semId + s.clients.granted := by
  have haccount := h.account
  rw [h.posting_eq_zero hpops] at haccount
  rw [← List.length_pos_iff]
  omega

theorem start_inv (conns : List Mysql) (n m : Nat) {pool : SqlConnPool}
    (hpool : SqlConnPool.init (conns.map some) = .ok pool) : Inv conns (start pool n m) := by
  have hclients := PoolClients.start_inv conns n hpool
  obtain ⟨-, -, hret⟩ := bind_eq_ok.1 hpool
  cases hret
  refine ⟨?_, ?_, hclients.frees, fun tid => ?_, ?_⟩
  · simpa [start] using hclients.items
  · simpa [start] using hclients.account
  · refine iff_of_false ?_ nofun
    rintro (⟨th, hth, hholds⟩ | ⟨k, -, pc, hpc, hholds⟩)
    · rw [List.eq_of_mem_replicate (List.mem_of_getElem? hth)] at hholds
      cases hholds
    · rw [List.eq_of_mem_replicate (List.mem_of_getElem? hpc)] at hholds
      cases hholds
  · intro pc hpc
    rw [List.eq_of_mem_replicate hpc]
    trivial

/-! ## Runs -/

/-- **Closing loses nothing and closes nothing twice.**  After `init` with distinct connections, in any
interleaving of `GetConn`, `FreeConn`, `ClosePool` and `GetFreeConnCount` in which threads free only what
they hold: every connection is in the queue, with one thread or closed, in one of these places and
once; when `ClosePool` is about to return, the connections that are not closed are those that the threads
hold; and the number that `GetFreeConnCount` returns is the length of the queue as long as it has the
mutex. -/
theorem close_conserves (conns : List Mysql) (hnodup : conns.Nodup) (n m : Nat) (pool : SqlConnPool)
    (hpool : SqlConnPool.init (conns.map some) = .ok pool) (acts : List UsersAct)
    (hadm : Allowed step FreesHeld (start pool n m) acts) (s : PoolUsers)
    (hs : run step (start pool n m) acts = .ok s) :
    s.clients.pool.queued ++ s.clients.threads.flatMap PoolThread.owned ++ s.closed.filterMap id ~
        conns ∧
      (s.clients.pool.queued ++ s.clients.threads.flatMap PoolThread.owned ++
        s.closed.filterMap id).Nodup ∧
      (∀ pc ∈ s.closers, pc = .closeUnlock →
        s.clients.threads.flatMap PoolThread.owned ++ s.closed.filterMap id ~ conns) ∧
      ∀ count, .countUnlock count ∈ s.closers → count = s.clients.pool.connQue.length := by
  have h : Inv conns s := run_safe (fun s act t h hadm ht => step_inv h hadm ht) acts _ s
    (start_inv conns n m hpool) hadm hs
  refine ⟨h.items, h.items.nodup_iff.2 hnodup, ?_, fun count hcount => h.settled _ hcount⟩
  rintro pc hpc rfl
  have hnil : s.clients.pool.connQue = [] := h.settled _ hpc
  have hitems := h.items
  rwa [SqlConnPool.queued, hnil, List.filterMap_nil, List.nil_append] at hitems

/-- **`ClosePool` leaves the semaphore behind.**  A run returns exactly when the semaphore, with the
threads between `sem_wait` and `pop`, exceeds the number of connections closed at every `pop`; so it
returns as long as nothing is closed, and fails once the semaphore hands out the units of connections that
are closed. -/
theorem pops_return_iff (conns : List Mysql) (n m : Nat) (pool : SqlConnPool)
    (hpool : SqlConnPool.init (conns.map some) = .ok pool) (acts : List UsersAct)
    (hadm : Allowed step FreesHeld (start pool n m) acts) :
    (∃ s, run step (start pool n m) acts = .ok s) ↔
      ∀ p act, p ++ [act] <+: acts → ∀ s, run step (start pool n m) p = .ok s → s.Pops act →
        s.closed.length < s.clients.pool.semId + s.clients.granted := by
  have hstep : ∀ s act, Inv conns s → s.FreesHeld act →
      (s.Pops act → s.closed.length < s.clients.pool.semId + s.clients.granted) →
      ∃ t, s.step act = .ok t ∧ Inv conns t := by
    intro s act h hadm hQ
    obtain ⟨t, ht⟩ := (step_returns_iff h).2 fun hpops => (h.connQue_ne_nil_iff hpops).2 (hQ hpops)
    exact ⟨t, ht, step_inv h hadm ht⟩
  have hstop : ∀ s act t, Inv conns s → s.FreesHeld act → s.step act = .ok t → s.Pops act →
      s.closed.length < s.clients.pool.semId + s.clients.granted := by
    intro s act t h _ ht hpops
    exact (h.connQue_ne_nil_iff hpops).1 ((step_returns_iff h).1 ⟨t, ht⟩ hpops)
  exact run_returns_iff hstep hstop acts _ (start_inv conns n m hpool) hadm

/-- Thread `0` holds `7` while `ClosePool` closes `8`, and frees it.  The semaphore has two units
then, and lets two threads through to the one connection. -/
def sampleUse : List UsersAct :=
  [.client (.getConn 0), .client (.next 0), .client (.next 0), .client (.next 0), .client (.next 0),
    .client (.next 0), .closePool 0, .next 0, .next 0, .next 0, .next 0, .client (.freeConn 0 (some 7)),
    .client (.next 0), .client (.next 0), .client (.next 0), .client (.next 0), .client (.next 0),
    .client (.getConn 0), .client (.getConn 1), .client (.next 0), .client (.next 1),
    .client (.next 0), .client (.next 1), .client (.next 0), .client (.next 0), .client (.next 0),
    .client (.next 1)]

theorem close_conserves_sample :
    Allowed step FreesHeld (start ⟨[some 7, some 8], 2, none⟩ 2 1) sampleUse ∧
      ∃ s, run step (start ⟨[some 7, some 8], 2, none⟩ 2 1) sampleUse = .ok s ∧
        s.clients.pool.queued ++ s.clients.threads.flatMap PoolThread.owned ++
          s.closed.filterMap id ~ [7, 8] := by
  have hadm : Allowed step FreesHeld (start ⟨[some 7, some 8], 2, none⟩ 2 1) sampleUse := by
    decide +kernel
  refine ⟨hadm, ?_⟩
  cases hs : run step (start ⟨[some 7, some 8], 2, none⟩ 2 1) sampleUse with
  | error e =>
    have hok : (run step (start ⟨[some 7, some 8], 2, none⟩ 2 1) sampleUse).toBool = true := by
      decide +kernel
    rw [hs] at hok
    cases hok
  | ok s =>
    exact ⟨s, rfl, (close_conserves [7, 8] (by decide) 2 1 ⟨[some 7, some 8], 2, none⟩ rfl sampleUse hadm
      s hs).1⟩

theorem pops_return_iff_sample :
    (∃ s, run step (start ⟨[some 7, some 8], 2, none⟩ 2 1) sampleUse = .ok s) ↔
      ∀ p act, p ++ [act] <+: sampleUse →
        ∀ s, run step (start ⟨[some 7, some 8], 2, none⟩ 2 1) p = .ok s → s.Pops act →
          s.closed.length < s.clients.pool.semId + s.clients.granted :=
  pops_return_iff [7, 8] 2 1 ⟨[some 7, some 8], 2, none⟩ rfl sampleUse (by decide +kernel)

/-- The next step pops from an empty queue. -/
example : run step (start ⟨[some 7, some 8], 2, none⟩ 2 1) (sampleUse ++ [.client (.next 1)]) =
    .error .invalidAccess := by decide +kernel

end PoolUsers
