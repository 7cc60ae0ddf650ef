import TinyHttpServer.Lib.Run
import TinyHttpServer.Lib.Parties

/-!
# The connection pool (`src/sql/sqlconnpool.cc`, `src/sql/sqlconnpool.h`)

A queue of connections with a mutex, and a semaphore that counts them.  The steps of `GetConn` are
the test of `conn_que_.empty()` outside the mutex, `sem_wait`, the mutex, `front` with `pop`, and the
release of the mutex; those of `FreeConn` are the assertion, the mutex, `push`, `sem_post` and the
release of the mutex.  A step that has to wait changes nothing.

* `exclusive` — for any interleaving of any number of threads that free only what they hold, every
  connection is in one place, no `pop` finds the queue empty, and the semaphore and the threads
  between `sem_wait` and `pop` account for the queue.
-/

set_option autoImplicit false

open Checked Machine
open scoped List

/-- A connection; a `MYSQL *` is an option. -/
abbrev Mysql := Nat

/-- `class SqlConnPool`, with the thread that holds the mutex. -/
structure SqlConnPool where
  connQue : List (Option Mysql)
  semId : Nat
  mtx : Option Nat
  deriving DecidableEq, Repr

/-- Where a thread is in `GetConn` or `FreeConn`. -/
inductive PoolPc where
  /-- before the test `conn_que_.empty()` -/
  | getTest
  /-- before `sem_wait` -/
  | getWait
  /-- before the mutex -/
  | getLock
  /-- before `front` and `pop` -/
  | getPop
  | getUnlock (sql : Option Mysql)
  /-- before `assert(sql)` -/
  | freeAssert (sql : Option Mysql)
  | freeLock (sql : Option Mysql)
  /-- before `push` -/
  | freePush (sql : Option Mysql)
  /-- before `sem_post` -/
  | freePost
  | freeUnlock
  /-- the call has returned; `FreeConn` returns nothing -/
  | done (sql : Option Mysql)
  deriving DecidableEq, Repr

namespace SqlConnPool

/-- `init`, for the results of the calls of `mysql_real_connect`. -/
def init (connected : List (Option Mysql)) : Checked SqlConnPool := do
  require (0 < connected.length)
  return { connQue := connected, semId := connected.length, mtx := none }

/-- The next step of thread `tid` in `GetConn` or `FreeConn`. -/
def step (pool : SqlConnPool) (tid : Nat) : PoolPc → Checked (SqlConnPool × PoolPc)
  | .getTest => return (pool, if pool.connQue = [] then .done none else .getWait)
  | .getWait =>
    return if 0 < pool.semId then ({ pool with semId := pool.semId - 1 }, .getLock)
    else (pool, .getWait)
  | .getLock =>
    return if pool.mtx = none then ({ pool with mtx := some tid }, .getPop) else (pool, .getLock)
  | .getPop =>
    match pool.connQue with
    | [] => .error .invalidAccess
    | sql :: rest => return ({ pool with connQue := rest }, .getUnlock sql)
  | .getUnlock sql => return ({ pool with mtx := none }, .done sql)
  | .freeAssert sql => do
    require (sql ≠ none)
    return (pool, .freeLock sql)
  | .freeLock sql =>
    return if pool.mtx = none then ({ pool with mtx := some tid }, .freePush sql)
    else (pool, .freeLock sql)
  | .freePush sql => return ({ pool with connQue := pool.connQue ++ [sql] }, .freePost)
  | .freePost => return ({ pool with semId := pool.semId + 1 }, .freeUnlock)
  | .freeUnlock => return ({ pool with mtx := none }, .done none)
  | .done sql => return (pool, .done sql)

end SqlConnPool

namespace PoolPc

/-- Between `sem_wait` and `pop`. -/
def granted : PoolPc → Bool
  | .getLock | .getPop => true
  | _ => false

/-- Between `push` and `sem_post`. -/
def posting : PoolPc → Bool
  | .freePost => true
  | _ => false

/-- In `FreeConn`, with the mutex. -/
def freeing : PoolPc → Bool
  | .freePush _ | .freePost | .freeUnlock => true
  | _ => false

theorem freeing_of_posting {pc : PoolPc} (h : pc.posting) : pc.freeing := by
  cases pc with
  | freePost => rfl
  | _ => cases h

/-- The connection on its way from the queue to the caller, or back. -/
def inFlight : PoolPc → List Mysql
  | .getUnlock sql | .freeAssert sql | .freeLock sql | .freePush sql | .done sql => sql.toList
  | _ => []

end PoolPc

namespace SqlConnPool

variable {pool : SqlConnPool} {tid : Nat} {pc : PoolPc}

/-- A thread waits for the semaphore or goes on. -/
theorem step_getWait {pool' : SqlConnPool} {pc' : PoolPc}
    (h : pool.step tid .getWait = .ok (pool', pc')) :
    pool'.connQue = pool.connQue ∧ (pc' = .getWait ∨ pc' = .getLock) := by
  simp only [step, pure_eq_ok, Except.ok.injEq] at h
  split at h
  · cases h
    exact ⟨rfl, .inr rfl⟩
  · cases h
    exact ⟨rfl, .inl rfl⟩

/-- A thread waits for the mutex or goes on. -/
theorem step_getLock {pool' : SqlConnPool} {pc' : PoolPc}
    (h : pool.step tid .getLock = .ok (pool', pc')) :
    pool'.connQue = pool.connQue ∧ (pc' = .getLock ∨ pc' = .getPop) := by
  simp only [step, pure_eq_ok, Except.ok.injEq] at h
  split at h
  · cases h
    exact ⟨rfl, .inr rfl⟩
  · cases h
    exact ⟨rfl, .inl rfl⟩

theorem step_freeLock {pool' : SqlConnPool} {pc' : PoolPc} {sql : Option Mysql}
    (h : pool.step tid (.freeLock sql) = .ok (pool', pc')) :
    pool'.connQue = pool.connQue ∧ (pc' = .freeLock sql ∨ pc' = .freePush sql) := by
  simp only [step, pure_eq_ok, Except.ok.injEq] at h
  split at h
  · cases h
    exact ⟨rfl, .inr rfl⟩
  · cases h
    exact ⟨rfl, .inl rfl⟩

/-- The connections in the queue. -/
def queued (pool : SqlConnPool) : List Mysql := pool.connQue.filterMap id

theorem mem_queued {x : Mysql} : x ∈ pool.queued ↔ some x ∈ pool.connQue := by
  simp [queued, List.mem_filterMap]

/-- What the semaphore lacks to be the length of the queue, for a thread at `pc`. -/
def credit (pc : PoolPc) : Nat := pc.granted.toNat + pc.posting.toNat

/-- A step keeps the connections and the account of the semaphore. -/
structure Keeps (pool : SqlConnPool) (pc : PoolPc) (pool' : SqlConnPool) (pc' : PoolPc) : Prop where
  items : pool'.queued ++ pc'.inFlight ~ pool.queued ++ pc.inFlight
  account : pool'.semId + credit pc' + pool.connQue.length =
    pool.semId + credit pc + pool'.connQue.length
  called : pc' ≠ .freeAssert none

/-- **One step of the pool**, unless it pops from an empty queue or frees a null pointer. -/
theorem step_keeps (tid : Nat) (hpop : pc = .getPop → pool.connQue ≠ [])
    (hfree : pc ≠ .freeAssert none) :
    ∃ pool' pc', pool.step tid pc = .ok (pool', pc') ∧ Keeps pool pc pool' pc' := by
  cases pc with
  | getTest =>
    refine ⟨_, _, rfl, ?_⟩
    split
    · exact ⟨.refl _, rfl, nofun⟩
    · exact ⟨.refl _, rfl, nofun⟩
  | getWait =>
    by_cases hsem : 0 < pool.semId
    · refine ⟨{ pool with semId := pool.semId - 1 }, .getLock, ?_, .refl _, ?_, nofun⟩
      · simp only [step, if_pos hsem, pure_eq_ok]
      · simp only [credit, PoolPc.granted, PoolPc.posting, Bool.toNat_true, Bool.toNat_false]
        omega
    · exact ⟨pool, .getWait, by simp only [step, if_neg hsem, pure_eq_ok], .refl _, rfl, nofun⟩
  | getLock =>
    by_cases hmtx : pool.mtx = none
    · exact ⟨{ pool with mtx := some tid }, .getPop, by simp only [step, if_pos hmtx, pure_eq_ok],
        .refl _, rfl, nofun⟩
    · exact ⟨pool, .getLock, by simp only [step, if_neg hmtx, pure_eq_ok], .refl _, rfl, nofun⟩
  | getPop =>
    cases hque : pool.connQue with
    | nil => exact absurd hque (hpop rfl)
    | cons sql rest =>
      refine ⟨{ pool with connQue := rest }, .getUnlock sql, ?_, ?_, ?_, nofun⟩
      · simp only [step, hque, pure_eq_ok]
      · cases sql with
        | none => simp [queued, hque, PoolPc.inFlight]
        | some x => simp [queued, hque, PoolPc.inFlight]
      · simp [credit, PoolPc.granted, PoolPc.posting, hque]
        omega
  | getUnlock sql => exact ⟨_, _, rfl, .refl _, rfl, nofun⟩
  | freeAssert sql =>
    have hsql : sql ≠ none := fun h => hfree (by rw [h])
    exact ⟨pool, .freeLock sql, by simp only [step, require_of hsql, ok_bind, pure_eq_ok], .refl _,
      rfl, nofun⟩
  | freeLock sql =>
    by_cases hmtx : pool.mtx = none
    · exact ⟨{ pool with mtx := some tid }, .freePush sql,
        by simp only [step, if_pos hmtx, pure_eq_ok], .refl _, rfl, nofun⟩
    · exact ⟨pool, .freeLock sql, by simp only [step, if_neg hmtx, pure_eq_ok], .refl _, rfl, nofun⟩
  | freePush sql =>
    refine ⟨_, _, rfl, ?_, ?_, nofun⟩
    · cases sql <;> simp [queued, PoolPc.inFlight]
    · simp [credit, PoolPc.granted, PoolPc.posting]
      omega
  | freePost =>
    refine ⟨_, _, rfl, .refl _, ?_, nofun⟩
    simp [credit, PoolPc.granted, PoolPc.posting]
  | freeUnlock => exact ⟨_, _, rfl, .refl _, rfl, nofun⟩
  | done sql => exact ⟨_, _, rfl, .refl _, rfl, nofun⟩

end SqlConnPool

/-! ## Threads that share the pool -/

/-- A thread that calls `GetConn` and `FreeConn`, with the connections that it holds.  The connection
of a call of `FreeConn` is given up with the call. -/
structure PoolThread where
  pc : PoolPc
  held : List Mysql
  deriving DecidableEq, Repr

/-- The pool and its threads. -/
structure PoolClients where
  pool : SqlConnPool
  threads : List PoolThread
  deriving DecidableEq, Repr

inductive PoolAct where
  /-- a thread calls `GetConn` -/
  | getConn (tid : Nat)
  /-- a thread calls `FreeConn` -/
  | freeConn (tid : Nat) (sql : Option Mysql)
  /-- a thread takes the next step of its call -/
  | next (tid : Nat)
  deriving DecidableEq, Repr

namespace PoolThread

/-- Outside of the pool, with nothing. -/
def idle : PoolThread := { pc := .done none, held := [] }

/-- The thread after a step of its call; what `GetConn` returns is held. -/
def proceed (th : PoolThread) : PoolPc → PoolThread
  | .done sql => { pc := .done none, held := th.held ++ sql.toList }
  | pc => { th with pc }

/-- The connections that are held, or are on their way in or out. -/
def owned (th : PoolThread) : List Mysql := th.held ++ th.pc.inFlight

theorem owned_proceed (th : PoolThread) (pc : PoolPc) :
    (th.proceed pc).owned = th.held ++ pc.inFlight := by
  cases pc <;> simp [proceed, owned, PoolPc.inFlight]

theorem granted_proceed (th : PoolThread) (pc : PoolPc) :
    (th.proceed pc).pc.granted = pc.granted := by
  cases pc <;> rfl

theorem posting_proceed (th : PoolThread) (pc : PoolPc) :
    (th.proceed pc).pc.posting = pc.posting := by
  cases pc <;> rfl

end PoolThread

namespace PoolClients

/-- The threads start outside of the pool. -/
def start (pool : SqlConnPool) (n : Nat) : PoolClients :=
  { pool, threads := List.replicate n .idle }

/-- A step of one thread; a call is made by a thread outside of the pool. -/
def step (s : PoolClients) : PoolAct → Checked PoolClients
  | .getConn tid =>
    return match s.threads[tid]? with
    | some th =>
      if th.pc = .done none then { s with threads := s.threads.set tid { th with pc := .getTest } }
      else s
    | none => s
  | .freeConn tid sql =>
    return match s.threads[tid]? with
    | some th =>
      if th.pc = .done none then
        let held := sql.elim th.held th.held.erase
        { s with threads := s.threads.set tid { pc := .freeAssert sql, held } }
      else s
    | none => s
  | .next tid =>
    match s.threads[tid]? with
    | some th => do
      let (pool, pc) ← s.pool.step tid th.pc
      return { pool, threads := s.threads.set tid (th.proceed pc) }
    | none => return s

/-- A thread frees only a connection that it holds. -/
def FreesHeld (s : PoolClients) : PoolAct → Prop
  | .freeConn tid sql => ∃ th ∈ s.threads[tid]?, ∃ x ∈ th.held, sql = some x
  | .getConn _ | .next _ => True

instance (s : PoolClients) : ∀ act, Decidable (FreesHeld s act)
  | .freeConn tid _ => inferInstanceAs (Decidable (∃ th ∈ s.threads[tid]?, _))
  | .getConn _ | .next _ => inferInstanceAs (Decidable True)

/-- The number of threads between `sem_wait` and `pop`. -/
def granted (s : PoolClients) : Nat := s.threads.countP fun th => th.pc.granted

/-- The number of threads between `push` and `sem_post`. -/
def posting (s : PoolClients) : Nat := s.threads.countP fun th => th.pc.posting

/-- Every connection is in one place, and the semaphore accounts for the queue. -/
structure Inv (conns : List Mysql) (s : PoolClients) : Prop where
  items : s.pool.queued ++ s.threads.flatMap PoolThread.owned ~ conns
  account : s.pool.semId + s.granted + s.posting = s.pool.connQue.length
  frees : ∀ th ∈ s.threads, th.pc ≠ .freeAssert none

variable {conns : List Mysql} {s : PoolClients} {tid : Nat} {th th' : PoolThread}
  {pool' : SqlConnPool}

/-- A step of one thread keeps the invariant if it does so locally. -/
theorem Inv.set (h : Inv conns s) (hth : s.threads[tid]? = some th)
    (hitems : pool'.queued ++ th'.owned ~ s.pool.queued ++ th.owned)
    (haccount : pool'.semId + SqlConnPool.credit th'.pc + s.pool.connQue.length =
      s.pool.semId + SqlConnPool.credit th.pc + pool'.connQue.length)
    (hfree : th'.pc ≠ .freeAssert none) :
    Inv conns { pool := pool', threads := s.threads.set tid th' } where
  items := (Parties.perm_set hth hitems).trans h.items
  account := by
    have hgranted := Parties.countP_set_add (fun th => th.pc.granted) hth th'
    have hposting := Parties.countP_set_add (fun th => th.pc.posting) hth th'
    have haccount' := h.account
    simp only [granted, posting, SqlConnPool.credit] at haccount haccount' ⊢
    omega
  frees := by
    intro u hu
    rcases List.mem_or_eq_of_mem_set hu with hu | rfl
    · exact h.frees u hu
    · exact hfree

/-- Where a thread is about to pop, the semaphore has accounted for a connection in the queue. -/
theorem Inv.connQue_ne_nil (h : Inv conns s) (hth : s.threads[tid]? = some th)
    (hpc : th.pc = .getPop) : s.pool.connQue ≠ [] := by
  have hpos : 0 < s.granted := Parties.countP_pos _ hth (by rw [hpc]; rfl)
  have haccount := h.account
  apply List.ne_nil_of_length_pos
  omega

/-- **One step.** -/
theorem step_inv (h : Inv conns s) (act : PoolAct) (hadm : FreesHeld s act) :
    ∃ t, step s act = .ok t ∧ Inv conns t := by
  cases act with
  | getConn tid =>
    refine ⟨_, rfl, ?_⟩
    cases hth : s.threads[tid]? with
    | none => exact h
    | some th =>
      by_cases hidle : th.pc = .done none
      · simp only [if_pos hidle]
        refine h.set hth ?_ ?_ nofun
        · rw [PoolThread.owned, PoolThread.owned, hidle]
          exact .refl _
        · rw [hidle]
          rfl
      · simp only [if_neg hidle]
        exact h
  | freeConn tid sql =>
    obtain ⟨th, hmem, x, hx, rfl⟩ := hadm
    have hth : s.threads[tid]? = some th := hmem
    refine ⟨_, rfl, ?_⟩
    by_cases hidle : th.pc = .done none
    · simp only [hth, if_pos hidle]
      refine h.set hth ?_ ?_ nofun
      · -- the connection moves from `held` into the call
        apply List.Perm.append_left
        rw [PoolThread.owned, PoolThread.owned, hidle]
        have herase : x :: th.held.erase x ~ th.held := (List.perm_cons_erase hx).symm
        simpa [PoolPc.inFlight] using (List.perm_append_singleton x _).trans herase
      · rw [hidle]
        rfl
    · simp only [hth, if_neg hidle]
      exact h
  | next tid =>
    cases hth : s.threads[tid]? with
    | none => exact ⟨s, by simp only [step, hth, pure_eq_ok], h⟩
    | some th =>
      obtain ⟨pool', pc', hstep, hkeeps⟩ := SqlConnPool.step_keeps tid (h.connQue_ne_nil hth)
        (h.frees th (List.mem_of_getElem? hth))
      refine ⟨{ pool := pool', threads := s.threads.set tid (th.proceed pc') }, ?_,
        h.set hth ?_ ?_ ?_⟩
      · simp only [step, hth, hstep, ok_bind, pure_eq_ok]
      · rw [PoolThread.owned_proceed, PoolThread.owned]
        calc
          pool'.queued ++ (th.held ++ pc'.inFlight)
          _ ~ th.held ++ (pool'.queued ++ pc'.inFlight) := List.perm_append_comm_assoc _ _ _
          _ ~ th.held ++ (s.pool.queued ++ th.pc.inFlight) := hkeeps.items.append_left _
          _ ~ s.pool.queued ++ (th.held ++ th.pc.inFlight) := List.perm_append_comm_assoc _ _ _
      · rw [SqlConnPool.credit, PoolThread.granted_proceed, PoolThread.posting_proceed]
        exact hkeeps.account
      · intro hpc
        apply hkeeps.called
        cases pc' <;> first | exact hpc | cases hpc

theorem start_inv (conns : List Mysql) (n : Nat) {pool : SqlConnPool}
    (hpool : SqlConnPool.init (conns.map some) = .ok pool) : Inv conns (start pool n) := by
  obtain ⟨-, -, hret⟩ := bind_eq_ok.1 hpool
  cases hret
  refine ⟨?_, ?_, ?_⟩
  · have howned : (List.replicate n PoolThread.idle).flatMap PoolThread.owned = [] := by
      rw [List.flatMap_eq_nil_iff]
      intro th hth
      rw [List.eq_of_mem_replicate hth]
      rfl
    simp [start, SqlConnPool.queued, howned]
  · have hgranted : (start ⟨conns.map some, (conns.map some).length, none⟩ n).granted = 0 := by
      rw [granted, List.countP_eq_zero]
      intro th hth
      rw [List.eq_of_mem_replicate hth]
      nofun
    have hposting : (start ⟨conns.map some, (conns.map some).length, none⟩ n).posting = 0 := by
      rw [posting, List.countP_eq_zero]
      intro th hth
      rw [List.eq_of_mem_replicate hth]
      nofun
    rw [hgranted, hposting]
    rfl
  · intro th hth
    rw [List.eq_of_mem_replicate hth]
    nofun

/-- **The pool is exclusive.**  After `init` with distinct connections, let any number of threads call
`GetConn` and `FreeConn` in any interleaving, where each frees only what it holds, and so frees it
once.  Every step returns, so no `pop` finds the queue empty; the queue and the threads have every
connection of `init`, each of them in one place; and where no `FreeConn` has the mutex, the
semaphore and the threads between `sem_wait` and `pop` make up the length of the queue. -/
theorem exclusive (conns : List Mysql) (hnodup : conns.Nodup) (n : Nat) (pool : SqlConnPool)
    (hpool : SqlConnPool.init (conns.map some) = .ok pool) (acts : List PoolAct)
    (hadm : Allowed step FreesHeld (start pool n) acts) :
    ∃ s, run step (start pool n) acts = .ok s ∧
      s.pool.queued ++ s.threads.flatMap PoolThread.owned ~ conns ∧
      (∀ (i j : Nat) (p q : PoolThread), s.threads[i]? = some p → s.threads[j]? = some q → i ≠ j →
        ∀ x ∈ p.owned, x ∉ q.owned) ∧
      (∀ th ∈ s.threads, ∀ x ∈ th.owned, some x ∉ s.pool.connQue) ∧
      (∀ th ∈ s.threads, th.pc = .getPop → s.pool.connQue ≠ []) ∧
      ((∀ th ∈ s.threads, th.pc.freeing = false) →
        s.pool.semId + s.granted = s.pool.connQue.length) := by
  obtain ⟨s, hs, h⟩ := run_invariant (fun s act h hadm => step_inv h act hadm) acts (start pool n)
    (start_inv conns n hpool) hadm
  have hdistinct : (s.pool.queued ++ s.threads.flatMap PoolThread.owned).Nodup :=
    h.items.nodup_iff.2 hnodup
  refine ⟨s, hs, h.items, ?_, ?_, ?_, ?_⟩
  · intro i j p q hp hq hij x hx
    exact Parties.not_mem_of_nodup hdistinct hp hq hij hx
  · intro th hth x hx hmem
    obtain ⟨i, hi⟩ := List.getElem?_of_mem hth
    exact Parties.not_mem_pool_of_nodup hdistinct hi hx (SqlConnPool.mem_queued.2 hmem)
  · intro th hth hpc
    obtain ⟨i, hi⟩ := List.getElem?_of_mem hth
    exact h.connQue_ne_nil hi hpc
  · intro hfree
    have hposting : s.posting = 0 := by
      rw [posting, List.countP_eq_zero]
      intro th hth hpost
      have := PoolPc.freeing_of_posting hpost
      rw [hfree th hth] at this
      cases this
    have := h.account
    omega

/-- Two threads and one connection: the second thread waits in `sem_wait` while the first frees it. -/
theorem exclusive_sample :
    ∃ s, run step (start ⟨[some 7], 1, none⟩ 2)
        [.getConn 0, .getConn 1, .next 0, .next 1, .next 0, .next 1, .next 0, .next 0, .next 0,
          .freeConn 0 (some 7), .next 0, .next 0, .next 0, .next 0, .next 1] = .ok s ∧
      s.pool.queued ++ s.threads.flatMap PoolThread.owned ~ [7] := by
  obtain ⟨s, hs, hitems, -⟩ := exclusive [7] (by decide) 2 ⟨[some 7], 1, none⟩ rfl
    [.getConn 0, .getConn 1, .next 0, .next 1, .next 0, .next 1, .next 0, .next 0, .next 0,
      .freeConn 0 (some 7), .next 0, .next 0, .next 0, .next 0, .next 1] (by decide +kernel)
  exact ⟨s, hs, hitems⟩

end PoolClients
