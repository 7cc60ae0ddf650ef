import TinyHttpServer.Http.UserVerify
import TinyHttpServer.Sql.SqlConnPool

/-!
# Concurrent calls of `UserVerify` (`src/http/httprequest.cc`, `src/sql/sqlconnRAII.h`)

Any number of calls of `UserVerify` share the connection pool and the table.  The statement
`SqlConnRAII(&sql, SqlConnPool::Instance());` makes an object without a name: its constructor calls
`GetConn`, and its destructor runs at the end of the same statement and calls `FreeConn`.  The rest
of the function uses `sql`, and the normal return calls `FreeConn` again.

The steps are those of the pool, the tests and assertions, and the calls of `mysql_query` and
`mysql_store_result`, each with its outcome.

* `step_moves` — what a step of a call can do; the invariants here and in the modules on top of this
  one are derived from it.
* `disciplined_iff` — the calls keep to the rules of the pool exactly where none of them gets past
  the test for empty credentials.
* `connection_returned_twice` — one call, after which its connection is queued twice.
-/

set_option autoImplicit false

open Checked Machine

/-- Where a call is in `UserVerify`. -/
inductive VerifyPc where
  /-- before the test for empty credentials -/
  | entry
  /-- in `GetConn`, called by the constructor of `SqlConnRAII` -/
  | construct (pc : PoolPc)
  /-- in `FreeConn`, called by its destructor -/
  | destroy (sql : Mysql) (pc : PoolPc)
  /-- before `assert(sql)` -/
  | assertSql (sql : Option Mysql)
  /-- before `mysql_query` with the `SELECT` -/
  | select (sql : Mysql)
  /-- before `mysql_store_result` -/
  | store (sql : Mysql) (rows : List UserVerify.Row)
  /-- before `mysql_query` with the `INSERT` -/
  | insert (sql : Mysql)
  /-- in the `FreeConn` at the end -/
  | free (flag : Bool) (pc : PoolPc)
  | returned (flag : Bool)
  deriving DecidableEq, Repr

/-- A call of `UserVerify`, with the connection that it has taken out of the queue and the number of
times that it has put it back. -/
structure VerifyCall where
  name : Bytes
  pwd : Bytes
  isLogin : Bool
  pc : VerifyPc
  got : Option Mysql
  freed : Nat
  deriving DecidableEq, Repr

/-- The pool, the table and the calls. -/
structure VerifyCalls where
  pool : SqlConnPool
  table : UserVerify.Table
  calls : List VerifyCall

/-- A call takes its next step; `ok` is the outcome if the step is a call of `mysql`. -/
structure VerifyAct where
  call : Nat
  ok : Bool
  deriving DecidableEq, Repr

namespace VerifyPc

/-- The connection that the next step uses. -/
def uses : VerifyPc → Option Mysql
  | .select sql | .store sql _ | .insert sql => some sql
  | _ => none

end VerifyPc

namespace VerifyCall

open UserVerify

def make (name pwd : Bytes) (isLogin : Bool) : VerifyCall :=
  { name, pwd, isLogin, pc := .entry, got := none, freed := 0 }

/-- The start of the call of `FreeConn` at the end. -/
def freeStart (flag : Bool) (sql : Mysql) : VerifyPc := .free flag (.freeAssert (some sql))

/-- A step of the pool has been taken on behalf of the call. -/
def account (c : VerifyCall) (before after : PoolPc) : VerifyCall :=
  match before, after with
  | .getPop, .getUnlock sql => { c with got := sql }
  | .freePush _, _ => { c with freed := c.freed + 1 }
  | _, _ => c

/-- The next step of call `i`. -/
def step (exec : Exec) (pool : SqlConnPool) (table : Table) (i : Nat) (ok : Bool) (c : VerifyCall) :
    Checked (SqlConnPool × Table × VerifyCall) :=
  match c.pc with
  | .entry =>
    return (pool, table, { c with
      pc := if c.name = [] ∨ c.pwd = [] then .returned false else .construct .getTest })
  | .construct pc => do
    let (pool, pc') ← pool.step i pc
    return (pool, table, { c.account pc pc' with
      pc := match pc' with
        | .done (some sql) => .destroy sql (.freeAssert (some sql))
        | .done none => .assertSql none
        | pc' => .construct pc' })
  | .destroy sql pc => do
    let (pool, pc') ← pool.step i pc
    return (pool, table, { c.account pc pc' with
      pc := match pc' with
        | .done _ => .assertSql (some sql)
        | pc' => .destroy sql pc' })
  | .assertSql sql =>
    match sql with
    | some sql => return (pool, table, { c with pc := .select sql })
    | none => .error .assertion
  | .select sql =>
    match query exec ok table (selectOrder c.name) with
    | none => return (pool, table, { c with pc := .returned false })
    | some (rows, table) => return (pool, table, { c with pc := .store sql rows })
  | .store sql rows =>
    -- `mysql_num_fields` reads the result
    if ok then
      let flag := fetchRows c.pwd c.isLogin rows (initialFlag c.isLogin)
      return (pool, table, { c with
        pc := if !c.isLogin && flag then .insert sql else freeStart flag sql })
    else .error .invalidAccess
  | .insert sql =>
    match query exec ok table (insertOrder c.name c.pwd) with
    | none => return (pool, table, { c with pc := freeStart (insertFlag false) sql })
    | some (_, table) => return (pool, table, { c with pc := freeStart (insertFlag true) sql })
  | .free flag pc => do
    let (pool, pc') ← pool.step i pc
    return (pool, table, { c.account pc pc' with
      pc := match pc' with
        | .done _ => .returned flag
        | pc' => .free flag pc' })
  | .returned _ => return (pool, table, c)

end VerifyCall

/-! ## What a step does -/

namespace VerifyPc

/-- The step of the pool that comes next, in a call of `GetConn` or `FreeConn`. -/
def poolPc : VerifyPc → Option PoolPc
  | .construct pc | .destroy _ pc | .free _ pc => some pc
  | .entry | .assertSql _ | .select _ | .store _ _ | .insert _ | .returned _ => none

/-- Where the call is after a step of the pool to `pc'`. -/
def resume : VerifyPc → PoolPc → VerifyPc
  | .construct _, .done (some sql) => .destroy sql (.freeAssert (some sql))
  | .construct _, .done none => .assertSql none
  | .construct _, pc' => .construct pc'
  | .destroy sql _, .done _ => .assertSql (some sql)
  | .destroy sql _, pc' => .destroy sql pc'
  | .free flag _, .done _ => .returned flag
  | .free flag _, pc' => .free flag pc'
  | pc, _ => pc

end VerifyPc

namespace VerifyCall

open UserVerify

/-- The call after a step of the pool from `pc` to `pc'`. -/
def resumed (c : VerifyCall) (pc pc' : PoolPc) : VerifyCall :=
  { c.account pc pc' with pc := c.pc.resume pc' }

/-- The steps that return, by what is done: steps of the pool, and those in between. -/
inductive Moves (exec : Exec) (pool : SqlConnPool) (table : Table) (i : Nat) (ok : Bool)
    (c : VerifyCall) : SqlConnPool → Table → VerifyCall → Prop where
  | leave (hpc : c.pc = .entry) (hcred : c.name = [] ∨ c.pwd = []) :
      Moves exec pool table i ok c pool table { c with pc := .returned false }
  | enter (hpc : c.pc = .entry) (hcred : ¬(c.name = [] ∨ c.pwd = [])) :
      Moves exec pool table i ok c pool table { c with pc := .construct .getTest }
  | pool (pool' : SqlConnPool) (pc pc' : PoolPc) (hpc : c.pc.poolPc = some pc)
      (hpool : pool.step i pc = .ok (pool', pc')) :
      Moves exec pool table i ok c pool' table (c.resumed pc pc')
  | assert (sql : Mysql) (hpc : c.pc = .assertSql (some sql)) :
      Moves exec pool table i ok c pool table { c with pc := .select sql }
  | selectFails (sql : Mysql) (hpc : c.pc = .select sql)
      (hquery : query exec ok table (selectOrder c.name) = none) :
      Moves exec pool table i ok c pool table { c with pc := .returned false }
  | select (sql : Mysql) (rows : List Row) (table' : Table) (hpc : c.pc = .select sql)
      (hquery : query exec ok table (selectOrder c.name) = some (rows, table')) :
      Moves exec pool table i ok c pool table' { c with pc := .store sql rows }
  /-- a registration that has found no row -/
  | goInsert (sql : Mysql) (rows : List Row) (hpc : c.pc = .store sql rows)
      (hflag : (!c.isLogin && fetchRows c.pwd c.isLogin rows (initialFlag c.isLogin)) = true) :
      Moves exec pool table i ok c pool table { c with pc := .insert sql }
  | goFree (sql : Mysql) (rows : List Row) (hpc : c.pc = .store sql rows)
      (hflag : ¬(!c.isLogin && fetchRows c.pwd c.isLogin rows (initialFlag c.isLogin)) = true) :
      Moves exec pool table i ok c pool table
        { c with pc := freeStart (fetchRows c.pwd c.isLogin rows (initialFlag c.isLogin)) sql }
  | insertFails (sql : Mysql) (hpc : c.pc = .insert sql)
      (hquery : query exec ok table (insertOrder c.name c.pwd) = none) :
      Moves exec pool table i ok c pool table { c with pc := freeStart (insertFlag false) sql }
  | insert (sql : Mysql) (rows : List Row) (table' : Table) (hpc : c.pc = .insert sql)
      (hquery : query exec ok table (insertOrder c.name c.pwd) = some (rows, table')) :
      Moves exec pool table i ok c pool table' { c with pc := freeStart (insertFlag true) sql }
  | stay (flag : Bool) (hpc : c.pc = .returned flag) : Moves exec pool table i ok c pool table c

/-- **What a step of a call can do.** -/
theorem step_moves {exec : Exec} {pool pool' : SqlConnPool} {table table' : Table} {i : Nat}
    {ok : Bool} {c c' : VerifyCall} (h : c.step exec pool table i ok = .ok (pool', table', c')) :
    Moves exec pool table i ok c pool' table' c' := by
  -- a step of the pool ends where `resume` says
  have hresume : ∀ {pc pc' : PoolPc} {next : VerifyPc}, c.pc.poolPc = some pc →
      pool.step i pc = .ok (pool', pc') → next = c.pc.resume pc' →
      Moves exec pool table i ok c pool' table { c.account pc pc' with pc := next } := by
    rintro pc pc' next hpc hpool rfl
    exact .pool pool' pc pc' hpc hpool
  unfold step at h
  cases hpc : c.pc with
  | entry =>
    simp only [hpc] at h
    cases h
    by_cases hcred : c.name = [] ∨ c.pwd = []
    · rw [if_pos hcred]
      exact .leave hpc hcred
    · rw [if_neg hcred]
      exact .enter hpc hcred
  | construct pc =>
    simp only [hpc] at h
    obtain ⟨⟨pool₁, pc'⟩, hpool, hret⟩ := bind_eq_ok.1 h
    cases hret
    refine hresume (by rw [hpc]; rfl) hpool ?_
    rw [hpc]
    cases pc' with
    | done sql => cases sql <;> rfl
    | _ => rfl
  | destroy sql pc | free flag pc =>
    simp only [hpc] at h
    obtain ⟨⟨pool₁, pc'⟩, hpool, hret⟩ := bind_eq_ok.1 h
    cases hret
    refine hresume (by rw [hpc]; rfl) hpool ?_
    rw [hpc]
    cases pc' <;> rfl
  | assertSql sql =>
    simp only [hpc] at h
    cases sql with
    | none => cases h
    | some sql =>
      cases h
      exact .assert sql hpc
  | select sql =>
    simp only [hpc] at h
    cases hquery : query exec ok table (selectOrder c.name) with
    | none =>
      rw [hquery] at h
      cases h
      exact .selectFails sql hpc hquery
    | some answer =>
      rw [hquery] at h
      cases h
      exact .select sql answer.1 answer.2 hpc hquery
  | store sql rows =>
    simp only [hpc] at h
    cases ok with
    | false => cases h
    | true =>
      cases h
      by_cases hflag : (!c.isLogin && fetchRows c.pwd c.isLogin rows (initialFlag c.isLogin)) = true
      · rw [if_pos hflag]
        exact .goInsert sql rows hpc hflag
      · rw [if_neg hflag]
        exact .goFree sql rows hpc hflag
  | insert sql =>
    simp only [hpc] at h
    cases hquery : query exec ok table (insertOrder c.name c.pwd) with
    | none =>
      rw [hquery] at h
      cases h
      exact .insertFails sql hpc hquery
    | some answer =>
      rw [hquery] at h
      cases h
      exact .insert sql answer.1 answer.2 hpc hquery
  | returned flag =>
    simp only [hpc] at h
    cases h
    exact .stay flag hpc

end VerifyCall

namespace VerifyCalls

open UserVerify

/-- A step of one of the calls. -/
def step (exec : Exec) (s : VerifyCalls) (a : VerifyAct) : Checked VerifyCalls :=
  match s.calls[a.call]? with
  | none => return s
  | some c => do
    let (pool, table, c) ← c.step exec s.pool s.table a.call a.ok
    return { pool, table, calls := s.calls.set a.call c }

/-- Calls that have just been made. -/
def start (pool : SqlConnPool) (table : Table) (args : List (Bytes × Bytes × Bool)) : VerifyCalls :=
  { pool, table, calls := args.map fun a => .make a.1 a.2.1 a.2.2 }

theorem mem_start {pool : SqlConnPool} {table : Table} {args : List (Bytes × Bytes × Bool)}
    {c : VerifyCall} (hc : c ∈ (start pool table args).calls) :
    ∃ name pwd isLogin, c = VerifyCall.make name pwd isLogin := by
  obtain ⟨arg, -, rfl⟩ := List.mem_map.1 hc
  exact ⟨_, _, _, rfl⟩

/-- All calls have returned. -/
def Finished (s : VerifyCalls) : Prop := ∀ c ∈ s.calls, ∃ flag, c.pc = .returned flag

theorem step_eq_ok {exec : Exec} {s t : VerifyCalls} {a : VerifyAct} (ht : step exec s a = .ok t) :
    s.calls[a.call]? = none ∧ t = s ∨ ∃ c pool table c', s.calls[a.call]? = some c ∧
      c.step exec s.pool s.table a.call a.ok = .ok (pool, table, c') ∧
      t = { pool, table, calls := s.calls.set a.call c' } := by
  unfold step at ht
  cases hc : s.calls[a.call]? with
  | none =>
    rw [hc] at ht
    cases ht
    exact .inl ⟨rfl, rfl⟩
  | some c =>
    rw [hc] at ht
    obtain ⟨⟨pool, table, c'⟩, hstep, hret⟩ := bind_eq_ok.1 ht
    cases hret
    exact .inr ⟨c, pool, table, c', rfl, hstep, rfl⟩

end VerifyCalls

/-! ## The connection of a call -/

namespace VerifyCall

open UserVerify

/-- How far the call is with its connection. -/
def Phase (c : VerifyCall) : Prop :=
  match c.pc with
  | .entry => c.got = none ∧ c.freed = 0
  | .construct pc => c.freed = 0 ∧
    match pc with
    | .getTest | .getWait | .getLock | .getPop => c.got = none
    | .getUnlock sql => c.got = sql
    | _ => False
  | .destroy sql pc => c.got = some sql ∧
    match pc with
    | .freeAssert sql' | .freeLock sql' | .freePush sql' => sql' = some sql ∧ c.freed = 0
    | .freePost | .freeUnlock => c.freed = 1
    | _ => False
  | .assertSql sql => sql = none ∨ c.got = sql ∧ c.freed = 1
  | .select sql | .store sql _ | .insert sql => c.got = some sql ∧ c.freed = 1
  | .free _ pc => c.got ≠ none ∧
    match pc with
    | .freeAssert _ | .freeLock _ | .freePush _ | .freePost | .freeUnlock => True
    | _ => False
  | .returned _ => c.name ≠ [] ∧ c.pwd ≠ [] → c.got ≠ none

variable {exec : Exec} {pool pool' : SqlConnPool} {table table' : Table} {i : Nat} {ok : Bool}
  {c c' : VerifyCall}

/-- The call has not sent its first statement. -/
def early : VerifyPc → Bool
  | .construct _ | .destroy _ _ | .assertSql _ | .select _ => true
  | _ => false

theorem eq_select_of_uses {pc : VerifyPc} {x : Mysql} (hearly : early pc) (huses : pc.uses = some x) :
    pc = .select x := by
  cases pc with
  | select sql => rw [← Option.some.inj huses]
  | construct | destroy | assertSql => cases huses
  | entry | store | insert | free | returned => cases hearly

/-- What a step does to the queue and to the connection of the call. -/
inductive QueueMove (pool : SqlConnPool) (c : VerifyCall) (pool' : SqlConnPool) (c' : VerifyCall) :
    Prop where
  /-- the call takes the first connection -/
  | pop (sql : Option Mysql) (hque : pool.connQue = sql :: pool'.connQue) (hnone : c.got = none)
      (hgot : c'.got = sql) (hfreed : c'.freed = 0) (hearly : early c'.pc)
  /-- nothing leaves the queue; before its first statement the call puts its connection back or
  keeps it -/
  | quiet (hgot : c'.got = c.got) (hque : ∀ sql ∈ pool.connQue, sql ∈ pool'.connQue)
      (hearly : early c.pc → c.pc.uses = none →
        early c'.pc ∧ (c'.freed = c.freed ∨ c.got ∈ pool'.connQue))

/-- A step that leaves the queue and the connection alone. -/
theorem QueueMove.stay (hgot : c'.got = c.got) (hfreed : c'.freed = c.freed)
    (hque : pool'.connQue = pool.connQue) (hearly : early c.pc → c.pc.uses = none → early c'.pc) :
    QueueMove pool c pool' c' :=
  .quiet hgot (fun _ h => hque ▸ h) fun hpc huses => ⟨hearly hpc huses, .inl hfreed⟩

theorem construct_spec {pc pc' : PoolPc} (hpc : c.pc = .construct pc) (h : Phase c)
    (hpool : pool.step i pc = .ok (pool', pc')) :
    Phase (c.resumed pc pc') ∧ QueueMove pool c pool' (c.resumed pc pc') := by
  unfold Phase at h
  simp only [hpc] at h
  rw [resumed, hpc]
  obtain ⟨hfreed, hgot⟩ := h
  cases pc with
  | getTest =>
    cases hpool
    by_cases hempty : pool.connQue = []
    · rw [if_pos hempty]
      exact ⟨.inl rfl, .stay rfl rfl rfl fun _ _ => rfl⟩
    · rw [if_neg hempty]
      exact ⟨⟨hfreed, hgot⟩, .stay rfl rfl rfl fun _ _ => rfl⟩
  | getWait =>
    obtain ⟨hque, rfl | rfl⟩ := SqlConnPool.step_getWait hpool
    · exact ⟨⟨hfreed, hgot⟩, .stay rfl rfl hque fun _ _ => rfl⟩
    · exact ⟨⟨hfreed, hgot⟩, .stay rfl rfl hque fun _ _ => rfl⟩
  | getLock =>
    obtain ⟨hque, rfl | rfl⟩ := SqlConnPool.step_getLock hpool
    · exact ⟨⟨hfreed, hgot⟩, .stay rfl rfl hque fun _ _ => rfl⟩
    · exact ⟨⟨hfreed, hgot⟩, .stay rfl rfl hque fun _ _ => rfl⟩
  | getPop =>
    cases hque : pool.connQue with
    | nil =>
      simp only [SqlConnPool.step, hque] at hpool
      cases hpool
    | cons sql rest =>
      simp only [SqlConnPool.step, hque, pure_eq_ok] at hpool
      cases hpool
      exact ⟨⟨hfreed, rfl⟩, .pop sql hque hgot rfl hfreed rfl⟩
  | getUnlock sql =>
    cases hpool
    cases sql with
    | none => exact ⟨.inl rfl, .stay rfl rfl rfl fun _ _ => rfl⟩
    | some x =>
      exact ⟨⟨hgot, rfl, hfreed⟩, .stay rfl rfl rfl fun _ _ => rfl⟩
  | freeAssert | freeLock | freePush | freePost | freeUnlock | done => exact hgot.elim

theorem destroy_spec {sql : Mysql} {pc pc' : PoolPc} (hpc : c.pc = .destroy sql pc) (h : Phase c)
    (hpool : pool.step i pc = .ok (pool', pc')) :
    Phase (c.resumed pc pc') ∧ QueueMove pool c pool' (c.resumed pc pc') := by
  unfold Phase at h
  simp only [hpc] at h
  rw [resumed, hpc]
  obtain ⟨hgot, hphase⟩ := h
  cases pc with
  | freeAssert sql' =>
    obtain ⟨rfl, hfreed⟩ := hphase
    simp only [SqlConnPool.step, require_of (Option.some_ne_none sql), ok_bind, pure_eq_ok]
      at hpool
    cases hpool
    exact ⟨⟨hgot, rfl, hfreed⟩, .stay rfl rfl rfl fun _ _ => rfl⟩
  | freeLock sql' =>
    obtain ⟨hque, rfl | rfl⟩ := SqlConnPool.step_freeLock hpool
    · exact ⟨⟨hgot, hphase⟩, .stay rfl rfl hque fun _ _ => rfl⟩
    · exact ⟨⟨hgot, hphase⟩, .stay rfl rfl hque fun _ _ => rfl⟩
  | freePush sql' =>
    obtain ⟨rfl, hfreed⟩ := hphase
    cases hpool
    refine ⟨⟨hgot, congrArg (· + 1) hfreed⟩, .quiet rfl (fun _ h => List.mem_append_left _ h)
      fun _ _ => ⟨rfl, .inr ?_⟩⟩
    rw [hgot]
    exact List.mem_append_right _ (List.mem_singleton_self _)
  | freePost =>
    cases hpool
    exact ⟨⟨hgot, hphase⟩, .stay rfl rfl rfl fun _ _ => rfl⟩
  | freeUnlock =>
    cases hpool
    exact ⟨.inr ⟨hgot, hphase⟩, .stay rfl rfl rfl fun _ _ => rfl⟩
  | getTest | getWait | getLock | getPop | getUnlock | done => exact hphase.elim

theorem free_spec {flag : Bool} {pc pc' : PoolPc} (hpc : c.pc = .free flag pc) (h : Phase c)
    (hpool : pool.step i pc = .ok (pool', pc')) :
    Phase (c.resumed pc pc') ∧ QueueMove pool c pool' (c.resumed pc pc') := by
  have hearly : ¬early c.pc := by rw [hpc]; nofun
  unfold Phase at h
  simp only [hpc] at h
  rw [resumed, hpc]
  obtain ⟨hgot, hphase⟩ := h
  cases pc with
  | freeAssert sql =>
    obtain ⟨-, -, hpool⟩ := bind_eq_ok.1 hpool
    cases hpool
    exact ⟨⟨hgot, trivial⟩, .stay rfl rfl rfl fun h => absurd h hearly⟩
  | freeLock sql =>
    obtain ⟨hque, rfl | rfl⟩ := SqlConnPool.step_freeLock hpool
    · exact ⟨⟨hgot, trivial⟩, .stay rfl rfl hque fun h => absurd h hearly⟩
    · exact ⟨⟨hgot, trivial⟩, .stay rfl rfl hque fun h => absurd h hearly⟩
  | freePush sql =>
    cases hpool
    exact ⟨⟨hgot, trivial⟩, .quiet rfl (fun _ h => List.mem_append_left _ h)
      fun h => absurd h hearly⟩
  | freePost =>
    cases hpool
    exact ⟨⟨hgot, trivial⟩, .stay rfl rfl rfl fun h => absurd h hearly⟩
  | freeUnlock =>
    cases hpool
    exact ⟨fun _ => hgot, .stay rfl rfl rfl fun h => absurd h hearly⟩
  | getTest | getWait | getLock | getPop | getUnlock | done => exact hphase.elim

/-- **One step of a call.** -/
theorem step_spec (h : Phase c) (hstep : c.step exec pool table i ok = .ok (pool', table', c')) :
    Phase c' ∧ QueueMove pool c pool' c' := by
  cases step_moves hstep with
  | leave hpc hcred =>
    refine ⟨fun hne => ?_, .stay rfl rfl rfl fun h => ?_⟩
    · rcases hcred with hcred | hcred
      · exact absurd hcred hne.1
      · exact absurd hcred hne.2
    · rw [hpc] at h
      cases h
  | enter hpc =>
    unfold Phase at h
    simp only [hpc] at h
    exact ⟨⟨h.2, h.1⟩, .stay rfl rfl rfl fun _ _ => rfl⟩
  | pool _ pc pc' hpc hpool =>
    cases hcpc : c.pc with
    | construct _ =>
      rw [hcpc] at hpc
      cases hpc
      exact construct_spec hcpc h hpool
    | destroy _ _ =>
      rw [hcpc] at hpc
      cases hpc
      exact destroy_spec hcpc h hpool
    | free _ _ =>
      rw [hcpc] at hpc
      cases hpc
      exact free_spec hcpc h hpool
    | _ =>
      rw [hcpc] at hpc
      cases hpc
  | assert sql hpc =>
    unfold Phase at h
    simp only [hpc] at h
    exact ⟨h.resolve_left nofun, .stay rfl rfl rfl fun _ _ => rfl⟩
  | selectFails sql hpc =>
    have huses : c.pc.uses ≠ none := by rw [hpc]; nofun
    unfold Phase at h
    simp only [hpc] at h
    refine ⟨fun _ => ?_, .stay rfl rfl rfl fun _ h => absurd h huses⟩
    rw [h.1]
    nofun
  | select sql rows _ hpc =>
    have huses : c.pc.uses ≠ none := by rw [hpc]; nofun
    unfold Phase at h
    simp only [hpc] at h
    exact ⟨h, .stay rfl rfl rfl fun _ h => absurd h huses⟩
  | goInsert sql rows hpc =>
    have hearly : ¬early c.pc := by rw [hpc]; nofun
    unfold Phase at h
    simp only [hpc] at h
    exact ⟨h, .stay rfl rfl rfl fun h => absurd h hearly⟩
  | goFree sql rows hpc =>
    have hearly : ¬early c.pc := by rw [hpc]; nofun
    unfold Phase at h
    simp only [hpc] at h
    exact ⟨⟨by rw [h.1]; nofun, trivial⟩, .stay rfl rfl rfl fun h => absurd h hearly⟩
  | insertFails sql hpc | insert sql _ _ hpc =>
    have hearly : ¬early c.pc := by rw [hpc]; nofun
    unfold Phase at h
    simp only [hpc] at h
    exact ⟨⟨by rw [h.1]; nofun, trivial⟩, .stay rfl rfl rfl fun h => absurd h hearly⟩
  | stay flag hpc => exact ⟨h, .stay rfl rfl rfl fun h _ => h⟩

end VerifyCall

namespace VerifyCall

open UserVerify

variable {exec : Exec} {pool pool' : SqlConnPool} {table table' : Table} {i : Nat} {ok : Bool}
  {c c' : VerifyCall}

/-- The arguments of the call. -/
def args (c : VerifyCall) : Bytes × Bytes × Bool := (c.name, c.pwd, c.isLogin)

theorem args_account (c : VerifyCall) (before after : PoolPc) (pc : VerifyPc) :
    ({ c.account before after with pc := pc } : VerifyCall).args = c.args := by
  unfold account
  split <;> rfl

theorem args_step (hstep : c.step exec pool table i ok = .ok (pool', table', c')) :
    c'.args = c.args := by
  cases step_moves hstep with
  | pool _ pc pc' => exact args_account c pc pc' _
  | _ => rfl

end VerifyCall

/-! ## The rules of the pool -/

namespace VerifyCalls

open UserVerify VerifyCall

/-- The call does not use a connection that is in the queue. -/
def OutOfQueue (s : VerifyCalls) (a : VerifyAct) : Prop :=
  ∀ c ∈ s.calls[a.call]?, ∀ x ∈ c.pc.uses, some x ∉ s.pool.connQue

/-- The rules of the pool along a run: a connection is used only while it is out of the queue, the
queue has no connection twice, no two calls use one connection at the same time, and a call that
has returned has put its connection back once. -/
structure Disciplined (exec : Exec) (s₀ : VerifyCalls) (acts : List VerifyAct) : Prop where
  uses : Allowed (step exec) OutOfQueue s₀ acts
  distinct : ∀ p s, p <+: acts → run (step exec) s₀ p = .ok s → s.pool.connQue.Nodup
  alone : ∀ p s, p <+: acts → run (step exec) s₀ p = .ok s → ∀ (i j : Nat) (c d : VerifyCall),
    i ≠ j → s.calls[i]? = some c → s.calls[j]? = some d → ∀ x ∈ c.pc.uses, d.pc.uses ≠ some x
  once : ∀ s, run (step exec) s₀ acts = .ok s → ∀ c ∈ s.calls, (∃ flag, c.pc = .returned flag) →
    c.freed = if c.got = none then 0 else 1

variable {exec : Exec} {s t : VerifyCalls} {a : VerifyAct} {x : Mysql}

/-- A call that has taken `x` and has not sent its first statement: if it has put `x` back, `x` is in
the queue. -/
def Pending (s : VerifyCalls) (x : Mysql) : Prop :=
  ∃ (j : Nat) (d : VerifyCall), s.calls[j]? = some d ∧ d.got = some x ∧ early d.pc ∧
    (d.freed = 0 ∨ some x ∈ s.pool.connQue)

/-- The invariant of the disciplined runs: for every connection that was ever taken, a call has its
first statement still ahead. -/
structure Owing (s : VerifyCalls) : Prop where
  phase : ∀ c ∈ s.calls, Phase c
  pending : ∀ c ∈ s.calls, ∀ x, c.got = some x → Pending s x

section Step

variable {i : Nat} {c c' : VerifyCall} {pool' : SqlConnPool} {table' : Table}

/-- A pending call that does not move stays pending while its connection does not leave the queue. -/
theorem Pending.other {j : Nat} {d : VerifyCall} (hj : s.calls[j]? = some d) (hij : i ≠ j)
    (hgot : d.got = some x) (hearly : early d.pc)
    (hfreed : d.freed = 0 ∨ some x ∈ pool'.connQue) :
    Pending { pool := pool', table := table', calls := s.calls.set i c' } x := by
  refine ⟨j, d, ?_, hgot, hearly, hfreed⟩
  rw [List.getElem?_set_ne hij]
  exact hj

theorem Pending.mover (hc : s.calls[i]? = some c) (hgot : c'.got = some x) (hearly : early c'.pc)
    (hfreed : c'.freed = 0 ∨ some x ∈ pool'.connQue) :
    Pending { pool := pool', table := table', calls := s.calls.set i c' } x := by
  refine ⟨i, c', ?_, hgot, hearly, hfreed⟩
  rw [List.getElem?_set_self (List.getElem?_eq_some_iff.1 hc).1]

/-- A connection that is pending before a step is pending after it, if the step does not use a queued
connection. -/
theorem Pending.step (hp : Pending s x) (hphase : Phase c) (hc : s.calls[i]? = some c)
    (hm : QueueMove s.pool c pool' c') (huse : ∀ x ∈ c.pc.uses, some x ∉ s.pool.connQue) :
    Pending { pool := pool', table := table', calls := s.calls.set i c' } x := by
  obtain ⟨j, d, hj, hgot, hearly, hfreed⟩ := hp
  by_cases hij : i = j
  · -- the pending call itself moves
    subst hij
    obtain rfl := Option.some.inj (hc.symm.trans hj)
    cases hm with
    | pop sql hque hnone =>
      rw [hnone] at hgot
      cases hgot
    | quiet hgot' hque hquiet =>
      cases huses : c.pc.uses with
      | none =>
        obtain ⟨hearly', hfreed'⟩ := hquiet hearly huses
        refine Pending.mover hc (hgot'.trans hgot) hearly' ?_
        rcases hfreed' with hsame | hin
        · rw [hsame]
          exact hfreed.imp_right (hque _)
        · rw [hgot] at hin
          exact .inr hin
      | some y =>
        -- at its `SELECT` the call has put the connection back, so that it is in the queue
        exfalso
        have hpc := eq_select_of_uses hearly huses
        unfold Phase at hphase
        simp only [hpc] at hphase
        obtain rfl : x = y := Option.some.inj (hgot.symm.trans hphase.1)
        rcases hfreed with hzero | hin
        · omega
        · exact huse x huses hin
  · cases hm with
    | pop sql hque hnone hgot' hfreed' hearly' =>
      by_cases hsql : sql = some x
      · exact Pending.mover hc (hgot'.trans hsql) hearly' (.inl hfreed')
      · refine Pending.other hj hij hgot hearly (hfreed.imp_right fun hin => ?_)
        rw [hque, List.mem_cons] at hin
        exact hin.resolve_left fun heq => hsql heq.symm
    | quiet hgot' hque hquiet =>
      exact Pending.other hj hij hgot hearly (hfreed.imp_right (hque _))

/-- What a call has after its step was pending before, or is pending now. -/
theorem owing_set (h : Owing s) (hc : s.calls[i]? = some c) (hphase : Phase c')
    (hm : QueueMove s.pool c pool' c') (huse : ∀ x ∈ c.pc.uses, some x ∉ s.pool.connQue) :
    Owing { pool := pool', table := table', calls := s.calls.set i c' } := by
  have hmem := List.mem_of_getElem? hc
  have hkeep : ∀ x, Pending s x →
      Pending { pool := pool', table := table', calls := s.calls.set i c' } x :=
    fun x hp => hp.step (h.phase c hmem) hc hm huse
  refine ⟨fun d hd => ?_, fun d hd x hgot => ?_⟩
  · rcases List.mem_or_eq_of_mem_set hd with hd | rfl
    · exact h.phase d hd
    · exact hphase
  · rcases List.mem_or_eq_of_mem_set hd with hd | rfl
    · exact hkeep x (h.pending d hd x hgot)
    · cases hm with
      | pop sql hque hnone hgot' hfreed' hearly' => exact Pending.mover hc hgot hearly' (.inl hfreed')
      | quiet hgot' =>
        exact hkeep x (h.pending c hmem x (hgot'.symm.trans hgot))

end Step

/-- **One disciplined step.** -/
theorem step_owing (h : Owing s) (huse : OutOfQueue s a) (ht : step exec s a = .ok t) : Owing t := by
  rcases step_eq_ok ht with ⟨-, rfl⟩ | ⟨c, pool, table, c', hc, hstep, rfl⟩
  · exact h
  · obtain ⟨hphase, hm⟩ := step_spec (h.phase c (List.mem_of_getElem? hc)) hstep
    exact owing_set h hc hphase hm (huse c hc)

theorem start_owing (pool : SqlConnPool) (table : Table) (args : List (Bytes × Bytes × Bool)) :
    Owing (start pool table args) := by
  constructor
  · intro c hc
    obtain ⟨_, _, _, rfl⟩ := mem_start hc
    exact ⟨rfl, rfl⟩
  · intro c hc x hgot
    obtain ⟨_, _, _, rfl⟩ := mem_start hc
    cases hgot

/-- The arguments of the calls never change. -/
theorem args_run {s₀ : VerifyCalls} {acts : List VerifyAct} (hs : run (step exec) s₀ acts = .ok s) :
    s.calls.map VerifyCall.args = s₀.calls.map VerifyCall.args := by
  have hstep : ∀ s a t, s.calls.map VerifyCall.args = s₀.calls.map VerifyCall.args → True →
      step exec s a = .ok t → t.calls.map VerifyCall.args = s₀.calls.map VerifyCall.args := by
    intro s a t h _ ht
    rcases step_eq_ok ht with ⟨-, rfl⟩ | ⟨c, pool, table, c', hc, hstep, rfl⟩
    · exact h
    · have hargs : (s.calls.map VerifyCall.args)[a.call]? = some c.args := by
        rw [List.getElem?_map, hc]
        rfl
      rw [← h, List.map_set, args_step hstep, Parties.set_self hargs]
  exact run_safe hstep acts s₀ s rfl (Allowed.of_forall (fun _ _ => trivial) acts s₀) hs

/-- A run in which no call gets past the test for empty credentials. -/
structure Untouched (pool : SqlConnPool) (s : VerifyCalls) : Prop where
  pool : s.pool = pool
  calls : ∀ c ∈ s.calls, (c.name = [] ∨ c.pwd = []) ∧ c.got = none ∧ c.freed = 0 ∧
    (c.pc = .entry ∨ c.pc = .returned false)

theorem step_untouched {pool : SqlConnPool} (h : Untouched pool s) (ht : step exec s a = .ok t) :
    Untouched pool t := by
  rcases step_eq_ok ht with ⟨-, rfl⟩ | ⟨c, pool, table, c', hc, hstep, rfl⟩
  · exact h
  · obtain ⟨hcred, hgot, hfreed, hpc⟩ := h.calls c (List.mem_of_getElem? hc)
    have hmoved : pool = s.pool ∧ c' = { c with pc := .returned false } := by
      rcases hpc with hpc | hpc
      · simp only [VerifyCall.step, hpc, if_pos hcred] at hstep
        cases hstep
        exact ⟨rfl, rfl⟩
      · simp only [VerifyCall.step, hpc] at hstep
        cases hstep
        exact ⟨rfl, by rw [← hpc]⟩
    obtain ⟨rfl, rfl⟩ := hmoved
    refine ⟨h.pool, fun d hd => ?_⟩
    rcases List.mem_or_eq_of_mem_set hd with hd | rfl
    · exact h.calls d hd
    · exact ⟨hcred, hgot, hfreed, .inr rfl⟩

theorem run_untouched {pool : SqlConnPool} {s₀ : VerifyCalls} {acts : List VerifyAct}
    (h : Untouched pool s₀) (hs : run (step exec) s₀ acts = .ok s) : Untouched pool s :=
  run_safe (fun _ _ _ h (_ : True) ht => step_untouched h ht) acts s₀ s h
    (Allowed.of_forall (fun _ _ => trivial) acts s₀) hs

theorem Untouched.uses {pool : SqlConnPool} {c : VerifyCall} (h : Untouched pool s)
    (hc : c ∈ s.calls) : c.pc.uses = none := by
  rcases (h.calls c hc).2.2.2 with hpc | hpc <;> rw [hpc] <;> rfl

theorem start_args (pool : SqlConnPool) (table : Table) (args : List (Bytes × Bytes × Bool)) :
    (start pool table args).calls.map VerifyCall.args = args := by
  simp [start, VerifyCall.args, VerifyCall.make, Function.comp_def]

/-- **When `UserVerify` keeps to the rules of the pool.**  Take any run of any number of calls over
an initialised pool, with any server and any outcomes of the calls of `mysql`, at whose end all calls
have returned.  It keeps to the rules if and only if every call had an empty name or password: the
last call that takes a connection has put it back when it sends its `SELECT`. -/
theorem disciplined_iff (exec : Exec) (conns : List Mysql) (hnodup : conns.Nodup)
    (pool : SqlConnPool) (hpool : SqlConnPool.init (conns.map some) = .ok pool) (table : Table)
    (args : List (Bytes × Bytes × Bool)) (acts : List VerifyAct) (s : VerifyCalls)
    (hs : run (step exec) (start pool table args) acts = .ok s) (hfin : Finished s) :
    Disciplined exec (start pool table args) acts ↔ ∀ arg ∈ args, arg.1 = [] ∨ arg.2.1 = [] := by
  constructor
  · intro hd arg harg
    have howing : Owing s := run_safe (fun _ _ _ h huse ht => step_owing h huse ht) acts _ s
      (start_owing pool table args) hd.uses hs
    rw [← start_args pool table args, ← args_run hs] at harg
    obtain ⟨c, hc, rfl⟩ := List.mem_map.1 harg
    by_contra hcred
    obtain ⟨flag, hpc⟩ := hfin c hc
    have hphase := howing.phase c hc
    unfold Phase at hphase
    simp only [hpc] at hphase
    obtain ⟨x, hgot⟩ := Option.ne_none_iff_exists'.1 (hphase (not_or.1 hcred))
    obtain ⟨j, d, hj, -, hearly, -⟩ := howing.pending c hc x hgot
    obtain ⟨flag', hpc'⟩ := hfin d (List.mem_of_getElem? hj)
    rw [hpc'] at hearly
    cases hearly
  · intro hcred
    have hstart : Untouched pool (start pool table args) := by
      refine ⟨rfl, fun c hc => ?_⟩
      obtain ⟨arg, harg, rfl⟩ := List.mem_map.1 hc
      exact ⟨hcred arg harg, rfl, rfl, .inl rfl⟩
    have hdistinct : pool.connQue.Nodup := by
      obtain ⟨-, -, hret⟩ := bind_eq_ok.1 hpool
      cases hret
      exact hnodup.map fun _ _ h => Option.some.inj h
    refine ⟨?_, ?_, ?_, ?_⟩
    · refine Allowed.of_invariant (fun _ _ _ h ht => step_untouched h ht) ?_ acts _ hstart
      intro t a h c hc x hx
      rw [h.uses (List.mem_of_getElem? hc)] at hx
      cases hx
    · intro p t _ ht
      rw [(run_untouched hstart ht).pool]
      exact hdistinct
    · intro p t _ ht i j c d _ hc _ x hx
      rw [(run_untouched hstart ht).uses (List.mem_of_getElem? hc)] at hx
      cases hx
    · intro t ht c hc _
      obtain ⟨-, hgot, hfreed, -⟩ := (run_untouched hstart ht).calls c hc
      rw [if_pos hgot, hfreed]

/-- A login with an empty password over a pool of one connection. -/
theorem disciplined_sample :
    Disciplined plainServer (start ⟨[some 7], 1, none⟩ (fun _ => none) [(str "bob", [], true)])
      [⟨0, true⟩] := by
  obtain ⟨s, hs, hcalls⟩ := map_eq_ok.1 (show (run (step plainServer) (start ⟨[some 7], 1, none⟩
    (fun _ => none) [(str "bob", [], true)]) [⟨0, true⟩]).map calls =
      .ok [{ VerifyCall.make (str "bob") [] true with pc := .returned false }] by decide +kernel)
  refine (disciplined_iff plainServer [7] (by decide) ⟨[some 7], 1, none⟩ rfl (fun _ => none)
    [(str "bob", [], true)] [⟨0, true⟩] s hs ?_).2 (by decide)
  intro c hc
  rw [hcalls, List.mem_singleton] at hc
  exact ⟨false, by rw [hc]⟩

/-- One login over a pool of one connection: the `SELECT` uses the connection while it is in the
queue, and at the end the queue has it twice. -/
theorem connection_returned_twice :
    ∃ s, run (step plainServer) (start ⟨[some 7], 1, none⟩ (fun _ => none)
        [(str "bob", str "pw", true)]) (List.replicate 20 ⟨0, true⟩) = .ok s ∧
      s.calls.map VerifyCall.pc = [.returned false] ∧ s.calls.map VerifyCall.freed = [2] ∧
      s.pool.connQue = [some 7, some 7] ∧
      ¬Disciplined plainServer (start ⟨[some 7], 1, none⟩ (fun _ => none)
        [(str "bob", str "pw", true)]) (List.replicate 20 ⟨0, true⟩) := by
  obtain ⟨s, hs, hview⟩ := map_eq_ok.1 (show (run (step plainServer) (start ⟨[some 7], 1, none⟩
    (fun _ => none) [(str "bob", str "pw", true)]) (List.replicate 20 ⟨0, true⟩)).map
      (fun s => (s.calls.map VerifyCall.pc, s.calls.map VerifyCall.freed, s.pool.connQue)) =
      .ok ([.returned false], [2], [some 7, some 7]) by decide +kernel)
  obtain ⟨hpc, hview⟩ := Prod.mk.inj hview
  obtain ⟨hfreed, hque⟩ := Prod.mk.inj hview
  refine ⟨s, hs, hpc, hfreed, hque, fun hd => ?_⟩
  have hdistinct := hd.distinct _ s List.prefix_rfl hs
  rw [hque] at hdistinct
  revert hdistinct
  decide

end VerifyCalls
