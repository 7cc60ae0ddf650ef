import TinyHttpServer.Http.UserVerifyCalls

/-!
# `UserVerify` under load

Calls of `UserVerify` that share the pool, as in `UserVerifyCalls`.  `GetConn` tests for an empty
queue before it waits for the semaphore, and gives up with a null pointer, on which `assert(sql)`
stops the server.

* `served_iff` — along every run all callers get a connection exactly where no call makes the test
  while the queue is empty.
* `few_calls_served` — this is so for no more calls than there are connections.
* `second_caller_aborts` — two calls over one connection, the second in the first one's `GetConn`.
-/

set_option autoImplicit false

open Checked Machine

namespace PoolPc

def returned : PoolPc → Bool
  | .done _ => true
  | _ => false

/-- The call has not returned, and the connection on its way from the queue to the caller, or back,
is not null. -/
def NonNull : PoolPc → Prop
  | .getUnlock sql | .freeAssert sql | .freeLock sql | .freePush sql => sql ≠ none
  | .getTest | .getWait | .getLock | .getPop | .freePost | .freeUnlock => True
  | .done _ => False

end PoolPc

namespace SqlConnPool

variable {pool pool' : SqlConnPool} {tid : Nat} {pc pc' : PoolPc}

/-- A step of the pool over connections that are not null. -/
theorem step_nonNull (hque : none ∉ pool.connQue) (hpc : pc.NonNull)
    (h : pool.step tid pc = .ok (pool', pc')) :
    none ∉ pool'.connQue ∧ (pc'.returned = false → pc'.NonNull) := by
  cases pc with
  | getTest =>
    cases h
    refine ⟨hque, ?_⟩
    split
    · simp [PoolPc.returned]
    · exact fun _ => trivial
  | getWait =>
    obtain ⟨hsame, rfl | rfl⟩ := step_getWait h
    · exact ⟨hsame ▸ hque, fun _ => trivial⟩
    · exact ⟨hsame ▸ hque, fun _ => trivial⟩
  | getLock =>
    obtain ⟨hsame, rfl | rfl⟩ := step_getLock h
    · exact ⟨hsame ▸ hque, fun _ => trivial⟩
    · exact ⟨hsame ▸ hque, fun _ => trivial⟩
  | getPop =>
    cases hcons : pool.connQue with
    | nil =>
      simp only [step, hcons] at h
      cases h
    | cons sql rest =>
      rw [hcons, List.mem_cons, not_or] at hque
      simp only [step, hcons, pure_eq_ok] at h
      cases h
      exact ⟨hque.2, fun _ => Ne.symm hque.1⟩
  | getUnlock sql =>
    cases h
    exact ⟨hque, by simp [PoolPc.returned]⟩
  | freeAssert sql =>
    obtain ⟨-, -, h⟩ := bind_eq_ok.1 h
    cases h
    exact ⟨hque, fun _ => hpc⟩
  | freeLock sql =>
    obtain ⟨hsame, rfl | rfl⟩ := step_freeLock h
    · exact ⟨hsame ▸ hque, fun _ => hpc⟩
    · exact ⟨hsame ▸ hque, fun _ => hpc⟩
  | freePush sql =>
    cases h
    refine ⟨?_, fun _ => trivial⟩
    rw [List.mem_append, List.mem_singleton, not_or]
    exact ⟨hque, Ne.symm hpc⟩
  | freePost =>
    cases h
    exact ⟨hque, fun _ => trivial⟩
  | freeUnlock =>
    cases h
    exact ⟨hque, by simp [PoolPc.returned]⟩
  | done sql => exact hpc.elim

/-- The account of the semaphore, for a step that returns. -/
theorem step_account (hpc : pc.NonNull) (h : pool.step tid pc = .ok (pool', pc')) :
    pool'.semId + credit pc' + pool.connQue.length =
      pool.semId + credit pc + pool'.connQue.length := by
  have hpop : pc = .getPop → pool.connQue ≠ [] := by
    rintro rfl hnil
    simp only [step, hnil] at h
    cases h
  have hfree : pc ≠ .freeAssert none := by
    rintro rfl
    exact hpc rfl
  obtain ⟨pool₁, pc₁, hstep, hkeeps⟩ := step_keeps tid hpop hfree
  cases h.symm.trans hstep
  exact hkeeps.account

/-- Only the assertion of `FreeConn` stops with an assertion. -/
theorem step_aborts (h : pool.step tid pc = .error .assertion) : pc = .freeAssert none := by
  cases pc with
  | freeAssert sql =>
    cases sql with
    | none => rfl
    | some x => cases h
  | getPop =>
    cases hque : pool.connQue <;> simp only [step, hque] at h <;> cases h
  | getTest | getWait | getLock | getUnlock | freeLock | freePush | freePost | freeUnlock | done =>
    cases h

end SqlConnPool

namespace VerifyPc

/-- Outside of the pool, or at the start of a call of it with a connection that is not null. -/
def Fresh (pc : VerifyPc) : Prop :=
  pc.poolPc = none ∨ pc.poolPc = some .getTest ∨ ∃ sql, pc.poolPc = some (.freeAssert (some sql))

section Resume

variable {pc : VerifyPc} {ppc ppc' : PoolPc}

/-- The call of the pool has returned. -/
theorem resume_fresh (hpc : pc.poolPc = some ppc) (h : ppc'.returned) : (pc.resume ppc').Fresh := by
  obtain ⟨sql, rfl⟩ : ∃ sql, ppc' = .done sql := by
    cases ppc' with
    | done sql => exact ⟨sql, rfl⟩
    | _ => cases h
  cases pc with
  | construct _ =>
    cases sql with
    | none => exact .inl rfl
    | some x => exact .inr (.inr ⟨x, rfl⟩)
  | destroy _ _ | free _ _ => exact .inl rfl
  | _ => cases hpc

/-- The call of the pool goes on. -/
theorem poolPc_resume (hpc : pc.poolPc = some ppc) (h : ppc'.returned = false) :
    (pc.resume ppc').poolPc = some ppc' := by
  cases pc with
  | construct _ | destroy _ _ | free _ _ => cases ppc' <;> first | rfl | cases h
  | _ => cases hpc

theorem resume_null (hpc : pc.poolPc = some ppc) (h : pc.resume ppc' = .assertSql none) :
    pc = .construct ppc ∧ ppc' = .done none := by
  cases pc with
  | construct _ =>
    cases hpc
    cases ppc' with
    | done sql =>
      cases sql with
      | none => exact ⟨rfl, rfl⟩
      | some x => cases h
    | _ => cases h
  | destroy _ _ | free _ _ => cases ppc' <;> cases h
  | _ => cases hpc

end Resume

end VerifyPc

namespace VerifyCall

open UserVerify

variable {exec : Exec} {pool pool' : SqlConnPool} {table table' : Table} {i : Nat} {ok : Bool}
  {c c' : VerifyCall}

/-- What a step of a call is for the pool. -/
inductive PoolMove (pool : SqlConnPool) (i : Nat) (c : VerifyCall) (pool' : SqlConnPool)
    (c' : VerifyCall) : Prop where
  /-- a step of the pool, after which the call of the pool goes on or has returned -/
  | inside (pc pc' : PoolPc) (hpc : c.pc.poolPc = some pc) (hstep : pool.step i pc = .ok (pool', pc'))
      (hgot : c'.got = (c.account pc pc').got) (hfreed : c'.freed = (c.account pc pc').freed)
      (hreturn : pc'.returned → c'.pc.Fresh)
      (hnext : pc'.returned = false → c'.pc.poolPc = some pc')
  | outside (hpc : c.pc.poolPc = none) (hpool : pool' = pool) (hgot : c'.got = c.got)
      (hfreed : c'.freed = c.freed) (hnext : c'.pc.Fresh)

theorem freeStart_fresh (flag : Bool) (sql : Mysql) : (freeStart flag sql).Fresh :=
  .inr (.inr ⟨sql, rfl⟩)

theorem step_pool (h : c.step exec pool table i ok = .ok (pool', table', c')) :
    PoolMove pool i c pool' c' := by
  cases step_moves h with
  | pool _ pc pc' hpc hpool =>
    exact .inside pc pc' hpc hpool rfl rfl (VerifyPc.resume_fresh hpc) (VerifyPc.poolPc_resume hpc)
  | leave hpc | assert _ hpc | selectFails _ hpc | select _ _ _ hpc | goInsert _ _ hpc =>
    exact .outside (by rw [hpc]; rfl) rfl rfl rfl (.inl rfl)
  | enter hpc => exact .outside (by rw [hpc]; rfl) rfl rfl rfl (.inr (.inl rfl))
  | goFree sql _ hpc | insertFails sql hpc | insert sql _ _ hpc =>
    exact .outside (by rw [hpc]; rfl) rfl rfl rfl (freeStart_fresh _ sql)
  | stay _ hpc => exact .outside (by rw [hpc]; rfl) rfl rfl rfl (.inl (by rw [hpc]; rfl))

/-- A null pointer comes from the test of `GetConn`. -/
theorem step_null (hphase : Phase c) (h : c.step exec pool table i ok = .ok (pool', table', c'))
    (hnonNull : ∀ pc ∈ c.pc.poolPc, pc.NonNull) (hnull : c'.pc = .assertSql none) :
    c.pc = .construct .getTest ∧ pool.connQue = [] := by
  cases step_moves h with
  | pool _ pc pc' hpc hpool =>
    obtain ⟨hcpc, rfl⟩ := VerifyPc.resume_null hpc hnull
    have hpcNonNull : pc.NonNull := hnonNull pc hpc
    unfold Phase at hphase
    simp only [hcpc] at hphase
    rw [hcpc]
    cases pc with
    | getTest =>
      by_cases hque : pool.connQue = []
      · exact ⟨rfl, hque⟩
      · simp only [SqlConnPool.step, if_neg hque] at hpool
        cases hpool
    | getUnlock sql =>
      cases hpool
      exact absurd rfl hpcNonNull
    | getWait => obtain ⟨-, h | h⟩ := SqlConnPool.step_getWait hpool <;> cases h
    | getLock => obtain ⟨-, h | h⟩ := SqlConnPool.step_getLock hpool <;> cases h
    | getPop => cases hque : pool.connQue <;> simp only [SqlConnPool.step, hque] at hpool <;> cases hpool
    | freeAssert | freeLock | freePush | freePost | freeUnlock | done => exact hphase.2.elim
  | stay flag hpc =>
    rw [hpc] at hnull
    cases hnull
  | _ => cases hnull

/-- What stops with an assertion: `assert(sql)` in `UserVerify` or in `FreeConn`. -/
theorem step_aborts (h : c.step exec pool table i ok = .error .assertion) :
    c.pc = .assertSql none ∨ c.pc.poolPc = some (.freeAssert none) := by
  unfold VerifyCall.step at h
  cases hpc : c.pc with
  | construct pc | destroy sql pc | free flag pc =>
    simp only [hpc] at h
    cases hstep : pool.step i pc with
    | error e =>
      rw [hstep] at h
      cases h
      exact .inr (congrArg some (SqlConnPool.step_aborts hstep))
    | ok p =>
      rw [hstep] at h
      cases h
  | assertSql sql =>
    simp only [hpc] at h
    cases sql with
    | none => exact .inl rfl
    | some x => cases h
  | select sql =>
    simp only [hpc] at h
    cases hquery : query exec ok table (selectOrder c.name) <;> rw [hquery] at h <;> cases h
  | store sql rows =>
    simp only [hpc] at h
    cases ok <;> cases h
  | insert sql =>
    simp only [hpc] at h
    cases hquery : query exec ok table (insertOrder c.name c.pwd) <;> rw [hquery] at h <;> cases h
  | entry | returned =>
    simp only [hpc] at h
    cases h

/-- What the semaphore lacks on behalf of the call. -/
def credit (c : VerifyCall) : Nat := c.pc.poolPc.elim 0 SqlConnPool.credit

theorem credit_fresh (h : c.pc.Fresh) : c.credit = 0 := by
  unfold credit
  obtain h | h | ⟨sql, h⟩ := h
  · rw [h]
    rfl
  · rw [h]
    rfl
  · rw [h]
    rfl

theorem nonNull_fresh (h : c.pc.Fresh) : ∀ pc ∈ c.pc.poolPc, pc.NonNull := by
  intro pc hpc
  obtain h | h | ⟨sql, h⟩ := h
  · rw [h] at hpc
    cases hpc
  · rw [h] at hpc
    cases hpc
    trivial
  · rw [h] at hpc
    cases hpc
    exact Option.some_ne_none sql

/-- The account of the semaphore, for a step of a call. -/
theorem PoolMove.account (h : PoolMove pool i c pool' c') (hnonNull : ∀ pc ∈ c.pc.poolPc, pc.NonNull) :
    pool'.semId + c'.credit + pool.connQue.length = pool.semId + c.credit + pool'.connQue.length := by
  cases h with
  | inside pc pc' hpc hstep _ _ hreturn hnext =>
    have hcredit : c.credit = SqlConnPool.credit pc := by rw [credit, hpc]; rfl
    have hcredit' : c'.credit = SqlConnPool.credit pc' := by
      cases hret : pc'.returned with
      | true =>
        rw [credit_fresh (hreturn hret)]
        cases pc' with
        | done sql => rfl
        | _ => cases hret
      | false =>
        rw [credit, hnext hret]
        rfl
    rw [hcredit, hcredit']
    exact SqlConnPool.step_account (hnonNull pc hpc) hstep
  | outside hpc hpool _ _ hnext =>
    have hcredit : c.credit = 0 := by rw [credit, hpc]; rfl
    rw [hcredit, credit_fresh hnext, hpool]

theorem PoolMove.nonNull (h : PoolMove pool i c pool' c') (hque : none ∉ pool.connQue)
    (hnonNull : ∀ pc ∈ c.pc.poolPc, pc.NonNull) :
    none ∉ pool'.connQue ∧ ∀ pc ∈ c'.pc.poolPc, pc.NonNull := by
  cases h with
  | inside pc pc' hpc hstep _ _ hreturn hnext =>
    obtain ⟨hque', hpc'⟩ := SqlConnPool.step_nonNull hque (hnonNull pc hpc) hstep
    refine ⟨hque', ?_⟩
    cases hret : pc'.returned with
    | true => exact nonNull_fresh (hreturn hret)
    | false =>
      intro pc₁ hpc₁
      rw [hnext hret] at hpc₁
      cases hpc₁
      exact hpc' hret
  | outside _ hpool _ _ hnext => exact ⟨hpool ▸ hque, nonNull_fresh hnext⟩

end VerifyCall

/-! ## Runs -/

namespace VerifyCalls

open UserVerify VerifyCall

/-- No connection is null, and the semaphore accounts for the queue. -/
structure Live (s : VerifyCalls) : Prop where
  phase : ∀ c ∈ s.calls, Phase c
  queue : none ∉ s.pool.connQue
  nonNull : ∀ c ∈ s.calls, ∀ pc ∈ c.pc.poolPc, pc.NonNull
  account : s.pool.semId + (s.calls.map VerifyCall.credit).sum = s.pool.connQue.length

variable {exec : Exec} {s t : VerifyCalls} {a : VerifyAct}

/-- **One step.** -/
theorem step_live (h : Live s) (ht : step exec s a = .ok t) : Live t := by
  rcases step_eq_ok ht with ⟨-, rfl⟩ | ⟨c, pool, table, c', hc, hstep, rfl⟩
  · exact h
  · have hmem := List.mem_of_getElem? hc
    obtain ⟨hphase, -⟩ := step_spec (h.phase c hmem) hstep
    have hmove := step_pool hstep
    have haccount := hmove.account (h.nonNull c hmem)
    obtain ⟨hque, hnonNull⟩ := hmove.nonNull h.queue (h.nonNull c hmem)
    refine ⟨?_, hque, ?_, ?_⟩
    · intro d hd
      rcases List.mem_or_eq_of_mem_set hd with hd | rfl
      · exact h.phase d hd
      · exact hphase
    · intro d hd
      rcases List.mem_or_eq_of_mem_set hd with hd | rfl
      · exact h.nonNull d hd
      · exact hnonNull
    · have hsum := Parties.sum_map_set_add VerifyCall.credit hc c'
      have hbefore := h.account
      simp only
      omega

theorem start_live {conns : List Mysql} {pool : SqlConnPool}
    (hpool : SqlConnPool.init (conns.map some) = .ok pool) (table : Table)
    (args : List (Bytes × Bytes × Bool)) : Live (start pool table args) := by
  obtain ⟨-, -, hret⟩ := bind_eq_ok.1 hpool
  cases hret
  refine ⟨?_, ?_, ?_, ?_⟩
  · intro c hc
    obtain ⟨_, _, _, rfl⟩ := mem_start hc
    exact ⟨rfl, rfl⟩
  · simp [start]
  · intro c hc pc hpc
    obtain ⟨_, _, _, rfl⟩ := mem_start hc
    cases hpc
  · have hzero : (start ⟨conns.map some, (conns.map some).length, none⟩ table args).calls.map
        VerifyCall.credit = args.map fun _ => 0 := by
      rw [start, List.map_map]
      rfl
    rw [hzero]
    simp [start]

/-- The step is not a test of `GetConn` that finds the queue empty. -/
def TestFindsFree (s : VerifyCalls) (a : VerifyAct) : Prop :=
  ∀ c ∈ s.calls[a.call]?, c.pc = .construct .getTest → s.pool.connQue ≠ []

instance (s : VerifyCalls) (a : VerifyAct) : Decidable (TestFindsFree s a) :=
  inferInstanceAs (Decidable (∀ c ∈ s.calls[a.call]?, _))

/-- All callers of `GetConn` get a connection: none is handed a null pointer, none takes the front of
an empty queue, and no assertion stops the run. -/
structure Served (exec : Exec) (s₀ : VerifyCalls) (acts : List VerifyAct) : Prop where
  handed : ∀ p s, p <+: acts → run (step exec) s₀ p = .ok s → ∀ c ∈ s.calls, c.pc ≠ .assertSql none
  popped : ∀ p s, p <+: acts → run (step exec) s₀ p = .ok s → ∀ c ∈ s.calls,
    c.pc = .construct .getPop → s.pool.connQue ≠ []
  asserted : run (step exec) s₀ acts ≠ .error .assertion

theorem Live.connQue_ne_nil (h : Live s) {i : Nat} {c : VerifyCall} (hc : s.calls[i]? = some c)
    (hpc : c.pc = .construct .getPop) : s.pool.connQue ≠ [] := by
  have hpos : c.credit = 1 := by rw [credit, hpc]; rfl
  have hle := Parties.le_sum_map VerifyCall.credit hc
  have haccount := h.account
  apply List.ne_nil_of_length_pos
  omega

/-- A test that finds the queue empty hands out a null pointer. -/
theorem step_of_empty {c : VerifyCall} (hc : s.calls[a.call]? = some c)
    (hpc : c.pc = .construct .getTest) (hque : s.pool.connQue = []) :
    step exec s a = .ok { s with calls := s.calls.set a.call { c with pc := .assertSql none } } := by
  have hstep : c.step exec s.pool s.table a.call a.ok =
      .ok (s.pool, s.table, { c with pc := .assertSql none }) := by
    simp only [VerifyCall.step, hpc, SqlConnPool.step, if_pos hque, pure_eq_ok, ok_bind]
    rfl
  rw [step, hc]
  simp only [hstep, ok_bind, pure_eq_ok]

/-- No caller has been handed a null pointer. -/
def Handed (s : VerifyCalls) : Prop := ∀ c ∈ s.calls, c.pc ≠ .assertSql none

theorem step_handed (h : Live s) (hhanded : Handed s) (hfree : TestFindsFree s a)
    (ht : step exec s a = .ok t) : Handed t := by
  rcases step_eq_ok ht with ⟨-, rfl⟩ | ⟨c, pool, table, c', hc, hstep, rfl⟩
  · exact hhanded
  · intro d hd
    rcases List.mem_or_eq_of_mem_set hd with hd | rfl
    · exact hhanded d hd
    · intro hnull
      have hmem := List.mem_of_getElem? hc
      obtain ⟨hpc, hque⟩ := step_null (h.phase c hmem) hstep (h.nonNull c hmem) hnull
      exact hfree c hc hpc hque

/-- A step that stops with an assertion: a null pointer has been handed out, or is to be freed. -/
theorem step_asserts (h : step exec s a = .error .assertion) :
    ∃ c ∈ s.calls, c.pc = .assertSql none ∨ c.pc.poolPc = some (.freeAssert none) := by
  unfold step at h
  cases hc : s.calls[a.call]? with
  | none =>
    rw [hc] at h
    cases h
  | some c =>
    refine ⟨c, List.mem_of_getElem? hc, ?_⟩
    rw [hc] at h
    cases hstep : c.step exec s.pool s.table a.call a.ok with
    | ok r =>
      simp only [hstep] at h
      cases h
    | error e =>
      simp only [hstep] at h
      cases h
      exact step_aborts hstep

/-- **`GetConn` under load.**  Along every run of any number of calls over an initialised pool, all
callers get a connection if and only if no call makes the test of `GetConn` while the queue is
empty. -/
theorem served_iff (exec : Exec) (conns : List Mysql) (pool : SqlConnPool)
    (hpool : SqlConnPool.init (conns.map some) = .ok pool) (table : Table)
    (args : List (Bytes × Bytes × Bool)) (acts : List VerifyAct) :
    Served exec (start pool table args) acts ↔
      Allowed (step exec) TestFindsFree (start pool table args) acts := by
  constructor
  · intro h
    rw [allowed_iff]
    intro p a hp s hs c hc hpc hque
    have hrun := (run_snoc hs a).trans (step_of_empty hc hpc hque)
    refine h.handed _ _ hp hrun { c with pc := .assertSql none } ?_ rfl
    exact List.mem_set (List.getElem?_eq_some_iff.1 hc).1 _
  · intro hfree
    have hstart : Live (start pool table args) ∧ Handed (start pool table args) := by
      refine ⟨start_live hpool table args, fun c hc hpc => ?_⟩
      obtain ⟨_, _, _, rfl⟩ := mem_start hc
      cases hpc
    have hrun : ∀ p s, p <+: acts → run (step exec) (start pool table args) p = .ok s →
        Live s ∧ Handed s := by
      rintro p s ⟨q, rfl⟩ hs
      have hstep : ∀ s a t, Live s ∧ Handed s → TestFindsFree s a → step exec s a = .ok t →
          Live t ∧ Handed t :=
        fun _ _ _ h hfree ht => ⟨step_live h.1 ht, step_handed h.1 h.2 hfree ht⟩
      exact run_safe hstep p _ s hstart hfree.append_left hs
    refine ⟨fun p s hp hs => (hrun p s hp hs).2, ?_, ?_⟩
    · intro p s hp hs c hc hpc
      obtain ⟨i, hi⟩ := List.mem_iff_getElem?.1 hc
      exact (hrun p s hp hs).1.connQue_ne_nil hi hpc
    · intro hstop
      obtain ⟨p, a, s, hp, hs, habort⟩ := run_stops hstop
      obtain ⟨hlive, hhanded⟩ := hrun p s ((List.prefix_append p [a]).trans hp) hs
      obtain ⟨c, hc, hpc | hpc⟩ := step_asserts habort
      · exact hhanded c hc hpc
      · exact hlive.nonNull c hc _ hpc rfl

/-- One login over one connection. -/
theorem served_sample :
    Served plainServer (start ⟨[some 7], 1, none⟩ (fun _ => none) [(str "bob", str "pw", true)])
      (List.replicate 20 ⟨0, true⟩) :=
  (served_iff plainServer [7] ⟨[some 7], 1, none⟩ rfl (fun _ => none) [(str "bob", str "pw", true)]
    (List.replicate 20 ⟨0, true⟩)).2 (by decide +kernel)

/-- Two logins over one connection: the first has taken it out of the queue when the second makes the
test. -/
theorem second_caller_aborts :
    SqlConnPool.init [some 7] = .ok ⟨[some 7], 1, none⟩ ∧
      run (step plainServer) (start ⟨[some 7], 1, none⟩ (fun _ => none)
        [(str "bob", str "pw", true), (str "eve", str "pw", true)])
        (List.replicate 5 ⟨0, true⟩ ++ List.replicate 3 ⟨1, true⟩) = .error .assertion := by
  have hstop : (match run (step plainServer) (start ⟨[some 7], 1, none⟩ (fun _ => none)
      [(str "bob", str "pw", true), (str "eve", str "pw", true)])
      (List.replicate 5 ⟨0, true⟩ ++ List.replicate 3 ⟨1, true⟩) with
    | .ok _ => false
    | .error e => decide (e = .assertion)) = true := by decide +kernel
  refine ⟨rfl, ?_⟩
  split at hstop
  · cases hstop
  · rename_i e he
    rw [he, of_decide_eq_true hstop]

end VerifyCalls

/-! ## Few calls -/

namespace VerifyCall

variable {pool pool' : SqlConnPool} {i : Nat} {c c' : VerifyCall}

/-- The call has taken a connection and not put it back. -/
def out (c : VerifyCall) : Bool := c.got.isSome && c.freed == 0

/-- A step of a call does not lose a connection. -/
theorem PoolMove.stock (h : PoolMove pool i c pool' c') (hphase : Phase c)
    (hque : none ∉ pool.connQue) :
    pool.connQue.length + c.out.toNat ≤ pool'.connQue.length + c'.out.toNat := by
  cases h with
  | outside _ hpool hgot hfreed => rw [hpool, out, out, hgot, hfreed]
  | inside pc pc' hpc hstep hgot hfreed =>
    have hsame : pool'.connQue = pool.connQue → c.account pc pc' = c →
        pool.connQue.length + c.out.toNat ≤ pool'.connQue.length + c'.out.toNat := by
      intro hque hacc
      rw [hque, out, out, hgot, hfreed, hacc]
    cases pc with
    | getTest =>
      cases hstep
      exact hsame rfl rfl
    | getWait => exact hsame (SqlConnPool.step_getWait hstep).1 rfl
    | getLock => exact hsame (SqlConnPool.step_getLock hstep).1 rfl
    | getPop =>
      have hbefore : c.freed = 0 ∧ c.got = none := by
        unfold Phase at hphase
        cases hcpc : c.pc <;> simp only [hcpc] at hphase hpc <;> cases hpc
        · exact hphase
        · exact hphase.2.elim
        · exact hphase.2.elim
      cases hcons : pool.connQue with
      | nil =>
        simp only [SqlConnPool.step, hcons] at hstep
        cases hstep
      | cons sql rest =>
        simp only [SqlConnPool.step, hcons, pure_eq_ok] at hstep
        cases hstep
        rw [hcons, List.mem_cons, not_or] at hque
        obtain ⟨x, rfl⟩ := Option.ne_none_iff_exists'.1 (Ne.symm hque.1)
        have hout : c.out = false := by
          rw [out, hbefore.2]
          rfl
        have hout' : c'.out = true := by
          rw [out, hgot, hfreed]
          simp [VerifyCall.account, hbefore.1]
        rw [hout, hout']
        simp
    | getUnlock =>
      cases hstep
      exact hsame rfl rfl
    | freeAssert sql =>
      obtain ⟨-, -, hret⟩ := bind_eq_ok.1 hstep
      cases hret
      exact hsame rfl rfl
    | freeLock => exact hsame (SqlConnPool.step_freeLock hstep).1 rfl
    | freePush sql =>
      cases hstep
      have hle := Bool.toNat_le c.out
      simp only [List.length_append, List.length_singleton]
      omega
    | freePost | freeUnlock | done =>
      cases hstep
      exact hsame rfl rfl

end VerifyCall

namespace VerifyCalls

open UserVerify VerifyCall

variable {exec : Exec} {s t : VerifyCalls} {a : VerifyAct}

/-- There are `n` connections, in the queue or taken by a call, and no more than `n` calls. -/
structure Enough (n : Nat) (s : VerifyCalls) : Prop extends Live s where
  size : s.calls.length ≤ n
  stock : n ≤ s.pool.connQue.length + s.calls.countP out

theorem step_enough {n : Nat} (h : Enough n s) (ht : step exec s a = .ok t) : Enough n t := by
  have hlive := step_live h.toLive ht
  rcases step_eq_ok ht with ⟨-, rfl⟩ | ⟨c, pool, table, c', hc, hstep, rfl⟩
  · exact h
  · have hstock := (step_pool hstep).stock (h.phase c (List.mem_of_getElem? hc)) h.queue
    have hcount := Parties.countP_set_add out hc c'
    have hbefore := h.stock
    refine ⟨hlive, ?_, ?_⟩
    · rw [List.length_set]
      exact h.size
    · simp only
      omega

/-- The call that makes the test has taken nothing, and the other calls have taken one connection
each at most. -/
theorem Enough.connQue_ne_nil {n : Nat} (h : Enough n s) {i : Nat} {c : VerifyCall}
    (hc : s.calls[i]? = some c) (hpc : c.pc = .construct .getTest) : s.pool.connQue ≠ [] := by
  have hphase := h.phase c (List.mem_of_getElem? hc)
  unfold Phase at hphase
  simp only [hpc] at hphase
  have hout : c.out = false := by
    rw [out, hphase.2]
    rfl
  have hlt : s.calls.countP out ≠ s.calls.length := by
    rw [ne_eq, List.countP_eq_length]
    intro hall
    exact absurd (hall c (List.mem_of_getElem? hc)) (by rw [hout]; nofun)
  have hle : s.calls.countP out ≤ s.calls.length := List.countP_le_length
  have hsize := h.size
  have hstock := h.stock
  apply List.ne_nil_of_length_pos
  omega

/-- **Few calls.**  No more calls than there are connections: all callers get one. -/
theorem few_calls_served (exec : Exec) (conns : List Mysql) (pool : SqlConnPool)
    (hpool : SqlConnPool.init (conns.map some) = .ok pool) (table : Table)
    (args : List (Bytes × Bytes × Bool)) (hfew : args.length ≤ conns.length)
    (acts : List VerifyAct) : Served exec (start pool table args) acts := by
  rw [served_iff exec conns pool hpool]
  have hstart : Enough conns.length (start pool table args) := by
    refine ⟨start_live hpool table args, ?_, ?_⟩
    · rw [start, List.length_map]
      exact hfew
    · obtain ⟨-, -, hret⟩ := bind_eq_ok.1 hpool
      cases hret
      simp [start]
  exact Allowed.of_invariant (fun _ _ _ h ht => step_enough h ht)
    (fun _ _ h _ hc hpc => h.connQue_ne_nil hc hpc) acts _ hstart

end VerifyCalls
