import TinyHttpServer.Server.TcpServerDispatch
import TinyHttpServer.Server.TcpServerTeardown

/-!
# What the functions of the server queue

Every function of the server only appends to the queues of the loops, and about a closed connection it
appends no callback of the user.

* `ActsOnOpen` — a function of a connection does nothing that matters once the connection is closed.
* `Grown` — what a function does to the queues; `execute_grown`, `handleEvent_grown`.
* `Unlogged` — no record gets an entry; outside the base loop no connection is removed.
-/

set_option autoImplicit false

open Checked Machine Epoller

namespace TcpConnection

variable {c c' : TcpConnection}

/-- After `handle_close_`: nothing is sent, and the channel does not wait for `POLLOUT`. -/
structure Closed (c : TcpConnection) : Prop where
  status : c.status = .disconnected
  idle : c.channel.isWriting = false

/-- The function leaves a closed connection closed and queues nothing for it. -/
def ActsOnOpen (op : TcpConnection → Checked TcpConnection) : Prop :=
  ∀ c c', c.Closed → op c = .ok c' → c'.Closed ∧ c'.pendingFunc = c.pendingFunc

theorem buildConnect_actsOnOpen : ActsOnOpen buildConnect := by
  intro c c' hc h
  obtain ⟨hst, -⟩ := buildConnect_eq_ok h
  rw [hc.status] at hst
  cases hst

theorem handleClose_actsOnOpen : ActsOnOpen handleClose := by
  intro c c' hc h
  obtain ⟨_, hst, -⟩ := bind_eq_ok.1 h
  rw [require_eq_ok, hc.status] at hst
  rcases hst with hst | hst
  · cases hst
  · cases hst

theorem handleRead_actsOnOpen (res : ReadResult) : ActsOnOpen (·.handleRead res) := by
  intro c c' hc h
  obtain ⟨b, -, h⟩ := bind_eq_ok.1 h
  match res with
  | .data [] =>
    have hclosed : Closed { c with inputBuffer := b } := ⟨hc.status, hc.idle⟩
    obtain ⟨hc', hpending⟩ := handleClose_actsOnOpen { c with inputBuffer := b } c' hclosed h
    exact ⟨hc', hpending⟩
  | .data (_ :: _) =>
    cases h
    exact ⟨⟨hc.status, hc.idle⟩, rfl⟩
  | .error _ =>
    cases h
    exact ⟨⟨hc.status, hc.idle⟩, rfl⟩

theorem handleWrite_actsOnOpen (res : TcpConnection → WriteResult) :
    ActsOnOpen fun c => c.handleWrite (res c) := by
  intro c c' hc h
  simp only [handleWrite, hc.idle, Bool.false_eq_true, if_false] at h
  cases h
  exact ⟨hc, rfl⟩

theorem sendInLoop_actsOnOpen (data : Bytes) (res : WriteResult) :
    ActsOnOpen (·.sendInLoop data res) := by
  intro c c' hc h
  simp only [sendInLoop, if_pos hc.status] at h
  cases h
  exact ⟨hc, rfl⟩

theorem send_actsOnOpen (message : Bytes) (res : WriteResult) : ActsOnOpen (·.send message res) := by
  intro c c' hc h
  have hst : c.status ≠ .connected := by simp [hc.status]
  simp only [send, if_neg hst] at h
  cases h
  exact ⟨hc, rfl⟩

theorem shutdownInLoop_actsOnOpen : ActsOnOpen fun c => return c.shutdownInLoop := by
  intro c c' hc h
  have hst : c.status ≠ .connected := by simp [hc.status]
  simp only [shutdownInLoop_of_ne hst] at h
  cases h
  exact ⟨hc, rfl⟩

theorem runFunctor_actsOnOpen (f : PendingFunc) : ActsOnOpen (·.runFunctor f) := by
  intro c c' hc h
  cases f with
  | writeComplete | highWaterMark len =>
    cases h
    exact ⟨⟨hc.status, hc.idle⟩, rfl⟩
  | forceCloseInLoop =>
    simp only [runFunctor, forceCloseInLoop_eq] at h
    cases h
    exact ⟨hc, rfl⟩

/-- `Channel::remove` changes the registration of the channel, not its interest. -/
theorem remove_actsOnOpen : ActsOnOpen (·.onChannel Channel.remove) := by
  intro c c' hc h
  obtain ⟨p, ch, hop, rfl⟩ := onChannel_eq_ok h
  obtain ⟨_, -, hop⟩ := bind_eq_ok.1 hop
  obtain ⟨_, -, hop⟩ := bind_eq_ok.1 hop
  cases hop
  exact ⟨⟨hc.status, hc.idle⟩, rfl⟩

end TcpConnection

namespace TcpServer

open TcpConnection

/-- A callback of the user. -/
def Functor.isCallback : Functor → Bool
  | .pending _ _ => true
  | _ => false

theorem Functor.key_of_callback {f : Functor} (h : f.isCallback) : f.key = none := by
  cases f with
  | pending i g => rfl
  | buildConnect i | removeConnectionInLoop i | destroyConnect i | sendInLoop i data
  | shutdownInLoop i => cases h

/-- The functor binds `this`; the others bind a `shared_ptr`. -/
def Functor.bindsThis : Functor → Bool
  | .sendInLoop _ _ => true
  | .shutdownInLoop _ => true
  | _ => false

def Closed (s : TcpServer) (i : Nat) : Prop := ∃ sc ∈ s.conns i, sc.conn.Closed

/-- The record of connection `i` has the entry. -/
def Logged (s : TcpServer) (i : Nat) (e : LifeEvent) : Prop := ∃ sc ∈ s.conns i, e ∈ sc.life

/-- What may be queued. -/
def MayQueue (s : TcpServer) (f : Functor) : Prop := f.isCallback → ¬ s.Closed f.conn

theorem MayQueue.of_not_callback {s : TcpServer} {f : Functor} (hf : f.isCallback = false) :
    MayQueue s f := by
  intro hcallback
  rw [hf] at hcallback
  cases hcallback

/-- What a function does to the queues and to the records. -/
structure Grown (s t : TcpServer) : Prop where
  name : ∀ j, (t.conns j).map ServerConn.name = (s.conns j).map ServerConn.name
  connection : ∀ n, t.connection n = s.connection n ∨ t.connection n = none
  logged : ∀ j e, s.Logged j e → t.Logged j e
  closed : ∀ j, s.Closed j → t.Closed j
  queues : ∀ l, ∃ gs, (t.loops l).pendingFunc = (s.loops l).pendingFunc ++ gs ∧
    ∀ g ∈ gs, MayQueue s g

variable {s t u : TcpServer} {i j : Nat} {cur l : Nat} {code : UserCode}

theorem Closed.conn {sc : ServerConn} (h : s.Closed i) (hsc : s.conns i = some sc) :
    sc.conn.Closed := by
  obtain ⟨sc', hsc', hclosed⟩ := h
  obtain rfl : sc = sc' := Option.some.inj (hsc.symm.trans hsc')
  exact hclosed

theorem Logged.mem {sc : ServerConn} {e : LifeEvent} (h : s.Logged i e)
    (hsc : s.conns i = some sc) : e ∈ sc.life := by
  obtain ⟨sc', hsc', hmem⟩ := h
  obtain rfl : sc = sc' := Option.some.inj (hsc.symm.trans hsc')
  exact hmem

theorem Grown.refl (s : TcpServer) : Grown s s := by
  refine ⟨fun _ => rfl, fun _ => .inl rfl, fun _ _ h => h, fun _ h => h, fun l => ⟨[], ?_, ?_⟩⟩
  · rw [List.append_nil]
  · exact fun g hg => absurd hg List.not_mem_nil

/-- What may be queued later may be queued now: closed connections stay closed. -/
theorem MayQueue.of_grown {f : Functor} (h : MayQueue t f) (hg : Grown s t) :
    MayQueue s f :=
  fun hf hc => h hf (hg.closed _ hc)

theorem Grown.trans (h : Grown s t) (h' : Grown t u) : Grown s u := by
  refine ⟨fun j => (h'.name j).trans (h.name j), fun n => ?_,
    fun j e he => h'.logged j e (h.logged j e he), fun j hc => h'.closed j (h.closed j hc),
    fun l => ?_⟩
  · rcases h'.connection n with heq | hnone
    · rw [heq]
      exact h.connection n
    · exact .inr hnone
  · obtain ⟨gs, hgs, hall⟩ := h.queues l
    obtain ⟨gs', hgs', hall'⟩ := h'.queues l
    refine ⟨gs ++ gs', by rw [hgs', hgs, List.append_assoc], fun g hg => ?_⟩
    rcases List.mem_append.1 hg with hg | hg
    · exact hall g hg
    · exact (hall' g hg).of_grown h

/-! ## Primitive changes -/

theorem queueInLoop_grown {f : Functor} (hf : MayQueue s f) :
    Grown s (s.queueInLoop l f) := by
  refine ⟨fun _ => rfl, fun _ => .inl rfl, fun _ _ h => h, fun _ h => h, fun l' => ?_⟩
  unfold queueInLoop setPending
  obtain rfl | hl := eq_or_ne l' l
  · refine ⟨[f], by simp, fun g hg => ?_⟩
    rw [List.mem_singleton.1 hg]
    exact hf
  · refine ⟨[], by simp [Function.update_of_ne hl], fun g hg => ?_⟩
    exact absurd hg List.not_mem_nil

theorem runInLoop_grown {f : Functor} {now : TcpServer → Checked TcpServer}
    (hf : MayQueue s f) (hnow : ∀ t, now s = .ok t → Grown s t)
    (h : s.runInLoop cur l f now = .ok t) : Grown s t := by
  unfold runInLoop at h
  split at h
  · exact hnow t h
  · cases h
    exact queueInLoop_grown hf

/-- A connection changes, and queues callbacks of the user unless it is closed. -/
theorem store_grown {sc : ServerConn} (hsc : s.conns i = some sc) {entry : List LifeEvent}
    {c : TcpConnection} (h : sc.conn.Closed → c.Closed ∧ c.pendingFunc = []) :
    Grown s (s.store i sc entry c) := by
  refine ⟨fun j => ?_, fun _ => .inl rfl, ?_, ?_, fun l => ?_⟩
  · unfold store
    obtain rfl | hj := eq_or_ne j i
    · simp [hsc]
    · simp [Function.update_of_ne hj]
  · intro j e hlog
    obtain rfl | hj := eq_or_ne j i
    · exact ⟨_, Function.update_self .., List.mem_append_left _ (hlog.mem hsc)⟩
    · simpa [Logged, store, Function.update_of_ne hj] using hlog
  · intro j hclosed
    obtain rfl | hj := eq_or_ne j i
    · exact ⟨_, Function.update_self .., (h (hclosed.conn hsc)).1⟩
    · simpa [Closed, store, Function.update_of_ne hj] using hclosed
  · unfold store
    obtain rfl | hl := eq_or_ne l sc.loop
    · refine ⟨c.pendingFunc.map (.pending i), by simp, fun g hg => ?_⟩
      obtain ⟨f, hf, rfl⟩ := List.mem_map.1 hg
      intro _ hclosed
      rw [(h (hclosed.conn hsc)).2] at hf
      exact List.not_mem_nil hf
    · refine ⟨[], by simp [Function.update_of_ne hl], fun g hg => ?_⟩
      exact absurd hg List.not_mem_nil

theorem view_closed {sc : ServerConn} (h : sc.conn.Closed) : (s.view sc).Closed := ⟨h.status, h.idle⟩

theorem onConn_grown {entry : List LifeEvent} {op : TcpConnection → Checked TcpConnection}
    (hop : ActsOnOpen op) (h : s.onConn cur i entry op = .ok t) : Grown s t := by
  obtain ⟨sc, c, hsc, hc, rfl⟩ := onConn_eq_ok h
  exact store_grown hsc fun hclosed => hop _ c (view_closed hclosed) hc

theorem note_grown {e : LifeEvent} (h : s.note i e = .ok t) : Grown s t := by
  obtain ⟨sc, hsc, h⟩ := bind_eq_ok.1 h
  cases h
  exact store_grown (deref_eq_ok hsc) fun hclosed => ⟨view_closed hclosed, rfl⟩

/-! ## User code -/

theorem userCall_grown {call : UserCall} (h : s.userCall cur call = .ok t) : Grown s t := by
  cases call with
  | send j message res =>
    simp only [userCall] at h
    split at h
    · cases h
      exact .refl s
    · split at h
      · exact onConn_grown (send_actsOnOpen message _) h
      · split at h
        · cases h
          exact queueInLoop_grown (.of_not_callback rfl)
        · cases h
          exact .refl s
  | shutdown j =>
    simp only [userCall] at h
    split at h
    · cases h
      exact .refl s
    · exact runInLoop_grown (.of_not_callback rfl)
        (fun _ ht => onConn_grown shutdownInLoop_actsOnOpen ht) h

theorem userCalls_grown {calls : List UserCall} (h : s.userCalls cur calls = .ok t) :
    Grown s t := by
  have hstep : ∀ (a : TcpServer) (call : UserCall) (b : TcpServer), Grown s a → True →
      a.userCall cur call = .ok b → Grown s b :=
    fun a call b hab _ hb => hab.trans (userCall_grown hb)
  exact run_safe hstep calls s t (.refl s) (Allowed.of_forall (fun _ _ => trivial) calls s) h

/-! ## Opening and closing -/

theorem buildConnect_grown (h : s.buildConnect cur i code = .ok t) : Grown s t := by
  obtain ⟨s₁, hs₁, h⟩ := bind_eq_ok.1 h
  exact (onConn_grown buildConnect_actsOnOpen hs₁).trans (userCalls_grown h)

theorem destroyConnect_grown (h : s.destroyConnect cur i code = .ok t) : Grown s t := by
  obtain ⟨sc, hsc, h⟩ := bind_eq_ok.1 h
  obtain ⟨s₁, hs₁, h⟩ := bind_eq_ok.1 h
  refine Grown.trans ?_ (onConn_grown remove_actsOnOpen h)
  split at hs₁
  · rename_i hst
    obtain ⟨s₂, hs₂, hs₁⟩ := bind_eq_ok.1 hs₁
    refine Grown.trans ?_ (userCalls_grown hs₁)
    -- the connection is taken down because it is not closed
    obtain ⟨sc', c, hsc', -, rfl⟩ := onConn_eq_ok hs₂
    obtain rfl : sc = sc' := Option.some.inj ((deref_eq_ok hsc).symm.trans hsc')
    refine store_grown hsc' fun hclosed => ?_
    rw [hclosed.status] at hst
    cases hst
  · cases hs₁
    exact .refl s

theorem removeConnectionInLoop_grown (h : s.removeConnectionInLoop cur i code = .ok t) :
    Grown s t := by
  obtain ⟨-, -, h⟩ := bind_eq_ok.1 h
  obtain ⟨sc, -, h⟩ := bind_eq_ok.1 h
  obtain ⟨-, -, h⟩ := bind_eq_ok.1 h
  obtain ⟨s₁, hs₁, h⟩ := bind_eq_ok.1 h
  have hmap : Grown s { s with connection := Function.update s.connection sc.name none } := by
    refine ⟨fun _ => rfl, fun n => ?_, fun _ _ he => he, fun _ hc => hc, (Grown.refl s).queues⟩
    simp only [Function.update_apply]
    split
    · exact .inr rfl
    · exact .inl rfl
  exact (hmap.trans (note_grown hs₁)).trans
    (runInLoop_grown (.of_not_callback rfl) (fun _ ht => destroyConnect_grown ht) h)

theorem closeCallbacks_grown (h : s.closeCallbacks cur i code = .ok t) : Grown s t := by
  obtain ⟨s₁, hs₁, h⟩ := bind_eq_ok.1 h
  exact (userCalls_grown hs₁).trans
    (runInLoop_grown (.of_not_callback rfl)
      (fun _ ht => removeConnectionInLoop_grown ht) h)

/-! ## Events and functors -/

theorem handleClose_grown (h : s.handleClose cur i code = .ok t) : Grown s t := by
  obtain ⟨s₁, hs₁, h⟩ := bind_eq_ok.1 h
  exact (onConn_grown handleClose_actsOnOpen hs₁).trans (closeCallbacks_grown h)

theorem handleRead_grown {res : ReadResult} (h : s.handleRead cur i res code = .ok t) :
    Grown s t := by
  obtain ⟨s₁, hs₁, h⟩ := bind_eq_ok.1 h
  refine (onConn_grown (handleRead_actsOnOpen res) hs₁).trans ?_
  match res with
  | .data [] => exact closeCallbacks_grown h
  | .data (_ :: _) => exact userCalls_grown h
  | .error _ =>
    cases h
    exact .refl _

theorem handleEvent_grown {revents : Revents} {read : ReadResult} {write : WriteResult}
    (h : s.handleEvent cur i revents read write code = .ok t) : Grown s t := by
  obtain ⟨s₁, hs₁, h⟩ := bind_eq_ok.1 h
  obtain ⟨s₂, hs₂, h⟩ := bind_eq_ok.1 h
  obtain ⟨s₃, hs₃, h⟩ := bind_eq_ok.1 h
  have h₂ : Grown s₁ s₂ := by
    split at hs₂
    · exact handleClose_grown hs₂
    · cases hs₂
      exact .refl _
  have h₃ : Grown s₂ s₃ := by
    split at hs₃
    · exact handleRead_grown hs₃
    · cases hs₃
      exact .refl _
  refine (((note_grown hs₁).trans h₂).trans h₃).trans ?_
  split at h
  · exact onConn_grown (handleWrite_actsOnOpen _) h
  · cases h
    exact .refl _

theorem execute_grown {res : WriteResult} {f : Functor} (h : s.execute cur res code f = .ok t) :
    Grown s t := by
  cases f with
  | buildConnect i => exact buildConnect_grown h
  | removeConnectionInLoop i => exact removeConnectionInLoop_grown h
  | destroyConnect i => exact destroyConnect_grown h
  | sendInLoop i data => exact onConn_grown (sendInLoop_actsOnOpen data _) h
  | shutdownInLoop i => exact onConn_grown shutdownInLoop_actsOnOpen h
  | pending i f =>
    obtain ⟨s₁, hs₁, h⟩ := bind_eq_ok.1 h
    exact (onConn_grown (runFunctor_actsOnOpen f) hs₁).trans (userCalls_grown h)

/-! ## Accepting -/

/-- The server with a new connection, before `build_connect` is issued. -/
def added (s : TcpServer) (loop : Nat) (pool : EventLoopThreadPool) (fd : Int) : TcpServer :=
  { s with
    threadPool := pool
    nextId := (s.nextId + 1).bmod (2 ^ 32)
    connection := Function.update s.connection (s.connName s.nextId) (some s.accepted)
    conns := Function.update s.conns s.accepted
      (some { loop, name := s.connName s.nextId, life := []
              conn := .make (s.loops loop).poller s.accepted fd s.writeCompleteCb })
    accepted := s.accepted + 1 }

theorem newConnection_eq_ok {fd : Int} (h : s.newConnection fd code = .ok t) :
    ∃ loop pool, s.threadPool.getLoop = .ok (loop, pool) ∧
      (s.added loop pool fd).runInLoop 0 loop (.buildConnect s.accepted)
        (fun s' => s'.buildConnect 0 s.accepted code) = .ok t := by
  obtain ⟨⟨loop, pool⟩, hloop, h⟩ := bind_eq_ok.1 h
  exact ⟨loop, pool, hloop, h⟩

theorem added_grown {loop : Nat} {pool : EventLoopThreadPool} {fd : Int}
    (h : (s.added loop pool fd).runInLoop 0 loop (.buildConnect s.accepted)
      (fun s' => s'.buildConnect 0 s.accepted code) = .ok t) : Grown (s.added loop pool fd) t :=
  runInLoop_grown (.of_not_callback rfl) (fun _ ht => buildConnect_grown ht) h

/-! ## Records -/

/-- The entries of the functions that remove and destroy a connection. -/
def LifeEvent.ofRemoval : LifeEvent → Bool
  | .removeConnectionInLoop => true
  | .destroyConnect => true
  | _ => false

/-- No record gets entry `e`. -/
def Unlogged (e : LifeEvent) (s t : TcpServer) : Prop := ∀ j, t.Logged j e → s.Logged j e

section Unlogged

variable {e : LifeEvent}

theorem Unlogged.refl (s : TcpServer) : Unlogged e s s := fun _ h => h

theorem Unlogged.trans (h : Unlogged e s t) (h' : Unlogged e t u) : Unlogged e s u :=
  fun j hj => h j (h' j hj)

/-- A step about connection `i` makes no entries for the others. -/
theorem Kept.logged (h : Kept i s t) (hj : j ≠ i) (hlog : t.Logged j e) : s.Logged j e := by
  obtain ⟨sc, hsc, he⟩ := hlog
  have hlife := h.life j hj
  rw [Option.mem_def.1 hsc] at hlife
  obtain ⟨sc', hsc', hlife⟩ := Option.map_eq_some_iff.1 hlife.symm
  exact ⟨sc', hsc', hlife ▸ he⟩

theorem userCalls_unlogged {calls : List UserCall} (h : s.userCalls cur calls = .ok t) :
    Unlogged e s t :=
  fun j => (userCalls_kept (i := j + 1) h).logged (Nat.ne_of_lt (Nat.lt_succ_self j))

theorem store_unlogged {sc : ServerConn} (hsc : s.conns i = some sc) {entry : List LifeEvent}
    {c : TcpConnection} (hentry : e ∉ entry) (he : e.ofRemoval) :
    Unlogged e s (s.store i sc entry c) := by
  rintro j ⟨sj, hsj, hmem⟩
  simp only [store, Function.update_apply] at hsj
  split at hsj
  · rename_i hj
    subst hj
    cases hsj
    have hcbs : e ∉ connectionCbs c := by
      intro hcb
      obtain ⟨_, -, rfl⟩ := List.mem_map.1 hcb
      cases he
    refine ⟨sc, hsc, ?_⟩
    simpa [hentry, hcbs] using hmem
  · exact ⟨sj, hsj, hmem⟩

theorem onConn_unlogged {entry : List LifeEvent} {op : TcpConnection → Checked TcpConnection}
    (hentry : e ∉ entry) (he : e.ofRemoval) (h : s.onConn cur i entry op = .ok t) :
    Unlogged e s t := by
  obtain ⟨sc, c, hsc, -, rfl⟩ := onConn_eq_ok h
  exact store_unlogged hsc hentry he

theorem note_unlogged {e' : LifeEvent} (hne : e ≠ e') (he : e.ofRemoval)
    (h : s.note i e' = .ok t) : Unlogged e s t := by
  obtain ⟨sc, hsc, h⟩ := bind_eq_ok.1 h
  cases h
  exact store_unlogged (deref_eq_ok hsc) (fun hmem => hne (List.mem_singleton.1 hmem)) he

theorem buildConnect_unlogged (he : e.ofRemoval) (h : s.buildConnect cur i code = .ok t) :
    Unlogged e s t := by
  obtain ⟨s₁, hs₁, h⟩ := bind_eq_ok.1 h
  refine (onConn_unlogged (fun hmem => ?_) he hs₁).trans (userCalls_unlogged h)
  rw [List.mem_singleton.1 hmem] at he
  cases he

/-- In the other loops `close_cb_` queues `remove_connection_in_loop`. -/
theorem closeCallbacks_unlogged (hcur : cur ≠ 0) (h : s.closeCallbacks cur i code = .ok t) :
    Unlogged e s t := by
  obtain ⟨s₁, hs₁, h⟩ := bind_eq_ok.1 h
  refine (userCalls_unlogged hs₁).trans ?_
  unfold removeConnection runInLoop at h
  rw [if_neg hcur] at h
  cases h
  exact .refl s₁

theorem handleRead_unlogged (he : e.ofRemoval) (hcur : cur ≠ 0) {res : ReadResult}
    (h : s.handleRead cur i res code = .ok t) : Unlogged e s t := by
  obtain ⟨s₁, hs₁, h⟩ := bind_eq_ok.1 h
  refine (onConn_unlogged List.not_mem_nil he hs₁).trans ?_
  match res with
  | .data [] => exact closeCallbacks_unlogged hcur h
  | .data (_ :: _) => exact userCalls_unlogged h
  | .error _ =>
    cases h
    exact .refl _

/-- **Outside the base loop** an event removes no connection. -/
theorem handleEvent_unlogged (he : e.ofRemoval) (hcur : cur ≠ 0) {revents : Revents}
    {read : ReadResult} {write : WriteResult}
    (h : s.handleEvent cur i revents read write code = .ok t) : Unlogged e s t := by
  have hne : e ≠ .handleEvent := by
    rintro rfl
    cases he
  obtain ⟨s₁, hs₁, h⟩ := bind_eq_ok.1 h
  obtain ⟨s₂, hs₂, h⟩ := bind_eq_ok.1 h
  obtain ⟨s₃, hs₃, h⟩ := bind_eq_ok.1 h
  have h₂ : Unlogged e s₁ s₂ := by
    split at hs₂
    · obtain ⟨s₄, hs₄, hs₂⟩ := bind_eq_ok.1 hs₂
      exact (onConn_unlogged List.not_mem_nil he hs₄).trans (closeCallbacks_unlogged hcur hs₂)
    · cases hs₂
      exact .refl _
  have h₃ : Unlogged e s₂ s₃ := by
    split at hs₃
    · exact handleRead_unlogged he hcur hs₃
    · cases hs₃
      exact .refl _
  refine (((note_unlogged hne he hs₁).trans h₂).trans h₃).trans ?_
  split at h
  · exact onConn_unlogged List.not_mem_nil he h
  · cases h
    exact .refl _

/-- Functors that neither remove nor destroy. -/
theorem execute_unlogged (he : e.ofRemoval) {res : WriteResult} {f : Functor}
    (hremove : ∀ i, f ≠ .removeConnectionInLoop i) (hdestroy : ∀ i, f ≠ .destroyConnect i)
    (h : s.execute cur res code f = .ok t) : Unlogged e s t := by
  cases f with
  | removeConnectionInLoop i => exact absurd rfl (hremove i)
  | destroyConnect i => exact absurd rfl (hdestroy i)
  | buildConnect i => exact buildConnect_unlogged he h
  | sendInLoop i data =>
    simp only [execute] at h
    exact onConn_unlogged List.not_mem_nil he h
  | shutdownInLoop i =>
    simp only [execute] at h
    exact onConn_unlogged List.not_mem_nil he h
  | pending i f =>
    obtain ⟨s₁, hs₁, h⟩ := bind_eq_ok.1 h
    exact (onConn_unlogged List.not_mem_nil he hs₁).trans (userCalls_unlogged h)

/-- `remove_connection_in_loop` for a connection of another loop queues `destroy_connect`. -/
theorem removeConnectionInLoop_unlogged {sc : ServerConn} (hsc : s.conns i = some sc)
    (hloop : sc.loop ≠ cur) (h : s.removeConnectionInLoop cur i code = .ok t) :
    Unlogged .destroyConnect s t := by
  obtain ⟨-, -, h⟩ := bind_eq_ok.1 h
  obtain ⟨sc', hsc', h⟩ := bind_eq_ok.1 h
  obtain rfl : sc = sc' := Option.some.inj (hsc.symm.trans (deref_eq_ok hsc'))
  obtain ⟨-, -, h⟩ := bind_eq_ok.1 h
  obtain ⟨s₁, hs₁, h⟩ := bind_eq_ok.1 h
  unfold runInLoop at h
  rw [if_neg (Ne.symm hloop)] at h
  cases h
  have hnote := note_unlogged (e := .destroyConnect) (fun heq => by cases heq) rfl hs₁
  exact fun j hj => hnote j hj

end Unlogged

end TcpServer
