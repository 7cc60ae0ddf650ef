import TinyHttpServer.Server.TcpServerInvariant

/-!
# The lifecycle of the connections of a server

For every function of the server: it returns, and keeps the invariant.

* `userCalls_inv` — user code changes no stage.
* `buildConnect_inv`, `closeCallbacks_inv`, `removeConnectionInLoop_inv`, `destroyConnect_inv` — the
  functions that change the stage of a connection.
* `handleEvent_inv` — several events of one dispatch.
* `connection_lifecycle` — the statement about whole runs.
-/

set_option autoImplicit false

open Checked Machine Epoller TcpConnection

namespace TcpServer

variable {s : TcpServer} {σ : Nat → Stage} {home : Nat → Nat} {held : Option Nat} {i : Nat}

/-! ## Functions of a connection -/

theorem connectionCbs_eq (c : TcpConnection) :
    connectionCbs c = c.connectionCalls.map fun _ => .connectionCb c.status := rfl

/-- **A function of one connection**, in its loop. -/
theorem Inv.onConn (h : Inv σ home held s) {cur : Nat} {st : Stage} {entry : List LifeEvent}
    {op : TcpConnection → Checked TcpConnection} (hi : σ i ≠ .absent) (hcur : cur = home i)
    (hop : ∀ c, c.AtStage (σ i) → (σ i ≠ .destroyed → c.poller.Mirrors c.channel) →
      c.connectionCalls = [] → ∃ c', op c = .ok c' ∧ c'.AtStage st ∧ Moved (σ i) c c' ∧
        milestones st = milestones (σ i) ++ (entry ++ connectionCbs c'))
    (hentry : .handleEvent ∉ entry) (hadv : Advance (σ i) st) (hheld : st = σ i ∨ held = some i)
    (hmap : Unmapped st ↔ Unmapped (σ i)) :
    ∃ s', s.onConn cur i entry op = .ok s' ∧ Inv (Function.update σ i st) home held s' := by
  obtain ⟨sc, hsc, hok⟩ := h.exists_conn hi
  have hmirrors : σ i ≠ .destroyed → (s.view sc).poller.Mirrors (s.view sc).channel := by
    intro hd
    have hm := h.pollers.mirrors i sc ⟨hsc, hd⟩
    rw [← hok.loop] at hm
    exact hm
  obtain ⟨c', hc', hstage, hmoved, hlife⟩ :=
    hop (s.view sc) (hok.stage.frame rfl rfl rfl rfl) hmirrors rfl
  refine ⟨s.store i sc entry c', ?_, ?_⟩
  · unfold TcpServer.onConn deref
    rw [hsc]
    simp only [pure_eq_ok, ok_bind, require_of (hcur.trans hok.loop.symm), hc']
  · refine h.store hsc hmoved hstage (hok.life.append hlife ?_) hadv hheld ?_ fun _ _ => rfl
    · rw [List.mem_append, connectionCbs_eq, List.mem_map]
      rintro (he | ⟨_, -, he⟩)
      · exact hentry he
      · cases he
    · rw [hok.mapped, if_congr hmap rfl rfl]

/-- A function that leaves the stage as it is. -/
theorem Inv.onConn_quiet (h : Inv σ home held s) {cur : Nat}
    {op : TcpConnection → Checked TcpConnection} (hi : σ i ≠ .absent) (hcur : cur = home i)
    (hop : ∀ c, c.AtStage (σ i) → (σ i ≠ .destroyed → c.poller.Mirrors c.channel) →
      ∃ c', op c = .ok c' ∧ Quiet (σ i) c c') :
    ∃ s', s.onConn cur i [] op = .ok s' ∧ Inv σ home held s' := by
  rw [← Function.update_eq_self i σ]
  refine h.onConn hi hcur ?_ List.not_mem_nil (.stay _) (.inl rfl) Iff.rfl
  intro c hstage hm hnone
  obtain ⟨c', hc', hq⟩ := hop c hstage hm
  refine ⟨c', hc', hq.stage, hq.moved, ?_⟩
  rw [connectionCbs_eq, hq.calls, hnone]
  simp

/-! ## User code -/

theorem userCall_inv (h : Inv σ home held s) (cur : Nat) (call : UserCall) :
    ∃ s', s.userCall cur call = .ok s' ∧ Inv σ home held s' := by
  cases call with
  | send i message res =>
    simp only [userCall]
    cases hsc : s.conns i with
    | none => exact ⟨s, rfl, h⟩
    | some sc =>
      have hok := h.conns.each i sc hsc
      simp only
      split
      · rename_i hcur
        exact h.onConn_quiet hok.stage.ne_absent (hcur.trans hok.loop)
          fun c hstage hm => send_quiet hstage hm message _
      · split
        · rename_i hst
          refine ⟨_, rfl, h.queue rfl ⟨hok.stage.ne_absent, fun _ => hok.loop.symm, fun _ => ?_⟩⟩
          -- a connected connection has been built
          intro (hacc : σ i = .accepted)
          have hstage := hok.stage
          rw [hacc] at hstage
          cases hstage with
          | accepted hconnecting =>
            rw [hconnecting] at hst
            cases hst
        · exact ⟨s, rfl, h⟩
  | shutdown i =>
    simp only [userCall]
    cases hsc : s.conns i with
    | none => exact ⟨s, rfl, h⟩
    | some sc =>
      have hok := h.conns.each i sc hsc
      simp only
      unfold runInLoop
      split
      · rename_i hcur
        exact h.onConn_quiet hok.stage.ne_absent (hcur.trans hok.loop)
          fun c hstage _ => ⟨_, rfl, shutdownInLoop_quiet hstage⟩
      · exact ⟨_, rfl, h.queue rfl ⟨hok.stage.ne_absent, fun _ => hok.loop.symm, nofun⟩⟩

/-- **User code leaves all stages as they are.** -/
theorem userCalls_inv (h : Inv σ home held s) (cur : Nat) (calls : List UserCall) :
    ∃ s', s.userCalls cur calls = .ok s' ∧ Inv σ home held s' := by
  have hall : Allowed (fun s call => s.userCall cur call) (fun _ _ => True) s calls :=
    Allowed.of_forall (fun _ _ => trivial) calls s
  exact run_invariant (fun _ call h _ => userCall_inv h cur call) calls s h hall

/-! ## Opening and closing -/

theorem deref_eq {sc : ServerConn} (hsc : s.conns i = some sc) : s.deref i = .ok sc := by
  unfold deref
  rw [hsc]
  rfl

theorem buildConnect_inv (h : Inv σ home (some i) s) (hst : σ i = .accepted) {cur : Nat}
    (hcur : cur = home i) (code : UserCode) :
    ∃ s', s.buildConnect cur i code = .ok s' ∧
      Inv (Function.update σ i .opened) home none s' := by
  have hopens : ∀ c : TcpConnection, c.AtStage (σ i) →
      (σ i ≠ .destroyed → c.poller.Mirrors c.channel) → c.connectionCalls = [] →
      ∃ c', c.buildConnect = .ok c' ∧ c'.AtStage .opened ∧ Moved (σ i) c c' ∧
        milestones .opened = milestones (σ i) ++ ([.buildConnect] ++ connectionCbs c') := by
    rw [hst]
    intro c hstage hm hnone
    obtain ⟨c', hc', hopened, hmoved, hstatus, hcalls⟩ := buildConnect_opens hstage (hm nofun)
    refine ⟨c', hc', hopened, hmoved, ?_⟩
    rw [connectionCbs_eq, hcalls, hnone, hstatus]
    rfl
  obtain ⟨s₁, hs₁, h₁⟩ := h.onConn (by rw [hst]; nofun) hcur hopens (by simp)
    (by rw [hst]; exact .build) (.inr rfl) (by rw [hst]; simp [Unmapped])
  obtain ⟨s₂, hs₂, h₂⟩ := userCalls_inv ((Inv.held_iff (by rw [Function.update_self]; rfl)).1 h₁) cur
    (code .connection)
  refine ⟨s₂, ?_, h₂⟩
  unfold buildConnect
  rw [hs₁, ok_bind, hs₂]

theorem destroyConnect_inv (h : Inv σ home (some i) s) (hst : σ i = .removed) {cur : Nat}
    (hcur : cur = home i) (code : UserCode) :
    ∃ s', s.destroyConnect cur i code = .ok s' ∧
      Inv (Function.update σ i .destroyed) home none s' := by
  have hpresent : σ i ≠ .absent := by simp [hst]
  have hremoves : ∀ c : TcpConnection, c.AtStage (σ i) →
      (σ i ≠ .destroyed → c.poller.Mirrors c.channel) → c.connectionCalls = [] →
      ∃ c', c.onChannel Channel.remove = .ok c' ∧ c'.AtStage .destroyed ∧ Moved (σ i) c c' ∧
        milestones .destroyed = milestones (σ i) ++ ([.destroyConnect] ++ connectionCbs c') := by
    rw [hst]
    intro c hstage hm hnone
    obtain ⟨c', hc', hdestroyed, hmoved, hcalls⟩ := remove_destroys hstage (hm (by simp))
    refine ⟨c', hc', hdestroyed, hmoved, ?_⟩
    rw [connectionCbs_eq, hcalls, hnone]
    rfl
  obtain ⟨s₁, hs₁, h₁⟩ := h.onConn hpresent hcur hremoves (by simp)
    (by rw [hst]; exact .destroy) (.inr rfl) (by rw [hst]; simp [Unmapped])
  refine ⟨s₁, ?_, (Inv.held_iff (by rw [Function.update_self]; rfl)).1 h₁⟩
  -- the connection was closed before, so `destroy_connect` only removes the channel
  obtain ⟨sc, hsc, hok⟩ := h.exists_conn hpresent
  have hstatus : sc.conn.status ≠ .connected := by
    have hstage := hok.stage
    rw [hst] at hstage
    cases hstage with
    | removed hdisc => simp [hdisc]
  unfold destroyConnect
  rw [deref_eq hsc, ok_bind]
  simp only [if_neg hstatus, pure_eq_ok, ok_bind]
  exact hs₁

/-- `build_connect` has run. -/
def Built (st : Stage) : Prop := st ≠ .absent ∧ st ≠ .accepted

/-- The computation returns a server in which the invariant holds and connection `i` is built. -/
def Returns (home : Nat → Nat) (i : Nat) (r : Checked TcpServer) : Prop :=
  ∃ σ s, r = .ok s ∧ Inv σ home none s ∧ Built (σ i)

theorem Returns.ok (h : Inv σ home none s) (hi : Built (σ i)) : Returns home i (.ok s) :=
  ⟨σ, s, rfl, h, hi⟩

theorem Returns.bind {r : Checked TcpServer} {g : TcpServer → Checked TcpServer}
    (h : Returns home i r)
    (hg : ∀ σ s, Inv σ home none s → Built (σ i) → Returns home i (g s)) :
    Returns home i (r >>= g) := by
  obtain ⟨σ, s, rfl, hinv, hi⟩ := h
  exact hg σ s hinv hi

/-- **`run_in_loop` of the due functor** of the held connection: it is queued, or runs at once. -/
theorem Inv.runInLoop (h : Inv σ home (some i) s) {cur l : Nat} {f : Functor}
    {now : TcpServer → Checked TcpServer} (hdue : due i (home i) (σ i) = some (l, f))
    (hi : Built (σ i)) (hnow : cur = l → Returns home i (now s)) :
    Returns home i (s.runInLoop cur l f now) := by
  unfold TcpServer.runInLoop
  split
  · rename_i hcur
    exact hnow hcur
  · exact .ok (h.queueDue hdue) hi

/-- **`remove_connection_in_loop`.**  The entry of the connection is there, and is removed. -/
theorem removeConnectionInLoop_inv (h : Inv σ home (some i) s) (hst : σ i = .closing)
    (code : UserCode) : Returns home i (s.removeConnectionInLoop 0 i code) := by
  obtain ⟨sc, hsc, hok⟩ := h.exists_conn (i := i) (by simp [hst])
  have hmapped := hok.mapped
  rw [hst, if_neg (by simp [Unmapped])] at hmapped
  have hremoved : Inv (Function.update σ i .removed) home (some i)
      { s.store i sc [.removeConnectionInLoop] (s.view sc) with
        connection := Function.update s.connection sc.name none } := by
    have hstage := hok.stage
    have hlife := hok.life
    rw [hst] at hstage hlife
    refine h.store hsc (.still rfl rfl) ?_ (hlife.append rfl (by simp [connectionCbs, view]))
      (by rw [hst]; exact .remove) (.inr rfl) ?_ fun n hn => Function.update_of_ne hn _ _
    · cases hstage with
      | closing hdisc hdel hnone => exact .removed hdisc hdel hnone
    · rw [Function.update_self]
      rfl
  have hsc' : deref { s with connection := Function.update s.connection sc.name none } i = .ok sc :=
    deref_eq hsc
  unfold removeConnectionInLoop note
  rw [require_of rfl, ok_bind, deref_eq hsc, ok_bind, require_of (by rw [hmapped]; rfl), ok_bind]
  simp only [hsc', ok_bind, pure_eq_ok, hok.loop]
  refine hremoved.runInLoop (by rw [Function.update_self]; rfl)
    (by simp [Built]) fun hcur => ?_
  obtain ⟨s', hs', h'⟩ := destroyConnect_inv hremoved (Function.update_self ..) hcur code
  exact ⟨_, s', hs', h', by simp [Built]⟩

theorem closeCallbacks_inv (h : Inv σ home (some i) s) (hst : σ i = .closing) (cur : Nat)
    (code : UserCode) : Returns home i (s.closeCallbacks cur i code) := by
  obtain ⟨s₁, hs₁, h₁⟩ := userCalls_inv h cur (code .connection)
  unfold closeCallbacks removeConnection
  rw [hs₁, ok_bind]
  refine h₁.runInLoop (by rw [hst]; rfl) (by rw [hst]; exact ⟨nofun, nofun⟩) fun hcur => ?_
  rw [hcur]
  exact removeConnectionInLoop_inv h₁ hst code

/-- A function that closes an open connection, followed by the callbacks. -/
theorem Inv.onConn_closes (h : Inv σ home none s) {cur : Nat}
    {op : TcpConnection → Checked TcpConnection} (hst : σ i = .opened) (hcur : cur = home i)
    (hop : ∀ c : TcpConnection, c.AtStage .opened → c.poller.Mirrors c.channel →
      ∃ c', op c = .ok c' ∧ c'.AtStage .closing ∧ Moved .opened c c' ∧ c'.status = .disconnected ∧
        c'.connectionCalls = c.connectionCalls ++ [.connection]) (code : UserCode) :
    Returns home i (s.onConn cur i [] op >>= fun s => s.closeCallbacks cur i code) := by
  have hheld : Inv σ home (some i) s := (Inv.held_iff (by rw [hst]; rfl)).2 h
  have hcloses : ∀ c : TcpConnection, c.AtStage (σ i) →
      (σ i ≠ .destroyed → c.poller.Mirrors c.channel) → c.connectionCalls = [] →
      ∃ c', op c = .ok c' ∧ c'.AtStage .closing ∧ Moved (σ i) c c' ∧
        milestones .closing = milestones (σ i) ++ ([] ++ connectionCbs c') := by
    rw [hst]
    intro c hstage hm hnone
    obtain ⟨c', hc', hclosing, hmoved, hstatus, hcalls⟩ := hop c hstage (hm nofun)
    refine ⟨c', hc', hclosing, hmoved, ?_⟩
    rw [connectionCbs_eq, hcalls, hnone, hstatus]
    rfl
  obtain ⟨s₁, hs₁, h₁⟩ := hheld.onConn (by rw [hst]; nofun) hcur hcloses List.not_mem_nil
    (by rw [hst]; exact .close) (.inr rfl) (by rw [hst]; simp [Unmapped])
  rw [hs₁, ok_bind]
  exact closeCallbacks_inv h₁ (Function.update_self ..) cur code

theorem handleClose_inv (h : Inv σ home none s) (hst : σ i = .opened) {cur : Nat}
    (hcur : cur = home i) (code : UserCode) : Returns home i (s.handleClose cur i code) :=
  h.onConn_closes hst hcur (fun _ hstage hm => handleClose_closes hstage hm) code

theorem handleRead_inv (h : Inv σ home none s) (hst : σ i = .opened) {cur : Nat}
    (hcur : cur = home i) (res : ReadResult) (code : UserCode) :
    Returns home i (s.handleRead cur i res code) := by
  have hbuilt : Built (σ i) := by rw [hst]; exact ⟨nofun, nofun⟩
  by_cases hres : res = .data []
  · subst hres
    apply h.onConn_closes hst hcur
    intro c hstage hm
    obtain ⟨c', hc', hclosed⟩ := handleRead_opened hstage hm (.data [])
    exact ⟨c', hc', by simpa using hclosed⟩
  · have hquiet : ∀ c : TcpConnection, c.AtStage (σ i) →
        (σ i ≠ .destroyed → c.poller.Mirrors c.channel) →
        ∃ c', c.handleRead res = .ok c' ∧ Quiet (σ i) c c' := by
      rw [hst]
      intro c hstage hm
      obtain ⟨c', hc', hq⟩ := handleRead_opened hstage (hm nofun) res
      rw [if_neg hres] at hq
      exact ⟨c', hc', hq⟩
    obtain ⟨s₁, hs₁, h₁⟩ := h.onConn_quiet hbuilt.1 hcur hquiet
    unfold handleRead
    rw [hs₁, ok_bind]
    match res with
    | .data [] => exact absurd rfl hres
    | .data (_ :: _) =>
      obtain ⟨s₂, hs₂, h₂⟩ := userCalls_inv h₁ cur (code .message)
      exact ⟨σ, s₂, hs₂, h₂, hbuilt⟩
    | .error _ => exact .ok h₁ hbuilt

theorem upTo_le {res : WriteResult} {len n : Nat} (h : res.upTo len = .wrote n) : n ≤ len := by
  cases res with
  | wrote m =>
    cases h
    exact Nat.min_le_right m len
  | error errno => cases h

theorem handleWrite_inv (h : Inv σ home held s) (hi : Built (σ i)) {cur : Nat}
    (hcur : cur = home i) (res : WriteResult) :
    ∃ s', s.handleWrite cur i res = .ok s' ∧ Inv σ home held s' :=
  h.onConn_quiet hi.1 hcur fun _ hstage hm =>
    handleWrite_quiet hstage hi.2 hm fun _ hn => upTo_le hn

/-! ## Events -/

theorem note_event_inv (h : Inv σ home held s) (hst : σ i = .opened) :
    ∃ s', s.note i .handleEvent = .ok s' ∧ Inv σ home held s' := by
  obtain ⟨sc, hsc, hok⟩ := h.exists_conn (i := i) (by rw [hst]; nofun)
  refine ⟨s.store i sc [.handleEvent] (s.view sc), ?_, ?_⟩
  · unfold note
    rw [deref_eq hsc]
    rfl
  · have hbuilt : .buildConnect ∈ sc.life := by
      rw [hok.life.mem .buildConnect nofun, hst]
      exact List.mem_cons_self
    rw [← Function.update_eq_self i σ]
    exact h.store hsc (.still rfl rfl) (hok.stage.frame rfl rfl rfl rfl) (hok.life.event hbuilt)
      (.stay _) (.inl rfl) hok.mapped fun _ _ => rfl

/-- **Dispatch of an event.**  It closes the connection at most once: `POLLHUP` without `POLLIN` comes
with nothing to read. -/
theorem handleEvent_inv (h : Inv σ home none s) (hst : σ i = .opened) {cur : Nat}
    (hcur : cur = home i) {revents : Revents}
    (hhup : revents.pollhup ∧ ¬ revents.pollin → ¬ revents.pollpri ∧ ¬ revents.pollrdhup)
    (read : ReadResult) (write : WriteResult) (code : UserCode) :
    Returns home i (s.handleEvent cur i revents read write code) := by
  have hwrite : ∀ σ s, Inv σ home none s → Built (σ i) → Returns home i
      (if revents.pollout then s.handleWrite cur i write else return s) := by
    intro σ s h hi
    split
    · obtain ⟨s', hs', h'⟩ := handleWrite_inv h hi hcur write
      exact ⟨σ, s', hs', h', hi⟩
    · exact .ok h hi
  obtain ⟨s₁, hs₁, h₁⟩ := note_event_inv h hst
  unfold handleEvent
  rw [hs₁, ok_bind]
  by_cases hclose : revents.pollhup ∧ ¬ revents.pollin
  · have hread : ¬ (revents.pollin ∨ revents.pollpri ∨ revents.pollrdhup) := by
      rintro (hin | hpri | hrdhup)
      · exact hclose.2 hin
      · exact (hhup hclose).1 hpri
      · exact (hhup hclose).2 hrdhup
    simp only [if_pos hclose, if_neg hread, pure_eq_ok, ok_bind]
    exact (handleClose_inv h₁ hst hcur code).bind hwrite
  · simp only [if_neg hclose, pure_eq_ok, ok_bind]
    apply Returns.bind _ hwrite
    split
    · exact handleRead_inv h₁ hst hcur read code
    · exact .ok h₁ (by rw [hst]; exact ⟨nofun, nofun⟩)

/-- A registered channel is that of an open connection. -/
theorem Inv.registered (h : Inv σ home held s) (hreg : s.Registered i) : σ i = .opened := by
  obtain ⟨sc, hsc, hch, hint⟩ := hreg
  have hsc : s.conns i = some sc := hsc
  have hok := h.conns.each i sc hsc
  rw [hok.loop] at hch hint
  by_cases hd : σ i = .destroyed
  · -- the entry would be that of another connection
    by_contra
    have hnone := (h.pollers.outside (home i) sc.conn.channel.fd ?_).1
    · rw [show (s.loops (home i)).poller.channels _ = none from hnone] at hch
      cases hch
    · intro j sj hj hhome hfd
      have hm := (h.pollers.mirrors j sj hj).channels
      rw [hhome, hfd] at hm
      have hchj := hm.symm.trans hch
      split at hchj
      · cases hchj
      · rw [(h.conns.each j sj hj.conn).address] at hchj
        cases hchj
        exact hj.stage hd
  · have hm := (h.pollers.mirrors i sc ⟨hsc, hd⟩).interest
    rw [show (s.loops (home i)).poller.interest _ = _ from hm] at hint
    split at hint
    · rename_i hadd
      exact hok.stage.opened_of_added hadd
    · exact absurd rfl hint

/-! ## Accepting -/

/-- The loop of a new connection is one of the pool, or the base loop. -/
theorem getLoop_spec {pool : EventLoopThreadPool}
    (h : pool.loops = [] ∨ pool.next < pool.loops.length) :
    ∃ loop pool', pool.getLoop = .ok (loop, pool') ∧
      (pool'.loops = [] ∨ pool'.next < pool'.loops.length) := by
  unfold EventLoopThreadPool.getLoop
  split
  · rename_i hnil
    exact ⟨0, pool, rfl, .inl hnil⟩
  · rename_i hne
    have hlt := h.resolve_left hne
    rw [nth_of_some (List.getElem?_eq_getElem hlt), ok_bind]
    refine ⟨_, _, rfl, .inr ?_⟩
    simp only
    split <;> omega

theorem newConnection_inv (h : Inv σ home none s) (hlt : s.accepted + 1 < 2 ^ 31) {fd : Int}
    (hfresh : s.FreshFd fd) (code : UserCode) :
    ∃ σ' home' s', s.newConnection fd code = .ok s' ∧ Inv σ' home' none s' := by
  obtain ⟨loop, pool, hloop, hpool⟩ := getLoop_spec h.pool
  have hadd := h.add hlt hfresh loop hpool
  unfold newConnection
  rw [hloop, ok_bind]
  simp only
  unfold TcpServer.runInLoop
  split
  · rename_i hcur
    have hhome : 0 = Function.update home s.accepted loop s.accepted := by
      rw [Function.update_self]
      exact hcur
    obtain ⟨s', hs', h'⟩ := buildConnect_inv hadd (Function.update_self ..) hhome code
    exact ⟨_, _, s', hs', h'⟩
  · refine ⟨_, _, _, rfl, hadd.queueDue ?_⟩
    rw [Function.update_self, Function.update_self]
    rfl

/-! ## Runs -/

/-- **Execution of a functor.**  A functor that changes a stage is executed when it is due. -/
theorem exec_inv (h : Inv σ home none s) {l : Nat} {f : Functor} {fs : List Functor}
    (hq : (s.loops l).pendingFunc = f :: fs) (res : WriteResult) (code : UserCode) :
    ∃ σ' s', (s.setPending l fs).execute l res code f = .ok s' ∧ Inv σ' home none s' := by
  have hok := h.queues.each l f (by rw [hq]; exact List.mem_cons_self)
  cases f with
  | buildConnect i =>
    obtain ⟨hdue, h₁⟩ := h.popDue hq rfl
    obtain ⟨hst, hl, -⟩ | ⟨-, -, hf⟩ | ⟨-, -, hf⟩ := due_cases hdue
    · obtain ⟨s', hs', h'⟩ := buildConnect_inv h₁ hst hl code
      exact ⟨_, s', hs', h'⟩
    · cases hf
    · cases hf
  | removeConnectionInLoop i =>
    obtain ⟨hdue, h₁⟩ := h.popDue hq rfl
    obtain ⟨-, -, hf⟩ | ⟨hst, rfl, -⟩ | ⟨-, -, hf⟩ := due_cases hdue
    · cases hf
    · obtain ⟨σ', s', hs', h', -⟩ := removeConnectionInLoop_inv h₁ hst code
      exact ⟨σ', s', hs', h'⟩
    · cases hf
  | destroyConnect i =>
    obtain ⟨hdue, h₁⟩ := h.popDue hq rfl
    obtain ⟨-, -, hf⟩ | ⟨-, -, hf⟩ | ⟨hst, hl, -⟩ := due_cases hdue
    · cases hf
    · cases hf
    · obtain ⟨s', hs', h'⟩ := destroyConnect_inv h₁ hst hl code
      exact ⟨_, s', hs', h'⟩
  | sendInLoop i data =>
    obtain ⟨s', hs', h'⟩ := (h.pop hq rfl).onConn_quiet hok.present (hok.loop rfl).symm
      fun c hstage hm => sendInLoop_quiet hstage (hok.built rfl) hm data (res.upTo data.length)
    exact ⟨σ, s', hs', h'⟩
  | shutdownInLoop i =>
    obtain ⟨s', hs', h'⟩ := (h.pop hq rfl).onConn_quiet hok.present (hok.loop rfl).symm
      fun c hstage _ => ⟨_, rfl, shutdownInLoop_quiet hstage⟩
    exact ⟨σ, s', hs', h'⟩
  | pending i g =>
    obtain ⟨s₁, hs₁, h₁⟩ := (h.pop hq rfl).onConn_quiet hok.present (hok.loop rfl).symm
      fun c hstage _ => runFunctor_quiet hstage g
    obtain ⟨s₂, hs₂, h₂⟩ := userCalls_inv h₁ l (pendingCalls code g)
    refine ⟨σ, s₂, ?_, h₂⟩
    exact bind_eq_ok.2 ⟨s₁, hs₁, hs₂⟩

/-- Between steps nothing is held. -/
def Consistent (s : TcpServer) : Prop := ∃ σ home, Inv σ home none s

theorem make_consistent (name ipPort : Bytes) (wc : Bool) (numThreads : Nat) :
    Consistent (make name ipPort wc numThreads) := by
  have hnone : ∀ i, (make name ipPort wc numThreads).conns i = none := fun _ => rfl
  have hdead : ∀ i sc, ¬ Live (fun _ => .absent) (make name ipPort wc numThreads).conns i sc :=
    fun i _ hlive => nomatch (hnone i).symm.trans hlive.conn
  refine ⟨fun _ => .absent, fun _ => 0, ?_, ?_, ⟨fun i => iff_of_true (hnone i) rfl, ?_, ?_⟩,
    ⟨?_, ?_, ?_⟩, ⟨?_, ?_⟩⟩
  · cases numThreads with
    | zero => exact .inl rfl
    | succ n => exact .inr (by simp [make])
  · simp only [make]
    decide
  · exact fun _ h => absurd rfl h
  · exact fun i _ hi => nomatch (hnone i).symm.trans hi
  · exact fun i _ sc _ hi => absurd hi (hdead i sc)
  · exact fun i sc hi => absurd hi (hdead i sc)
  · exact fun _ _ _ => ⟨rfl, rfl⟩
  · exact fun l f i _ => (if_neg fun hx => nomatch hx.2).symm
  · exact fun l f hf => absurd hf List.not_mem_nil

/-- **Step lemma.**  Every admissible step returns, so that no assertion fails, and keeps the
invariant. -/
theorem step_consistent (act : Act) (h : Consistent s) (hadm : s.Admissible act) :
    ∃ s', s.step act = .ok s' ∧ Consistent s' := by
  obtain ⟨σ, home, h⟩ := h
  cases act with
  | accept fd code =>
    obtain ⟨σ', home', s', hs', h'⟩ := newConnection_inv h hadm.2 hadm.1 code
    exact ⟨s', hs', σ', home', h'⟩
  | event i revents read write code =>
    have hst := h.registered hadm.1
    obtain ⟨sc, hsc, hok⟩ := h.exists_conn (i := i) (by rw [hst]; nofun)
    obtain ⟨σ', s', hs', h', -⟩ := handleEvent_inv h hst hok.loop hadm.2 read write code
    refine ⟨s', ?_, σ', home, h'⟩
    simp only [step, deref_eq hsc, ok_bind]
    exact hs'
  | exec l res code =>
    simp only [step]
    cases hq : (s.loops l).pendingFunc with
    | nil => exact ⟨s, rfl, σ, home, h⟩
    | cons f fs =>
      obtain ⟨σ', s', hs', h'⟩ := exec_inv h hq res code
      exact ⟨s', hs', σ', home, h'⟩

/-- The entries in the record of a connection, in the order in which they can appear. -/
def lifecycle : List LifeEvent :=
  [.buildConnect, .connectionCb .connected, .connectionCb .disconnected, .removeConnectionInLoop,
    .destroyConnect]

theorem milestones_prefix (st : Stage) : milestones st <+: lifecycle := by
  cases st <;> decide

theorem called_of_built {st : Stage} (h : .buildConnect ∈ milestones st) :
    .connectionCb .connected ∈ milestones st := by
  cases st with
  | absent | accepted => cases h
  | opened | closing | removed | destroyed => decide

theorem accepted_of_not_built {st : Stage} (hne : st ≠ .absent)
    (h : .buildConnect ∉ milestones st) : st = .accepted := by
  cases st with
  | absent => exact absurd rfl hne
  | accepted => rfl
  | opened | closing | removed | destroyed => exact absurd (by decide) h

theorem unmapped_iff {st : Stage} : Unmapped st ↔ .removeConnectionInLoop ∈ milestones st := by
  cases st <;> decide

/-- What the invariant says about a connection between steps. -/
theorem Inv.connection (h : Inv σ home none s) {sc : ServerConn} (hi : s.conns i = some sc) :
    sc.life.filter (· ≠ .handleEvent) <+: lifecycle ∧
      (∀ p, p ++ [.handleEvent] <+: sc.life → .buildConnect ∈ p) ∧
      (if .buildConnect ∈ sc.life then .connectionCb .connected ∈ sc.life
        else .buildConnect i ∈ (s.loops sc.loop).pendingFunc) ∧
      s.connection sc.name = if .removeConnectionInLoop ∈ sc.life then none else some i := by
  have hok := h.conns.each i sc hi
  refine ⟨by rw [hok.life.reached]; exact milestones_prefix _, hok.life.events, ?_, ?_⟩
  · split
    · rename_i hbuilt
      rw [hok.life.mem .buildConnect nofun] at hbuilt
      rw [hok.life.mem (.connectionCb .connected) nofun]
      exact called_of_built hbuilt
    · rename_i hbuilt
      rw [hok.life.mem .buildConnect nofun] at hbuilt
      have hst := accepted_of_not_built hok.stage.ne_absent hbuilt
      have hdue : due i (home i) (σ i) = some (home i, .buildConnect i) := by rw [hst]; rfl
      rw [hok.loop]
      exact h.queues.once.mem rfl nofun hdue
  · rw [hok.mapped]
    refine if_congr ?_ rfl rfl
    rw [hok.life.mem .removeConnectionInLoop nofun]
    exact unmapped_iff

/-- **Lifecycle of the connections.**  In every run, with any number of IO loops, no assertion fails;
all accepted connections have distinct names, and their entries are in `connection_` until
`remove_connection_in_loop` runs.  For each connection `build_connect`, the call of `connection_cb_`
with `CONNECTED`, at most one further call, `remove_connection_in_loop` and `destroy_connect` happen
in this order and at most once each, and no event is dispatched before `build_connect`, which waits
in the queue of the connection's loop as long as it has not run. -/
theorem connection_lifecycle (name ipPort : Bytes) (wc : Bool) (numThreads : Nat) (acts : List Act)
    (hacts : Allowed step Admissible (make name ipPort wc numThreads) acts) :
    ∃ s, run step (make name ipPort wc numThreads) acts = .ok s ∧
      (∀ i j sc sc', s.conns i = some sc → s.conns j = some sc' → sc.name = sc'.name → i = j) ∧
      ∀ i sc, s.conns i = some sc →
        sc.life.filter (· ≠ .handleEvent) <+: [.buildConnect, .connectionCb .connected,
          .connectionCb .disconnected, .removeConnectionInLoop, .destroyConnect] ∧
        (∀ p, p ++ [.handleEvent] <+: sc.life → .buildConnect ∈ p) ∧
        (if .buildConnect ∈ sc.life then .connectionCb .connected ∈ sc.life
          else .buildConnect i ∈ (s.loops sc.loop).pendingFunc) ∧
        s.connection sc.name = if .removeConnectionInLoop ∈ sc.life then none else some i := by
  obtain ⟨s, hrun, σ, home, h⟩ := run_invariant (fun s act h hadm => step_consistent act h hadm) acts _
    (make_consistent name ipPort wc numThreads) hacts
  refine ⟨s, hrun, ?_, fun i sc hi => h.connection hi⟩
  intro i j sc sc' hi hj hname
  rw [(h.conns.each i sc hi).name, (h.conns.each j sc' hj).name] at hname
  exact connName_inj hname

instance (s : TcpServer) (act : Act) : Decidable (s.Admissible act) := by
  unfold Admissible FreshFd Registered
  cases act <;> infer_instance

/-- A server with one IO loop. -/
def sampleServer : TcpServer := make (str "server") (str "0.0.0.0:80") true 1

def noEvents : Revents := ⟨false, false, false, false, false, false, false⟩

/-- Two connections.  The first gets a message under back-pressure and is closed by `POLLHUP`; its
removal travels to the base loop and back, behind `build_connect` of the second, and its descriptor
is used again. -/
def sampleActs : List Act :=
  [.accept 7 fun _ => [],
    .accept 8 fun _ => [],
    .exec 1 (.wrote 0) fun _ => [.send 0 [1, 2, 3] (.wrote 1), .shutdown 1],
    .event 0 { noEvents with pollin := true } (.data [4, 5]) (.wrote 0) fun _ => [.send 0 [6] (.wrote 1)],
    .event 0 { noEvents with pollhup := true, pollout := true } (.data []) (.wrote 9) fun _ =>
      [.send 0 [7] (.wrote 1), .shutdown 0],
    .exec 0 (.wrote 0) fun _ => [],
    .exec 1 (.wrote 0) fun _ => [.shutdown 1],
    .exec 1 (.wrote 0) fun _ => [],
    .accept 7 fun _ => []]

theorem connection_lifecycle_sample :
    Allowed step Admissible sampleServer sampleActs ∧
      ∃ s, run step sampleServer sampleActs = .ok s ∧
        (∀ i j sc sc', s.conns i = some sc → s.conns j = some sc' → sc.name = sc'.name → i = j) ∧
        ∀ i sc, s.conns i = some sc →
          sc.life.filter (· ≠ .handleEvent) <+: [.buildConnect, .connectionCb .connected,
            .connectionCb .disconnected, .removeConnectionInLoop, .destroyConnect] ∧
          (∀ p, p ++ [.handleEvent] <+: sc.life → .buildConnect ∈ p) ∧
          (if .buildConnect ∈ sc.life then .connectionCb .connected ∈ sc.life
            else .buildConnect i ∈ (s.loops sc.loop).pendingFunc) ∧
          s.connection sc.name = if .removeConnectionInLoop ∈ sc.life then none else some i := by
  have hacts : Allowed step Admissible sampleServer sampleActs := by decide +kernel
  exact ⟨hacts, connection_lifecycle (str "server") (str "0.0.0.0:80") true 1 sampleActs hacts⟩

/-- The record of the first connection in the sample. -/
example : (run step sampleServer sampleActs).map (fun s => (s.conns 0).map ServerConn.life) =
    .ok (some [.buildConnect, .connectionCb .connected, .handleEvent, .handleEvent,
      .connectionCb .disconnected, .removeConnectionInLoop, .destroyConnect]) := by decide +kernel

end TcpServer
