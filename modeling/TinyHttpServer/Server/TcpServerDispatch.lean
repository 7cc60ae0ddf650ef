import TinyHttpServer.Server.TcpServerLifecycle
import Mathlib.Data.Int.CardIntervalMod

/-!
# Which connections a step of the server touches

A step opens or closes one connection at most, and the code of the user leaves all connections open
that are open.  Two things follow.

* `round_robin` — connections go to the IO loops in turn, so the loops have numbers of connections that
  differ by at most one.
* `polled_stay_registered` — the channels that a poll has reported are still registered when the loop
  gets to them, whatever was dispatched before them and whatever the other loops do meanwhile.
-/

set_option autoImplicit false

open Checked Machine Epoller TcpConnection

namespace TcpServer

/-- No connection comes, goes or changes its loop, and the record of connection `i` alone grows. -/
structure Kept (i : Nat) (s t : TcpServer) : Prop where
  threadPool : t.threadPool = s.threadPool
  accepted : t.accepted = s.accepted
  loop : ∀ j, (t.conns j).map ServerConn.loop = (s.conns j).map ServerConn.loop
  life : ∀ j, j ≠ i → (t.conns j).map ServerConn.life = (s.conns j).map ServerConn.life

variable {s t u : TcpServer} {i j : Nat} {cur l : Nat} {code : UserCode}

theorem Kept.refl (s : TcpServer) : Kept i s s := ⟨rfl, rfl, fun _ => rfl, fun _ _ => rfl⟩

theorem Kept.trans (h : Kept i s t) (h' : Kept i t u) : Kept i s u :=
  ⟨h'.threadPool.trans h.threadPool, h'.accepted.trans h.accepted,
    fun j => (h'.loop j).trans (h.loop j), fun j hj => (h'.life j hj).trans (h.life j hj)⟩

theorem setPending_kept (s : TcpServer) (l : Nat) (fs : List Functor) : Kept i s (s.setPending l fs) :=
  ⟨rfl, rfl, fun _ => rfl, fun _ _ => rfl⟩

theorem store_kept {sc : ServerConn} (hsc : s.conns j = some sc) {entry : List LifeEvent}
    {c : TcpConnection} (h : j = i ∨ entry ++ connectionCbs c = []) :
    Kept i s (s.store j sc entry c) := by
  refine ⟨rfl, rfl, fun k => ?_, fun k hk => ?_⟩
  · by_cases hkj : k = j
    · subst hkj
      simp [store, hsc]
    · simp [store, Function.update_of_ne hkj]
  · by_cases hkj : k = j
    · subst hkj
      have hnil := h.resolve_left hk
      simp [store, hsc, hnil]
    · simp [store, Function.update_of_ne hkj]

/-- What the function of a connection does to the server is what it does to the connection. -/
theorem onConn_eq_ok {entry : List LifeEvent} {op : TcpConnection → Checked TcpConnection}
    (h : s.onConn cur j entry op = .ok t) :
    ∃ sc c, s.conns j = some sc ∧ op (s.view sc) = .ok c ∧ t = s.store j sc entry c := by
  unfold onConn deref at h
  cases hsc : s.conns j with
  | none =>
    rw [hsc] at h
    cases h
  | some sc =>
    simp only [hsc, pure_eq_ok, ok_bind] at h
    obtain ⟨-, -, h⟩ := bind_eq_ok.1 h
    obtain ⟨c, hc, h⟩ := bind_eq_ok.1 h
    cases h
    exact ⟨sc, c, rfl, hc, rfl⟩

theorem onConn_kept {entry : List LifeEvent} {op : TcpConnection → Checked TcpConnection}
    (h : s.onConn cur i entry op = .ok t) : Kept i s t := by
  obtain ⟨sc, c, hsc, -, rfl⟩ := onConn_eq_ok h
  exact store_kept hsc (.inl rfl)

/-- A function that calls no `connection_cb_` leaves all records alone. -/
theorem onConn_kept_quiet {op : TcpConnection → Checked TcpConnection}
    (hop : ∀ c c', op c = .ok c' → c'.invoked = c.invoked) (h : s.onConn cur j [] op = .ok t) :
    Kept i s t := by
  obtain ⟨sc, c, hsc, hc, rfl⟩ := onConn_eq_ok h
  refine store_kept hsc (.inr ?_)
  rw [List.nil_append, connectionCbs, hop _ c hc]
  rfl

/-! ## User code -/

theorem shutdownInLoop_invoked (c : TcpConnection) : c.shutdownInLoop.invoked = c.invoked := by
  unfold shutdownInLoop
  simp only
  split
  · split <;> rfl
  · rfl

theorem send_invoked {c c' : TcpConnection} {message : Bytes} {res : WriteResult}
    (h : c.send message res = .ok c') : c'.invoked = c.invoked := by
  unfold send at h
  split at h
  · exact (sendInLoop_touched h).invoked
  · cases h
    rfl

theorem userCall_kept {call : UserCall} (h : s.userCall cur call = .ok t) : Kept i s t := by
  cases call with
  | send j message res =>
    simp only [userCall] at h
    split at h
    · cases h
      exact .refl s
    · split at h
      · exact onConn_kept_quiet (fun _ _ hc => send_invoked hc) h
      · split at h
        · cases h
          exact setPending_kept s _ _
        · cases h
          exact .refl s
  | shutdown j =>
    simp only [userCall, runInLoop] at h
    split at h
    · cases h
      exact .refl s
    · split at h
      · refine onConn_kept_quiet (fun c c' hc => ?_) h
        cases hc
        exact shutdownInLoop_invoked c
      · cases h
        exact setPending_kept s _ _

theorem userCalls_kept {calls : List UserCall} (h : s.userCalls cur calls = .ok t) : Kept i s t := by
  have hstep : ∀ (a : TcpServer) (call : UserCall) (b : TcpServer), Kept i s a → True →
      a.userCall cur call = .ok b → Kept i s b :=
    fun a call b hab _ hb => hab.trans (userCall_kept hb)
  exact run_safe hstep calls s t (.refl s) (Allowed.of_forall (fun _ _ => trivial) calls s) h

/-! ## Opening and closing -/

theorem buildConnect_kept (h : s.buildConnect cur i code = .ok t) : Kept i s t := by
  obtain ⟨s₁, hs₁, h⟩ := bind_eq_ok.1 h
  exact (onConn_kept hs₁).trans (userCalls_kept h)

theorem destroyConnect_kept (h : s.destroyConnect cur i code = .ok t) : Kept i s t := by
  obtain ⟨sc, -, h⟩ := bind_eq_ok.1 h
  obtain ⟨s₁, hs₁, h⟩ := bind_eq_ok.1 h
  refine Kept.trans ?_ (onConn_kept h)
  split at hs₁
  · obtain ⟨s₂, hs₂, hs₁⟩ := bind_eq_ok.1 hs₁
    exact (onConn_kept hs₂).trans (userCalls_kept hs₁)
  · cases hs₁
    exact .refl s

theorem note_kept {e : LifeEvent} (h : s.note i e = .ok t) : Kept i s t := by
  unfold note deref at h
  cases hsc : s.conns i with
  | none =>
    rw [hsc] at h
    cases h
  | some sc =>
    rw [hsc] at h
    cases h
    exact store_kept hsc (.inl rfl)

theorem runInLoop_kept {f : Functor} {now : TcpServer → Checked TcpServer}
    (hnow : ∀ t, now s = .ok t → Kept i s t) (h : s.runInLoop cur l f now = .ok t) : Kept i s t := by
  unfold runInLoop at h
  split at h
  · exact hnow t h
  · cases h
    exact setPending_kept s _ _

theorem removeConnectionInLoop_kept (h : s.removeConnectionInLoop cur i code = .ok t) :
    Kept i s t := by
  obtain ⟨-, -, h⟩ := bind_eq_ok.1 h
  obtain ⟨sc, -, h⟩ := bind_eq_ok.1 h
  obtain ⟨-, -, h⟩ := bind_eq_ok.1 h
  obtain ⟨s₁, hs₁, h⟩ := bind_eq_ok.1 h
  have hmap : Kept i s { s with connection := Function.update s.connection sc.name none } :=
    ⟨rfl, rfl, fun _ => rfl, fun _ _ => rfl⟩
  exact (hmap.trans (note_kept hs₁)).trans (runInLoop_kept (fun _ ht => destroyConnect_kept ht) h)

theorem closeCallbacks_kept (h : s.closeCallbacks cur i code = .ok t) : Kept i s t := by
  obtain ⟨s₁, hs₁, h⟩ := bind_eq_ok.1 h
  exact (userCalls_kept hs₁).trans (runInLoop_kept (fun _ ht => removeConnectionInLoop_kept ht) h)

/-! ## Events and functors -/

theorem handleRead_kept {res : ReadResult} (h : s.handleRead cur i res code = .ok t) :
    Kept i s t := by
  obtain ⟨s₁, hs₁, h⟩ := bind_eq_ok.1 h
  refine (onConn_kept hs₁).trans ?_
  match res with
  | .data [] => exact closeCallbacks_kept h
  | .data (_ :: _) => exact userCalls_kept h
  | .error _ =>
    cases h
    exact .refl _

theorem handleEvent_kept {revents : Revents} {read : ReadResult} {write : WriteResult}
    (h : s.handleEvent cur i revents read write code = .ok t) : Kept i s t := by
  obtain ⟨s₁, hs₁, h⟩ := bind_eq_ok.1 h
  obtain ⟨s₂, hs₂, h⟩ := bind_eq_ok.1 h
  obtain ⟨s₃, hs₃, h⟩ := bind_eq_ok.1 h
  have h₂ : Kept i s₁ s₂ := by
    split at hs₂
    · obtain ⟨s₄, hs₄, hs₂⟩ := bind_eq_ok.1 hs₂
      exact (onConn_kept hs₄).trans (closeCallbacks_kept hs₂)
    · cases hs₂
      exact .refl _
  have h₃ : Kept i s₂ s₃ := by
    split at hs₃
    · exact handleRead_kept hs₃
    · cases hs₃
      exact .refl s₂
  refine (((note_kept hs₁).trans h₂).trans h₃).trans ?_
  split at h
  · exact onConn_kept h
  · cases h
    exact .refl _

theorem execute_kept {res : WriteResult} {f : Functor} (h : s.execute cur res code f = .ok t) :
    Kept f.conn s t := by
  cases f with
  | buildConnect i => exact buildConnect_kept h
  | removeConnectionInLoop i => exact removeConnectionInLoop_kept h
  | destroyConnect i => exact destroyConnect_kept h
  | sendInLoop i data =>
    simp only [execute] at h
    exact onConn_kept h
  | shutdownInLoop i =>
    simp only [execute] at h
    exact onConn_kept h
  | pending i f =>
    obtain ⟨s₁, hs₁, h⟩ := bind_eq_ok.1 h
    exact (onConn_kept hs₁).trans (userCalls_kept h)

/-! ## Round robin -/

/-- The loop of the `i`-th connection of a server with `n` IO loops. -/
def turn (n i : Nat) : Nat := if n = 0 then 0 else i % n + 1

/-- The connections have gone to the loops in turn, and `next_` is where the next one goes. -/
structure Turns (n : Nat) (s : TcpServer) : Prop where
  loops : s.threadPool.loops = (List.range n).map (· + 1)
  next : 0 < n → s.threadPool.next = s.accepted % n
  loop : ∀ i, (s.conns i).map ServerConn.loop = if i < s.accepted then some (turn n i) else none

variable {n : Nat}

theorem Turns.kept (h : Turns n s) (hk : Kept i s t) : Turns n t := by
  refine ⟨?_, ?_, fun j => ?_⟩
  · rw [hk.threadPool]
    exact h.loops
  · rw [hk.threadPool, hk.accepted]
    exact h.next
  · rw [hk.loop, hk.accepted]
    exact h.loop j

theorem succ_mod_eq (k : Nat) (hn : 0 < n) :
    (k + 1) % n = if n ≤ k % n + 1 then 0 else k % n + 1 := by
  have hlt := Nat.mod_lt k hn
  have hmod : (k + 1) % n = (k % n + 1) % n := by simp
  rw [hmod]
  split
  · have heq : k % n + 1 = n := by omega
    rw [heq, Nat.mod_self]
  · exact Nat.mod_eq_of_lt (by omega)

theorem getLoop_turn {pool pool' : EventLoopThreadPool} {loop k : Nat}
    (hloops : pool.loops = (List.range n).map (· + 1)) (hnext : 0 < n → pool.next = k % n)
    (h : pool.getLoop = .ok (loop, pool')) :
    loop = turn n k ∧ pool'.loops = pool.loops ∧ (0 < n → pool'.next = (k + 1) % n) := by
  unfold EventLoopThreadPool.getLoop at h
  split at h
  · rename_i hnil
    cases h
    have hn : n = 0 := by simpa [hnil] using hloops.symm
    exact ⟨(if_pos hn).symm, rfl, fun hpos => absurd hn (by omega)⟩
  · rename_i hne
    have hn : 0 < n := by
      rw [hloops] at hne
      simpa [Nat.pos_iff_ne_zero] using hne
    have hget : pool.loops[pool.next]? = some (k % n + 1) := by
      rw [hloops, hnext hn]
      simp [Nat.mod_lt k hn]
    have hlen : pool.loops.length = n := by simp [hloops]
    rw [nth_of_some hget, ok_bind] at h
    cases h
    refine ⟨(if_neg (by omega)).symm, rfl, fun _ => ?_⟩
    rw [succ_mod_eq k hn, hlen, hnext hn]

theorem newConnection_turns {fd : Int} (h : Turns n s) (hs : s.newConnection fd code = .ok t) :
    Turns n t := by
  unfold newConnection at hs
  obtain ⟨⟨loop, pool⟩, hloop, hs⟩ := bind_eq_ok.1 hs
  obtain ⟨rfl, hpool, hnext⟩ := getLoop_turn h.loops h.next hloop
  refine Turns.kept (i := s.accepted) ?_ (runInLoop_kept (fun _ ht => buildConnect_kept ht) hs)
  refine ⟨hpool.trans h.loops, hnext, fun j => ?_⟩
  simp only [Function.update_apply]
  by_cases hj : j = s.accepted
  · simp [hj]
  · rw [if_neg hj, h.loop j]
    have hiff : j < s.accepted + 1 ↔ j < s.accepted := by omega
    exact if_congr hiff.symm rfl rfl

theorem step_turns {act : Act} (h : Turns n s) (hs : s.step act = .ok t) : Turns n t := by
  cases act with
  | accept fd code => exact newConnection_turns h hs
  | event i revents read write code =>
    obtain ⟨sc, -, hs⟩ := bind_eq_ok.1 hs
    exact h.kept (handleEvent_kept hs)
  | exec l res code =>
    simp only [step] at hs
    split at hs
    · cases hs
      exact h
    · exact h.kept ((setPending_kept s l _).trans (execute_kept hs))

/-- **Round robin.**  In every run the `i`-th connection is in loop `i % n + 1` of the `n` IO loops, or
in the base loop where there are none, from its acceptance on; and each loop has had its share of
the connections, up to one. -/
theorem round_robin (name ipPort : Bytes) (wc : Bool) (numThreads : Nat) (acts : List Act)
    (hacts : Allowed step Admissible (make name ipPort wc numThreads) acts) :
    ∃ s, run step (make name ipPort wc numThreads) acts = .ok s ∧
      (∀ i, (s.conns i).map ServerConn.loop =
        if i < s.accepted then some (if numThreads = 0 then 0 else i % numThreads + 1) else none) ∧
      ∀ l < numThreads, Nat.count (fun i => (s.conns i).map ServerConn.loop = some (l + 1)) s.accepted =
        s.accepted / numThreads + if l < s.accepted % numThreads then 1 else 0 := by
  have hmake : Turns numThreads (make name ipPort wc numThreads) :=
    ⟨rfl, fun _ => (Nat.zero_mod _).symm, fun _ => rfl⟩
  have hstep : ∀ s act, Consistent s ∧ Turns numThreads s → s.Admissible act →
      ∃ t, s.step act = .ok t ∧ Consistent t ∧ Turns numThreads t := by
    intro s act h hadm
    obtain ⟨t, ht, hc⟩ := step_consistent act h.1 hadm
    exact ⟨t, ht, hc, step_turns h.2 ht⟩
  obtain ⟨s, hrun, -, hturns⟩ := run_invariant hstep acts _
    ⟨make_consistent name ipPort wc numThreads, hmake⟩ hacts
  refine ⟨s, hrun, hturns.loop, fun l hl => ?_⟩
  have hpos : 0 < numThreads := by omega
  have hshare := Nat.count_modEq_card s.accepted hpos l
  rw [Nat.mod_eq_of_lt hl] at hshare
  rw [← hshare, Nat.count_eq_card_filter_range, Nat.count_eq_card_filter_range]
  congr 1
  apply Finset.filter_congr
  intro i hi
  rw [hturns.loop i, if_pos (Finset.mem_range.1 hi), turn, if_neg (by omega), Nat.ModEq,
    Nat.mod_eq_of_lt hl]
  simp

/-- Seven connections in turn to the three loops. -/
theorem round_robin_sample :
    Allowed step Admissible (make (str "server") (str "0.0.0.0:80") true 3)
        ((List.range 7).map fun i => .accept i fun _ => []) ∧
      ∃ s, run step (make (str "server") (str "0.0.0.0:80") true 3)
          ((List.range 7).map fun i => .accept i fun _ => []) = .ok s ∧
        (∀ i, (s.conns i).map ServerConn.loop =
          if i < s.accepted then some (if 3 = 0 then 0 else i % 3 + 1) else none) ∧
        ∀ l < 3, Nat.count (fun i => (s.conns i).map ServerConn.loop = some (l + 1)) s.accepted =
          s.accepted / 3 + if l < s.accepted % 3 then 1 else 0 := by
  have hacts : Allowed step Admissible (make (str "server") (str "0.0.0.0:80") true 3)
      ((List.range 7).map fun i => .accept i fun _ => []) := by decide +kernel
  exact ⟨hacts, round_robin (str "server") (str "0.0.0.0:80") true 3 _ hacts⟩

/-! ## Polling -/

/-- Exactly the open connections are registered. -/
theorem Inv.registered_iff {σ : Nat → Stage} {home : Nat → Nat} {held : Option Nat}
    (h : Inv σ home held s) : s.Registered i ↔ σ i = .opened := by
  refine ⟨h.registered, fun hst => ?_⟩
  obtain ⟨sc, hsc, hok⟩ := h.exists_conn (i := i) (by rw [hst]; nofun)
  have hadd : sc.conn.channel.status = .add := by
    have hstage := hok.stage
    rw [hst] at hstage
    cases hstage with
    | opened _ ho => exact ho.reading.added
  have hm := h.pollers.mirrors i sc ⟨hsc, by rw [hst]; nofun⟩
  rw [← hok.loop] at hm
  refine ⟨sc, hsc, ?_, ?_⟩
  · rw [hm.channels, if_neg (by rw [hadd]; nofun), hok.address]
  · rw [hm.interest, if_pos hadd]
    nofun

theorem eq_opened_of_milestones {st : Stage} (h : milestones st = milestones .opened) :
    st = .opened := by
  cases st with
  | opened => rfl
  | absent | accepted | closing | removed | destroyed => cases h

/-- A connection stays registered as long as nothing is added to its record. -/
theorem registered_of_life (hs : Consistent s) (ht : Consistent t)
    (hlife : (t.conns j).map ServerConn.life = (s.conns j).map ServerConn.life)
    (hreg : s.Registered j) : t.Registered j := by
  obtain ⟨σ, home, hs⟩ := hs
  obtain ⟨σ', home', ht⟩ := ht
  have hst := hs.registered hreg
  obtain ⟨sc, hsc, hok⟩ := hs.exists_conn (i := j) (by rw [hst]; nofun)
  rw [hsc] at hlife
  obtain ⟨sc', hsc', hlife⟩ := Option.map_eq_some_iff.1 hlife
  have hreached := (ht.conns.each j sc' hsc').life.reached
  rw [hlife, hok.life.reached, hst] at hreached
  exact ht.registered_iff.2 (eq_opened_of_milestones hreached.symm)

/-- A functor in the queue of another loop does not touch an open connection. -/
theorem conn_ne_of_queued (hs : Consistent s) (hreg : s.Registered j) {sc : ServerConn}
    (hsc : s.conns j = some sc) (hl : sc.loop ≠ l) {f : Functor} {fs : List Functor}
    (hq : (s.loops l).pendingFunc = f :: fs) : j ≠ f.conn := by
  obtain ⟨σ, home, hs⟩ := hs
  have hst := hs.registered hreg
  rintro rfl
  cases hkey : f.key with
  | none =>
    have hhome := (hs.queues.each l f (by rw [hq]; exact List.mem_cons_self)).loop hkey
    exact hl ((hs.conns.each _ sc hsc).loop.trans hhome)
  | some k =>
    -- nothing is due for an open connection
    obtain ⟨hdue, -⟩ := hs.popDue hq hkey
    have hk : k = f.conn := by
      cases f with
      | buildConnect i | removeConnectionInLoop i | destroyConnect i => cases hkey; rfl
      | sendInLoop i data | shutdownInLoop i | pending i g => cases hkey
    rw [hk, hst] at hdue
    cases hdue

/-- A new connection leaves the others as they are. -/
theorem newConnection_others {fd : Int} (hs : s.newConnection fd code = .ok t) (hj : j ≠ s.accepted) :
    (t.conns j).map ServerConn.loop = (s.conns j).map ServerConn.loop ∧
      (t.conns j).map ServerConn.life = (s.conns j).map ServerConn.life := by
  obtain ⟨⟨loop, pool⟩, -, hs⟩ := bind_eq_ok.1 hs
  have hk : Kept s.accepted _ t := runInLoop_kept (fun _ ht => buildConnect_kept ht) hs
  rw [hk.loop j, hk.life j hj]
  simp only [Function.update_of_ne hj, and_self]

/-- A server whose loops poll.  `active l` is the part of `active_channels_` of loop `l` that has not
been dispatched, with the events that `fill_active_channels` has stored in the channels. -/
structure Polled where
  server : TcpServer
  active : Nat → List (Nat × Revents)

namespace Polled

def make (name ipPort : Bytes) (wc : Bool) (numThreads : Nat) : Polled :=
  { server := TcpServer.make name ipPort wc numThreads, active := fun _ => [] }

/-- What happens in `EventLoop::loop`: the poll of loop `l` reports events, the loop dispatches the
next of them or executes its next functor, and the base loop accepts a connection. -/
inductive Act where
  | poll (l : Nat) (events : List (Nat × Revents))
  | dispatch (l : Nat) (read : ReadResult) (write : WriteResult) (code : UserCode)
  | accept (fd : Int) (code : UserCode)
  | exec (l : Nat) (res : WriteResult) (code : UserCode)

def step (p : Polled) : Act → Checked Polled
  | .poll l events => return { p with active := Function.update p.active l events }
  | .dispatch l read write code =>
    match p.active l with
    | [] => return p
    | (i, revents) :: rest => do
      let server ← p.server.handleEvent l i revents read write code
      return { server, active := Function.update p.active l rest }
  | .accept fd code => do
    let server ← p.server.newConnection fd code
    return { p with server }
  | .exec l res code => do
    let server ← p.server.step (.exec l res code)
    return { p with server }

/-- A reported event is one of a registered channel of the loop. -/
structure Reported (s : TcpServer) (l : Nat) (e : Nat × Revents) : Prop where
  registered : s.Registered e.1
  loop : (s.conns e.1).map ServerConn.loop = some l
  hup : e.2.pollhup ∧ ¬ e.2.pollin → ¬ e.2.pollpri ∧ ¬ e.2.pollrdhup

/-- A loop polls, and executes functors, when it has dispatched what the last poll reported.  The
kernel reports each registered channel once at most. -/
def Admissible (p : Polled) : Act → Prop
  | .poll l events => p.active l = [] ∧ (events.map Prod.fst).Nodup ∧
    ∀ e ∈ events, Reported p.server l e
  | .dispatch _ _ _ _ => True
  | .accept fd _ => p.server.FreshFd fd ∧ p.server.accepted + 1 < 2 ^ 31
  | .exec l _ _ => p.active l = []

/-- What a step is for the server alone. -/
def serverActs (p : Polled) : Act → List TcpServer.Act
  | .poll _ _ => []
  | .dispatch l read write code =>
    match p.active l with
    | [] => []
    | (i, revents) :: _ => [.event i revents read write code]
  | .accept fd code => [.accept fd code]
  | .exec l res code => [.exec l res code]

/-- What waits for its dispatch is still registered. -/
structure Inv (p : Polled) : Prop where
  consistent : Consistent p.server
  nodup : ∀ l, ((p.active l).map Prod.fst).Nodup
  reported : ∀ l, ∀ e ∈ p.active l, Reported p.server l e

variable {p q : Polled} {e : Nat × Revents} {code : UserCode}

theorem Reported.spared {s t : TcpServer} {l : Nat} (h : Reported s l e) (hs : Consistent s)
    (ht : Consistent t)
    (hloop : (t.conns e.1).map ServerConn.loop = (s.conns e.1).map ServerConn.loop)
    (hlife : (t.conns e.1).map ServerConn.life = (s.conns e.1).map ServerConn.life) :
    Reported t l e :=
  ⟨registered_of_life hs ht hlife h.registered, hloop.trans h.loop, h.hup⟩

theorem Reported.kept {s t : TcpServer} {l i : Nat} (h : Reported s l e) (hs : Consistent s)
    (ht : Consistent t) (hk : Kept i s t) (hne : e.1 ≠ i) : Reported t l e :=
  h.spared hs ht (hk.loop _) (hk.life _ hne)

/-- The next event of loop `l` is dispatched.  What waits in any loop is about other connections. -/
theorem dispatch_inv (h : p.Inv) {l i : Nat} {revents : Revents} {rest : List (Nat × Revents)}
    (hact : p.active l = (i, revents) :: rest) (read : ReadResult) (write : WriteResult)
    (code : UserCode) :
    ∃ server, p.server.handleEvent l i revents read write code = .ok server ∧
      p.server.Admissible (.event i revents read write code) ∧
      p.server.step (.event i revents read write code) = .ok server ∧
      Inv { server, active := Function.update p.active l rest } := by
  have hrep := h.reported l (i, revents) (by rw [hact]; exact List.mem_cons_self)
  have hadm : p.server.Admissible (.event i revents read write code) := ⟨hrep.registered, hrep.hup⟩
  obtain ⟨server, hserver, hcons⟩ := step_consistent _ h.consistent hadm
  obtain ⟨sc, hsc, hloop⟩ := Option.map_eq_some_iff.1 hrep.loop
  have hevent : p.server.handleEvent l i revents read write code = .ok server := by
    simp only [TcpServer.step, deref_eq hsc, ok_bind, hloop] at hserver
    exact hserver
  have hkept : Kept i p.server server := handleEvent_kept hevent
  have hnodup := h.nodup l
  rw [hact, List.map_cons, List.nodup_cons] at hnodup
  refine ⟨server, hevent, hadm, hserver, hcons, fun l' => ?_, fun l' e he => ?_⟩
  · simp only [Function.update_apply]
    split
    · exact hnodup.2
    · exact h.nodup l'
  · have hne : e ∈ p.active l' ∧ e.1 ≠ i := by
      simp only [Function.update_apply] at he
      split at he
      · rename_i hl
        rw [hl, hact]
        refine ⟨List.mem_cons_of_mem _ he, fun heq => hnodup.1 ?_⟩
        exact List.mem_map.2 ⟨e, he, heq⟩
      · rename_i hl
        refine ⟨he, ?_⟩
        rintro rfl
        have hl' := (h.reported l' e he).loop
        rw [hrep.loop] at hl'
        exact hl (Option.some.inj hl').symm
    exact (h.reported l' e hne.1).kept h.consistent hcons hkept hne.2

/-- **Step lemma.**  A step of the loops is a run of the server, and what waits stays registered. -/
theorem step_inv {act : Act} (h : p.Inv) (hadm : p.Admissible act) :
    ∃ q, p.step act = .ok q ∧ q.Inv ∧
      Allowed TcpServer.step TcpServer.Admissible p.server (p.serverActs act) ∧
      run TcpServer.step p.server (p.serverActs act) = .ok q.server := by
  cases act with
  | poll l events =>
    refine ⟨_, rfl, ⟨h.consistent, fun l' => ?_, fun l' e he => ?_⟩, trivial, rfl⟩
    · simp only [Function.update_apply]
      split
      · exact hadm.2.1
      · exact h.nodup l'
    · simp only [Function.update_apply] at he
      split at he
      · rename_i hl
        rw [hl]
        exact hadm.2.2 e he
      · exact h.reported l' e he
  | dispatch l read write code =>
    simp only [step, serverActs]
    cases hact : p.active l with
    | nil => exact ⟨p, rfl, h, trivial, rfl⟩
    | cons e rest =>
      obtain ⟨server, hevent, hallowed, hserver, hinv⟩ := dispatch_inv h hact read write code
      simp only [hevent, ok_bind]
      refine ⟨_, rfl, hinv, ⟨hallowed, by rw [hserver]; trivial⟩, ?_⟩
      rw [run_cons, hserver]
      rfl
  | accept fd code =>
    obtain ⟨server, hserver, hcons⟩ := step_consistent (.accept fd code) h.consistent hadm
    have hnew : p.server.newConnection fd code = .ok server := hserver
    simp only [step, hnew, ok_bind]
    refine ⟨_, rfl, ⟨hcons, h.nodup, fun l e he => ?_⟩, ⟨hadm, by rw [hserver]; trivial⟩, ?_⟩
    · have hrep := h.reported l e he
      have hne : e.1 ≠ p.server.accepted := by
        obtain ⟨σ, home, hs⟩ := h.consistent
        have hst := hs.registered hrep.registered
        have hlt := hs.conns.bound e.1 (by rw [hst]; nofun)
        omega
      obtain ⟨hloop, hlife⟩ := newConnection_others hnew hne
      exact hrep.spared h.consistent hcons hloop hlife
    · rw [serverActs, run_cons, hserver]
      rfl
  | exec l res code =>
    have htrue : p.server.Admissible (.exec l res code) := trivial
    obtain ⟨server, hserver, hcons⟩ := step_consistent (.exec l res code) h.consistent htrue
    simp only [step, hserver, ok_bind]
    refine ⟨_, rfl, ⟨hcons, h.nodup, fun l' e he => ?_⟩, ⟨trivial, by rw [hserver]; trivial⟩, ?_⟩
    · have hrep := h.reported l' e he
      simp only [TcpServer.step] at hserver
      split at hserver
      · cases hserver
        exact hrep
      · rename_i f fs hq
        obtain ⟨sc, hsc, hloop⟩ := Option.map_eq_some_iff.1 hrep.loop
        have hl : sc.loop ≠ l := by
          rintro rfl
          rw [← hloop, show p.active sc.loop = [] from hadm] at he
          exact List.not_mem_nil he
        exact hrep.kept h.consistent hcons
          ((setPending_kept p.server l fs).trans (execute_kept hserver))
          (conn_ne_of_queued h.consistent hrep.registered hsc hl hq)
    · rw [serverActs, run_cons, hserver]
      rfl

/-- **The loops run the server as it was modelled.**  In every run in which each loop polls, dispatches
the batch that was reported and then executes functors, the channels that wait in a batch are still
registered, and in the loop that polled them, whatever was dispatched before them and whatever the
other loops have done; and what the loops have dispatched is an admissible run of the server. -/
theorem polled_stay_registered (name ipPort : Bytes) (wc : Bool) (numThreads : Nat)
    (acts : List Act)
    (hacts : Allowed step Admissible (make name ipPort wc numThreads) acts) :
    ∃ p, run step (make name ipPort wc numThreads) acts = .ok p ∧
      (∀ l, ∀ e ∈ p.active l, p.server.Registered e.1 ∧
        (p.server.conns e.1).map ServerConn.loop = some l) ∧
      Allowed TcpServer.step TcpServer.Admissible (TcpServer.make name ipPort wc numThreads)
        (outputs step serverActs (make name ipPort wc numThreads) acts) ∧
      run TcpServer.step (TcpServer.make name ipPort wc numThreads)
        (outputs step serverActs (make name ipPort wc numThreads) acts) = .ok p.server := by
  have hmake : Inv (make name ipPort wc numThreads) :=
    ⟨make_consistent name ipPort wc numThreads, fun _ => List.nodup_nil,
      fun _ _ he => absurd he List.not_mem_nil⟩
  obtain ⟨p, hrun, hinv, hallowed, hserver⟩ := run_simulates Inv Polled.server serverActs
    (fun _ _ h hadm => step_inv h hadm) acts _ hmake hacts
  refine ⟨p, hrun, fun l e he => ?_, hallowed, hserver⟩
  have hrep := hinv.reported l e he
  exact ⟨hrep.registered, hrep.loop⟩

instance (s : TcpServer) (i : Nat) : Decidable (s.Registered i) := by
  unfold Registered
  infer_instance

instance (s : TcpServer) (l : Nat) (e : Nat × Revents) : Decidable (Reported s l e) :=
  decidable_of_iff (s.Registered e.1 ∧ (s.conns e.1).map ServerConn.loop = some l ∧
    (e.2.pollhup ∧ ¬ e.2.pollin → ¬ e.2.pollpri ∧ ¬ e.2.pollrdhup))
    ⟨fun h => ⟨h.1, h.2.1, h.2.2⟩, fun h => ⟨h.registered, h.loop, h.hup⟩⟩

instance (p : Polled) (act : Act) : Decidable (p.Admissible act) := by
  unfold Admissible FreshFd
  cases act <;> infer_instance

/-- Without IO loops both connections are in the base loop.  The batch closes the first connection,
which destroys it at once, and goes on with the second. -/
def sampleBatch : List Act :=
  [.accept 7 fun _ => [], .accept 8 fun _ => [],
    .poll 0 [(0, { noEvents with pollhup := true }), (1, { noEvents with pollin := true })],
    .dispatch 0 (.data []) (.wrote 0) fun _ => [.shutdown 1],
    .dispatch 0 (.data [1]) (.wrote 0) fun _ => [.send 0 [2] (.wrote 1)],
    .exec 0 (.wrote 0) fun _ => []]

theorem polled_stay_registered_sample :
    Allowed step Admissible (make (str "server") (str "0.0.0.0:80") true 0) sampleBatch ∧
      ∃ p, run step (make (str "server") (str "0.0.0.0:80") true 0) sampleBatch = .ok p ∧
        (∀ l, ∀ e ∈ p.active l, p.server.Registered e.1 ∧
          (p.server.conns e.1).map ServerConn.loop = some l) ∧
        Allowed TcpServer.step TcpServer.Admissible
          (TcpServer.make (str "server") (str "0.0.0.0:80") true 0)
          (outputs step serverActs (make (str "server") (str "0.0.0.0:80") true 0) sampleBatch) ∧
        run TcpServer.step (TcpServer.make (str "server") (str "0.0.0.0:80") true 0)
          (outputs step serverActs (make (str "server") (str "0.0.0.0:80") true 0) sampleBatch) =
            .ok p.server := by
  have hacts : Allowed step Admissible (make (str "server") (str "0.0.0.0:80") true 0) sampleBatch := by
    decide +kernel
  exact ⟨hacts, polled_stay_registered (str "server") (str "0.0.0.0:80") true 0 sampleBatch hacts⟩

end Polled

end TcpServer
