import TinyHttpServer.Server.TcpConnectionForceClose
import TinyHttpServer.Server.TcpServerLifecycle

/-!
# Tearing a server down

`~TcpServer` runs `destroy_connect` on every connection that is left, each in its own loop.
`~TcpConnection` asserts that the status is `DISCONNECTED` then; but only `handle_close_` sets this
status, and `destroy_connect` leaves the status at `DISCONNECTING`.

* `Undone` — a connection is not `DISCONNECTED`; no functor of a loop makes it so.
* `teardown_iff` — the teardown is right for servers without connections only.
-/

set_option autoImplicit false

open Checked Machine Epoller

namespace TcpServer

open TcpConnection

/-! ## The destructor -/

/-- `~TcpServer`, over the entries of `connection_` in the order of the iteration. -/
def destructor (s : TcpServer) (code : UserCode) : List Nat → Checked TcpServer
  | [] => return s
  | i :: entries => do
    let sc ← s.deref i
    let s ← s.runInLoop 0 sc.loop (.destroyConnect i) fun s => s.destroyConnect 0 i code
    s.destructor code entries

/-- A loop executes the next functor of its queue. -/
def execStep (s : TcpServer) (e : Nat × WriteResult × UserCode) : Checked TcpServer :=
  s.step (.exec e.1 e.2.1 e.2.2)

/-- The destructor, and then the loops go on with their queues. -/
def teardown (s : TcpServer) (code : UserCode) (entries : List Nat)
    (execs : List (Nat × WriteResult × UserCode)) : Checked TcpServer := do
  let s ← s.destructor code entries
  run execStep s execs

/-- The connection is as `~TcpConnection` and `~Channel` demand it. -/
def TornDown (s : TcpServer) (i : Nat) : Prop :=
  ∃ sc ∈ s.conns i, sc.conn.status = .disconnected ∧ sc.conn.channel.events = .none ∧
    sc.conn.channel.status = .new

/-- The entries of `connection_`, each a connection that is `CONNECTED` or `DISCONNECTING`. -/
structure Entries (s : TcpServer) (entries : List Nat) : Prop where
  mem : ∀ i, i ∈ entries ↔ ∃ name, s.connection name = some i
  nodup : entries.Nodup
  status : ∀ i ∈ entries, ∀ sc ∈ s.conns i,
    sc.conn.status = .connected ∨ sc.conn.status = .disconnecting

/-! ## Nothing but `handle_close_` sets `DISCONNECTED` -/

/-- The connection is not `DISCONNECTED`. -/
def Undone (i : Nat) (s : TcpServer) : Prop :=
  ∀ sc ∈ s.conns i, sc.conn.status ≠ .disconnected

variable {s s' : TcpServer} {i : Nat}

theorem Undone.store (h : Undone i s) {j : Nat} {sc : ServerConn} {entry : List LifeEvent}
    {c : TcpConnection} (hj : s.conns j = some sc)
    (hc : c.status = .disconnected → sc.conn.status = .disconnected) :
    Undone i (s.store j sc entry c) := by
  intro sc' hsc'
  unfold TcpServer.store at hsc'
  simp only [Function.update_apply] at hsc'
  split at hsc'
  · rename_i hij
    subst hij
    cases hsc'
    exact fun hd => h sc hj (hc hd)
  · exact h sc' hsc'

theorem deref_eq_ok {j : Nat} {sc : ServerConn} (h : s.deref j = .ok sc) : s.conns j = some sc := by
  unfold deref at h
  split at h
  · rename_i hsc
    cases h
    exact hsc
  · cases h

theorem Undone.onConn (h : Undone i s) {cur j : Nat} {entry : List LifeEvent}
    {op : TcpConnection → Checked TcpConnection}
    (hop : ∀ c c', op c = .ok c' → c'.status = .disconnected → c.status = .disconnected)
    (hs : s.onConn cur j entry op = .ok s') : Undone i s' := by
  unfold TcpServer.onConn at hs
  rw [bind_eq_ok] at hs
  obtain ⟨sc, hsc, hs⟩ := hs
  rw [bind_eq_ok] at hs
  obtain ⟨_, -, hs⟩ := hs
  rw [bind_eq_ok] at hs
  obtain ⟨c, hc, hs⟩ := hs
  cases hs
  exact h.store (deref_eq_ok hsc) (hop (s.view sc) c hc)

theorem Undone.queueInLoop (h : Undone i s) (l : Nat) (f : Functor) :
    Undone i (s.queueInLoop l f) := h

theorem Undone.runInLoop (h : Undone i s) {cur l : Nat} {f : Functor}
    {now : TcpServer → Checked TcpServer}
    (hnow : ∀ t, now s = .ok t → Undone i t)
    (hs : s.runInLoop cur l f now = .ok s') : Undone i s' := by
  unfold TcpServer.runInLoop at hs
  split at hs
  · exact hnow s' hs
  · cases hs
    exact h.queueInLoop l f

theorem sendInLoop_status {c c' : TcpConnection} {data : Bytes} {res : WriteResult}
    (h : c.sendInLoop data res = .ok c') (hd : c'.status = .disconnected) :
    c.status = .disconnected := (sendInLoop_touched h).status ▸ hd

theorem shutdownInLoop_status {c c' : TcpConnection} (h : (pure c.shutdownInLoop : Checked _) = .ok c')
    (hd : c'.status = .disconnected) : c.status = .disconnected := by
  cases h
  unfold shutdownInLoop at hd
  by_cases hst : c.status = .connected
  · simp only [hst, if_true] at hd
    split at hd <;> cases hd
  · rwa [if_neg hst] at hd

theorem userCall_undone {cur : Nat} {call : UserCall} (h : Undone i s)
    (hs : s.userCall cur call = .ok s') : Undone i s' := by
  cases call with
  | send j message res =>
    simp only [userCall] at hs
    split at hs
    · cases hs
      exact h
    · split at hs
      · refine h.onConn (fun c c' hc hd => ?_) hs
        simp only [send] at hc
        split at hc
        · exact sendInLoop_status hc hd
        · cases hc
          exact hd
      · split at hs
        · cases hs
          exact h.queueInLoop _ _
        · cases hs
          exact h
  | shutdown j =>
    simp only [userCall] at hs
    split at hs
    · cases hs
      exact h
    · exact h.runInLoop (fun t ht => h.onConn (fun _ _ => shutdownInLoop_status) ht) hs

theorem userCalls_undone {cur : Nat} {calls : List UserCall} (h : Undone i s)
    (hs : s.userCalls cur calls = .ok s') : Undone i s' :=
  run_safe (fun _ _ _ hi _ hstep => userCall_undone hi hstep) calls s s' h
    (Allowed.of_forall (fun _ _ => trivial) calls s) hs

theorem buildConnect_undone {cur j : Nat} {code : UserCode} (h : Undone i s)
    (hs : s.buildConnect cur j code = .ok s') : Undone i s' := by
  unfold buildConnect at hs
  rw [bind_eq_ok] at hs
  obtain ⟨t, ht, hs⟩ := hs
  refine userCalls_undone (h.onConn (fun c c' hc hd => ?_) ht) hs
  obtain ⟨-, _, _, -, rfl⟩ := buildConnect_eq_ok hc
  cases hd

/-- **`destroy_connect`.** -/
theorem destroyConnect_undone {cur j : Nat} {code : UserCode} (h : Undone i s)
    (hs : s.destroyConnect cur j code = .ok s') : Undone i s' := by
  unfold destroyConnect at hs
  rw [bind_eq_ok] at hs
  obtain ⟨sc, -, hs⟩ := hs
  rw [bind_eq_ok] at hs
  obtain ⟨t, ht, hs⟩ := hs
  have hremove : ∀ c c' : TcpConnection, c.onChannel Channel.remove = .ok c' →
      c'.status = .disconnected → c.status = .disconnected := by
    intro c c' hc hd
    obtain ⟨_, _, _, rfl⟩ := onChannel_eq_ok hc
    exact hd
  refine Undone.onConn ?_ hremove hs
  split at ht
  · rw [bind_eq_ok] at ht
    obtain ⟨u, hu, ht⟩ := ht
    refine userCalls_undone (h.onConn (fun c c' hc hd => ?_) hu) ht
    unfold takeDown at hc
    simp only at hc
    rw [bind_eq_ok] at hc
    obtain ⟨d, hd', hc⟩ := hc
    obtain ⟨_, _, _, rfl⟩ := onChannel_eq_ok hd'
    cases hc
    cases hd
  · cases ht
    exact h

theorem removeConnectionInLoop_undone {cur j : Nat} {code : UserCode} (h : Undone i s)
    (hs : s.removeConnectionInLoop cur j code = .ok s') : Undone i s' := by
  unfold removeConnectionInLoop at hs
  rw [bind_eq_ok] at hs
  obtain ⟨_, -, hs⟩ := hs
  rw [bind_eq_ok] at hs
  obtain ⟨sc, -, hs⟩ := hs
  rw [bind_eq_ok] at hs
  obtain ⟨_, -, hs⟩ := hs
  simp only at hs
  rw [bind_eq_ok] at hs
  obtain ⟨t, ht, hs⟩ := hs
  have hnoted : Undone i t := by
    unfold note at ht
    rw [bind_eq_ok] at ht
    obtain ⟨sd, hsd, ht⟩ := ht
    cases ht
    exact Undone.store (s := { s with connection := _ }) h (deref_eq_ok hsd) id
  exact hnoted.runInLoop (fun u hu => destroyConnect_undone hnoted hu) hs

/-- A functor is executed. -/
theorem execute_undone {cur : Nat} {res : WriteResult} {code : UserCode} {f : Functor}
    (h : Undone i s) (hs : s.execute cur res code f = .ok s') : Undone i s' := by
  cases f with
  | buildConnect j => exact buildConnect_undone h hs
  | removeConnectionInLoop j => exact removeConnectionInLoop_undone h hs
  | destroyConnect j => exact destroyConnect_undone h hs
  | sendInLoop j data => exact h.onConn (fun _ _ => sendInLoop_status) hs
  | shutdownInLoop j => exact h.onConn (fun _ _ => shutdownInLoop_status) hs
  | pending j f =>
    simp only [execute] at hs
    rw [bind_eq_ok] at hs
    obtain ⟨t, ht, hs⟩ := hs
    refine userCalls_undone (h.onConn (fun c c' hc hd => ?_) ht) hs
    cases f with
    | writeComplete => cases hc; exact hd
    | highWaterMark len => cases hc; exact hd
    | forceCloseInLoop =>
      rw [runFunctor, forceCloseInLoop_eq] at hc
      cases hc
      exact hd

theorem execStep_undone {e : Nat × WriteResult × UserCode} (h : Undone i s)
    (hs : s.execStep e = .ok s') : Undone i s' := by
  unfold execStep TcpServer.step at hs
  simp only at hs
  split at hs
  · cases hs
    exact h
  · exact execute_undone (s := s.setPending _ _) h hs

theorem destructor_undone {code : UserCode} {entries : List Nat} : ∀ {s : TcpServer}, Undone i s →
    s.destructor code entries = .ok s' → Undone i s' := by
  induction entries with
  | nil =>
    intro s h hs
    cases hs
    exact h
  | cons j entries ih =>
    intro s h hs
    rw [destructor, bind_eq_ok] at hs
    obtain ⟨sc, -, hs⟩ := hs
    rw [bind_eq_ok] at hs
    obtain ⟨t, ht, hs⟩ := hs
    exact ih (h.runInLoop (fun u hu => destroyConnect_undone h hu) ht) hs

/-- **Teardown.**  Take any server whose connections are `CONNECTED` or `DISCONNECTING`, with any
pending output and any interest, and let the loops execute any number of functors after its
destructor.  Every connection ends as the assertions demand it if and only if there is none. -/
theorem teardown_iff (code : UserCode) (execs : List (Nat × WriteResult × UserCode))
    {entries : List Nat} (hentries : s.Entries entries) :
    (∀ i ∈ entries, ∃ s', s.teardown code entries execs = .ok s' ∧ s'.TornDown i) ↔
      ∀ name, s.connection name = none := by
  constructor
  · intro h name
    rw [Option.eq_none_iff_forall_ne_some]
    intro i hi
    have hmem := (hentries.mem i).2 ⟨name, hi⟩
    obtain ⟨s', hs', sc, hsc, hst, -⟩ := h i hmem
    have hundone : Undone i s := by
      intro sc hsc hd
      rcases hentries.status i hmem sc hsc with hst | hst
      · rw [hd] at hst
        cases hst
      · rw [hd] at hst
        cases hst
    unfold teardown at hs'
    rw [bind_eq_ok] at hs'
    obtain ⟨t, ht, hs'⟩ := hs'
    have hend : Undone i s' := run_safe (fun _ _ _ hi _ hstep => execStep_undone hi hstep) execs t s'
      (destructor_undone hundone ht) (Allowed.of_forall (fun _ _ => trivial) execs t) hs'
    exact hend sc hsc hst
  · intro h i hi
    obtain ⟨name, hname⟩ := (hentries.mem i).1 hi
    rw [h name] at hname
    cases hname

/-- A server with one connection, in the base loop. -/
def sampleLeft : TcpServer :=
  match run step (make (str "server") (str "0.0.0.0:80") true 0) [.accept 7 fun _ => []] with
  | .ok s => s
  | .error _ => sampleServer

theorem sampleLeft_entries : sampleLeft.Entries [0] := by
  have hconn : sampleLeft.connection =
      Function.update (fun _ => none) (sampleLeft.connName 1) (some 0) := rfl
  refine ⟨fun i => ?_, by decide, ?_⟩
  · rw [hconn, List.mem_singleton]
    constructor
    · rintro rfl
      exact ⟨_, Function.update_self ..⟩
    · rintro ⟨name, hname⟩
      rw [Function.update_apply] at hname
      split at hname
      · exact (Option.some.inj hname).symm
      · cases hname
  · intro i hi sc hsc
    rw [List.mem_singleton] at hi
    subst hi
    cases hsc
    exact .inl rfl

theorem teardown_iff_sample :
    (∀ i ∈ [0], ∃ s', sampleLeft.teardown (fun _ => []) [0] [] = .ok s' ∧ s'.TornDown i) ↔
      ∀ name, sampleLeft.connection name = none :=
  teardown_iff (fun _ => []) [] sampleLeft_entries

/-- **The assertion of `~TcpConnection` fails.**  The teardown of a reachable server returns, and the
status of its connection is `DISCONNECTING`. -/
theorem connection_left_disconnecting :
    run step (make (str "server") (str "0.0.0.0:80") true 0) [.accept 7 fun _ => []] =
        .ok sampleLeft ∧
      sampleLeft.Entries [0] ∧ ∃ s', sampleLeft.teardown (fun _ => []) [0] [] = .ok s' ∧
      (s'.conns 0).map (fun sc => sc.conn.status) = some .disconnecting ∧ ¬ s'.TornDown 0 := by
  obtain ⟨s', hs', hst⟩ := map_eq_ok.1 (show (sampleLeft.teardown (fun _ => []) [0] []).map
    (fun s => (s.conns 0).map fun sc => sc.conn.status) = .ok (some .disconnecting) by decide +kernel)
  refine ⟨rfl, sampleLeft_entries, s', hs', hst, ?_⟩
  rintro ⟨sc, hsc, hd, -⟩
  rw [Option.mem_def.1 hsc, Option.map_some, hd] at hst
  cases hst

end TcpServer
