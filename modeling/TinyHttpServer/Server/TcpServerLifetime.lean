import TinyHttpServer.Server.TcpServerQueues

/-!
# How long a connection lives

A connection is kept alive by its entry in `connection_` and by the functors that bind a `shared_ptr`
to it.  `send_in_loop_` and `shutdown_in_loop_` are queued with `this` alone: nothing but the order of
the queues keeps the connection alive until they run.  Pointers of the user come on top, and a functor
counts until it is executed; `dopending_func` keeps those of a batch until the batch is done.

* `Placed` — behind `destroy_connect`, and after it, no callback of the user is queued for a
  connection.
* `Lifetime` — what holds between the steps; `step_lifetime` and `run_lifetime`.
* `Lifetime.released` — what of a connection is alive, before and after `destroy_connect`.
-/

set_option autoImplicit false

open Checked Machine Epoller TcpConnection DueMessages

namespace TcpServer

/-- `connection_` or a queued functor has a `shared_ptr` to the connection. -/
def Owned (s : TcpServer) (i : Nat) : Prop :=
  (∃ name, s.connection name = some i) ∨
    ∃ l, ∃ f ∈ (s.loops l).pendingFunc, f.conn = i ∧ f.bindsThis = false

variable {s t : TcpServer} {σ : Nat → Stage} {home : Nat → Nat} {held : Option Nat} {i j : Nat}
  {l n cur : Nat} {code : UserCode}

/-! ## Records and stages -/

/-- The record of a connection tells its stage. -/
theorem Inv.logged_iff (h : Inv σ home held s) {e : LifeEvent} (he : e ≠ .handleEvent) :
    s.Logged i e ↔ e ∈ milestones (σ i) := by
  cases hsc : s.conns i with
  | none =>
    rw [(h.conns.absent i).1 hsc]
    constructor
    · rintro ⟨sc, hsc', -⟩
      rw [Option.mem_def, hsc] at hsc'
      cases hsc'
    · exact fun hmem => absurd hmem List.not_mem_nil
  | some sc =>
    rw [← (h.conns.each i sc hsc).life.mem e he]
    exact ⟨fun hlog => hlog.mem hsc, fun hmem => ⟨sc, hsc, hmem⟩⟩

theorem Inv.destroyed_iff (h : Inv σ home held s) : s.Logged i .destroyConnect ↔ σ i = .destroyed :=
  (h.logged_iff (by simp)).trans destroyConnect_mem_milestones

theorem Inv.removed_iff (h : Inv σ home held s) :
    s.Logged i .removeConnectionInLoop ↔ Unmapped (σ i) :=
  (h.logged_iff (by simp)).trans unmapped_iff.symm

theorem Inv.closed (h : Inv σ home held s) (hst : σ i = .closing ∨ Unmapped (σ i)) : s.Closed i := by
  have hne : σ i ≠ .absent := by
    intro habsent
    rw [habsent] at hst
    rcases hst with hst | hst | hst <;> cases hst
  obtain ⟨sc, hsc, hok⟩ := h.exists_conn hne
  have hstage := hok.stage
  refine ⟨sc, hsc, ?_⟩
  have hidle : sc.conn.channel.events = .none → sc.conn.channel.isWriting = false := by
    intro hnone
    simp [Channel.isWriting, hnone, Events.none]
  rcases hst with hst | hst | hst
  · rw [hst] at hstage
    cases hstage with
    | closing hd _ hnone => exact ⟨hd, hidle hnone⟩
  · rw [hst] at hstage
    cases hstage with
    | removed hd _ hnone => exact ⟨hd, hidle hnone⟩
  · rw [hst] at hstage
    cases hstage with
    | destroyed hd _ hnone => exact ⟨hd, hidle hnone⟩

/-- A queued functor that changes a stage is due. -/
theorem Inv.due_of_queued (h : Inv σ home held s) {f : Functor}
    (hq : f ∈ (s.loops l).pendingFunc) (hf : f.key = some i) :
    due i (home i) (σ i) = some (l, f) := by
  have hcount := h.queues.once l f i hf
  have hpos := List.count_pos_iff.2 hq
  split at hcount
  · rename_i hdue
    exact hdue.2
  · omega

theorem Inv.closing_of_queued (h : Inv σ home held s)
    (hq : .removeConnectionInLoop i ∈ (s.loops l).pendingFunc) : σ i = .closing ∧ l = 0 := by
  obtain ⟨-, -, hf⟩ | ⟨hst, hl, -⟩ | ⟨-, -, hf⟩ := due_cases (h.due_of_queued hq rfl)
  · cases hf
  · exact ⟨hst, hl⟩
  · cases hf

theorem Inv.removed_of_queued (h : Inv σ home held s)
    (hq : .destroyConnect i ∈ (s.loops l).pendingFunc) : σ i = .removed ∧ l = home i := by
  obtain ⟨-, -, hf⟩ | ⟨-, -, hf⟩ | ⟨hst, hl, -⟩ := due_cases (h.due_of_queued hq rfl)
  · cases hf
  · cases hf
  · exact ⟨hst, hl⟩

/-- A functor other than `remove_connection_in_loop` is in the queue of the loop of its connection. -/
theorem Inv.home_of_queued (h : Inv σ home held s) {f : Functor}
    (hq : f ∈ (s.loops l).pendingFunc) (hf : ∀ i, f ≠ .removeConnectionInLoop i) :
    home f.conn = l := by
  cases f with
  | removeConnectionInLoop i => exact absurd rfl (hf i)
  | sendInLoop i data | shutdownInLoop i | pending i g => exact (h.queues.each l _ hq).loop rfl
  | buildConnect i | destroyConnect i =>
    obtain ⟨-, hl, -⟩ | ⟨-, -, hf⟩ | ⟨-, hl, -⟩ := due_cases (h.due_of_queued hq rfl)
    · exact hl.symm
    · cases hf
    · exact hl.symm

/-! ## The order of the queues -/

/-- Behind `destroy_connect`, and after it, no callback is queued for a connection. -/
structure Placed (s : TcpServer) : Prop where
  behind : ∀ l, (s.loops l).pendingFunc.Pairwise fun g f =>
    g = .destroyConnect f.conn → f.isCallback = false
  gone : ∀ l, ∀ f ∈ (s.loops l).pendingFunc, f.isCallback → ¬ s.Logged f.conn .destroyConnect

/-- **A function about connection `i`** keeps the order.  If it removes the connection, the connection
was closed before; if it destroys it, no callback was queued any more. -/
theorem Placed.grown (h : s.Placed) (hk : Kept i s t) (hg : Grown s t) (hs : Inv σ home held s)
    (ht : Consistent t) (hremoved : t.Logged i .removeConnectionInLoop → s.Closed i)
    (hdestroyed : t.Logged i .destroyConnect → s.Logged i .destroyConnect ∨
      ∀ l, ∀ f ∈ (s.loops l).pendingFunc, f.conn = i → f.isCallback = false) :
    t.Placed := by
  obtain ⟨σ', home', ht⟩ := ht
  have hclosed : ∀ j, t.Logged j .removeConnectionInLoop → s.Closed j := by
    intro j hj
    obtain rfl | hne := eq_or_ne j i
    · exact hremoved hj
    · exact hs.closed (.inr (hs.removed_iff.1 (hk.logged hne hj)))
  constructor
  · intro l
    obtain ⟨gs, hgs, hall⟩ := hg.queues l
    have hnew : ∀ g ∈ (t.loops l).pendingFunc, ∀ f ∈ gs, g = .destroyConnect f.conn →
        f.isCallback = false := by
      rintro g hmem f hf rfl
      by_contra hcallback
      have hlog := ht.removed_iff.2 (.inl (ht.removed_of_queued hmem).1)
      exact hall f hf (by simpa using hcallback) (hclosed _ hlog)
    rw [hgs] at hnew ⊢
    refine List.pairwise_append.2 ⟨h.behind l, ?_, fun g hmem f hf => ?_⟩
    · exact List.pairwise_of_forall_mem_list fun g hmem f hf =>
        hnew g (List.mem_append_right _ hmem) f hf
    · exact hnew g (List.mem_append_left gs hmem) f hf
  · intro l f hf hcallback hlog
    obtain ⟨gs, hgs, hall⟩ := hg.queues l
    rw [hgs] at hf
    rcases List.mem_append.1 hf with hf | hf
    · obtain hconn | hne := eq_or_ne f.conn i
      · rcases hdestroyed (hconn ▸ hlog) with hlog' | hnone
        · exact h.gone l f hf hcallback (hconn ▸ hlog')
        · rw [hnone l f hf hconn] at hcallback
          cases hcallback
      · exact h.gone l f hf hcallback (hk.logged hne hlog)
    · have hst := ht.destroyed_iff.1 hlog
      exact hall f hf hcallback (hclosed _ (ht.removed_iff.2 (.inr hst)))

theorem Placed.pop (h : s.Placed) {f : Functor} {fs : List Functor}
    (hq : (s.loops l).pendingFunc = f :: fs) : (s.setPending l fs).Placed := by
  have hsub : ∀ l', ((s.setPending l fs).loops l').pendingFunc.Sublist (s.loops l').pendingFunc := by
    intro l'
    unfold setPending
    obtain rfl | hl := eq_or_ne l' l
    · simp [hq]
    · simp [Function.update_of_ne hl]
  exact ⟨fun l' => (h.behind l').sublist (hsub l'),
    fun l' g hg => h.gone l' g ((hsub l').subset hg)⟩

/-! ## Steps -/

/-- What holds between the steps of a server with `n` IO loops. -/
structure Lifetime (n : Nat) (s : TcpServer) : Prop where
  consistent : Consistent s
  turns : Turns n s
  names : ∀ name i, s.connection name = some i → (s.conns i).map ServerConn.name = some name
  placed : 0 < n → s.Placed

theorem consistent_of_step {act : Act} (h : Consistent s) (hadm : s.Admissible act)
    (hs : s.step act = .ok t) : Consistent t := by
  obtain ⟨t', ht', hcons⟩ := step_consistent act h hadm
  obtain rfl : t = t' := Except.ok.inj (hs.symm.trans ht')
  exact hcons

theorem turn_ne_base (hn : 0 < n) (i : Nat) : turn n i ≠ 0 := by
  rw [turn, if_neg (by omega)]
  omega

theorem Turns.ne_base (h : Turns n s) (hn : 0 < n) {sc : ServerConn} (hsc : s.conns i = some sc) :
    sc.loop ≠ 0 := by
  have hloop := h.loop i
  rw [hsc] at hloop
  split at hloop
  · have heq : sc.loop = turn n i := Option.some.inj hloop
    rw [heq]
    exact turn_ne_base hn i
  · cases hloop

theorem names_grown (h : ∀ name i, s.connection name = some i →
      (s.conns i).map ServerConn.name = some name) (hg : Grown s t) (name : Bytes) (i : Nat)
    (hi : t.connection name = some i) : (t.conns i).map ServerConn.name = some name := by
  rcases hg.connection name with heq | hnone
  · rw [hg.name]
    exact h name i (heq ▸ hi)
  · rw [hnone] at hi
    cases hi

/-- **Dispatch of an event.** -/
theorem event_lifetime {revents : Revents} {read : ReadResult} {write : WriteResult}
    (h : Lifetime n s) (hadm : s.Admissible (.event i revents read write code))
    (hs : s.step (.event i revents read write code) = .ok t) : Lifetime n t := by
  have hcons := consistent_of_step h.consistent hadm hs
  have hturns := step_turns h.turns hs
  obtain ⟨sc, hsc, hs⟩ := bind_eq_ok.1 hs
  have hsc := deref_eq_ok hsc
  have hg : Grown s t := handleEvent_grown hs
  refine ⟨hcons, hturns, names_grown h.names hg, fun hn => ?_⟩
  obtain ⟨σ, home, hinv⟩ := h.consistent
  have hcur := h.turns.ne_base hn hsc
  refine (h.placed hn).grown (handleEvent_kept hs) hg hinv hcons (fun hlog => ?_) fun hlog => ?_
  · have hlog := handleEvent_unlogged rfl hcur hs i hlog
    exact hinv.closed (.inr (hinv.removed_iff.1 hlog))
  · exact .inl (handleEvent_unlogged rfl hcur hs i hlog)

section Execute

variable {f : Functor} {fs : List Functor} {res : WriteResult}

/-- `remove_connection_in_loop` queues `destroy_connect` for a connection that is closed. -/
theorem Placed.remove (h : s.Placed) (hinv : Inv σ home none s) (hturns : Turns n s) (hn : 0 < n)
    (hq : (s.loops l).pendingFunc = .removeConnectionInLoop i :: fs) (ht : Consistent t)
    (hs : (s.setPending l fs).removeConnectionInLoop l i code = .ok t) : t.Placed := by
  obtain ⟨-, hinv₁⟩ := hinv.popDue hq rfl
  obtain ⟨hst, rfl⟩ := hinv.closing_of_queued (l := l) (i := i) (by rw [hq]; exact List.mem_cons_self)
  obtain ⟨sc, hsc, -⟩ := hinv.exists_conn (i := i) (by rw [hst]; nofun)
  have hloop := hturns.ne_base hn hsc
  refine (h.pop hq).grown (removeConnectionInLoop_kept hs) (removeConnectionInLoop_grown hs) hinv₁ ht
    (fun _ => hinv₁.closed (.inl hst)) fun hlog => .inl ?_
  exact removeConnectionInLoop_unlogged (s := s.setPending 0 fs) hsc hloop hs i hlog

/-- `destroy_connect` runs when it has come to the front of the queue; no callback of its connection
is queued behind it, nor in another loop. -/
theorem Placed.destroy (h : s.Placed) (hinv : Inv σ home none s)
    (hq : (s.loops l).pendingFunc = .destroyConnect i :: fs) (ht : Consistent t)
    (hs : (s.setPending l fs).destroyConnect l i code = .ok t) : t.Placed := by
  obtain ⟨-, hinv₁⟩ := hinv.popDue hq rfl
  obtain ⟨hst, rfl⟩ := hinv.removed_of_queued (l := l) (i := i) (by rw [hq]; exact List.mem_cons_self)
  refine (h.pop hq).grown (destroyConnect_kept hs) (destroyConnect_grown hs) hinv₁ ht
    (fun _ => hinv₁.closed (.inr (.inl hst))) fun _ => .inr ?_
  intro l' g hg hconn
  by_contra hcallback
  have hloop := (hinv₁.queues.each l' g hg).loop (Functor.key_of_callback (by simpa using hcallback))
  rw [hconn] at hloop
  subst hloop
  have hbehind := h.behind (home i)
  rw [hq, List.pairwise_cons] at hbehind
  have hmem : g ∈ fs := by simpa [setPending] using hg
  exact hcallback (hbehind.1 g hmem (by rw [hconn]))

/-- The other functors remove and destroy nothing. -/
theorem Placed.execute (h : s.Placed) (hinv : Inv σ home none s)
    (hremove : ∀ i, f ≠ .removeConnectionInLoop i) (hdestroy : ∀ i, f ≠ .destroyConnect i)
    (hq : (s.loops l).pendingFunc = f :: fs) (ht : Consistent t)
    (hs : (s.setPending l fs).execute l res code f = .ok t) : t.Placed := by
  obtain ⟨held, hinv₁⟩ : ∃ held, Inv σ home held (s.setPending l fs) := by
    cases hkey : f.key with
    | none => exact ⟨none, hinv.pop hq hkey⟩
    | some i => exact ⟨some i, (hinv.popDue hq hkey).2⟩
  refine (h.pop hq).grown (execute_kept hs) (execute_grown hs) hinv₁ ht (fun hlog => ?_) fun hlog => ?_
  · have hlog := execute_unlogged rfl hremove hdestroy hs f.conn hlog
    exact hinv₁.closed (.inr (hinv₁.removed_iff.1 hlog))
  · exact .inl (execute_unlogged rfl hremove hdestroy hs f.conn hlog)

end Execute

theorem exec_lifetime {res : WriteResult} (h : Lifetime n s)
    (hs : s.step (.exec l res code) = .ok t) : Lifetime n t := by
  have htrue : s.Admissible (.exec l res code) := trivial
  have hcons := consistent_of_step h.consistent htrue hs
  have hturns := step_turns h.turns hs
  simp only [step] at hs
  split at hs
  · cases hs
    exact h
  · rename_i f fs hq
    have hg : Grown (s.setPending l fs) t := execute_grown hs
    have hnames := names_grown (s := s.setPending l fs) h.names hg
    refine ⟨hcons, hturns, hnames, fun hn => ?_⟩
    obtain ⟨σ, home, hinv⟩ := h.consistent
    have hplaced := h.placed hn
    cases f with
    | removeConnectionInLoop i => exact hplaced.remove hinv h.turns hn hq hcons hs
    | destroyConnect i => exact hplaced.destroy hinv hq hcons hs
    | buildConnect i | sendInLoop i data | shutdownInLoop i | pending i g =>
      exact hplaced.execute hinv (fun j hf => by cases hf) (fun j hf => by cases hf) hq hcons hs

/-! ## Accepting -/

section Added

variable {loop : Nat} {pool : EventLoopThreadPool} {fd : Int}

theorem added_logged {e : LifeEvent} (hlog : (s.added loop pool fd).Logged j e) :
    j ≠ s.accepted ∧ s.Logged j e := by
  obtain ⟨sj, hsj, hmem⟩ := hlog
  simp only [added, Function.update_apply] at hsj
  split at hsj
  · cases hsj
    exact absurd hmem List.not_mem_nil
  · rename_i hj
    exact ⟨hj, sj, hsj, hmem⟩

theorem Placed.added (h : s.Placed) : (s.added loop pool fd).Placed :=
  ⟨h.behind, fun l f hf hcallback hlog => h.gone l f hf hcallback (added_logged hlog).2⟩

theorem added_names (habsent : s.conns s.accepted = none)
    (hs : ∀ name i, s.connection name = some i → (s.conns i).map ServerConn.name = some name)
    (name : Bytes) (i : Nat) (hi : (s.added loop pool fd).connection name = some i) :
    ((s.added loop pool fd).conns i).map ServerConn.name = some name := by
  simp only [TcpServer.added, Function.update_apply] at hi ⊢
  split at hi
  · rename_i hname
    cases hi
    simp [hname]
  · have hname := hs name i hi
    have hne : i ≠ s.accepted := by
      rintro rfl
      rw [habsent] at hname
      cases hname
    rw [if_neg hne]
    exact hname

end Added

theorem Turns.absent (h : Turns n s) : s.conns s.accepted = none := by
  have hlt := h.loop s.accepted
  rw [if_neg (Nat.lt_irrefl _)] at hlt
  exact Option.map_eq_none_iff.1 hlt

theorem accept_lifetime {fd : Int} (h : Lifetime n s) (hadm : s.Admissible (.accept fd code))
    (hs : s.step (.accept fd code) = .ok t) : Lifetime n t := by
  have hcons := consistent_of_step h.consistent hadm hs
  have hturns := step_turns h.turns hs
  obtain ⟨σ, home, hinv⟩ := h.consistent
  obtain ⟨loop, pool, hloop, hs⟩ := newConnection_eq_ok hs
  have hg := added_grown hs
  have hnames := names_grown (added_names h.turns.absent h.names) hg
  refine ⟨hcons, hturns, hnames, fun hn => ?_⟩
  obtain ⟨rfl, -, -⟩ := getLoop_turn h.turns.loops h.turns.next hloop
  obtain ⟨_, pool', hloop', hpool⟩ := getLoop_spec hinv.pool
  rw [hloop] at hloop'
  cases hloop'
  have hk : Kept s.accepted (s.added (turn n s.accepted) pool fd) t :=
    runInLoop_kept (fun _ ht => buildConnect_kept ht) hs
  -- the connection is in an IO loop, so that `build_connect` is queued
  have hnone : ∀ e, ¬ t.Logged s.accepted e := by
    intro e hlog
    unfold runInLoop at hs
    rw [if_neg (turn_ne_base hn s.accepted).symm] at hs
    cases hs
    have hlog : (s.added (turn n s.accepted) pool fd).Logged s.accepted e := hlog
    exact (added_logged hlog).1 rfl
  exact (h.placed hn).added.grown hk hg (hinv.add hadm.2 hadm.1 _ hpool) hcons
    (fun hlog => absurd hlog (hnone _)) fun hlog => absurd hlog (hnone _)

/-- **Step lemma.**  Every admissible step returns and keeps the order of the queues. -/
theorem step_lifetime (act : Act) (h : Lifetime n s) (hadm : s.Admissible act) :
    ∃ t, s.step act = .ok t ∧ Lifetime n t := by
  obtain ⟨t, ht, -⟩ := step_consistent act h.consistent hadm
  refine ⟨t, ht, ?_⟩
  cases act with
  | accept fd code => exact accept_lifetime h hadm ht
  | event i revents read write code => exact event_lifetime h hadm ht
  | exec l res code => exact exec_lifetime h ht

theorem run_lifetime (name ipPort : Bytes) (wc : Bool) (numThreads : Nat) (acts : List Act)
    (hacts : Allowed step Admissible (make name ipPort wc numThreads) acts) :
    ∃ s, run step (make name ipPort wc numThreads) acts = .ok s ∧ Lifetime numThreads s := by
  have hmake : Lifetime numThreads (make name ipPort wc numThreads) := by
    have hturns : Turns numThreads (make name ipPort wc numThreads) :=
      ⟨rfl, fun _ => (Nat.zero_mod _).symm, fun _ => rfl⟩
    refine ⟨make_consistent name ipPort wc numThreads, hturns, fun name i hi => ?_,
      fun _ => ⟨fun l => List.Pairwise.nil, fun l f hf => ?_⟩⟩
    · cases hi
    · exact absurd hf List.not_mem_nil
  exact run_invariant (fun s act h hadm => step_lifetime act h hadm) acts _ hmake hacts

/-! ## Release -/

/-- The entry in `connection_` keeps the connection alive until `remove_connection_in_loop`, and from
then on `destroy_connect` in the queue of its loop. -/
theorem Lifetime.owned (h : Lifetime n s) (hi : i < s.accepted)
    (hd : ¬ s.Logged i .destroyConnect) : s.Owned i := by
  obtain ⟨σ, home, hinv⟩ := h.consistent
  have hloop := h.turns.loop i
  rw [if_pos hi] at hloop
  obtain ⟨sc, hsc, -⟩ := Option.map_eq_some_iff.1 hloop
  have hok := hinv.conns.each i sc hsc
  have hmapped := hok.mapped
  split at hmapped
  · rename_i hun
    have hst := hun.resolve_right fun hst => hd (hinv.destroyed_iff.2 hst)
    have hdue : due i (home i) (σ i) = some (home i, .destroyConnect i) := by rw [hst]; rfl
    exact .inr ⟨home i, .destroyConnect i, hinv.queues.once.mem rfl nofun hdue, rfl, rfl⟩
  · exact .inl ⟨sc.name, hmapped⟩

/-- What is left of a connection after `destroy_connect`. -/
theorem Lifetime.owned_destroyed (h : Lifetime n s) (hd : s.Logged i .destroyConnect)
    (howned : s.Owned i) : ∃ l g, .pending i g ∈ (s.loops l).pendingFunc := by
  obtain ⟨σ, home, hinv⟩ := h.consistent
  have hst := hinv.destroyed_iff.1 hd
  rcases howned with ⟨name, hname⟩ | ⟨l, f, hf, hconn, hthis⟩
  · obtain ⟨sc, hsc, rfl⟩ := Option.map_eq_some_iff.1 (h.names name i hname)
    have hmapped := (hinv.conns.each i sc hsc).mapped
    rw [hst, if_pos (.inr rfl), hname] at hmapped
    cases hmapped
  · have hkey : f.key = none := by
      rw [Option.eq_none_iff_forall_ne_some]
      intro k hk
      have hki : k = i := by
        rw [← hconn]
        cases f <;> cases hk <;> rfl
      subst hki
      have hdue := hinv.due_of_queued hf hk
      rw [hst] at hdue
      cases hdue
    cases f with
    | buildConnect j | removeConnectionInLoop j | destroyConnect j => cases hkey
    | sendInLoop j data | shutdownInLoop j => cases hthis
    | pending j g =>
      obtain rfl : j = i := hconn
      exact ⟨l, g, hf⟩

/-- A functor that binds `this` does not count. -/
theorem owned_setPending_iff {f : Functor} {fs : List Functor}
    (hq : (s.loops l).pendingFunc = f :: fs) (hthis : f.bindsThis) :
    (s.setPending l fs).Owned i ↔ s.Owned i := by
  have hpop : ∀ l' g, g.bindsThis = false →
      (g ∈ ((s.setPending l fs).loops l').pendingFunc ↔ g ∈ (s.loops l').pendingFunc) := by
    intro l' g hg
    have hne : g ≠ f := by
      rintro rfl
      rw [hg] at hthis
      cases hthis
    simp only [setPending, Function.update_apply]
    split
    · rename_i hl
      simp [hl, hq, hne]
    · rfl
  refine or_congr Iff.rfl ⟨?_, ?_⟩
  · rintro ⟨l', g, hmem, hconn, hg⟩
    exact ⟨l', g, (hpop l' g hg).1 hmem, hconn, hg⟩
  · rintro ⟨l', g, hmem, hconn, hg⟩
    exact ⟨l', g, (hpop l' g hg).2 hmem, hconn, hg⟩

theorem Inv.tornDown (h : Inv σ home held s) (hst : σ i = .destroyed) : s.TornDown i := by
  obtain ⟨sc, hsc, hok⟩ := h.exists_conn (i := i) (by simp [hst])
  have hstage := hok.stage
  rw [hst] at hstage
  cases hstage with
  | destroyed hd hnew hnone => exact ⟨sc, hsc, hd, hnone, hnew⟩

/-- What of a connection is alive, and what has been released. -/
structure Released (n : Nat) (s : TcpServer) (i : Nat) : Prop where
  alive : ¬ s.Logged i .destroyConnect → s.Owned i
  polled : s.Registered i → s.Owned i
  tornDown : s.Logged i .destroyConnect → s.TornDown i
  callbacks : s.Logged i .destroyConnect →
    (s.Owned i ↔ ∃ l g, .pending i g ∈ (s.loops l).pendingFunc)
  gone : s.Logged i .destroyConnect → 0 < n → ¬ s.Owned i

/-- **Release.**  A connection is kept alive until `destroy_connect` has run in its loop, so that the
events on its channel find it.  From then on it is as `~TcpConnection` and `~Channel` demand it, and
what keeps it alive are callbacks of the user that are still queued, of which there are none where the
server has IO loops. -/
theorem Lifetime.released (h : Lifetime n s) (hi : i < s.accepted) : Released n s i := by
  obtain ⟨σ, home, hinv⟩ := h.consistent
  refine ⟨h.owned hi, fun hreg => ?_, fun hd => ?_, fun hd => ?_, fun hd hn howned => ?_⟩
  · refine h.owned hi fun hd => ?_
    have hst := hinv.destroyed_iff.1 hd
    rw [hinv.registered hreg] at hst
    cases hst
  · exact hinv.tornDown (hinv.destroyed_iff.1 hd)
  · refine ⟨h.owned_destroyed hd, ?_⟩
    rintro ⟨l, g, hg⟩
    exact .inr ⟨l, _, hg, rfl, rfl⟩
  · obtain ⟨l, g, hg⟩ := h.owned_destroyed hd howned
    exact (h.placed hn).gone l _ hg rfl hd

end TcpServer
