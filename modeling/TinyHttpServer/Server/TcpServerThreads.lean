import TinyHttpServer.Server.TcpServerProgress

/-!
# Calls from other threads

`TcpConnection::send` tests the status and then queues `send_in_loop_` for the loop of the connection;
in between, the loops go on.  `shutdown` queues `shutdown_in_loop_` in any status.  Both functors bind a
plain `this`.  Here any threads make these calls, with the test and the queueing as separate steps; a
call that a callback makes for a connection of another loop is such a call, too.  A thread keeps the
connection alive during its call, by a pointer of its own.

* `Sound` — the invariant of the server holds whatever the threads do.
* `released_once_destroyed` — a connection is released when `destroy_connect` has run, not before, and
  in the state that the destructors demand.
* `this_owned_iff` — a functor that binds `this` finds its connection owned if and only if it was
  queued before `remove_connection_in_loop` ran.
-/

set_option autoImplicit false

open Checked Machine Epoller TcpConnection DueMessages

namespace TcpServer

/-- The server, and the sends of other threads that have found the status `CONNECTED` and have not
queued their functor yet. -/
structure Threaded where
  server : TcpServer
  sending : List (Nat × Bytes)

namespace Threaded

def make (name ipPort : Bytes) (wc : Bool) (numThreads : Nat) : Threaded :=
  { server := TcpServer.make name ipPort wc numThreads, sending := [] }

/-- A step of the server, or of a thread: `send` tests the status, `queueSend` queues the functor of
the `k`-th send under way, and `shutdown` queues its functor. -/
inductive Act where
  | server (act : TcpServer.Act)
  | send (i : Nat) (message : Bytes)
  | queueSend (k : Nat)
  | shutdown (i : Nat)

def step (s : Threaded) : Act → Checked Threaded
  | .server act => do
    let server ← s.server.step act
    return { s with server }
  | .send i message =>
    match s.server.conns i with
    | none => return s
    | some sc =>
      if sc.conn.status = .connected then return { s with sending := s.sending ++ [(i, message)] }
      else return s
  | .queueSend k =>
    match s.sending[k]? with
    | none => return s
    | some call => do
      let sc ← s.server.deref call.1
      return { server := s.server.queueInLoop sc.loop (.sendInLoop call.1 call.2)
               sending := s.sending.eraseIdx k }
  | .shutdown i =>
    match s.server.conns i with
    | none => return s
    | some sc => return { s with server := s.server.queueInLoop sc.loop (.shutdownInLoop i) }

def Admissible (s : Threaded) : Act → Prop
  | .server act => s.server.Admissible act
  | .send _ _ | .queueSend _ | .shutdown _ => True

instance (s : Threaded) (act : Act) : Decidable (s.Admissible act) := by
  unfold Admissible
  cases act <;> infer_instance

/-- Loop `l` executes a functor. -/
def Act.execs (l : Nat) : Act → Bool
  | .server act => act.execs l
  | .send _ _ | .queueSend _ | .shutdown _ => false

end Threaded

variable {s t : TcpServer} {i l n : Nat} {f : Functor}

/-! ## Functors that bind `this` -/

/-- A functor with a plain `this` is queued for a connection, in its loop. -/
theorem Lifetime.queue {sc : ServerConn} (h : Lifetime n s) (hsc : s.conns f.conn = some sc)
    (hthis : f.bindsThis) (hbuilt : f.sends → s.Logged f.conn .buildConnect) :
    Lifetime n (s.queueInLoop sc.loop f) := by
  have hplain : f.key = none ∧ f.isCallback = false := by
    cases f with
    | sendInLoop j data | shutdownInLoop j => exact ⟨rfl, rfl⟩
    | buildConnect j | removeConnectionInLoop j | destroyConnect j | pending j g => cases hthis
  refine ⟨?_, ⟨h.turns.loops, h.turns.next, h.turns.loop⟩, h.names, fun hn => ?_⟩
  · obtain ⟨σ, home, hinv⟩ := h.consistent
    have hok := hinv.conns.each _ sc hsc
    refine ⟨σ, home, hinv.queue hplain.1 ⟨hok.stage.ne_absent, fun _ => hok.loop.symm, ?_⟩⟩
    intro hsends hacc
    have hmem := (hinv.logged_iff (by simp)).1 (hbuilt hsends)
    rw [hacc] at hmem
    cases hmem
  · have hmem : ∀ l', ∀ g ∈ ((s.queueInLoop sc.loop f).loops l').pendingFunc, g.isCallback →
        g ∈ (s.loops l').pendingFunc := by
      intro l' g hg hcallback
      simp only [queueInLoop, setPending, Function.update_apply] at hg
      split at hg
      · rename_i hl
        rcases List.mem_append.1 hg with hg | hg
        · exact hl ▸ hg
        · rw [List.mem_singleton.1 hg, hplain.2] at hcallback
          cases hcallback
      · exact hg
    refine ⟨fun l' => ?_, fun l' g hg hcallback => (h.placed hn).gone l' g (hmem l' g hg hcallback)
      hcallback⟩
    simp only [queueInLoop, setPending, Function.update_apply]
    split
    · refine List.pairwise_append.2
        ⟨(h.placed hn).behind sc.loop, List.pairwise_singleton _ _, fun g _ g' hg' _ => ?_⟩
      rw [List.mem_singleton.1 hg']
      exact hplain.2
    · exact (h.placed hn).behind l'

/-- A `CONNECTED` connection has been built. -/
theorem Lifetime.built {sc : ServerConn} (h : Lifetime n s) (hsc : s.conns i = some sc)
    (hst : sc.conn.status = .connected) : s.Logged i .buildConnect := by
  obtain ⟨σ, home, hinv⟩ := h.consistent
  have hstage := (hinv.conns.each i sc hsc).stage
  rw [hinv.logged_iff (by simp)]
  by_contra hmem
  rw [accepted_of_not_built hstage.ne_absent hmem] at hstage
  cases hstage with
  | accepted hconnecting =>
    rw [hconnecting] at hst
    cases hst

/-- The functors of a connection are in its loop, except for the one that removes it. -/
theorem Lifetime.turn_of_queued (h : Lifetime n s) (hq : f ∈ (s.loops l).pendingFunc)
    (hf : ∀ i, f ≠ .removeConnectionInLoop i) :
    (s.conns f.conn).map ServerConn.loop = some l ∧ turn n f.conn = l := by
  obtain ⟨σ, home, hinv⟩ := h.consistent
  obtain ⟨sc, hsc, hok⟩ := hinv.exists_conn (hinv.queues.each l f hq).present
  have hl : sc.loop = l := hok.loop.trans (hinv.home_of_queued hq hf)
  have hturn := h.turns.loop f.conn
  rw [hsc, Option.map_some, hl] at hturn
  refine ⟨by rw [hsc, Option.map_some, hl], ?_⟩
  split at hturn
  · exact (Option.some.inj hturn).symm
  · cases hturn

/-- With IO loops, only `destroy_connect` from the queue destroys a connection. -/
theorem step_destroyed {act : Act} (h : Lifetime n s) (hn : 0 < n) (hs : s.step act = .ok t)
    (hd : t.Logged i .destroyConnect) : s.Logged i .destroyConnect ∨
      ∃ l, act.execs l ∧ (s.loops l).pendingFunc.head? = some (.destroyConnect i) := by
  cases act with
  | accept fd code =>
    obtain ⟨loop, pool, hloop, hs⟩ := newConnection_eq_ok hs
    obtain ⟨rfl, -, -⟩ := getLoop_turn h.turns.loops h.turns.next hloop
    unfold runInLoop at hs
    rw [if_neg (turn_ne_base hn s.accepted).symm] at hs
    cases hs
    have hd : (s.added (turn n s.accepted) pool fd).Logged i .destroyConnect := hd
    exact .inl (added_logged hd).2
  | event j revents read write code =>
    obtain ⟨sc, hsc, hs⟩ := bind_eq_ok.1 hs
    exact .inl (handleEvent_unlogged rfl (h.turns.ne_base hn (deref_eq_ok hsc)) hs i hd)
  | exec l res code =>
    simp only [step] at hs
    split at hs
    · cases hs
      exact .inl hd
    · rename_i f fs hq
      cases f with
      | removeConnectionInLoop j =>
        obtain ⟨σ, home, hinv⟩ := h.consistent
        obtain ⟨hst, rfl⟩ := hinv.closing_of_queued (l := l) (i := j)
          (by rw [hq]; exact List.mem_cons_self)
        obtain ⟨sc, hsc, -⟩ := hinv.exists_conn (i := j) (by simp [hst])
        exact .inl (removeConnectionInLoop_unlogged (s := s.setPending 0 fs) hsc
          (h.turns.ne_base hn hsc) hs i hd)
      | destroyConnect j =>
        obtain rfl | hne := eq_or_ne i j
        · exact .inr ⟨l, decide_eq_true rfl, by rw [hq]; rfl⟩
        · exact .inl ((destroyConnect_kept (s := s.setPending l fs) hs).logged hne hd)
      | buildConnect j | sendInLoop j data | shutdownInLoop j | pending j g =>
        exact .inl (execute_unlogged (s := s.setPending l fs) rfl (fun k hf => by cases hf)
          (fun k hf => by cases hf) hs i hd)

namespace Threaded

variable {s t : Threaded}

/-! ## Steps -/

/-- What holds between the steps: the connections that are being sent to have been built. -/
structure Sound (n : Nat) (s : Threaded) : Prop where
  lifetime : Lifetime n s.server
  sending : ∀ call ∈ s.sending, s.server.Logged call.1 .buildConnect

/-- What a step of a server with `n` IO loops does to the records and to the queues. -/
structure Stepped (n : Nat) (s : Threaded) (act : Act) (t : Threaded) : Prop where
  logged : ∀ j e, s.server.Logged j e → t.server.Logged j e
  queue : ∀ l, ∃ new, (t.server.loops l).pendingFunc =
    (if act.execs l then (s.server.loops l).pendingFunc.tail else (s.server.loops l).pendingFunc) ++
      new
  destroyed : 0 < n → ∀ i, t.server.Logged i .destroyConnect → s.server.Logged i .destroyConnect ∨
    ∃ l, act.execs l ∧ (s.server.loops l).pendingFunc.head? = some (.destroyConnect i)
  served : ∀ l i, act.execs l → (s.server.loops l).pendingFunc.head? = some (.destroyConnect i) →
    t.server.Logged i .destroyConnect

theorem Stepped.idle {act : Act} (hact : ∀ l, act.execs l = false) (hs : t.server = s.server) :
    Stepped n s act t := by
  refine ⟨fun j e he => ?_, fun l => ⟨[], ?_⟩, fun _ i hd => .inl ?_, fun l i hexec => ?_⟩
  · rwa [hs]
  · rw [hs, hact l]
    simp
  · rwa [hs] at hd
  · rw [hact l] at hexec
    cases hexec

theorem Stepped.queued {act : Act} (hact : ∀ l, act.execs l = false)
    (hs : t.server = s.server.queueInLoop l f) : Stepped n s act t := by
  have hlogged : ∀ j e, t.server.Logged j e ↔ s.server.Logged j e := by
    intro j e
    rw [hs]
    exact Iff.rfl
  refine ⟨fun j e he => (hlogged j e).2 he, fun l' => ?_, fun _ i hd => .inl ((hlogged i _).1 hd),
    fun l' i hexec => ?_⟩
  · rw [hs, hact l', if_neg (by simp)]
    simp only [queueInLoop, setPending, Function.update_apply]
    split
    · rename_i hl
      exact ⟨[f], by rw [hl]⟩
    · exact ⟨[], (List.append_nil _).symm⟩
  · rw [hact l'] at hexec
    cases hexec

theorem server_stepped {act : TcpServer.Act} (h : Lifetime n s.server)
    (hs : s.server.step act = .ok t.server) : Stepped n s (.server act) t := by
  refine ⟨(step_queue h hs 0).1, fun l => (step_queue h hs l).2,
    fun hn i hd => step_destroyed h hn hs hd, fun l i hexec hhead => ?_⟩
  cases act with
  | accept fd code | event j revents read write code => cases hexec
  | exec l' res code =>
    obtain rfl : l' = l := of_decide_eq_true hexec
    obtain ⟨fs, hfs⟩ := List.head?_eq_some_iff.1 hhead
    simp only [TcpServer.step, hfs] at hs
    exact execute_milestone (f := .destroyConnect i) rfl hs

/-- **Step lemma.**  Every admissible step returns and keeps the invariant. -/
theorem step_sound (h : Sound n s) (act : Act) (hadm : s.Admissible act) :
    ∃ t, s.step act = .ok t ∧ Sound n t ∧ Stepped n s act t := by
  cases act with
  | server act =>
    obtain ⟨server, hs, hlife⟩ := step_lifetime act h.lifetime hadm
    have hstepped : Stepped n s (.server act) { s with server } := server_stepped h.lifetime hs
    refine ⟨_, by rw [step, hs]; rfl, ⟨hlife, fun call hcall => ?_⟩, hstepped⟩
    exact hstepped.logged _ _ (h.sending call hcall)
  | send i message =>
    simp only [step]
    split
    · exact ⟨s, rfl, h, .idle (fun _ => rfl) rfl⟩
    · rename_i sc hsc
      split
      · rename_i hst
        refine ⟨_, rfl, ⟨h.lifetime, fun call hcall => ?_⟩, .idle (fun _ => rfl) rfl⟩
        rcases List.mem_append.1 hcall with hcall | hcall
        · exact h.sending call hcall
        · rw [List.mem_singleton.1 hcall]
          exact h.lifetime.built hsc hst
      · exact ⟨s, rfl, h, .idle (fun _ => rfl) rfl⟩
  | queueSend k =>
    simp only [step]
    split
    · exact ⟨s, rfl, h, .idle (fun _ => rfl) rfl⟩
    · rename_i call hk
      have hbuilt := h.sending call (List.mem_of_getElem? hk)
      have ⟨sc, hsc, _⟩ := hbuilt
      have hlife := h.lifetime.queue (f := .sendInLoop call.1 call.2) hsc rfl fun _ => hbuilt
      refine ⟨_, by rw [deref, Option.mem_def.1 hsc]; rfl, ⟨hlife, fun call' hcall' => ?_⟩,
        .queued (fun _ => rfl) rfl⟩
      exact h.sending call' (List.mem_of_mem_eraseIdx hcall')
  | shutdown i =>
    simp only [step]
    split
    · exact ⟨s, rfl, h, .idle (fun _ => rfl) rfl⟩
    · rename_i sc hsc
      have hlife := h.lifetime.queue (f := .shutdownInLoop i) hsc rfl nofun
      exact ⟨_, rfl, ⟨hlife, h.sending⟩, .queued (fun _ => rfl) rfl⟩

/-! ## Runs -/

theorem make_sound (name ipPort : Bytes) (wc : Bool) (numThreads : Nat) :
    Sound numThreads (make name ipPort wc numThreads) := by
  obtain ⟨s, hs, h⟩ := run_lifetime name ipPort wc numThreads [] trivial
  cases hs
  exact ⟨h, fun call hcall => absurd hcall List.not_mem_nil⟩

theorem run_sound {acts : List Act} (h : Sound n s) (hacts : Allowed step Admissible s acts) :
    ∃ t, run step s acts = .ok t ∧ Sound n t := by
  refine run_invariant (fun s act h hadm => ?_) acts s h hacts
  obtain ⟨t, ht, hsound, -⟩ := step_sound h act hadm
  exact ⟨t, ht, hsound⟩

/-- **Release.**  Whatever other threads send and shut down: in every run a connection is kept alive
until `destroy_connect` has run in its loop, so that the events on its channel find it.  From then on
it is as `~TcpConnection` and `~Channel` demand it, and what keeps it alive are callbacks of the user
that are still queued, of which there are none where the server has IO loops. -/
theorem released_once_destroyed (name ipPort : Bytes) (wc : Bool) (numThreads : Nat)
    (acts : List Act) (hacts : Allowed step Admissible (make name ipPort wc numThreads) acts) :
    ∃ s, run step (make name ipPort wc numThreads) acts = .ok s ∧
      ∀ i < s.server.accepted, Released numThreads s.server i := by
  obtain ⟨s, hrun, h⟩ := run_sound (make_sound name ipPort wc numThreads) hacts
  exact ⟨s, hrun, fun i hi => h.lifetime.released hi⟩

/-- `destroy_connect` has run for connection `i`, or it is one of the functors. -/
def Doomed (s : Threaded) (i : Nat) (front : List Functor) : Prop :=
  s.server.Logged i .destroyConnect ∨ .destroyConnect i ∈ front

section Doomed

variable {u v : Threaded} {act : Act} {front : List Functor}

theorem Stepped.destroyed_here (hn : 0 < n) (hu : Sound n u) (h : Stepped n u act v)
    (hd : v.server.Logged i .destroyConnect) : u.server.Logged i .destroyConnect ∨
      act.execs (turn n i) ∧
        (u.server.loops (turn n i)).pendingFunc.head? = some (.destroyConnect i) := by
  obtain hd | ⟨l, hexec, hhead⟩ := h.destroyed hn i hd
  · exact .inl hd
  · have hmem := List.mem_of_mem_head? (Option.mem_def.2 hhead)
    obtain ⟨-, rfl⟩ := hu.lifetime.turn_of_queued hmem (fun j hf => by cases hf)
    exact .inr ⟨hexec, hhead⟩

/-- While the loop of the connection does other things, nothing is decided. -/
theorem Stepped.doomed_wait (hn : 0 < n) (hu : Sound n u) (h : Stepped n u act v)
    (hexec : act.execs (turn n i) = false) : v.Doomed i front ↔ u.Doomed i front := by
  refine or_congr_left ⟨fun hd => ?_, h.logged i _⟩
  obtain hd | ⟨hexec', -⟩ := h.destroyed_here hn hu hd
  · exact hd
  · rw [hexec] at hexec'
    cases hexec'

/-- The loop of the connection executes the first functor. -/
theorem Stepped.doomed_served (hn : 0 < n) (hu : Sound n u) (h : Stepped n u act v)
    (hexec : act.execs (turn n i)) {x : Functor}
    (hx : (u.server.loops (turn n i)).pendingFunc.head? = some x) :
    v.Doomed i front ↔ u.Doomed i (x :: front) := by
  constructor
  · rintro (hd | hmem)
    · obtain hd | ⟨-, hhead⟩ := h.destroyed_here hn hu hd
      · exact .inl hd
      · rw [hx] at hhead
        exact .inr (Option.some.inj hhead ▸ List.mem_cons_self)
    · exact .inr (List.mem_cons_of_mem x hmem)
  · rintro (hd | hmem)
    · exact .inl (h.logged i _ hd)
    · rcases List.mem_cons.1 hmem with rfl | hmem
      · exact .inl (h.served _ i hexec hx)
      · exact .inr hmem

end Doomed

/-- **A queued functor reaches the front** when its loop has executed what was in front of it.  Its
connection is destroyed then if it was before or if `destroy_connect` was in front of the functor. -/
theorem run_to_front (hn : 0 < n) (h : Sound n s) {acts : List Act}
    (hacts : Allowed step Admissible s acts) {front back : List Functor}
    (hq : (s.server.loops l).pendingFunc = front ++ f :: back) (hthis : f.bindsThis)
    (hcount : acts.countP (Act.execs l) = front.length) :
    ∃ t fs, run step s acts = .ok t ∧ Sound n t ∧ (t.server.loops l).pendingFunc = f :: fs ∧
      (t.server.Logged f.conn .destroyConnect ↔ s.Doomed f.conn front) := by
  have hf : ∀ i, f ≠ .removeConnectionInLoop i := by
    rintro i rfl
    cases hthis
  obtain ⟨-, rfl⟩ := h.lifetime.turn_of_queued (l := l) (f := f) (by simp [hq]) hf
  have hstep : ∀ (u : Threaded) act, Sound n u → u.Admissible act →
      ∃ v, u.step act = .ok v ∧ Sound n v ∧
        (∃ new, (v.server.loops (turn n f.conn)).pendingFunc = (if act.execs (turn n f.conn) then
          (u.server.loops (turn n f.conn)).pendingFunc.tail else
          (u.server.loops (turn n f.conn)).pendingFunc) ++ new) ∧
        (act.execs (turn n f.conn) = false → ∀ ahead : List Functor,
          (u.Doomed f.conn ahead ↔ s.Doomed f.conn front) →
          (v.Doomed f.conn ahead ↔ s.Doomed f.conn front)) ∧
        (act.execs (turn n f.conn) → ∀ x ahead,
          (u.server.loops (turn n f.conn)).pendingFunc.head? = some x →
          (u.Doomed f.conn (x :: ahead) ↔ s.Doomed f.conn front) →
          (v.Doomed f.conn ahead ↔ s.Doomed f.conn front)) := by
    intro u act hu hadm
    obtain ⟨v, hv, hsound, hstepped⟩ := step_sound hu act hadm
    refine ⟨v, hv, hsound, hstepped.queue _, fun hexec ahead hahead => ?_,
      fun hexec x ahead hx hahead => ?_⟩
    · exact (hstepped.doomed_wait hn hu hexec).trans hahead
    · exact (hstepped.doomed_served hn hu hexec hx).trans hahead
  obtain ⟨t, fs, ht, hsound, hfront, hdoomed⟩ :=
    run_reaches (Q := fun ahead u => u.Doomed f.conn ahead ↔ s.Doomed f.conn front) hstep acts s
      front back h hacts hq Iff.rfl hcount
  refine ⟨t, fs, ht, hsound, hfront, Iff.trans ⟨.inl, fun hd => ?_⟩ hdoomed⟩
  exact hd.resolve_right List.not_mem_nil

/-- The last functor of a queue has `destroy_connect` in front of it if the connection was removed. -/
theorem Sound.doomed_iff_removed (h : Sound n s) {front : List Functor}
    (hq : (s.server.loops l).pendingFunc = front ++ [f]) (hthis : f.bindsThis) :
    s.Doomed f.conn front ↔ s.server.Logged f.conn .removeConnectionInLoop := by
  have hf : ∀ i, f ≠ .removeConnectionInLoop i ∧ f ≠ .destroyConnect i := by
    refine fun i => ⟨?_, ?_⟩
    · rintro rfl
      cases hthis
    · rintro rfl
      cases hthis
  obtain ⟨hloop, -⟩ :=
    h.lifetime.turn_of_queued (l := l) (f := f) (by simp [hq]) fun i => (hf i).1
  constructor
  · obtain ⟨σ, home, hinv⟩ := h.lifetime.consistent
    rintro (hd | hmem)
    · exact hinv.removed_iff.2 (.inr (hinv.destroyed_iff.1 hd))
    · have hmem : .destroyConnect f.conn ∈ (s.server.loops l).pendingFunc := by
        rw [hq]
        exact List.mem_append_left _ hmem
      exact hinv.removed_iff.2 (.inl (hinv.removed_of_queued hmem).1)
  · intro hremoved
    obtain hd | hmem := h.lifetime.destroy_queued hloop hremoved
    · exact .inl hd
    · rw [hq] at hmem
      rcases List.mem_append.1 hmem with hmem | hmem
      · exact .inr hmem
      · exact absurd (List.mem_singleton.1 hmem).symm (hf f.conn).2

/-- **Plain pointers.**  Take a server with IO loops, whatever threads send and shut down, and a run
cut in two.  A functor that binds `this` and is queued at the cut comes to the front when its loop has
executed what was in front of it.  Something owns its connection then if and only if, at the cut,
`destroy_connect` had not run and was not in front of it; for a functor that has just been queued, this
is to say that `remove_connection_in_loop` had not run. -/
theorem this_owned_iff (name ipPort : Bytes) (wc : Bool) (numThreads : Nat) (hn : 0 < numThreads)
    (acts₁ acts₂ : List Act)
    (hacts : Allowed step Admissible (make name ipPort wc numThreads) (acts₁ ++ acts₂)) :
    ∃ s₁ s₂, run step (make name ipPort wc numThreads) acts₁ = .ok s₁ ∧
      run step s₁ acts₂ = .ok s₂ ∧
      ∀ l front f back, (s₁.server.loops l).pendingFunc = front ++ f :: back → f.bindsThis →
        acts₂.countP (Act.execs l) = front.length →
        ∃ fs, (s₂.server.loops l).pendingFunc = f :: fs ∧
          ((s₂.server.setPending l fs).Owned f.conn ↔
            ¬ s₁.server.Logged f.conn .destroyConnect ∧ .destroyConnect f.conn ∉ front) ∧
          (back = [] → ((s₂.server.setPending l fs).Owned f.conn ↔
            ¬ s₁.server.Logged f.conn .removeConnectionInLoop)) := by
  obtain ⟨s₁, hs₁, h₁⟩ := run_sound (make_sound name ipPort wc numThreads) hacts.append_left
  have hacts₂ := hacts.append_right hs₁
  obtain ⟨s₂, hs₂, -⟩ := run_sound h₁ hacts₂
  refine ⟨s₁, s₂, hs₁, hs₂, fun l front f back hq hthis hcount => ?_⟩
  obtain ⟨t, fs, ht, hsound, hfront, hdestroyed⟩ := run_to_front hn h₁ hacts₂ hq hthis hcount
  obtain rfl : s₂ = t := Except.ok.inj (hs₂.symm.trans ht)
  have hmem : f ∈ (s₂.server.loops l).pendingFunc := by rw [hfront]; exact List.mem_cons_self
  obtain ⟨σ, home, hinv⟩ := hsound.lifetime.consistent
  have hi : f.conn < s₂.server.accepted :=
    hinv.conns.bound _ (hinv.queues.each l f hmem).present
  have hreleased := hsound.lifetime.released hi
  have howned : (s₂.server.setPending l fs).Owned f.conn ↔ ¬ s₁.Doomed f.conn front := by
    rw [owned_setPending_iff hfront hthis, ← hdestroyed]
    exact ⟨fun howned hd => hreleased.gone hd hn howned, hreleased.alive⟩
  refine ⟨fs, hfront, howned.trans not_or, ?_⟩
  rintro rfl
  exact howned.trans (not_congr (h₁.doomed_iff_removed hq hthis))

/-- Two IO loops.  A thread finds the connection `CONNECTED`, which then closes and is removed, before
the thread queues its functor; another one shuts it down. -/
def sampleLate : List Act :=
  [.server (.accept 7 fun _ => []),
    .server (.exec 1 (.wrote 0) fun _ => []),
    .send 0 [1],
    .server (.event 0 { noEvents with pollhup := true } (.data []) (.wrote 0) fun _ => []),
    .server (.exec 0 (.wrote 0) fun _ => []),
    .queueSend 0,
    .shutdown 0,
    .server (.exec 1 (.wrote 0) fun _ => [])]

/-- In the end `send_in_loop_` is at the front of the queue, and `destroy_connect` has run. -/
example : (run step (make (str "server") (str "0.0.0.0:80") true 2) sampleLate).map
    (fun s => ((s.server.loops 1).pendingFunc,
      (s.server.conns 0).map fun sc => sc.life.getLast?)) =
    .ok ([.sendInLoop 0 [1], .shutdownInLoop 0], some (some .destroyConnect)) := by decide +kernel

theorem sampleLate_allowed :
    Allowed step Admissible (make (str "server") (str "0.0.0.0:80") true 2) sampleLate := by
  decide +kernel

theorem released_once_destroyed_sample :
    ∃ s, run step (make (str "server") (str "0.0.0.0:80") true 2) sampleLate = .ok s ∧
      ∀ i < s.server.accepted, Released 2 s.server i :=
  released_once_destroyed (str "server") (str "0.0.0.0:80") true 2 sampleLate sampleLate_allowed

/-- The run, cut where the thread has queued its functor. -/
theorem this_owned_iff_sample :
    ∃ s₁ s₂,
      run step (make (str "server") (str "0.0.0.0:80") true 2) (sampleLate.take 6) = .ok s₁ ∧
      run step s₁ (sampleLate.drop 6) = .ok s₂ ∧
      ∀ l front f back, (s₁.server.loops l).pendingFunc = front ++ f :: back → f.bindsThis →
        (sampleLate.drop 6).countP (Act.execs l) = front.length →
        ∃ fs, (s₂.server.loops l).pendingFunc = f :: fs ∧
          ((s₂.server.setPending l fs).Owned f.conn ↔
            ¬ s₁.server.Logged f.conn .destroyConnect ∧ .destroyConnect f.conn ∉ front) ∧
          (back = [] → ((s₂.server.setPending l fs).Owned f.conn ↔
            ¬ s₁.server.Logged f.conn .removeConnectionInLoop)) :=
  this_owned_iff (str "server") (str "0.0.0.0:80") true 2 (by decide) (sampleLate.take 6)
    (sampleLate.drop 6) sampleLate_allowed

end Threaded

end TcpServer
