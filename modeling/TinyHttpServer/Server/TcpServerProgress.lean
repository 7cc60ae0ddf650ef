import TinyHttpServer.Server.TcpServerLifetime

/-!
# Opening and closing go through

The functors that open, remove and destroy a connection wait in the queues of two loops.  The queues are
served in order, so that a functor runs when its loop has executed as many functors as there were in the
queue, whatever else happens in the meantime.

* `execute_milestone` — what the execution of such a functor leaves in the record of the connection.
* `closed_gets_destroyed` — an accepted connection is built, and a closed one destroyed, within a number
  of functors that is known in advance.
-/

set_option autoImplicit false

open Checked Machine Epoller TcpConnection DueMessages

namespace TcpServer

/-- Loop `l` executes a functor. -/
def Act.execs (l : Nat) : Act → Bool
  | .exec l' _ _ => l' = l
  | _ => false

/-- The entry that a functor makes in the record of its connection. -/
def Functor.milestone : Functor → Option LifeEvent
  | .buildConnect _ => some .buildConnect
  | .removeConnectionInLoop _ => some .removeConnectionInLoop
  | .destroyConnect _ => some .destroyConnect
  | _ => none

variable {s t : TcpServer} {i l n cur : Nat} {code : UserCode} {e : LifeEvent}

theorem onConn_logged {entry : List LifeEvent} {op : TcpConnection → Checked TcpConnection}
    (he : e ∈ entry) (h : s.onConn cur i entry op = .ok t) : t.Logged i e := by
  obtain ⟨sc, c, -, -, rfl⟩ := onConn_eq_ok h
  refine ⟨_, Function.update_self .., ?_⟩
  exact List.mem_append_right _ (List.mem_append_left _ he)

theorem note_logged (h : s.note i e = .ok t) : t.Logged i e := by
  obtain ⟨sc, -, h⟩ := bind_eq_ok.1 h
  cases h
  refine ⟨_, Function.update_self .., ?_⟩
  exact List.mem_append_right _ (List.mem_append_left _ List.mem_cons_self)

/-- **A functor that changes a stage** makes its entry. -/
theorem execute_milestone {res : WriteResult} {f : Functor} (hf : f.milestone = some e)
    (h : s.execute cur res code f = .ok t) : t.Logged f.conn e := by
  cases f with
  | buildConnect i =>
    cases hf
    obtain ⟨s₁, hs₁, h⟩ := bind_eq_ok.1 h
    exact (userCalls_grown h).logged i _ (onConn_logged List.mem_cons_self hs₁)
  | removeConnectionInLoop i =>
    cases hf
    obtain ⟨-, -, h⟩ := bind_eq_ok.1 h
    obtain ⟨sc, -, h⟩ := bind_eq_ok.1 h
    obtain ⟨-, -, h⟩ := bind_eq_ok.1 h
    obtain ⟨s₁, hs₁, h⟩ := bind_eq_ok.1 h
    have hg : Grown s₁ t :=
      runInLoop_grown (.of_not_callback rfl) (fun _ ht => destroyConnect_grown ht) h
    exact hg.logged i _ (note_logged hs₁)
  | destroyConnect i =>
    cases hf
    obtain ⟨sc, -, h⟩ := bind_eq_ok.1 h
    obtain ⟨s₁, -, h⟩ := bind_eq_ok.1 h
    exact onConn_logged List.mem_cons_self h
  | sendInLoop i data | shutdownInLoop i | pending i g => cases hf

/-! ## Steps -/

/-- What a step does to the records and to the queue of loop `l`. -/
theorem step_queue (h : Lifetime n s) {act : Act} (hs : s.step act = .ok t) (l : Nat) :
    (∀ j e, s.Logged j e → t.Logged j e) ∧
      ∃ new, (t.loops l).pendingFunc =
        (if act.execs l then (s.loops l).pendingFunc.tail else (s.loops l).pendingFunc) ++ new := by
  cases act with
  | accept fd code =>
    obtain ⟨loop, pool, -, hs⟩ := newConnection_eq_ok hs
    have hg := added_grown hs
    obtain ⟨new, hnew, -⟩ := hg.queues l
    refine ⟨fun j e hlog => hg.logged j e ?_, new, hnew⟩
    have hne : j ≠ s.accepted := by
      rintro rfl
      obtain ⟨sc, hsc, -⟩ := hlog
      rw [h.turns.absent] at hsc
      cases hsc
    simpa [Logged, added, Function.update_of_ne hne] using hlog
  | event i revents read write code =>
    obtain ⟨sc, -, hs⟩ := bind_eq_ok.1 hs
    have hg : Grown s t := handleEvent_grown hs
    obtain ⟨new, hnew, -⟩ := hg.queues l
    exact ⟨hg.logged, new, hnew⟩
  | exec l' res code =>
    simp only [step] at hs
    split at hs
    · rename_i hq
      cases hs
      refine ⟨fun _ _ he => he, [], ?_⟩
      by_cases hl : l' = l
      · rw [← hl, hq]
        simp
      · simp [Act.execs, hl]
    · rename_i f fs hq
      have hg : Grown (s.setPending l' fs) t := execute_grown hs
      obtain ⟨new, hnew, -⟩ := hg.queues l
      refine ⟨hg.logged, new, hnew.trans ?_⟩
      by_cases hl : l' = l
      · rw [← hl, hq]
        simp [Act.execs, setPending]
      · simp [Act.execs, hl, setPending, Function.update_of_ne (Ne.symm hl)]

theorem step_keeps_record (act : Act) (h : Lifetime n s ∧ s.Logged i e) (hadm : s.Admissible act) :
    ∃ t, s.step act = .ok t ∧ Lifetime n t ∧ t.Logged i e := by
  obtain ⟨t, ht, hlife⟩ := step_lifetime act h.1 hadm
  exact ⟨t, ht, hlife, (step_queue h.1 ht 0).1 i e h.2⟩

/-- **A queued functor is executed** when its loop executes as many functors as its queue holds, and it
leaves its entry. -/
theorem run_milestone (h : Lifetime n s) {f : Functor} (hf : f.milestone = some e)
    (hq : s.Logged f.conn e ∨ f ∈ (s.loops l).pendingFunc) {acts : List Act}
    (hacts : Allowed step Admissible s acts)
    (hexecs : (s.loops l).pendingFunc.length ≤ acts.countP (Act.execs l)) :
    ∃ t, run step s acts = .ok t ∧ Lifetime n t ∧ t.Logged f.conn e := by
  rcases hq with hlog | hq
  · exact run_invariant (fun _ act h hadm => step_keeps_record act h hadm) acts s ⟨h, hlog⟩ hacts
  have hstep : ∀ s act, Lifetime n s → s.Admissible act → ∃ t, s.step act = .ok t ∧ Lifetime n t ∧
      (s.Logged f.conn e → t.Logged f.conn e) ∧
      (∃ new, (t.loops l).pendingFunc =
        (if act.execs l then (s.loops l).pendingFunc.tail else (s.loops l).pendingFunc) ++ new) ∧
      (act.execs l → (s.loops l).pendingFunc.head? = some f → t.Logged f.conn e) := by
    intro s act h hadm
    obtain ⟨t, ht, hlife⟩ := step_lifetime act h hadm
    obtain ⟨hlog, hqueue⟩ := step_queue h ht l
    refine ⟨t, ht, hlife, hlog f.conn e, hqueue, fun hexec hhead => ?_⟩
    cases act with
    | accept fd code => cases hexec
    | event i revents read write code => cases hexec
    | exec l' res code =>
      obtain rfl : l' = l := of_decide_eq_true hexec
      obtain ⟨fs, hfs⟩ := List.head?_eq_some_iff.1 hhead
      simp only [step, hfs] at ht
      exact execute_milestone hf ht
  obtain ⟨front, back, hsplit⟩ := List.append_of_mem hq
  refine run_serves hstep acts s front back h hacts hsplit ?_
  rw [hsplit, List.length_append, List.length_cons] at hexecs
  omega

/-! ## Runs -/

theorem Lifetime.build_queued (h : Lifetime n s) (hi : (s.conns i).map ServerConn.loop = some l) :
    s.Logged i .buildConnect ∨ .buildConnect i ∈ (s.loops l).pendingFunc := by
  obtain ⟨σ, home, hinv⟩ := h.consistent
  obtain ⟨sc, hsc, rfl⟩ := Option.map_eq_some_iff.1 hi
  have hbuilt := (hinv.connection hsc).2.2.1
  split at hbuilt
  · rename_i hmem
    exact .inl ⟨sc, hsc, hmem⟩
  · exact .inr hbuilt

theorem Lifetime.remove_queued (h : Lifetime n s)
    (hclosed : s.Logged i (.connectionCb .disconnected)) :
    s.Logged i .removeConnectionInLoop ∨ .removeConnectionInLoop i ∈ (s.loops 0).pendingFunc := by
  obtain ⟨σ, home, hinv⟩ := h.consistent
  rw [hinv.logged_iff (by simp)] at hclosed ⊢
  cases hst : σ i with
  | absent | accepted | opened =>
    rw [hst] at hclosed
    simp [milestones] at hclosed
  | closing =>
    have hdue : due i (home i) (σ i) = some (0, .removeConnectionInLoop i) := by rw [hst]; rfl
    exact .inr (hinv.queues.once.mem rfl nofun hdue)
  | removed | destroyed => exact .inl (by simp [milestones])

theorem Lifetime.destroy_queued (h : Lifetime n s) (hi : (s.conns i).map ServerConn.loop = some l)
    (hremoved : s.Logged i .removeConnectionInLoop) :
    s.Logged i .destroyConnect ∨ .destroyConnect i ∈ (s.loops l).pendingFunc := by
  obtain ⟨σ, home, hinv⟩ := h.consistent
  obtain ⟨sc, hsc, rfl⟩ := Option.map_eq_some_iff.1 hi
  rcases hinv.removed_iff.1 hremoved with hst | hst
  · have hdue : due i (home i) (σ i) = some (sc.loop, .destroyConnect i) := by
      rw [hst, (hinv.conns.each i sc hsc).loop]
      rfl
    exact .inr (hinv.queues.once.mem rfl nofun hdue)
  · exact .inl (hinv.destroyed_iff.2 hst)

/-- A connection stays in its loop. -/
theorem Lifetime.loop_eq (h : Lifetime n s) (ht : Lifetime n t) (hle : t.Logged i e)
    (hi : (s.conns i).map ServerConn.loop = some l) : (t.conns i).map ServerConn.loop = some l := by
  obtain ⟨sc, hsc, -⟩ := hle
  have hs := h.turns.loop i
  have hloop := ht.turns.loop i
  rw [hi] at hs
  rw [Option.mem_def.1 hsc] at hloop ⊢
  split at hs
  · split at hloop
    · exact hloop.trans hs.symm
    · cases hloop
  · cases hs

/-- **Opening and closing go through.**  Cut any run into three parts.  A connection that the first part
has accepted is built when its loop has executed as many functors in the second part as its queue
held at the beginning of it.  A connection that the first part has closed is destroyed when the base loop
has worked off in the second part what was in its queue, and the loop of the connection in the third. -/
theorem closed_gets_destroyed (name ipPort : Bytes) (wc : Bool) (numThreads : Nat)
    (acts₁ acts₂ acts₃ : List Act)
    (hacts : Allowed step Admissible (make name ipPort wc numThreads) (acts₁ ++ acts₂ ++ acts₃)) :
    ∃ s₁ s₂ s₃, run step (make name ipPort wc numThreads) acts₁ = .ok s₁ ∧
      run step s₁ acts₂ = .ok s₂ ∧ run step s₂ acts₃ = .ok s₃ ∧
      ∀ i l, (s₁.conns i).map ServerConn.loop = some l →
        ((s₁.loops l).pendingFunc.length ≤ acts₂.countP (Act.execs l) →
          s₂.Logged i .buildConnect) ∧
        (s₁.Logged i (.connectionCb .disconnected) →
          (s₁.loops 0).pendingFunc.length ≤ acts₂.countP (Act.execs 0) →
          (s₂.loops l).pendingFunc.length ≤ acts₃.countP (Act.execs l) →
          s₃.Logged i .destroyConnect) := by
  have hacts₁₂ := hacts.append_left
  obtain ⟨s₁, hs₁, h₁⟩ := run_lifetime name ipPort wc numThreads acts₁ hacts₁₂.append_left
  have hacts₂ := hacts₁₂.append_right hs₁
  obtain ⟨s₂, hs₂, h₂⟩ :=
    run_invariant (fun s act h hadm => step_lifetime act h hadm) acts₂ s₁ h₁ hacts₂
  have hs₁₂ : run step (make name ipPort wc numThreads) (acts₁ ++ acts₂) = .ok s₂ := by
    rw [run_append, hs₁, ok_bind, hs₂]
  have hacts₃ := hacts.append_right hs₁₂
  obtain ⟨s₃, hs₃, h₃⟩ :=
    run_invariant (fun s act h hadm => step_lifetime act h hadm) acts₃ s₂ h₂ hacts₃
  refine ⟨s₁, s₂, s₃, hs₁, hs₂, hs₃, fun i l hi => ⟨fun hexecs => ?_, fun hclosed hbase hexecs => ?_⟩⟩
  · obtain ⟨t, ht, -, hlog⟩ :=
      run_milestone (f := .buildConnect i) h₁ rfl (h₁.build_queued hi) hacts₂ hexecs
    rw [hs₂] at ht
    cases ht
    exact hlog
  · obtain ⟨t, ht, -, hremoved⟩ :=
      run_milestone (f := .removeConnectionInLoop i) h₁ rfl (h₁.remove_queued hclosed) hacts₂ hbase
    rw [hs₂] at ht
    cases ht
    have hi₂ := h₁.loop_eq h₂ hremoved hi
    obtain ⟨u, hu, -, hlog⟩ :=
      run_milestone (f := .destroyConnect i) h₂ rfl (h₂.destroy_queued hi₂ hremoved) hacts₃ hexecs
    rw [hs₃] at hu
    cases hu
    exact hlog

/-- Two connections in two IO loops.  The second sends to the first, which closes, and later shuts it
down, behind its `destroy_connect`. -/
def sampleCross : List Act :=
  [.accept 7 fun _ => [],
    .accept 8 fun _ => [],
    .exec 1 (.wrote 0) fun _ => [],
    .exec 2 (.wrote 0) fun _ => [.send 0 [1] (.wrote 1)],
    .event 0 { noEvents with pollhup := true } (.data []) (.wrote 0) fun _ => [],
    .exec 0 (.wrote 0) fun _ => [],
    .event 1 { noEvents with pollin := true } (.data [2]) (.wrote 0) fun _ =>
      [.send 0 [3] (.wrote 1), .shutdown 0],
    .exec 1 (.wrote 0) fun _ => [],
    .exec 1 (.wrote 0) fun _ => []]

theorem sampleCross_allowed :
    Allowed step Admissible (make (str "server") (str "0.0.0.0:80") true 2) sampleCross := by
  decide +kernel

/-- The run of two connections, cut where the first is closed and where its `destroy_connect` is
queued. -/
theorem closed_gets_destroyed_sample :
    ∃ s₁ s₂ s₃,
      run step (make (str "server") (str "0.0.0.0:80") true 2) (sampleCross.take 5) = .ok s₁ ∧
      run step s₁ ((sampleCross.drop 5).take 1) = .ok s₂ ∧
      run step s₂ (sampleCross.drop 6) = .ok s₃ ∧
      ∀ i l, (s₁.conns i).map ServerConn.loop = some l →
        ((s₁.loops l).pendingFunc.length ≤ ((sampleCross.drop 5).take 1).countP (Act.execs l) →
          s₂.Logged i .buildConnect) ∧
        (s₁.Logged i (.connectionCb .disconnected) →
          (s₁.loops 0).pendingFunc.length ≤ ((sampleCross.drop 5).take 1).countP (Act.execs 0) →
          (s₂.loops l).pendingFunc.length ≤ (sampleCross.drop 6).countP (Act.execs l) →
          s₃.Logged i .destroyConnect) :=
  closed_gets_destroyed (str "server") (str "0.0.0.0:80") true 2 (sampleCross.take 5)
    ((sampleCross.drop 5).take 1) (sampleCross.drop 6) sampleCross_allowed

end TcpServer
