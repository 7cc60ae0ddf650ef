import TinyHttpServer.Server.TcpConnectionShutdown

/-!
# Forced close of a TCP connection

`force_close` sets the status to `DISCONNECTING` and queues `force_close_in_loop_`, which tests whether
the status is `CONNECTED` and `CONNECTING` at once.  The functor never closes anything.

* `Closure` — what a run makes of a connection: open, or closed and reading or not reading; `follow` is
  the effect of a step.
* `step_closure` — every step has this effect, and `close_cb_` is called once with the close.
* `force_close_iff` — the connection is closed when the functor has been executed exactly if the peer
  closed it before.
-/

set_option autoImplicit false

open Checked Machine

namespace TcpConnection

/-! ## Open and closed -/

/-- Whether a connection is closed, and if so, whether its channel is enabled for reading. -/
abbrev Closure := Option Bool

/-- The effect of a step: a hangup, and a read that meets the end of the stream, call `handle_close_`,
which disables the channel; in a closed connection `start_read` and `stop_read` act all the same. -/
def follow (o : Closure) : Step → Closure
  | .handleClose => some false
  | .handleRead (.data []) => some false
  | .startRead => o.map fun _ => true
  | .stopRead => o.map fun _ => false
  | _ => o

variable {c c' : TcpConnection}

def closure (c : TcpConnection) : Closure :=
  if c.status = .disconnected then some c.channel.events.read else none

/-- A closed connection does not write, and `close_cb_` has been called exactly in closed connections,
once. -/
structure ClosedOnce (c : TcpConnection) : Prop where
  silent : c.status = .disconnected → c.channel.events.write = false
  calls : c.invoked.count .close = if c.status = .disconnected then 1 else 0

theorem closure_eq_some {b : Bool} :
    c.closure = some b ↔ c.status = .disconnected ∧ c.channel.events.read = b := by
  unfold closure
  split
  · rename_i h
    rw [Option.some_inj, and_iff_right h]
  · rename_i h
    exact iff_of_false (by simp) fun hand => h hand.1

/-- The channel of a closed connection has no enabled events exactly if it does not read. -/
theorem ClosedOnce.none_iff (h : c.ClosedOnce) (hst : c.status = .disconnected) :
    c.channel.events = .none ↔ c.channel.events.read = false := by
  have hw := h.silent hst
  constructor
  · intro hev
    rw [hev]
    rfl
  · intro hr
    calc c.channel.events = ⟨c.channel.events.read, c.channel.events.write⟩ := rfl
      _ = .none := by rw [hr, hw]; rfl

/-! ## The functions -/

theorem handleClose_eq_ok (h : c.handleClose = .ok c') :
    c.status ≠ .disconnected ∧ ∃ p ch, ch.events = .none ∧
      c' = { c with status := .disconnected, poller := p, channel := ch,
                    invoked := c.invoked ++ [.connection] ++ [.close] } := by
  unfold handleClose at h
  rw [bind_eq_ok] at h
  obtain ⟨_, hreq, h⟩ := h
  simp only at h
  rw [bind_eq_ok] at h
  obtain ⟨d, hd, h⟩ := h
  obtain ⟨p, ch, rfl, hev⟩ := onChannel_setEvents (f := fun _ => .none) hd
  cases h
  refine ⟨?_, p, ch, hev, rfl⟩
  rcases require_eq_ok.1 hreq with hst | hst
  · rw [hst]; nofun
  · rw [hst]; nofun

theorem remove_eq_ok (h : c.onChannel Channel.remove = .ok c') :
    c.channel.events = .none ∧ ∃ p ch, c' = { c with poller := p, channel := ch } ∧
      ch.events = c.channel.events ∧ ch.status = .new := by
  obtain ⟨p, ch, hop, rfl⟩ := onChannel_eq_ok h
  unfold Channel.remove Epoller.removeChannel at hop
  rw [bind_eq_ok] at hop
  obtain ⟨_, hreq, hop⟩ := hop
  simp only at hop
  rw [bind_eq_ok] at hop
  obtain ⟨_, _, hop⟩ := hop
  cases hop
  exact ⟨by simpa [Channel.isNoneEvent] using require_eq_ok.1 hreq, _, _, rfl, rfl, rfl⟩

/-- **`start_read_in_loop_`** reads afterwards, whatever the status. -/
theorem startReadInLoop_reads (h : c.startReadInLoop = .ok c') :
    c'.channel.events = { c.channel.events with read := true } ∧ c'.status = c.status ∧
      c'.invoked = c.invoked ∧ c'.pendingFunc = c.pendingFunc := by
  obtain ⟨rfl, hread⟩ | ⟨p, ch, rfl, hev⟩ := startReadInLoop_eq_ok h
  · refine ⟨?_, rfl, rfl, rfl⟩
    rw [← show c'.channel.events.read = true from hread]
  · exact ⟨hev, rfl, rfl, rfl⟩

/-- **`stop_read_in_loop_`** does not read afterwards. -/
theorem stopReadInLoop_stops (h : c.stopReadInLoop = .ok c') :
    c'.channel.events = { c.channel.events with read := false } ∧ c'.status = c.status ∧
      c'.invoked = c.invoked ∧ c'.pendingFunc = c.pendingFunc := by
  obtain ⟨rfl, hread⟩ | ⟨p, ch, rfl, hev⟩ := stopReadInLoop_eq_ok h
  · refine ⟨?_, rfl, rfl, rfl⟩
    rw [← show c'.channel.events.read = false from hread]
  · exact ⟨hev, rfl, rfl, rfl⟩

/-- **`destroy_connect`** never makes the status `DISCONNECTED`. -/
theorem destroyConnect_status (h : c.destroyConnect = .ok c') :
    c'.invoked.count .close = c.invoked.count .close ∧ c'.pendingFunc = c.pendingFunc ∧
      if c.status = .disconnected then
        c'.status = .disconnected ∧ c'.channel.events = c.channel.events
      else c'.status ≠ .disconnected := by
  unfold destroyConnect at h
  rw [bind_eq_ok] at h
  obtain ⟨d, hd, h⟩ := h
  obtain ⟨-, p, ch, rfl, hev, -⟩ := remove_eq_ok h
  split at hd
  · rename_i hconn
    simp only at hd
    rw [bind_eq_ok] at hd
    obtain ⟨e, he, hd⟩ := hd
    cases hd
    obtain ⟨_, _, _, rfl⟩ := onChannel_eq_ok he
    refine ⟨by simp [invoke], rfl, ?_⟩
    rw [if_neg (by simp [hconn])]
    show Status.disconnecting ≠ .disconnected
    simp
  · cases hd
    refine ⟨rfl, rfl, ?_⟩
    split
    · rename_i hst
      exact ⟨hst, hev⟩
    · rename_i hst
      exact hst

/-- A queued functor calls its callback and nothing else. -/
theorem dopendingFunc_effect (h : c.step .dopendingFunc = .ok c') :
    c'.status = c.status ∧ c'.channel = c.channel ∧ c'.pendingFunc = c.pendingFunc.tail ∧
      c'.invoked.count .close = c.invoked.count .close := by
  simp only [step] at h
  split at h
  · rename_i hnil
    cases h
    exact ⟨rfl, rfl, by rw [hnil]; rfl, rfl⟩
  · rename_i f fs hcons
    rw [hcons, List.tail_cons]
    cases f with
    | writeComplete => cases h; exact ⟨rfl, rfl, rfl, by simp [invoke]⟩
    | highWaterMark len => cases h; exact ⟨rfl, rfl, rfl, by simp [invoke]⟩
    | forceCloseInLoop =>
      rw [runFunctor, forceCloseInLoop_eq] at h
      cases h
      exact ⟨rfl, rfl, rfl, rfl⟩

/-! ## Steps and runs -/

/-- Nothing that matters for the close has changed. -/
theorem ClosedOnce.frame (h : c.ClosedOnce) (hst : c'.status = c.status)
    (hev : c.status = .disconnected → c'.channel.events = c.channel.events)
    (hcalls : c'.invoked.count .close = c.invoked.count .close) :
    c'.ClosedOnce ∧ c'.closure = c.closure := by
  refine ⟨⟨fun hd => ?_, ?_⟩, ?_⟩
  · rw [hst] at hd
    rw [hev hd]
    exact h.silent hd
  · rw [hst, hcalls]
    exact h.calls
  · unfold closure
    rw [hst]
    split
    · rename_i hd
      rw [hev hd]
    · rfl

/-- The connection is open, before and after. -/
theorem ClosedOnce.stillOpen (h : c.ClosedOnce) (hst : c.status ≠ .disconnected)
    (hst' : c'.status ≠ .disconnected)
    (hcalls : c'.invoked.count .close = c.invoked.count .close) :
    c'.ClosedOnce ∧ c'.closure = c.closure := by
  refine ⟨⟨fun hd => absurd hd hst', ?_⟩, ?_⟩
  · rw [hcalls, h.calls, if_neg hst, if_neg hst']
  · unfold closure
    rw [if_neg hst, if_neg hst']

theorem Touched.closedOnce (ht : Touched c c') (h : c.ClosedOnce) (hst : c.status ≠ .disconnected) :
    c'.ClosedOnce ∧ c'.closure = c.closure :=
  h.stillOpen hst (ht.status ▸ hst) (by rw [ht.invoked])

theorem handleClose_closure (h : c.ClosedOnce) (hc : c.handleClose = .ok c') :
    c'.ClosedOnce ∧ c'.closure = some false := by
  obtain ⟨hst, p, ch, hev, rfl⟩ := handleClose_eq_ok hc
  have hcalls := h.calls
  rw [if_neg hst] at hcalls
  refine ⟨⟨fun _ => by rw [hev]; rfl, ?_⟩, closure_eq_some.2 ⟨rfl, by rw [hev]; rfl⟩⟩
  simp [hcalls]

/-- A change of the read interest, by `start_read` or `stop_read`. -/
theorem ClosedOnce.setRead {b : Bool} (h : c.ClosedOnce)
    (hc : c'.channel.events = { c.channel.events with read := b } ∧ c'.status = c.status ∧
      c'.invoked = c.invoked ∧ c'.pendingFunc = c.pendingFunc) :
    c'.ClosedOnce ∧ c'.closure = c.closure.map fun _ => b := by
  obtain ⟨hev, hst, hinv, -⟩ := hc
  refine ⟨⟨fun hd => ?_, ?_⟩, ?_⟩
  · rw [hev]
    exact h.silent (hst ▸ hd)
  · rw [hst, hinv]
    exact h.calls
  · unfold closure
    rw [hst, hev]
    split <;> rfl

/-- **One step.** -/
theorem step_closure {s : Step} (h : c.ClosedOnce) (hs : c.step s = .ok c') :
    c'.ClosedOnce ∧ c'.closure = follow c.closure s := by
  cases s with
  | send message res =>
    simp only [step, send] at hs
    split at hs
    · rename_i hconn
      exact (sendInLoop_touched hs).closedOnce h (by simp [hconn])
    · cases hs
      exact ⟨h, rfl⟩
  | sendInLoop data res =>
    by_cases hst : c.status = .disconnected
    · rw [show c.step (.sendInLoop data res) = .ok c from if_pos hst] at hs
      cases hs
      exact ⟨h, rfl⟩
    · exact (sendInLoop_touched hs).closedOnce h hst
  | shutdown =>
    cases hs
    by_cases hconn : c.status = .connected
    · refine h.stillOpen (by simp [hconn]) ?_ ?_
      · unfold shutdown shutdownInLoop
        simp only [hconn, if_true]
        split <;> simp [shutdownWrite]
      · unfold shutdown shutdownInLoop
        simp only [hconn, if_true]
        split <;> rfl
    · rw [shutdown, shutdownInLoop_of_ne hconn]
      exact ⟨h, rfl⟩
  | forceClose =>
    cases hs
    unfold forceClose
    split
    · rename_i hst
      refine h.stillOpen ?_ (by simp [queueInLoop]) rfl
      rcases hst with hst | hst
      · simp [hst]
      · simp [hst]
    · exact ⟨h, rfl⟩
  | startRead => exact h.setRead (startReadInLoop_reads hs)
  | stopRead => exact h.setRead (stopReadInLoop_stops hs)
  | retrieveInput len =>
    simp only [step] at hs
    rw [bind_eq_ok] at hs
    obtain ⟨b, _, hs⟩ := hs
    cases hs
    exact h.frame rfl (fun _ => rfl) rfl
  | handleRead res =>
    simp only [step, handleRead] at hs
    rw [bind_eq_ok] at hs
    obtain ⟨b, _, hs⟩ := hs
    have hb : ClosedOnce { c with inputBuffer := b } := ⟨h.silent, h.calls⟩
    split at hs
    · exact handleClose_closure hb hs
    · cases hs
      exact h.frame rfl (fun _ => rfl) (by simp [invoke])
    · cases hs
      exact h.frame rfl (fun _ => rfl) rfl
  | handleWrite res =>
    by_cases hst : c.status = .disconnected
    · have hw : ¬ c.channel.isWriting = true := by
        simp [Channel.isWriting, h.silent hst]
      rw [show c.step (.handleWrite res) = .ok c from if_neg hw] at hs
      cases hs
      exact ⟨h, rfl⟩
    · exact (handleWrite_touched hs).closedOnce h hst
  | handleClose => exact handleClose_closure h hs
  | dopendingFunc =>
    obtain ⟨hst, hch, -, hcalls⟩ := dopendingFunc_effect hs
    exact h.frame hst (fun _ => by rw [hch]) hcalls
  | destroyConnect =>
    obtain ⟨hcalls, -, hst⟩ := destroyConnect_status hs
    split at hst
    · rename_i hd
      exact h.frame (hst.1.trans hd.symm) (fun _ => hst.2) hcalls
    · rename_i hd
      exact h.stillOpen hd hst hcalls

/-! ## The queue of functors -/

theorem noteHighWaterMark_pending (c : TcpConnection) (remaining : Nat) :
    c.pendingFunc <+: (c.noteHighWaterMark remaining).pendingFunc := by
  unfold noteHighWaterMark
  simp only
  split
  · exact List.prefix_append _ _
  · exact List.prefix_refl _

theorem shutdownInLoop_pending (c : TcpConnection) :
    c.shutdownInLoop.pendingFunc = c.pendingFunc := by
  unfold shutdownInLoop
  by_cases hconn : c.status = .connected
  · rw [if_pos hconn]
    simp only
    split <;> rfl
  · rw [if_neg hconn]

theorem sendInLoop_pending {data : Bytes} {res : WriteResult} (h : c.sendInLoop data res = .ok c') :
    c.pendingFunc <+: c'.pendingFunc := by
  unfold sendInLoop at h
  split at h
  · cases h
    exact List.prefix_refl _
  · have hdir : c.pendingFunc <+: (c.sendDirect data res).1.pendingFunc := by
      unfold sendDirect
      split
      · cases res with
        | wrote n =>
          simp only
          split
          · exact List.prefix_append _ _
          · exact List.prefix_refl _
        | error errno => exact List.prefix_refl _
      · exact List.prefix_refl _
    simp only [require_of (Nat.sub_le _ _), ok_bind] at h
    split at h
    · unfold sendRest at h
      simp only at h
      rw [bind_eq_ok] at h
      obtain ⟨b, _, h⟩ := h
      have hnote := hdir.trans
        (noteHighWaterMark_pending _ (data.drop (c.sendDirect data res).2.1).length)
      split at h
      · cases h
        exact hnote
      · obtain ⟨_, _, _, rfl⟩ := onChannel_eq_ok h
        exact hnote
    · cases h
      exact hdir

theorem writeDrained_pending (h : c.writeDrained = .ok c') : c.pendingFunc <+: c'.pendingFunc := by
  unfold writeDrained at h
  rw [bind_eq_ok] at h
  obtain ⟨d, hd, h⟩ := h
  obtain ⟨_, _, _, rfl⟩ := onChannel_eq_ok hd
  cases h
  simp only [shutdownInLoop_of_disconnecting]
  split
  · exact List.prefix_append _ _
  · exact List.prefix_refl _

theorem handleWrite_pending {res : WriteResult} (h : c.handleWrite res = .ok c') :
    c.pendingFunc <+: c'.pendingFunc := by
  unfold handleWrite at h
  split at h
  · split at h
    · cases h
      exact List.prefix_refl _
    · simp only at h
      split at h
      · rw [bind_eq_ok] at h
        obtain ⟨b, _, h⟩ := h
        split at h
        · have hdrained := writeDrained_pending h
          exact hdrained
        · cases h
          exact List.prefix_refl _
      · cases h
        exact List.prefix_refl _
  · cases h
    exact List.prefix_refl _

/-- A functor is queued behind the others. -/
theorem step_pending {s : Step} (hs : s ≠ .dopendingFunc) (h : c.step s = .ok c') :
    c.pendingFunc <+: c'.pendingFunc := by
  cases s with
  | send message res =>
    simp only [step, send] at h
    split at h
    · exact sendInLoop_pending h
    · cases h
      exact List.prefix_refl _
  | sendInLoop data res => exact sendInLoop_pending h
  | shutdown =>
    cases h
    exact (shutdownInLoop_pending c).symm ▸ List.prefix_refl _
  | forceClose =>
    cases h
    unfold forceClose
    split
    · exact List.prefix_append _ _
    · exact List.prefix_refl _
  | startRead => exact (startReadInLoop_reads h).2.2.2 ▸ List.prefix_refl _
  | stopRead => exact (stopReadInLoop_stops h).2.2.2 ▸ List.prefix_refl _
  | retrieveInput len =>
    simp only [step] at h
    rw [bind_eq_ok] at h
    obtain ⟨b, _, h⟩ := h
    cases h
    exact List.prefix_refl _
  | handleRead res =>
    simp only [step, handleRead] at h
    rw [bind_eq_ok] at h
    obtain ⟨b, _, h⟩ := h
    split at h
    · obtain ⟨-, _, _, -, rfl⟩ := handleClose_eq_ok h
      exact List.prefix_refl _
    · cases h
      exact List.prefix_refl _
    · cases h
      exact List.prefix_refl _
  | handleWrite res => exact handleWrite_pending h
  | handleClose =>
    obtain ⟨-, _, _, -, rfl⟩ := handleClose_eq_ok h
    exact List.prefix_refl _
  | dopendingFunc => exact absurd rfl hs
  | destroyConnect => exact (destroyConnect_status h).2.1 ▸ List.prefix_refl _

/-- The functor behind `fs` comes to the front when as many have been executed. -/
theorem run_pending {mid : List Step} : ∀ {c c' : TcpConnection} {fs : List PendingFunc}
    {f : PendingFunc}, fs ++ [f] <+: c.pendingFunc → mid.count .dopendingFunc = fs.length →
      run step c mid = .ok c' → [f] <+: c'.pendingFunc := by
  induction mid with
  | nil =>
    intro c c' fs f hfs hcount h
    cases h
    rw [List.count_nil] at hcount
    rwa [List.length_eq_zero_iff.1 hcount.symm] at hfs
  | cons s mid ih =>
    intro c c' fs f hfs hcount h
    rw [run_cons, bind_eq_ok] at h
    obtain ⟨d, hd, h⟩ := h
    by_cases hs : s = .dopendingFunc
    · subst hs
      rw [List.count_cons_self] at hcount
      cases fs with
      | nil => cases hcount
      | cons g fs =>
        have hrest : fs ++ [f] <+: d.pendingFunc := by
          rw [(dopendingFunc_effect hd).2.2.1]
          obtain ⟨q, hq⟩ := hfs
          rw [← hq]
          exact List.prefix_append _ _
        exact ih hrest (Nat.succ.inj hcount) h
    · rw [List.count_cons_of_ne hs] at hcount
      exact ih (hfs.trans (step_pending hs hd)) hcount h

/-! ## Forced close -/

theorem run_closure {steps : List Step} (h : c.ClosedOnce) (hrun : run step c steps = .ok c') :
    c'.ClosedOnce ∧ c'.closure = steps.foldl follow c.closure := by
  induction steps generalizing c with
  | nil =>
    cases hrun
    exact ⟨h, rfl⟩
  | cons s steps ih =>
    rw [run_cons, bind_eq_ok] at hrun
    obtain ⟨d, hd, hrun⟩ := hrun
    obtain ⟨hd', hcl⟩ := step_closure h hd
    rw [List.foldl_cons, ← hcl]
    exact ih hd' hrun

theorem make_buildConnect_closedOnce {p : Epoller} {address : Nat} {fd : Int} {wc : Bool}
    (h : (make p address fd wc).buildConnect = .ok c) : c.ClosedOnce := by
  obtain ⟨-, q, ch, -, rfl⟩ := buildConnect_eq_ok h
  exact ⟨nofun, rfl⟩

/-- **Forced close.**  Take any run that calls `force_close` in the status `CONNECTED` and goes on with
any steps until the functor is executed that the call has queued.  Then the status is `DISCONNECTED`,
the channel has no enabled events and `close_cb_` has been called once, if and only if the peer has
closed the connection in between, and it does not read since. -/
theorem force_close_iff {p : Epoller} {address : Nat} {fd : Int} {wc : Bool}
    {c₁ c₂ : TcpConnection} {pre mid : List Step}
    (hbuild : (make p address fd wc).buildConnect = .ok c)
    (hpre : run step c pre = .ok c₁) (hconn : c₁.status = .connected)
    (hmid : mid.count .dopendingFunc = c₁.pendingFunc.length)
    (hrun : run step c₁ (.forceClose :: mid ++ [.dopendingFunc]) = .ok c₂) :
    (∃ c', run step c₁ (.forceClose :: mid) = .ok c' ∧ c'.pendingFunc.head? = some .forceCloseInLoop) ∧
      (c₂.status = .disconnected ∧ c₂.channel.events = .none ∧ c₂.invoked.count .close = 1 ↔
        mid.foldl follow none = some false) := by
  have hopen : c₁.closure = none := if_neg (by rw [hconn]; nofun)
  obtain ⟨hc₁, -⟩ := run_closure (make_buildConnect_closedOnce hbuild) hpre
  obtain ⟨hc₂, hcl⟩ := run_closure hc₁ hrun
  rw [hopen, List.cons_append, List.foldl_cons, List.foldl_append] at hcl
  refine ⟨?_, ?_⟩
  · rw [run_append, bind_eq_ok] at hrun
    obtain ⟨c', hc', -⟩ := hrun
    refine ⟨c', hc', ?_⟩
    have hqueued : c₁.pendingFunc ++ [.forceCloseInLoop] <+: c₁.forceClose.pendingFunc := by
      rw [forceClose, if_pos (.inl hconn)]
      exact List.prefix_refl _
    obtain ⟨q, hq⟩ := run_pending hqueued hmid hc'
    rw [← hq]
    rfl
  · rw [← show c₂.closure = mid.foldl follow none from hcl, closure_eq_some]
    constructor
    · rintro ⟨hst, hev, -⟩
      exact ⟨hst, (hc₂.none_iff hst).1 hev⟩
    · rintro ⟨hst, hread⟩
      refine ⟨hst, (hc₂.none_iff hst).2 hread, ?_⟩
      rw [hc₂.calls, if_pos hst]

/-- The part of a state that closing is about. -/
def closeView (c : TcpConnection) : Status × Events × Nat × Nat :=
  (c.status, c.channel.events, c.invoked.count .close, c.pendingFunc.length)

/-- The peer hangs up before the functor is executed. -/
theorem force_close_iff_sample :
    ∃ c₁ c₂, run step sampleConn [.send [1] (.wrote 1)] = .ok c₁ ∧
      run step c₁ (.forceClose :: [.dopendingFunc, .handleClose] ++ [.dopendingFunc]) = .ok c₂ ∧
      c₂.status = .disconnected ∧ c₂.channel.events = .none ∧ c₂.invoked.count .close = 1 := by
  obtain ⟨c₁, hpre, h₁⟩ := map_eq_ok.1 (show (run step sampleConn [.send [1] (.wrote 1)]).map
    closeView = .ok (.connected, ⟨true, false⟩, 0, 1) by decide +kernel)
  obtain ⟨c₂, hrun, -⟩ := map_eq_ok.1 (show (run step sampleConn ([.send [1] (.wrote 1)] ++
    (.forceClose :: [.dopendingFunc, .handleClose] ++ [.dopendingFunc]))).map closeView =
      .ok (.disconnected, .none, 1, 0) by decide +kernel)
  rw [run_append, hpre, ok_bind] at hrun
  obtain ⟨hst, -, -, hlen⟩ := Prod.mk.inj h₁ |>.imp id (Prod.mk.inj · |>.imp id Prod.mk.inj)
  exact ⟨c₁, c₂, hpre, hrun,
    (force_close_iff sampleConn_build hpre hst (by rw [hlen]; rfl) hrun).2.2 rfl⟩

/-- **The functor does nothing.** -/
theorem force_close_lost :
    ∃ c₂, run step sampleConn (.forceClose :: [] ++ [.dopendingFunc]) = .ok c₂ ∧
      sampleConn.status = .connected ∧ sampleConn.pendingFunc = [] ∧
      ¬ (c₂.status = .disconnected ∧ c₂.channel.events = .none ∧ c₂.invoked.count .close = 1) := by
  obtain ⟨c₂, hrun, h₂⟩ := map_eq_ok.1 (show (run step sampleConn
    (.forceClose :: [] ++ [.dopendingFunc])).map closeView =
      .ok (.disconnecting, ⟨true, false⟩, 0, 0) by decide +kernel)
  refine ⟨c₂, hrun, rfl, rfl, fun h => ?_⟩
  rw [closeView, h.1] at h₂
  cases h₂

end TcpConnection
