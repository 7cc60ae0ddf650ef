import TinyHttpServer.Server.TcpConnectionOutput

/-!
# Graceful shutdown of a TCP connection

`shutdown` half-closes the socket at once when nothing is pending.  Otherwise the half-close is
left to the write event that drains the output, which calls `shutdown_in_loop_` again; but by
then the status is `DISCONNECTING`, and `shutdown_in_loop_` acts only in the status `CONNECTED`.

* `step_life` — what every step does to the status and to the half-closes.
* `half_close_iff_idle` — over whole runs with any steps: the half-close happens exactly when
  no output was pending at the call of `shutdown`.
-/

set_option autoImplicit false

open Checked Machine

namespace TcpConnection

variable {c c' : TcpConnection}

/-- The status and the half-closes are as before. -/
structure SameLife (c c' : TcpConnection) : Prop where
  status : c'.status = c.status
  shutdownWrites : c'.socket.shutdownWrites = c.socket.shutdownWrites

theorem SameLife.refl (c : TcpConnection) : SameLife c c := ⟨rfl, rfl⟩

theorem onChannel_life {op : Epoller → Channel → Checked (Epoller × Channel)}
    (h : c.onChannel op = .ok c') : SameLife c c' := by
  obtain ⟨p, ch, _, rfl⟩ := onChannel_eq_ok h
  exact ⟨rfl, rfl⟩

/-- What sending and writing do to the rest of the connection: the status, the half-closes and the
callbacks are as before, and the interest of the channel is changed at most once. -/
structure Touched (c c' : TcpConnection) : Prop extends SameLife c c' where
  invoked : c'.invoked = c.invoked
  channel : c'.poller = c.poller ∧ c'.channel = c.channel ∨
    ∃ events, Channel.setEvents c.poller c.channel events = .ok (c'.poller, c'.channel)

theorem Touched.refl (c : TcpConnection) : Touched c c := ⟨SameLife.refl c, rfl, .inl ⟨rfl, rfl⟩⟩

theorem sendDirect_touched {data : Bytes} {res : WriteResult} {n : Nat} {fault : Bool}
    (h : c.sendDirect data res = (c', n, fault)) :
    SameLife c c' ∧ c'.invoked = c.invoked ∧ c'.poller = c.poller ∧ c'.channel = c.channel := by
  unfold sendDirect at h
  split at h
  · split at h
    · cases h
      split <;> exact ⟨⟨rfl, rfl⟩, rfl, rfl, rfl⟩
    · cases h
      exact ⟨SameLife.refl c, rfl, rfl, rfl⟩
  · cases h
    exact ⟨SameLife.refl c, rfl, rfl, rfl⟩

theorem sendInLoop_touched {data : Bytes} {res : WriteResult} (h : c.sendInLoop data res = .ok c') :
    Touched c c' := by
  unfold sendInLoop at h
  split at h
  · cases h
    exact Touched.refl c
  · obtain ⟨c₁, n, fault, hdir⟩ : ∃ c₁ n fault, c.sendDirect data res = (c₁, n, fault) :=
      ⟨_, _, _, rfl⟩
    obtain ⟨hlife, hinv, hp, hch⟩ := sendDirect_touched hdir
    rw [hdir] at h
    simp only [require_of (Nat.sub_le _ _), ok_bind] at h
    split at h
    · obtain ⟨fs, hfs⟩ := noteHighWaterMark_eq c₁ (data.drop n).length
      unfold sendRest at h
      simp only [hfs] at h
      rw [bind_eq_ok] at h
      obtain ⟨b, _, h⟩ := h
      split at h
      · cases h
        exact ⟨⟨hlife.status, hlife.shutdownWrites⟩, hinv, .inl ⟨hp, hch⟩⟩
      · obtain ⟨p, ch, hop, rfl⟩ := onChannel_eq_ok h
        refine ⟨⟨hlife.status, hlife.shutdownWrites⟩, hinv,
          .inr ⟨{ c₁.channel.events with write := true }, ?_⟩⟩
        rw [← hp, ← hch]
        exact hop
    · cases h
      exact ⟨hlife, hinv, .inl ⟨hp, hch⟩⟩

theorem handleWrite_touched {res : WriteResult} (h : c.handleWrite res = .ok c') :
    Touched c c' := by
  unfold handleWrite at h
  split at h
  · split at h
    · cases h
      exact Touched.refl c
    · simp only at h
      split at h
      · rw [bind_eq_ok] at h
        obtain ⟨b, _, h⟩ := h
        split at h
        · obtain ⟨f, heq⟩ := writeDrained_eq
            { c.accept (c.outputBuffer.readable.take _) with outputBuffer := b }
          rw [heq, bind_eq_ok] at h
          obtain ⟨d, hd, h⟩ := h
          cases h
          obtain ⟨p, ch, hop, rfl⟩ := onChannel_eq_ok hd
          exact ⟨⟨rfl, rfl⟩, rfl, .inr ⟨_, hop⟩⟩
        · cases h
          exact ⟨⟨rfl, rfl⟩, rfl, .inl ⟨rfl, rfl⟩⟩
      · cases h
        exact ⟨⟨rfl, rfl⟩, rfl, .inl ⟨rfl, rfl⟩⟩
  · cases h
    exact Touched.refl c

/-! ## Closing -/

theorem handleClose_life (h : c.handleClose = .ok c') :
    c'.status = .disconnected ∧ c'.socket.shutdownWrites = c.socket.shutdownWrites := by
  unfold handleClose at h
  rw [bind_eq_ok] at h
  obtain ⟨_, _, h⟩ := h
  simp only at h
  rw [bind_eq_ok] at h
  obtain ⟨d, hd, h⟩ := h
  cases h
  have := onChannel_life hd
  exact ⟨this.status, this.shutdownWrites⟩

theorem destroyConnect_life (h : c.destroyConnect = .ok c') :
    c'.status ≠ .connected ∧ c'.socket.shutdownWrites = c.socket.shutdownWrites := by
  unfold destroyConnect at h
  rw [bind_eq_ok] at h
  obtain ⟨d, hd, h⟩ := h
  have hlast := onChannel_life h
  split at hd
  · simp only at hd
    rw [bind_eq_ok] at hd
    obtain ⟨e, he, hd⟩ := hd
    cases hd
    have := onChannel_life he
    exact ⟨by rw [hlast.status, invoke, this.status]; simp,
      hlast.shutdownWrites.trans this.shutdownWrites⟩
  · rename_i hne
    cases hd
    exact ⟨by rw [hlast.status]; exact hne, hlast.shutdownWrites⟩

/-- What a step does to the status and to the half-closes: the status never becomes `CONNECTED`,
and only `shutdown` in the status `CONNECTED` half-closes. -/
theorem step_life {s : Step} (h : c.step s = .ok c') :
    (c'.status = .connected → c.status = .connected) ∧
      (c'.socket.shutdownWrites = c.socket.shutdownWrites ∨
        s = .shutdown ∧ c.status = .connected) := by
  have same : SameLife c c' → (c'.status = .connected → c.status = .connected) ∧
      (c'.socket.shutdownWrites = c.socket.shutdownWrites ∨
        s = .shutdown ∧ c.status = .connected) :=
    fun hl => ⟨fun hs => hl.status ▸ hs, .inl hl.shutdownWrites⟩
  cases s with
  | send message res =>
    simp only [step, send] at h
    split at h
    · exact same (sendInLoop_touched h).toSameLife
    · cases h; exact same (SameLife.refl c)
  | sendInLoop data res => exact same (sendInLoop_touched h).toSameLife
  | shutdown =>
    cases h
    refine ⟨?_, ?_⟩
    · unfold shutdown shutdownInLoop
      simp only
      split
      · rename_i hc; exact fun _ => hc
      · exact id
    · by_cases hc : c.status = .connected
      · exact .inr ⟨rfl, hc⟩
      · exact .inl (by rw [shutdown, shutdownInLoop_of_ne hc])
  | forceClose =>
    cases h
    unfold forceClose
    split
    · exact ⟨by simp [queueInLoop], .inl rfl⟩
    · exact ⟨id, .inl rfl⟩
  | startRead =>
    obtain ⟨rfl, -⟩ | ⟨p, ch, rfl, -⟩ := startReadInLoop_eq_ok h
    · exact same (SameLife.refl c')
    · exact same ⟨rfl, rfl⟩
  | stopRead =>
    obtain ⟨rfl, -⟩ | ⟨p, ch, rfl, -⟩ := stopReadInLoop_eq_ok h
    · exact same (SameLife.refl c')
    · exact same ⟨rfl, rfl⟩
  | retrieveInput len =>
    simp only [step] at h
    rw [bind_eq_ok] at h
    obtain ⟨b, _, h⟩ := h
    cases h
    exact same ⟨rfl, rfl⟩
  | handleRead res =>
    simp only [step, handleRead] at h
    rw [bind_eq_ok] at h
    obtain ⟨b, _, h⟩ := h
    split at h
    · obtain ⟨hst, hsw⟩ := handleClose_life h
      exact ⟨by simp [hst], .inl hsw⟩
    · cases h; exact same ⟨rfl, rfl⟩
    · cases h; exact same ⟨rfl, rfl⟩
  | handleWrite res => exact same (handleWrite_touched h).toSameLife
  | handleClose =>
    obtain ⟨hst, hsw⟩ := handleClose_life h
    exact ⟨by simp [hst], .inl hsw⟩
  | dopendingFunc =>
    obtain ⟨fs, cbs, heq⟩ := dopendingFunc_eq c
    rw [heq] at h
    cases h
    exact same ⟨rfl, rfl⟩
  | destroyConnect =>
    obtain ⟨hst, hsw⟩ := destroyConnect_life h
    exact ⟨fun hc => absurd hc hst, .inl hsw⟩

/-- A step that keeps the output buffer and the write interest keeps `OutputOk`. -/
theorem OutputOk.frame (hout : c.OutputOk) (hb : c'.outputBuffer = c.outputBuffer)
    (hwr : c'.channel.isWriting = c.channel.isWriting) : c'.OutputOk := by
  refine ⟨?_, ?_⟩
  · rw [hb]; exact hout.wf
  · rw [hb, hwr]; exact hout.interest

/-- As long as the status stays `CONNECTED`, write interest is tied to the pending output. -/
theorem step_output {s : Step} (hout : c.OutputOk) (hk : c.KernelOk s) (h : c.step s = .ok c')
    (hconn : c'.status = .connected) : c'.OutputOk := by
  cases s with
  | send message res =>
    simp only [step, send] at h
    split at h
    · exact (sendInLoop_effect hout h).1
    · cases h; exact hout
  | sendInLoop data res => exact (sendInLoop_effect hout h).1
  | shutdown =>
    cases h
    unfold shutdown shutdownInLoop at hconn ⊢
    simp only at hconn ⊢
    split at hconn
    · split at hconn <;> cases hconn
    · rename_i hne; exact absurd hconn hne
  | forceClose =>
    cases h
    unfold forceClose at hconn ⊢
    split at hconn
    · cases hconn
    · rename_i hne; exact absurd (.inl hconn) hne
  | startRead =>
    obtain ⟨rfl, -⟩ | ⟨p, ch, rfl, hev⟩ := startReadInLoop_eq_ok h
    · exact hout
    · exact hout.frame rfl (by simp [Channel.isWriting, hev])
  | stopRead =>
    obtain ⟨rfl, -⟩ | ⟨p, ch, rfl, hev⟩ := stopReadInLoop_eq_ok h
    · exact hout
    · exact hout.frame rfl (by simp [Channel.isWriting, hev])
  | retrieveInput len =>
    simp only [step] at h
    rw [bind_eq_ok] at h
    obtain ⟨b, _, h⟩ := h
    cases h
    exact hout.frame rfl rfl
  | handleRead res =>
    simp only [step, handleRead] at h
    rw [bind_eq_ok] at h
    obtain ⟨b, _, h⟩ := h
    split at h
    · have := (handleClose_life h).1
      simp [hconn] at this
    · cases h; exact hout.frame rfl rfl
    · cases h; exact hout.frame rfl rfl
  | handleWrite res =>
    exact (handleWrite_effect hout (by rintro n rfl; exact hk) h).1
  | handleClose =>
    have := (handleClose_life h).1
    simp [hconn] at this
  | dopendingFunc =>
    obtain ⟨fs, cbs, heq⟩ := dopendingFunc_eq c
    rw [heq] at h
    cases h
    exact hout.frame rfl rfl
  | destroyConnect => exact absurd hconn (destroyConnect_life h).1

/-! ## Runs -/

/-- While the status is `CONNECTED` nothing has been half-closed. -/
def NotYetShut (c : TcpConnection) : Prop :=
  c.status = .connected → c.OutputOk ∧ c.socket.shutdownWrites = []

theorem step_notYetShut (s : Step) (hi : c.NotYetShut) (hk : c.KernelOk s)
    (h : c.step s = .ok c') : c'.NotYetShut := by
  intro hconn
  obtain ⟨hst, hsw⟩ := step_life h
  obtain ⟨hout, hnone⟩ := hi (hst hconn)
  refine ⟨step_output hout hk h hconn, ?_⟩
  rcases hsw with hsw | ⟨rfl, hc⟩
  · rw [hsw, hnone]
  · cases h
    simp only [shutdown, shutdownInLoop, hc, if_true] at hconn
    split at hconn <;> cases hconn

/-- Once the status is not `CONNECTED` any more, the half-closes stay as they are. -/
theorem run_shut {steps : List Step} (hne : c.status ≠ .connected)
    (hk : Allowed step KernelOk c steps) (h : run step c steps = .ok c') :
    c'.socket.shutdownWrites = c.socket.shutdownWrites := by
  have hstep : ∀ (d : TcpConnection) (s : Step) (e : TcpConnection),
      (d.status ≠ .connected ∧ d.socket.shutdownWrites = c.socket.shutdownWrites) →
      d.KernelOk s → d.step s = .ok e →
      e.status ≠ .connected ∧ e.socket.shutdownWrites = c.socket.shutdownWrites := by
    rintro d s e ⟨hd, hsw⟩ - he
    obtain ⟨hst, hcase⟩ := step_life he
    refine ⟨fun hc => hd (hst hc), ?_⟩
    rcases hcase with hsame | ⟨-, hc⟩
    · rw [hsame, hsw]
    · exact absurd hc hd
  exact (run_safe hstep steps c c' ⟨hne, rfl⟩ hk h).2

/-- **Graceful shutdown.**  In every run that executes `shutdown` in the status `CONNECTED`, the
socket is never half-closed while output is pending; and where the status is `DISCONNECTING` with
the output drained and write interest off, it has been half-closed exactly once if and only if
nothing was pending at the call. -/
theorem half_close_iff_idle {p : Epoller} {address : Nat} {fd : Int} {wc : Bool}
    {c₁ c₂ : TcpConnection} {pre post : List Step}
    (hbuild : (make p address fd wc).buildConnect = .ok c)
    (hk : Allowed step KernelOk c (pre ++ .shutdown :: post))
    (hpre : run step c pre = .ok c₁) (hconn : c₁.status = .connected)
    (hrun : run step c (pre ++ .shutdown :: post) = .ok c₂) :
    (∀ n ∈ c₂.socket.shutdownWrites, n = 0) ∧
      (c₂.status = .disconnecting → c₂.outputBuffer.readable = [] →
        c₂.channel.isWriting = false →
        (c₂.socket.shutdownWrites.length = 1 ↔ c₁.outputBuffer.readable = [])) := by
  obtain ⟨ho, -, -, hnone⟩ := make_buildConnect hbuild
  obtain ⟨hout, hnone₁⟩ := run_safe (fun c s d hi hk h => step_notYetShut s hi hk h) pre c c₁
    (fun _ => ⟨ho.output, hnone⟩) hk.append_left hpre hconn
  have hk' : Allowed step KernelOk c₁ (.shutdown :: post) := hk.append_right hpre
  rw [run_append, hpre, ok_bind, run_cons] at hrun
  have hsw : c₂.socket.shutdownWrites = c₁.shutdown.socket.shutdownWrites := by
    refine run_shut ?_ (hk'.tail rfl) hrun
    unfold shutdown shutdownInLoop
    simp only [hconn, if_true]
    split <;> simp [shutdownWrite]
  have hidle : c₁.outputBuffer.readAbleBytes = 0 ↔ ¬ c₁.channel.isWriting = true := by
    rw [hout.interest, not_not]
  have hshut : c₁.shutdown.socket.shutdownWrites =
      if c₁.outputBuffer.readAbleBytes = 0 then [0] else [] := by
    unfold shutdown shutdownInLoop
    simp only [hconn, if_true]
    split
    · rename_i hwr
      rw [if_neg (fun h => hidle.1 h hwr)]
      exact hnone₁
    · rename_i hwr
      have hz := hidle.2 hwr
      simp only [shutdownWrite, hnone₁, List.nil_append, hz, if_true]
  rw [hsw, hshut, Buffer.readable_eq_nil hout.wf]
  split
  · rename_i hz
    exact ⟨by simp, fun _ _ _ => by simp [hz]⟩
  · rename_i hz
    exact ⟨by simp, fun _ _ _ => by simp [hz]⟩

/-- The part of a state that graceful shutdown is about. -/
def shutView (c : TcpConnection) : Status × Bytes × Bool × List Nat :=
  (c.status, c.outputBuffer.readable, c.channel.isWriting, c.socket.shutdownWrites)

theorem shutView_eq {st : Status} {out : Bytes} {wr : Bool} {sw : List Nat}
    (h : c.shutView = (st, out, wr, sw)) :
    c.status = st ∧ c.outputBuffer.readable = out ∧ c.channel.isWriting = wr ∧
      c.socket.shutdownWrites = sw := by
  simpa [shutView] using h

/-- An idle connection is half-closed by `shutdown`. -/
theorem half_close_iff_idle_sample :
    ∃ c₁ c₂, run step sampleConn [.send [1, 2] (.wrote 2)] = .ok c₁ ∧ c₁.status = .connected ∧
      run step sampleConn ([.send [1, 2] (.wrote 2)] ++ .shutdown :: [.dopendingFunc]) = .ok c₂ ∧
      c₂.status = .disconnecting ∧
      (c₂.socket.shutdownWrites.length = 1 ↔ c₁.outputBuffer.readable = []) := by
  have hk : Allowed step KernelOk sampleConn
      ([.send [1, 2] (.wrote 2)] ++ .shutdown :: [.dopendingFunc]) := by decide +kernel
  obtain ⟨c₁, hpre, h₁⟩ := map_eq_ok.1 (show (run step sampleConn [.send [1, 2] (.wrote 2)]).map
    shutView = .ok (.connected, [], false, []) by decide +kernel)
  obtain ⟨c₂, hrun, h₂⟩ := map_eq_ok.1 (show (run step sampleConn
    ([.send [1, 2] (.wrote 2)] ++ .shutdown :: [.dopendingFunc])).map
    shutView = .ok (.disconnecting, [], false, [0]) by decide +kernel)
  obtain ⟨hc₁, -, -, -⟩ := shutView_eq h₁
  obtain ⟨hc₂, hout, hwr, -⟩ := shutView_eq h₂
  exact ⟨c₁, c₂, hpre, hc₁, hrun, hc₂,
    (half_close_iff_idle sampleConn_build hk hpre hc₁ hrun).2 hc₂ hout hwr⟩

/-- **The deferred half-close is lost.**  One of two bytes is pending at the call of `shutdown`; the
write event drains it, and `shutdown_write` is never called. -/
theorem deferred_half_close_lost :
    Allowed step KernelOk sampleConn
        [.send [1, 2] (.wrote 1), .shutdown, .handleWrite (.wrote 1)] ∧
      (∃ c₁, run step sampleConn [.send [1, 2] (.wrote 1)] = .ok c₁ ∧ c₁.status = .connected) ∧
      ∃ c₂, run step sampleConn
          [.send [1, 2] (.wrote 1), .shutdown, .handleWrite (.wrote 1)] = .ok c₂ ∧
        c₂.status = .disconnecting ∧ c₂.outputBuffer.readable = [] ∧
        c₂.channel.isWriting = false ∧ c₂.socket.shutdownWrites = [] := by
  obtain ⟨c₁, hpre, h₁⟩ := map_eq_ok.1 (show (run step sampleConn [.send [1, 2] (.wrote 1)]).map
    shutView = .ok (.connected, [2], true, []) by decide +kernel)
  obtain ⟨c₂, hrun, h₂⟩ := map_eq_ok.1 (show (run step sampleConn
    [.send [1, 2] (.wrote 1), .shutdown, .handleWrite (.wrote 1)]).map
    shutView = .ok (.disconnecting, [], false, []) by decide +kernel)
  exact ⟨by decide +kernel, ⟨c₁, hpre, (shutView_eq h₁).1⟩, c₂, hrun, shutView_eq h₂⟩

end TcpConnection
