import TinyHttpServer.Event.EpollerMirror
import TinyHttpServer.Server.TcpConnectionShutdown

/-!
# The stages of a TCP connection

Between its construction and `destroy_connect` a connection passes through five stages.  `AtStage`
says what each stage means for the status, the channel and the buffers.

* `Quiet` — what the functions do that leave the stage as it is: sending, write events, shutting
  down and the queued callbacks.
* `buildConnect_opens`, `handleClose_closes`, `remove_destroys` — the functions that change the stage.
-/

set_option autoImplicit false

open Checked Epoller

namespace TcpConnection

/-- The stages of a connection. -/
inductive Stage where
  /-- there is no such connection -/
  | absent
  /-- constructed -/
  | accepted
  /-- after `build_connect` -/
  | opened
  /-- after `handle_close_` -/
  | closing
  /-- after `remove_connection_in_loop` -/
  | removed
  /-- after `destroy_connect` -/
  | destroyed
  deriving DecidableEq, Repr

variable {c c' : TcpConnection} {st : Stage}

/-- The state of a connection at a stage. -/
inductive AtStage (c : TcpConnection) : Stage → Prop
  | accepted (hst : c.status = .connecting) (hnew : c.channel.status = .new)
      (hnone : c.channel.events = .none) (hout : c.outputBuffer.Wf)
      (hempty : c.outputBuffer.readAbleBytes = 0) (hin : c.inputBuffer.Wf) : AtStage c .accepted
  | opened (hst : c.status = .connected ∨ c.status = .disconnecting) (ho : c.Open) :
      AtStage c .opened
  | closing (hst : c.status = .disconnected) (hdel : c.channel.status = .del)
      (hnone : c.channel.events = .none) : AtStage c .closing
  | removed (hst : c.status = .disconnected) (hdel : c.channel.status = .del)
      (hnone : c.channel.events = .none) : AtStage c .removed
  | destroyed (hst : c.status = .disconnected) (hnew : c.channel.status = .new)
      (hnone : c.channel.events = .none) : AtStage c .destroyed

theorem make_accepted (p : Epoller) (address : Nat) (fd : Int) (wc : Bool) :
    (make p address fd wc).AtStage .accepted := by
  have hwf := Buffer.make_wf Buffer.initialSizeDefault
  have hempty := (Buffer.readable_eq_nil hwf).1 (Buffer.make_readable Buffer.initialSizeDefault)
  exact .accepted rfl rfl rfl hwf hempty hwf

theorem AtStage.ne_absent (h : c.AtStage st) : st ≠ .absent := by
  rintro rfl
  cases h

/-- Only an open connection is in the kernel's list. -/
theorem AtStage.opened_of_added (h : c.AtStage st) (hadd : c.channel.status = .add) :
    st = .opened := by
  cases h with
  | opened => rfl
  | accepted _ hst | closing _ hst | removed _ hst | destroyed _ hst =>
    rw [hst] at hadd
    cases hadd

theorem AtStage.status_new (h : c.AtStage st) (hst : st = .destroyed) :
    c.channel.status = .new := by
  subst hst
  cases h with
  | destroyed _ hnew _ => exact hnew

/-- What a function does to the channel: nothing, or, before `destroy_connect`, a change that the
poller mirrors. -/
inductive Moved (st : Stage) (c c' : TcpConnection) : Prop
  | still (hp : c'.poller = c.poller) (hch : c'.channel = c.channel)
  | mirrored (hst : st ≠ .destroyed) (hp : c'.poller = c.poller.mirror c'.channel)
      (hfd : c'.channel.fd = c.channel.fd) (haddress : c'.channel.address = c.channel.address)

theorem Moved.fd (h : Moved st c c') : c'.channel.fd = c.channel.fd := by
  cases h with
  | still _ hch => rw [hch]
  | mirrored _ _ hfd _ => exact hfd

theorem Moved.address (h : Moved st c c') : c'.channel.address = c.channel.address := by
  cases h with
  | still _ hch => rw [hch]
  | mirrored _ _ _ haddress => exact haddress

/-- The entries of the poller for other descriptors are as before; after `destroy_connect` all
are. -/
theorem Moved.off (h : Moved st c c') (fd : Int) (hfd : st ≠ .destroyed → fd ≠ c.channel.fd) :
    c'.poller.channels fd = c.poller.channels fd ∧ c'.poller.interest fd = c.poller.interest fd := by
  cases h with
  | still hp _ =>
    rw [hp]
    exact ⟨rfl, rfl⟩
  | mirrored hst hp hsame _ =>
    have hne : fd ≠ c'.channel.fd := hsame ▸ hfd hst
    rw [hp]
    exact ⟨mirror_channels_off hne, mirror_interest_off hne⟩

theorem Moved.mirrors (h : Moved st c c') (hm : c.poller.Mirrors c.channel) :
    c'.poller.Mirrors c'.channel := by
  cases h with
  | still hp hch => rw [hp, hch]; exact hm
  | mirrored _ hp _ _ => rw [hp]; exact mirror_mirrors _ _

/-- A channel of status `NEW` has no entries. -/
theorem Moved.gone (h : Moved st c c') (hm : c.poller.Mirrors c.channel)
    (hnew : c'.channel.status = .new) :
    c'.poller.channels c.channel.fd = none ∧ c'.poller.interest c.channel.fd = none := by
  have hm' := h.mirrors hm
  rw [← h.fd]
  refine ⟨?_, ?_⟩
  · rw [hm'.channels, if_pos hnew]
  · rw [hm'.interest, if_neg (by rw [hnew]; nofun)]

/-- The calls of `connection_cb_`. -/
def connectionCalls (c : TcpConnection) : List Callback := c.invoked.filter (· = .connection)

/-- The stage is as before, and `connection_cb_` has not been called. -/
structure Quiet (st : Stage) (c c' : TcpConnection) : Prop where
  stage : c'.AtStage st
  moved : Moved st c c'
  calls : c'.connectionCalls = c.connectionCalls

theorem Quiet.refl (h : c.AtStage st) : Quiet st c c := ⟨h, .still rfl rfl, rfl⟩

/-- A change that leaves the channel, the buffers and the status alone. -/
theorem AtStage.frame (h : c.AtStage st) (hst : c'.status = c.status)
    (hch : c'.channel = c.channel) (hout : c'.outputBuffer = c.outputBuffer)
    (hin : c'.inputBuffer = c.inputBuffer) : c'.AtStage st := by
  cases h with
  | accepted h hnew hnone hwf hempty hinput =>
    exact .accepted (hst.trans h) (hch ▸ hnew) (hch ▸ hnone) (hout ▸ hwf) (hout ▸ hempty)
      (hin ▸ hinput)
  | opened h ho => exact .opened (hst ▸ h) (ho.frame hout hch hin)
  | closing h hdel hnone => exact .closing (hst.trans h) (hch ▸ hdel) (hch ▸ hnone)
  | removed h hdel hnone => exact .removed (hst.trans h) (hch ▸ hdel) (hch ▸ hnone)
  | destroyed h hnew hnone => exact .destroyed (hst.trans h) (hch ▸ hnew) (hch ▸ hnone)

/-- A change of the interest of a channel that is not of status `DEL`. -/
theorem onChannel_setEvents_eq (hm : c.poller.Mirrors c.channel) (hdel : c.channel.status ≠ .del)
    (f : Events → Events) :
    c.onChannel (fun p ch => Channel.setEvents p ch (f ch.events)) =
      .ok { c with
        poller := c.poller.mirror (updated c.channel (f c.channel.events))
        channel := updated c.channel (f c.channel.events) } := by
  unfold onChannel
  simp only [setEvents_eq hm, if_neg hdel, ok_bind, pure_eq_ok]

/-! ## Functions that leave the stage as it is -/

theorem Touched.moved (h : Touched c c') (hst : st ≠ .destroyed)
    (hm : c.poller.Mirrors c.channel) : Moved st c c' := by
  obtain ⟨hp, hch⟩ | ⟨events, hset⟩ := h.channel
  · exact .still hp hch
  · rw [setEvents_eq hm] at hset
    split at hset
    · cases hset
    · rw [Except.ok.injEq, Prod.mk.injEq] at hset
      obtain ⟨hp, hch⟩ := hset
      exact .mirrored hst (by rw [← hp, ← hch]) (by rw [← hch]; rfl) (by rw [← hch]; rfl)

theorem Touched.calls (h : Touched c c') : c'.connectionCalls = c.connectionCalls := by
  unfold connectionCalls
  rw [h.invoked]

/-- **`send_in_loop_`** after `build_connect`. -/
theorem sendInLoop_quiet (h : c.AtStage st) (hst : st ≠ .accepted)
    (hm : st ≠ .destroyed → c.poller.Mirrors c.channel) (data : Bytes) (res : WriteResult) :
    ∃ c', c.sendInLoop data res = .ok c' ∧ Quiet st c c' := by
  have hdisc : c.status = .disconnected → ∃ c', c.sendInLoop data res = .ok c' ∧ Quiet st c c' :=
    fun hd => ⟨c, if_pos hd, .refl h⟩
  cases h with
  | accepted => exact absurd rfl hst
  | opened hop ho =>
    obtain ⟨c', hc', hr⟩ := sendInLoop_returns ho.output ho.reading data res
    obtain ⟨hout, hin, -⟩ := sendInLoop_effect ho.output hc'
    have htouched := sendInLoop_touched hc'
    refine ⟨c', hc', ?_, htouched.moved (by decide) (hm (by decide)), htouched.calls⟩
    exact .opened (htouched.status ▸ hop) ⟨hout, hr, hin ▸ ho.input⟩
  | closing hd | removed hd | destroyed hd => exact hdisc hd

/-- **`handle_write_`** after `build_connect`; once the connection is closed nothing is written. -/
theorem handleWrite_quiet (h : c.AtStage st) (hst : st ≠ .accepted)
    (hm : st ≠ .destroyed → c.poller.Mirrors c.channel) {res : WriteResult}
    (hk : ∀ n, res = .wrote n → n ≤ c.outputBuffer.readAbleBytes) :
    ∃ c', c.handleWrite res = .ok c' ∧ Quiet st c c' := by
  have hidle : c.channel.events = .none → ∃ c', c.handleWrite res = .ok c' ∧ Quiet st c c' :=
    fun hnone => ⟨c, if_neg (by simp [Channel.isWriting, hnone, Events.none]), .refl h⟩
  cases h with
  | accepted => exact absurd rfl hst
  | opened hop ho =>
    obtain ⟨c', hc', hr⟩ := handleWrite_returns ho.output ho.reading hk
    obtain ⟨hout, hin, -⟩ := handleWrite_effect ho.output hk hc'
    have htouched := handleWrite_touched hc'
    refine ⟨c', hc', ?_, htouched.moved (by decide) (hm (by decide)), htouched.calls⟩
    exact .opened (htouched.status ▸ hop) ⟨hout, hr, hin ▸ ho.input⟩
  | closing _ _ hnone | removed _ _ hnone | destroyed _ _ hnone => exact hidle hnone

/-- **`shutdown_in_loop_`** at every stage; it acts on an open connection only. -/
theorem shutdownInLoop_quiet (h : c.AtStage st) : Quiet st c c.shutdownInLoop := by
  by_cases hc : c.status = .connected
  · cases h with
    | opened _ ho =>
      unfold shutdownInLoop
      rw [if_pos hc]
      simp only
      split
      · exact ⟨.opened (.inr rfl) (ho.frame rfl rfl rfl), .still rfl rfl, rfl⟩
      · exact ⟨.opened (.inr rfl) (ho.frame rfl rfl rfl), .still rfl rfl, rfl⟩
    | accepted hst | closing hst | removed hst | destroyed hst =>
      rw [hst] at hc
      cases hc
  · rw [shutdownInLoop_of_ne hc]
    exact .refl h

theorem send_quiet (h : c.AtStage st) (hm : st ≠ .destroyed → c.poller.Mirrors c.channel)
    (message : Bytes) (res : WriteResult) :
    ∃ c', c.send message res = .ok c' ∧ Quiet st c c' := by
  unfold send
  split
  · rename_i hc
    apply sendInLoop_quiet h _ hm
    rintro rfl
    cases h with
    | accepted hst =>
      rw [hst] at hc
      cases hc
  · exact ⟨c, rfl, .refl h⟩

theorem runFunctor_quiet (h : c.AtStage st) (f : PendingFunc) :
    ∃ c', c.runFunctor f = .ok c' ∧ Quiet st c c' := by
  have hinvoke : ∀ cb : Callback, cb ≠ .connection → Quiet st c (c.invoke cb) := by
    intro cb hcb
    refine ⟨h.frame rfl rfl rfl rfl, .still rfl rfl, ?_⟩
    simp [connectionCalls, invoke, hcb]
  cases f with
  | writeComplete => exact ⟨_, rfl, hinvoke .writeComplete (by simp)⟩
  | highWaterMark len => exact ⟨_, rfl, hinvoke (.highWaterMark len) (by simp)⟩
  | forceCloseInLoop => exact ⟨c, forceCloseInLoop_eq c, .refl h⟩

/-! ## Functions that change the stage -/

/-- **`build_connect`.** -/
theorem buildConnect_opens (h : c.AtStage .accepted) (hm : c.poller.Mirrors c.channel) :
    ∃ c', c.buildConnect = .ok c' ∧ c'.AtStage .opened ∧ Moved .accepted c c' ∧
      c'.status = .connected ∧ c'.connectionCalls = c.connectionCalls ++ [.connection] := by
  cases h with
  | accepted hst hnew hnone hout hempty hin =>
    have hset := onChannel_setEvents_eq (c := { c with status := .connected }) hm
      (by simp [hnew]) (fun events => { events with read := true })
    unfold buildConnect
    rw [require_of hst, ok_bind]
    simp only
    rw [show onChannel { c with status := .connected } Channel.enableReading = _ from hset]
    refine ⟨_, rfl, .opened (.inl rfl) ⟨⟨hout, ?_⟩, ⟨?_, rfl⟩, hin⟩, ?_, rfl, ?_⟩
    · apply iff_of_false
      · simp [invoke, Channel.isWriting, updated, hnone, Events.none]
      · exact not_not.2 hempty
    · simp [invoke, updated, nextStatus, hnew]
    · exact .mirrored (by decide) rfl rfl rfl
    · simp [connectionCalls, invoke]

/-- **`handle_close_`.** -/
theorem handleClose_closes (h : c.AtStage .opened) (hm : c.poller.Mirrors c.channel) :
    ∃ c', c.handleClose = .ok c' ∧ c'.AtStage .closing ∧ Moved .opened c c' ∧
      c'.status = .disconnected ∧ c'.connectionCalls = c.connectionCalls ++ [.connection] := by
  cases h with
  | opened hst ho =>
    have hadd := ho.reading.added
    have hset := onChannel_setEvents_eq (c := { c with status := .disconnected }) hm
      (by simp [hadd]) (fun _ => .none)
    unfold handleClose
    rw [require_of hst, ok_bind]
    simp only
    rw [show onChannel { c with status := .disconnected } Channel.disableAll = _ from hset]
    refine ⟨_, rfl, .closing rfl ?_ rfl, .mirrored (by decide) rfl rfl rfl, rfl, ?_⟩
    · simp [invoke, updated, nextStatus, hadd]
    · simp [connectionCalls, invoke]

/-- **`Channel::remove`** of a closed connection. -/
theorem remove_destroys (h : c.AtStage .removed) (hm : c.poller.Mirrors c.channel) :
    ∃ c', c.onChannel Channel.remove = .ok c' ∧ c'.AtStage .destroyed ∧ Moved .removed c c' ∧
      c'.connectionCalls = c.connectionCalls := by
  cases h with
  | removed hst hdel hnone =>
    unfold onChannel
    rw [remove_eq hm hnone (by simp [hdel]), ok_bind]
    exact ⟨_, rfl, .destroyed hst rfl hnone, .mirrored (by decide) rfl rfl rfl, rfl⟩

/-- **`handle_read_`** of an open connection: an end of file closes it, and after any other result
it is open as before. -/
theorem handleRead_opened (h : c.AtStage .opened) (hm : c.poller.Mirrors c.channel)
    (res : ReadResult) :
    ∃ c', c.handleRead res = .ok c' ∧
      if res = .data [] then
        c'.AtStage .closing ∧ Moved .opened c c' ∧ c'.status = .disconnected ∧
          c'.connectionCalls = c.connectionCalls ++ [.connection]
      else Quiet .opened c c' := by
  cases h with
  | opened hst ho =>
    obtain ⟨b, hb, hwf, -⟩ := Buffer.readFd_spec ho.input res
    have hstage : AtStage { c with inputBuffer := b } .opened :=
      .opened hst ⟨⟨ho.output.wf, ho.output.interest⟩, ⟨ho.reading.added, ho.reading.read⟩, hwf⟩
    unfold handleRead
    rw [hb, ok_bind]
    match res with
    | .data [] =>
      obtain ⟨c', hc', hclosed⟩ := handleClose_closes hstage hm
      obtain ⟨hclosing, hmoved, hrest⟩ := hclosed
      refine ⟨c', hc', ?_⟩
      rw [if_pos rfl]
      refine ⟨hclosing, ?_, hrest⟩
      cases hmoved with
      | still hp hch => exact .still hp hch
      | mirrored hne hp hfd ha => exact .mirrored hne hp hfd ha
    | .data (x :: xs) =>
      refine ⟨_, rfl, ?_⟩
      rw [if_neg (by simp)]
      exact ⟨hstage.frame rfl rfl rfl rfl, .still rfl rfl, by simp [connectionCalls, invoke]⟩
    | .error errno =>
      refine ⟨_, rfl, ?_⟩
      rw [if_neg (by simp)]
      exact ⟨hstage, .still rfl rfl, rfl⟩

end TcpConnection
