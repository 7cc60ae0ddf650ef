import Mathlib.Logic.Relation
import TinyHttpServer.Server.TcpConnectionStages

/-!
# What can happen to a closed TCP connection

`start_read_in_loop_` and `stop_read_in_loop_` do not look at the status.  After `handle_close_` the
channel has the status `DEL`, or `NEW` after `destroy_connect`, and every update of such a channel
registers it again; the assertions of the poller are left aside here, as in a build without them.

* `stepWith` — the functions of a connection over any implementation of the operations of its channel;
  with the assertions they are the functions of the connection (`stepWith_exec`), and without them they
  do the same wherever those return (`step_unasserted`).
* `closed_stays_closed_iff` — a closed connection keeps its channel unregistered and without events
  exactly as long as neither of the two functions has anything to do.
-/

set_option autoImplicit false

open Checked Machine Epoller

/-- An implementation of the operations of a channel. -/
abbrev ChannelExec := ChannelOp → Epoller → Channel → Checked (Epoller × Channel)

/-- The operations without the assertions of the poller. -/
def ChannelOp.unasserted : ChannelExec := fun op p ch =>
  let (p, ch, _) := op.execUnasserted p ch
  return (p, ch)

/-- Both branches demand that `channels_` has no entry. -/
theorem Epoller.enter_fresh {p q : Epoller} {ch : Channel} (h : p.enter ch = .ok q) :
    p.channels ch.fd = none := by
  unfold enter at h
  split at h
  · rw [bind_eq_ok] at h
    obtain ⟨_, hreq, -⟩ := h
    exact require_eq_ok.1 hreq
  · rw [bind_eq_ok] at h
    obtain ⟨_, hreq, -⟩ := h
    exact require_eq_ok.1 hreq

theorem Epoller.enter_unasserted {p q : Epoller} {ch : Channel} (h : p.enter ch = .ok q) :
    p.enterUnasserted ch = q := by
  have hfresh := enter_fresh h
  unfold enter at h
  split at h
  · rename_i hnew
    rw [require_of hfresh] at h
    cases h
    exact if_pos ⟨hnew, hfresh⟩
  · simp only [hfresh] at h
    cases h

theorem ChannelOp.exec_unasserted (op : ChannelOp) (p : Epoller) (ch : Channel) :
    Extends (op.exec p ch) (op.unasserted p ch) := by
  rintro ⟨p', ch'⟩ h
  unfold unasserted execUnasserted
  by_cases hop : op = .remove
  · subst hop
    simp only [exec, Channel.remove, Epoller.removeChannel, bind_eq_ok] at h
    obtain ⟨_, -, _, -, h⟩ := h
    rw [if_pos rfl, removeChannelUnasserted]
    split at h
    · rename_i hadd
      cases h
      simp only [hadd, if_true]
      rfl
    · rename_i hadd
      cases h
      simp only [hadd, if_false]
      rfl
  · rw [exec_update hop] at h
    simp only [Channel.setEvents, Epoller.updateChannel] at h
    rw [if_neg hop, updateChannelUnasserted]
    simp only
    split at h
    · rename_i hst
      rw [bind_eq_ok] at h
      obtain ⟨q, hq, h⟩ := h
      cases h
      rw [if_pos hst, enter_unasserted hq]
      rfl
    · rename_i hst
      rw [if_neg hst]
      split at h
      · rename_i hnone
        cases h
        rw [if_pos hnone]
        rfl
      · rename_i hnone
        cases h
        rw [if_neg hnone]
        rfl

/-- The channel after an operation. -/
def ChannelOp.after (op : ChannelOp) (ch : Channel) : Channel :=
  if op = .remove then removed ch else updated ch (op.interest ch.events)

theorem ChannelOp.after_fd (op : ChannelOp) (ch : Channel) : (op.after ch).fd = ch.fd := by
  unfold after
  split <;> rfl

theorem ChannelOp.unasserted_eq {p : Epoller} {ch : Channel} (hm : p.Mirrors ch) (op : ChannelOp) :
    op.unasserted p ch = .ok (p.mirror (op.after ch), op.after ch) := by
  unfold unasserted execUnasserted after
  by_cases hop : op = .remove
  · obtain ⟨calls, heq, -⟩ := removeChannelUnasserted_eq hm
    simp only [if_pos hop, heq]
    rfl
  · obtain ⟨call, heq, -⟩ := updateChannelUnasserted_eq hm (op.interest ch.events)
    simp only [if_neg hop, heq]
    rfl

namespace TcpConnection

/-! ## The functions over any channel operations -/

section With

variable (ex : ChannelExec)

def sendRestWith (c : TcpConnection) (rest : Bytes) : Checked TcpConnection := do
  let c := c.noteHighWaterMark rest.length
  let outputBuffer ← c.outputBuffer.append rest
  let c := { c with outputBuffer }
  if c.channel.isWriting then return c else c.onChannel (ex .enableWriting)

def sendInLoopWith (c : TcpConnection) (data : Bytes) (res : WriteResult) : Checked TcpConnection :=
  if c.status = .disconnected then return c
  else do
    let (c, nwrote, faultError) := c.sendDirect data res
    let remaining := data.length - nwrote
    require (remaining ≤ data.length)
    if ¬ faultError ∧ 0 < remaining then c.sendRestWith ex (data.drop nwrote) else return c

def writeDrainedWith (c : TcpConnection) : Checked TcpConnection := do
  let c ← c.onChannel (ex .disableWriting)
  let c := if c.writeCompleteCb then c.queueInLoop .writeComplete else c
  return if c.status = .disconnecting then c.shutdownInLoop else c

def handleWriteWith (c : TcpConnection) (res : WriteResult) : Checked TcpConnection :=
  if c.channel.isWriting then
    match res with
    | .error _ => return c
    | .wrote n => do
      let c := c.accept (c.outputBuffer.readable.take n)
      if 0 < n then
        let outputBuffer ← c.outputBuffer.retrieve n
        let c := { c with outputBuffer }
        if c.outputBuffer.readAbleBytes = 0 then c.writeDrainedWith ex else return c
      else return c
  else return c

def handleCloseWith (c : TcpConnection) : Checked TcpConnection := do
  require (c.status = .connected ∨ c.status = .disconnecting)
  let c := { c with status := .disconnected }
  let c ← c.onChannel (ex .disableAll)
  return (c.invoke .connection).invoke .close

def forceCloseInLoopWith (c : TcpConnection) : Checked TcpConnection :=
  if c.status = .connected ∧ c.status = .connecting then c.handleCloseWith ex else return c

def handleReadWith (c : TcpConnection) (res : ReadResult) : Checked TcpConnection := do
  let inputBuffer ← c.inputBuffer.readFd res
  let c := { c with inputBuffer }
  match res with
  | .data [] => c.handleCloseWith ex
  | .data (_ :: _) => return c.invoke .message
  | .error _ => return c

def startReadInLoopWith (c : TcpConnection) : Checked TcpConnection :=
  if ¬ c.reading ∨ ¬ c.channel.isReading then do
    let c ← c.onChannel (ex .enableReading)
    return { c with reading := true }
  else return c

def stopReadInLoopWith (c : TcpConnection) : Checked TcpConnection :=
  if c.reading ∨ c.channel.isReading then do
    let c ← c.onChannel (ex .disableReading)
    return { c with reading := false }
  else return c

def destroyConnectWith (c : TcpConnection) : Checked TcpConnection := do
  let c ← (if c.status = .connected then do
      let c := { c with status := .disconnecting }
      let c ← c.onChannel (ex .disableAll)
      return c.invoke .connection
    else return c)
  c.onChannel (ex .remove)

def runFunctorWith (c : TcpConnection) : PendingFunc → Checked TcpConnection
  | .writeComplete => return c.invoke .writeComplete
  | .highWaterMark len => return c.invoke (.highWaterMark len)
  | .forceCloseInLoop => c.forceCloseInLoopWith ex

/-- The effect of a step. -/
def stepWith (c : TcpConnection) : Step → Checked TcpConnection
  | .send message res => if c.status = .connected then c.sendInLoopWith ex message res else return c
  | .sendInLoop data res => c.sendInLoopWith ex data res
  | .shutdown => return c.shutdown
  | .forceClose => return c.forceClose
  | .startRead => c.startReadInLoopWith ex
  | .stopRead => c.stopReadInLoopWith ex
  | .retrieveInput len => do return { c with inputBuffer := ← c.inputBuffer.retrieve len }
  | .handleRead res => c.handleReadWith ex res
  | .handleWrite res => c.handleWriteWith ex res
  | .handleClose => c.handleCloseWith ex
  | .dopendingFunc =>
    match c.pendingFunc with
    | [] => return c
    | f :: fs => runFunctorWith ex { c with pendingFunc := fs } f
  | .destroyConnect => c.destroyConnectWith ex

end With

/-- With all assertions these are the functions of the connection. -/
theorem stepWith_exec (c : TcpConnection) (s : Step) : c.stepWith ChannelOp.exec s = c.step s := by
  cases s <;> rfl

/-- A step without the assertions of the poller. -/
def stepUnasserted (c : TcpConnection) (s : Step) : Checked TcpConnection :=
  c.stepWith ChannelOp.unasserted s

/-! ## With and without assertions -/

section Mono

variable {ex ex' : ChannelExec}

theorem onChannel_mono (hex : ∀ op p ch, Extends (ex op p ch) (ex' op p ch)) (c : TcpConnection)
    (op : ChannelOp) : Extends (c.onChannel (ex op)) (c.onChannel (ex' op)) :=
  (hex op c.poller c.channel).bind fun _ => .refl _

theorem handleCloseWith_mono (hex : ∀ op p ch, Extends (ex op p ch) (ex' op p ch))
    (c : TcpConnection) : Extends (c.handleCloseWith ex) (c.handleCloseWith ex') :=
  (Extends.refl _).bind fun _ => (onChannel_mono hex _ _).bind fun _ => .refl _

theorem sendInLoopWith_mono (hex : ∀ op p ch, Extends (ex op p ch) (ex' op p ch))
    (c : TcpConnection) (data : Bytes) (res : WriteResult) :
    Extends (c.sendInLoopWith ex data res) (c.sendInLoopWith ex' data res) := by
  refine .ite (.refl _) ((Extends.refl _).bind fun _ => .ite ?_ (.refl _))
  exact (Extends.refl _).bind fun _ => .ite (.refl _) (onChannel_mono hex _ _)

theorem handleWriteWith_mono (hex : ∀ op p ch, Extends (ex op p ch) (ex' op p ch))
    (c : TcpConnection) (res : WriteResult) :
    Extends (c.handleWriteWith ex res) (c.handleWriteWith ex' res) := by
  refine .ite ?_ (.refl _)
  cases res with
  | error errno => exact .refl _
  | wrote n =>
    refine .ite ((Extends.refl _).bind fun _ => .ite ?_ (.refl _)) (.refl _)
    exact (onChannel_mono hex _ _).bind fun _ => .refl _

theorem stepWith_mono (hex : ∀ op p ch, Extends (ex op p ch) (ex' op p ch)) (c : TcpConnection)
    (s : Step) : Extends (c.stepWith ex s) (c.stepWith ex' s) := by
  cases s with
  | send message res => exact .ite (sendInLoopWith_mono hex _ _ _) (.refl _)
  | sendInLoop data res => exact sendInLoopWith_mono hex _ _ _
  | shutdown => exact .refl _
  | forceClose => exact .refl _
  | startRead => exact .ite ((onChannel_mono hex _ _).bind fun _ => .refl _) (.refl _)
  | stopRead => exact .ite ((onChannel_mono hex _ _).bind fun _ => .refl _) (.refl _)
  | retrieveInput len => exact .refl _
  | handleRead res =>
    refine (Extends.refl _).bind fun _ => ?_
    match res with
    | .data [] => exact handleCloseWith_mono hex _
    | .data (_ :: _) => exact .refl _
    | .error _ => exact .refl _
  | handleWrite res => exact handleWriteWith_mono hex _ _
  | handleClose => exact handleCloseWith_mono hex _
  | dopendingFunc =>
    unfold stepWith
    simp only
    split
    · exact .refl _
    · rename_i f fs _
      cases f with
      | writeComplete => exact .refl _
      | highWaterMark len => exact .refl _
      | forceCloseInLoop => exact .ite (handleCloseWith_mono hex _) (.refl _)
  | destroyConnect =>
    refine Extends.bind (.ite ?_ (.refl _)) fun _ => onChannel_mono hex _ _
    exact (onChannel_mono hex _ _).bind fun _ => .refl _

end Mono

/-- **The assertions change nothing but where a run stops.** -/
theorem step_unasserted {c c' : TcpConnection} {s : Step} (h : c.step s = .ok c') :
    c.stepUnasserted s = .ok c' :=
  stepWith_mono ChannelOp.exec_unasserted c s c' ((stepWith_exec c s).trans h)

/-! ## What a step does to the channel -/

section Effect

variable {ex : ChannelExec} {c c' d : TcpConnection}

/-- The operations that a channel has gone through. -/
def Moves (ex : ChannelExec) (c c' : TcpConnection) : Prop :=
  Relation.ReflTransGen (fun a b => ∃ op, ex op a.1 a.2 = .ok b) (c.poller, c.channel)
    (c'.poller, c'.channel)

/-- The steps that call `handle_close_`: a hangup, and a read that meets the end of the stream. -/
def Closes (s : Step) : Prop := s = .handleClose ∨ s = .handleRead (.data [])

/-- What a step does: it closes the connection and disables the channel, or it leaves an open
connection open. -/
inductive Effect (ex : ChannelExec) (s : Step) (c c' : TcpConnection) : Prop
  | kept (hst : c'.status = .disconnected → c.status = .disconnected) (hmoves : Moves ex c c')
  | closed (hs : Closes s) (hst : c.status ≠ .disconnected) (hst' : c'.status = .disconnected)
      (hex : ex .disableAll c.poller c.channel = .ok (c'.poller, c'.channel))

variable {s : Step}

theorem Effect.refl (c : TcpConnection) : Effect ex s c c := .kept id .refl

theorem onChannel_moves {op : ChannelOp} (h : c.onChannel (ex op) = .ok c') :
    Moves ex c c' ∧ c'.status = c.status := by
  obtain ⟨p, ch, hop, rfl⟩ := onChannel_eq_ok h
  exact ⟨.single ⟨op, hop⟩, rfl⟩

theorem sendInLoopWith_effect {data : Bytes} {res : WriteResult}
    (h : c.sendInLoopWith ex data res = .ok c') : Effect ex s c c' := by
  unfold sendInLoopWith at h
  split at h
  · cases h
    exact .refl c
  · obtain ⟨c₁, n, fault, hdir⟩ : ∃ c₁ n fault, c.sendDirect data res = (c₁, n, fault) :=
      ⟨_, _, _, rfl⟩
    obtain ⟨hlife, -, hp, hch⟩ := sendDirect_touched hdir
    rw [hdir] at h
    simp only [require_of (Nat.sub_le _ _), ok_bind] at h
    have hmoves : Moves ex c c₁ := by
      unfold Moves
      rw [hp, hch]
    split at h
    · obtain ⟨fs, hfs⟩ := noteHighWaterMark_eq c₁ (data.drop n).length
      simp only [sendRestWith, hfs, bind_eq_ok] at h
      obtain ⟨b, -, h⟩ := h
      split at h
      · cases h
        exact .kept (fun hd => hlife.status ▸ hd) hmoves
      · obtain ⟨hmove, hst⟩ := onChannel_moves h
        exact .kept (fun hd => hlife.status ▸ hst ▸ hd) (hmoves.trans hmove)
    · cases h
      exact .kept (fun hd => hlife.status ▸ hd) hmoves

theorem handleWriteWith_effect {res : WriteResult} (h : c.handleWriteWith ex res = .ok c') :
    Effect ex s c c' := by
  unfold handleWriteWith at h
  split at h
  · split at h
    · cases h
      exact .refl c
    · simp only at h
      split at h
      · rw [bind_eq_ok] at h
        obtain ⟨b, -, h⟩ := h
        split at h
        · simp only [writeDrainedWith, bind_eq_ok, shutdownInLoop_of_disconnecting] at h
          obtain ⟨d, hd, h⟩ := h
          obtain ⟨hmove, hst⟩ := onChannel_moves hd
          cases h
          split
          · exact .kept (fun hdisc => hst ▸ hdisc) hmove
          · exact .kept (fun hdisc => hst ▸ hdisc) hmove
        · cases h
          exact .kept id .refl
      · cases h
        exact .kept id .refl
  · cases h
    exact .refl c

theorem handleCloseWith_effect (h : c.handleCloseWith ex = .ok c') :
    c.status ≠ .disconnected ∧ c'.status = .disconnected ∧
      ex .disableAll c.poller c.channel = .ok (c'.poller, c'.channel) := by
  unfold handleCloseWith at h
  rw [bind_eq_ok] at h
  obtain ⟨_, hreq, h⟩ := h
  simp only at h
  rw [bind_eq_ok] at h
  obtain ⟨d, hd, h⟩ := h
  obtain ⟨p, ch, hop, rfl⟩ := onChannel_eq_ok hd
  cases h
  refine ⟨?_, rfl, hop⟩
  rcases require_eq_ok.1 hreq with hst | hst
  · rw [hst]; nofun
  · rw [hst]; nofun

/-- A request to the channel, and a new value of `reading_`. -/
theorem setReading_effect {op : ChannelOp} {reading : Bool}
    (h : (do let d ← c.onChannel (ex op); return { d with reading } : Checked TcpConnection) = .ok c') :
    Effect ex s c c' := by
  rw [bind_eq_ok] at h
  obtain ⟨d, hd, h⟩ := h
  obtain ⟨hmove, hst⟩ := onChannel_moves hd
  cases h
  exact .kept (fun hdisc => hst ▸ hdisc) hmove

theorem destroyConnectWith_effect (h : c.destroyConnectWith ex = .ok c') : Effect ex s c c' := by
  unfold destroyConnectWith at h
  rw [bind_eq_ok] at h
  obtain ⟨d, hd, h⟩ := h
  obtain ⟨hlast, hst⟩ := onChannel_moves h
  split at hd
  · simp only at hd
    rw [bind_eq_ok] at hd
    obtain ⟨e, he, hd⟩ := hd
    obtain ⟨hfirst, hst'⟩ := onChannel_moves he
    cases hd
    refine .kept (fun hdisc => ?_) (hfirst.trans hlast)
    rw [hst, invoke, hst'] at hdisc
    cases hdisc
  · cases hd
    exact .kept (fun hdisc => hst ▸ hdisc) hlast

/-- **One step.** -/
theorem stepWith_effect (h : c.stepWith ex s = .ok c') : Effect ex s c c' := by
  cases s with
  | send message res =>
    simp only [stepWith] at h
    split at h
    · exact sendInLoopWith_effect h
    · cases h
      exact .refl c
  | sendInLoop data res => exact sendInLoopWith_effect h
  | shutdown =>
    cases h
    unfold shutdown
    by_cases hconn : c.status = .connected
    · unfold shutdownInLoop
      simp only [hconn, if_true]
      split
      · exact .kept nofun .refl
      · exact .kept nofun .refl
    · rw [shutdownInLoop_of_ne hconn]
      exact .refl c
  | forceClose =>
    cases h
    unfold forceClose
    split
    · exact .kept nofun .refl
    · exact .refl c
  | startRead =>
    simp only [stepWith, startReadInLoopWith] at h
    split at h
    · exact setReading_effect h
    · cases h
      exact .refl c
  | stopRead =>
    simp only [stepWith, stopReadInLoopWith] at h
    split at h
    · exact setReading_effect h
    · cases h
      exact .refl c
  | retrieveInput len =>
    simp only [stepWith] at h
    rw [bind_eq_ok] at h
    obtain ⟨b, -, h⟩ := h
    cases h
    exact .kept id .refl
  | handleRead res =>
    simp only [stepWith, handleReadWith] at h
    rw [bind_eq_ok] at h
    obtain ⟨b, -, h⟩ := h
    split at h
    · obtain ⟨hst, hst', hex⟩ := handleCloseWith_effect h
      exact .closed (.inr rfl) hst hst' hex
    · cases h
      exact .kept id .refl
    · cases h
      exact .kept id .refl
  | handleWrite res => exact handleWriteWith_effect h
  | handleClose =>
    obtain ⟨hst, hst', hex⟩ := handleCloseWith_effect h
    exact .closed (.inl rfl) hst hst' hex
  | dopendingFunc =>
    simp only [stepWith] at h
    split at h
    · cases h
      exact .refl c
    · rename_i f fs _
      cases f with
      | writeComplete => cases h; exact .kept id .refl
      | highWaterMark len => cases h; exact .kept id .refl
      | forceCloseInLoop =>
        simp only [runFunctorWith, forceCloseInLoopWith] at h
        split at h
        · rename_i hst
          rw [hst.1] at hst
          exact absurd hst.2 nofun
        · cases h
          exact .kept id .refl
  | destroyConnect => exact destroyConnectWith_effect h

end Effect

/-! ## Closed connections -/

section Closed

variable {c c' : TcpConnection} {fd : Int} {s : Step}

/-- The poller has what the channel says, and nothing else under its descriptor. -/
structure Tracked (fd : Int) (c : TcpConnection) : Prop where
  mirrors : c.poller.Mirrors c.channel
  fd : c.channel.fd = fd

/-- The connection is closed, and the kernel does not have its channel. -/
structure Dead (c : TcpConnection) : Prop where
  status : c.status = .disconnected
  events : c.channel.events = .none
  unregistered : c.channel.status ≠ .add

/-- The kernel reports events for registered channels only. -/
def Reported (c : TcpConnection) : Step → Prop
  | .handleRead _ => c.channel.status = .add
  | .handleClose => c.channel.status = .add
  | _ => True

instance (c : TcpConnection) (s : Step) : Decidable (c.Reported s) := by
  unfold Reported; split <;> infer_instance

/-- The step has no use for the channel of a closed connection. -/
def LeavesAlone (c : TcpConnection) (s : Step) : Prop :=
  s ≠ .startRead ∧ (s = .stopRead → c.reading = false)

instance (c : TcpConnection) (s : Step) : Decidable (c.LeavesAlone s) :=
  inferInstanceAs (Decidable (_ ∧ _))

theorem Tracked.interest (h : Tracked fd c) (hreg : c.channel.status ≠ .add) :
    c.poller.interest fd = none := by
  rw [← h.fd, h.mirrors.interest, if_neg hreg]

theorem Tracked.moves (h : Tracked fd c) (hm : Moves ChannelOp.unasserted c c') :
    Tracked fd c' := by
  have hkeep : ∀ a b : Epoller × Channel, (a.1.Mirrors a.2 ∧ a.2.fd = fd) →
      (∃ op, ChannelOp.unasserted op a.1 a.2 = .ok b) → b.1.Mirrors b.2 ∧ b.2.fd = fd := by
    rintro ⟨p, ch⟩ ⟨q, k⟩ ⟨hmir, hfd⟩ ⟨op, hop⟩
    rw [ChannelOp.unasserted_eq hmir] at hop
    cases hop
    exact ⟨mirror_mirrors _ _, (op.after_fd ch).trans hfd⟩
  have hall : ∀ b : Epoller × Channel, Relation.ReflTransGen
      (fun a b => ∃ op, ChannelOp.unasserted op a.1 a.2 = .ok b) (c.poller, c.channel) b →
        b.1.Mirrors b.2 ∧ b.2.fd = fd := by
    intro b hb
    induction hb with
    | refl => exact ⟨h.mirrors, h.fd⟩
    | tail _ hop ih => exact hkeep _ _ ih hop
  obtain ⟨hmir, hfd⟩ := hall _ hm
  exact ⟨hmir, hfd⟩

theorem step_tracked (h : Tracked fd c) (hs : c.stepUnasserted s = .ok c') : Tracked fd c' := by
  cases stepWith_effect hs with
  | kept _ hm => exact h.moves hm
  | closed _ _ _ hex => exact h.moves (.single ⟨_, hex⟩)

/-- **A close** leaves the channel unregistered. -/
theorem close_dead (h : Tracked fd c) (hr : c.Reported s) (hopen : c.status ≠ .disconnected)
    (hs : c.stepUnasserted s = .ok c') (hst : c'.status = .disconnected) : c'.Dead := by
  cases stepWith_effect hs with
  | kept hst' _ => exact absurd (hst' hst) hopen
  | closed hcl _ _ hex =>
    have hadd : c.channel.status = .add := by
      rcases hcl with rfl | rfl
      · exact hr
      · exact hr
    rw [ChannelOp.unasserted_eq h.mirrors] at hex
    rw [Except.ok.injEq, Prod.mk.injEq] at hex
    obtain ⟨-, hch⟩ := hex
    refine ⟨hst, ?_, ?_⟩
    · rw [← hch]
      rfl
    · rw [← hch]
      simp [ChannelOp.after, updated, nextStatus, hadd, ChannelOp.interest]

/-- **One step of a closed connection** that leaves its channel alone. -/
theorem step_dead (h : Tracked fd c) (hd : c.Dead) (hr : c.Reported s) (hs : c.LeavesAlone s)
    (hstep : c.stepUnasserted s = .ok c') : c'.Dead := by
  have hquiet : ¬ c.channel.isReading = true ∧ ¬ c.channel.isWriting = true := by
    simp [Channel.isReading, Channel.isWriting, hd.events, Events.none]
  have hne : c.status ≠ .connected := by
    simp [hd.status]
  unfold stepUnasserted at hstep
  cases s with
  | send message res =>
    rw [stepWith, if_neg hne] at hstep
    cases hstep
    exact hd
  | sendInLoop data res =>
    rw [stepWith, sendInLoopWith, if_pos hd.status] at hstep
    cases hstep
    exact hd
  | shutdown =>
    rw [stepWith, shutdown, shutdownInLoop_of_ne hne] at hstep
    cases hstep
    exact hd
  | forceClose =>
    rw [stepWith, forceClose, if_neg (by simp [hd.status])] at hstep
    cases hstep
    exact hd
  | startRead => exact absurd rfl hs.1
  | stopRead =>
    rw [stepWith, stopReadInLoopWith, if_neg (by simp [hs.2 rfl, hquiet.1])] at hstep
    cases hstep
    exact hd
  | retrieveInput len =>
    simp only [stepWith] at hstep
    rw [bind_eq_ok] at hstep
    obtain ⟨b, -, hstep⟩ := hstep
    cases hstep
    exact ⟨hd.status, hd.events, hd.unregistered⟩
  | handleRead res => exact absurd hr hd.unregistered
  | handleWrite res =>
    rw [show c.stepWith _ (.handleWrite res) = .ok c from if_neg hquiet.2] at hstep
    cases hstep
    exact hd
  | handleClose => exact absurd hr hd.unregistered
  | dopendingFunc =>
    simp only [stepWith] at hstep
    split at hstep
    · cases hstep
      exact hd
    · rename_i f fs _
      cases f with
      | writeComplete => cases hstep; exact ⟨hd.status, hd.events, hd.unregistered⟩
      | highWaterMark len => cases hstep; exact ⟨hd.status, hd.events, hd.unregistered⟩
      | forceCloseInLoop =>
        rw [runFunctorWith, forceCloseInLoopWith, if_neg fun hand => hne hand.1] at hstep
        cases hstep
        exact ⟨hd.status, hd.events, hd.unregistered⟩
  | destroyConnect =>
    rw [stepWith, destroyConnectWith, if_neg hne, pure_eq_ok, ok_bind, onChannel,
      ChannelOp.unasserted_eq h.mirrors] at hstep
    cases hstep
    exact ⟨hd.status, hd.events, by simp [ChannelOp.after, removed]⟩

/-- `start_read_in_loop_`, and `stop_read_in_loop_` where `reading_` is set, register the channel. -/
theorem step_revives (h : Tracked fd c) (hd : c.Dead) (hs : ¬ c.LeavesAlone s) :
    ∃ c', c.stepUnasserted s = .ok c' ∧ c'.channel.status = .add := by
  have hquiet : ¬ c.channel.isReading = true := by
    rw [Channel.isReading, hd.events]
    nofun
  have hadd : ∀ events, (updated c.channel events).status = .add := fun events =>
    if_neg fun hand => hd.unregistered hand.1
  unfold stepUnasserted
  by_cases hstart : s = .startRead
  · rw [hstart, stepWith, startReadInLoopWith, if_pos (.inr hquiet), onChannel,
      ChannelOp.unasserted_eq h.mirrors]
    exact ⟨_, rfl, hadd _⟩
  · have hstop : s = .stopRead ∧ c.reading = true := by
      by_contra hno
      exact hs ⟨hstart, fun hst => by simpa [hst] using hno⟩
    rw [hstop.1, stepWith, stopReadInLoopWith, if_pos (.inl hstop.2), onChannel,
      ChannelOp.unasserted_eq h.mirrors]
    exact ⟨_, rfl, hadd _⟩

theorem run_tracked {steps : List Step} (h : Tracked fd c)
    (hrun : run stepUnasserted c steps = .ok c') : Tracked fd c' :=
  run_safe (fun _ _ _ ht _ hs => step_tracked ht hs) steps c c' h
    (Allowed.of_forall (fun _ _ => trivial) steps c) hrun

theorem buildConnect_tracked {p : Epoller} {address : Nat} {wc : Bool}
    (hfresh : p.interest fd = none) (h : (make p address fd wc).buildConnect = .ok c) :
    Tracked fd c := by
  obtain ⟨-, q, ch, hop, rfl⟩ := buildConnect_eq_ok h
  have hnew : p.channels fd = none := by
    unfold Channel.enableReading Channel.setEvents Epoller.updateChannel at hop
    rw [if_pos (.inl rfl), bind_eq_ok] at hop
    obtain ⟨r, hr, -⟩ := hop
    exact enter_fresh hr
  have hm : p.Mirrors (Channel.make address fd) := ⟨hnew, hfresh⟩
  have hset := setEvents_eq hm ⟨true, false⟩
  rw [if_neg nofun] at hset
  have heq := hop.symm.trans hset
  cases heq
  exact ⟨mirror_mirrors _ _, rfl⟩

end Closed

/-- **Closed connections.**  Take any run, without the assertions of the poller, and the state in which
`handle_close_` leaves the connection.  From there on the channel stays without
events and out of the kernel's list if and only if `start_read_in_loop_` is not executed, and
`stop_read_in_loop_` only where `reading_` is already false. -/
theorem closed_stays_closed_iff {p : Epoller} {address : Nat} {fd : Int} {wc : Bool}
    {c c₀ c₁ : TcpConnection} {pre post : List Step} {e : Step} (hfresh : p.interest fd = none)
    (hbuild : (make p address fd wc).buildConnect = .ok c)
    (hrep : Allowed stepUnasserted Reported c (pre ++ e :: post))
    (hpre : run stepUnasserted c pre = .ok c₀) (hopen : c₀.status ≠ .disconnected)
    (hclose : c₀.stepUnasserted e = .ok c₁) (hst : c₁.status = .disconnected) :
    (∀ q, q <+: post → ∀ c', run stepUnasserted c₁ q = .ok c' →
        c'.channel.events = .none ∧ c'.channel.status ≠ .add ∧ c'.poller.interest fd = none) ↔
      ∀ q s, q ++ [s] <+: post → ∀ c', run stepUnasserted c₁ q = .ok c' →
        s ≠ .startRead ∧ (s = .stopRead → c'.reading = false) := by
  have hrep₀ := hrep.append_right hpre
  have ht₀ := run_tracked (buildConnect_tracked hfresh hbuild) hpre
  have ht₁ := step_tracked ht₀ hclose
  have hd₁ := close_dead ht₀ hrep₀.1 hopen hclose hst
  have hrep₁ := hrep₀.tail hclose
  constructor
  · intro hall
    have hdead : ∀ q, q <+: post → ∀ c', run stepUnasserted c₁ q = .ok c' → c'.Dead := by
      intro q
      induction q using List.reverseRecOn with
      | nil =>
        intro _ c' hc'
        cases hc'
        exact hd₁
      | append_singleton q s ih =>
        intro hq c' hc'
        have hrun := hc'
        rw [run_append, bind_eq_ok] at hrun
        obtain ⟨d, hd, -⟩ := hrun
        have hstep : d.stepUnasserted s = .ok c' := (run_snoc hd s).symm.trans hc'
        have hdd := ih ((List.prefix_append q [s]).trans hq) d hd
        have ht := run_tracked ht₁ hd
        by_cases hs : d.LeavesAlone s
        · exact step_dead ht hdd (allowed_iff.1 hrep₁ q s hq d hd) hs hstep
        · obtain ⟨d', hd', hadd⟩ := step_revives ht hdd hs
          obtain rfl := Except.ok.inj (hd'.symm.trans hstep)
          exact absurd hadd (hall _ hq d' hc').2.1
    intro q s hq c' hc'
    by_contra hno
    have hprefix := (List.prefix_append q [s]).trans hq
    obtain ⟨d, hd, hadd⟩ := step_revives (run_tracked ht₁ hc') (hdead q hprefix c' hc') hno
    exact (hall _ hq d ((run_snoc hc' s).trans hd)).2.1 hadd
  · intro hall q hq c' hc'
    have hallowed : Allowed stepUnasserted (fun c s => c.Reported s ∧ c.LeavesAlone s) c₁ q :=
      allowed_iff.2 fun r s hr d hd =>
        ⟨allowed_iff.1 hrep₁ r s (hr.trans hq) d hd, hall r s (hr.trans hq) d hd⟩
    have hstep : ∀ c s c', Tracked fd c ∧ c.Dead → c.Reported s ∧ c.LeavesAlone s →
        c.stepUnasserted s = .ok c' → Tracked fd c' ∧ c'.Dead :=
      fun _ _ _ hi hadm hs => ⟨step_tracked hi.1 hs, step_dead hi.1 hi.2 hadm.1 hadm.2 hs⟩
    obtain ⟨ht, hd⟩ := run_safe hstep q c₁ c' ⟨ht₁, hd₁⟩ hallowed hc'
    exact ⟨hd.events, hd.unregistered, ht.interest hd.unregistered⟩

/-- Reading has been stopped while output is pending, and `stop_read` is called again late. -/
theorem closed_stays_closed_iff_sample :
    ∃ c₀ c₁, run stepUnasserted sampleConn [.send [1] (.error 11), .stopRead] = .ok c₀ ∧
      c₀.stepUnasserted .handleClose = .ok c₁ ∧
      ∀ q, q <+: [.stopRead, .destroyConnect, .stopRead] → ∀ c', run stepUnasserted c₁ q = .ok c' →
        c'.channel.events = .none ∧ c'.channel.status ≠ .add ∧ c'.poller.interest 5 = none := by
  have hrep : Allowed stepUnasserted Reported sampleConn
      ([.send [1] (.error 11), .stopRead] ++
        .handleClose :: [.stopRead, .destroyConnect, .stopRead]) := by
    decide +kernel
  obtain ⟨c₀, hpre, h₀⟩ := map_eq_ok.1 (show (run stepUnasserted sampleConn
    [.send [1] (.error 11), .stopRead]).map (fun c => c.status) = .ok .connected by decide +kernel)
  obtain ⟨c₁, hclose, h₁⟩ := map_eq_ok.1 (show (run stepUnasserted sampleConn
    ([.send [1] (.error 11), .stopRead] ++ [.handleClose])).map (fun c => decide (c.status =
      .disconnected ∧ Allowed stepUnasserted LeavesAlone c [.stopRead, .destroyConnect, .stopRead])) =
      .ok true by decide +kernel)
  rw [run_snoc hpre] at hclose
  obtain ⟨hst, hleave⟩ := of_decide_eq_true h₁
  exact ⟨c₀, c₁, hpre, hclose, (closed_stays_closed_iff rfl sampleConn_build hrep hpre
    (by rw [h₀]; nofun) hclose hst).2 (allowed_iff.1 hleave)⟩

/-- **A late `start_read`.**  The functor is executed after the close, and the channel is in the
kernel's list again; behind `destroy_connect` it is so with all assertions on. -/
theorem late_start_read :
    ∃ c₁ c₂, sampleConn.Reported .handleClose ∧ sampleConn.stepUnasserted .handleClose = .ok c₁ ∧
      c₁.status = .disconnected ∧ run stepUnasserted c₁ [.startRead] = .ok c₂ ∧
      c₂.channel.events ≠ .none ∧ c₂.channel.status = .add ∧ c₂.poller.interest 5 ≠ none ∧
      (run step sampleConn [.handleClose, .destroyConnect, .startRead]).map
        (fun c => (c.status, c.channel.status)) = .ok (.disconnected, .add) := by
  obtain ⟨c₁, hclose, h₁⟩ := map_eq_ok.1 (show (sampleConn.stepUnasserted .handleClose).map
    (fun c => c.status) = .ok .disconnected by decide +kernel)
  obtain ⟨c₂, hrun, h₂⟩ := map_eq_ok.1 (show (run stepUnasserted sampleConn
    [.handleClose, .startRead]).map (fun c => (c.channel.events, c.channel.status,
      c.poller.interest 5)) = .ok (⟨true, false⟩, .add, some ⟨true, false⟩) by decide +kernel)
  rw [run_cons, hclose, ok_bind] at hrun
  obtain ⟨hev, hrest⟩ := Prod.mk.inj h₂
  obtain ⟨hadd, hint⟩ := Prod.mk.inj hrest
  refine ⟨c₁, c₂, rfl, hclose, h₁, hrun, ?_, hadd, ?_, by decide +kernel⟩
  · rw [hev]
    nofun
  · rw [hint]
    nofun

end TcpConnection
