import TinyHttpServer.Http.HttpService
import TinyHttpServer.Lib.Parties

/-!
# The steps of the HTTP server

* `Inv` — an open connection is `CONNECTED` exactly while its entry is alive, nothing is left in its
  write buffer, and the poller has no channel but those of the open connections.
* `Stepped` — what a step does to every connection: the messages that it answers and the bytes that it
  leaves in the input buffer.
* `step_returns`, `servable_of_returns` — a step returns exactly if it is no message that `serve` stops
  at.
-/

set_option autoImplicit false

open Checked Machine

namespace HttpService

open HttpConn

/-! ## The invariant -/

variable {s t : HttpService} {k : Nat} {x x' : HttpConn}

/-- Connection `k` is open.  It is `CONNECTED` while its entry is alive, and then it has no input that
has not been read; it is `DISCONNECTING` from the tick on that destroys the entry. -/
structure Serving (wheel : HttpServer Nat) (k : Nat) (x : HttpConn) : Prop where
  ready : x.Ready
  there : wheel.expired k = false
  status : x.conn.status = if wheel.idle k < 3 then .connected else .disconnecting
  taken : wheel.idle k < 3 → x.conn.inputBuffer.readable = []
  whole : wheel.idle k < 3 → x.conn.socket.shutdownWrites = []

/-- The connection has been closed. -/
structure Closed (x : HttpConn) : Prop where
  status : x.conn.status = .disconnected
  new : x.conn.channel.status = .new
  events : x.conn.channel.events = .none

/-- The invariant of the server. -/
structure Inv (s : HttpService) : Prop where
  wheel : s.wheel.Wheel
  entry : ∀ k, s.wheel.entry k ≠ none ↔ k < s.conns.length
  unborn : ∀ k, s.conns.length ≤ k → s.wheel.expired k = false
  conns : ∀ k x, s.conns[k]? = some x → Serving s.wheel k x ∨ Closed x
  channels : ∀ fd, s.poller.channels fd ≠ none →
    ∃ x ∈ s.conns, x.conn.channel.status ≠ .new ∧ x.conn.channel.fd = fd

theorem make_inv : Inv make :=
  ⟨HttpServer.make_wheel, by simp [make, HttpServer.make], fun _ _ => rfl, by simp [make], by
    simp [make, Epoller.make]⟩

theorem Serving.open_status (h : Serving s.wheel k x) :
    x.conn.status = .connected ∨ x.conn.status = .disconnecting := by
  rw [h.status]
  split
  · exact .inl rfl
  · exact .inr rfl

/-- The wheel has changed for other connections only. -/
theorem Serving.frame {wheel : HttpServer Nat} (h : Serving s.wheel k x)
    (hidle : wheel.idle k = s.wheel.idle k) (hexp : wheel.expired k = s.wheel.expired k) :
    Serving wheel k x :=
  ⟨h.ready, by rw [hexp, h.there], by rw [hidle, h.status], by rw [hidle]; exact h.taken,
    by rw [hidle]; exact h.whole⟩

/-- The open connection on the poller of the loop. -/
theorem Serving.attach (h : Serving s.wheel k x) : Serving s.wheel k (s.attach x) :=
  ⟨⟨⟨⟨h.ready.conn.output.wf, h.ready.conn.output.interest⟩,
    ⟨h.ready.conn.reading.added, h.ready.conn.reading.read⟩, h.ready.conn.input⟩,
    h.ready.context, h.ready.sent⟩, h.there, h.status, h.taken, h.whole⟩

/-- A step of connection `k` keeps the invariant if it does so locally: the wheel treats the others as
before, and the poller gets no channel. -/
theorem Inv.store (h : Inv s) (hx : s.conns[k]? = some x) {wheel : HttpServer Nat}
    (hwheel : wheel.Wheel) (hentry : wheel.entry = s.wheel.entry)
    (hothers : ∀ j, j ≠ k → wheel.idle j = s.wheel.idle j ∧ wheel.expired j = s.wheel.expired j)
    (hconn : Serving wheel k x' ∨ Closed x')
    (hchannels : ∀ fd, x'.conn.poller.channels fd ≠ none → s.poller.channels fd ≠ none ∧
      (x.conn.channel.status ≠ .new → x.conn.channel.fd = fd →
        x'.conn.channel.status ≠ .new ∧ x'.conn.channel.fd = fd)) :
    Inv ({ s with wheel }.store k x') where
  wheel := hwheel
  entry j := by
    show wheel.entry j ≠ none ↔ j < (s.conns.set k x').length
    rw [hentry, List.length_set]
    exact h.entry j
  unborn j hj := by
    have hjk : s.conns.length ≤ j := (List.length_set ..).symm.trans_le hj
    have hk := (List.getElem?_eq_some_iff.1 hx).1
    show wheel.expired j = false
    rw [(hothers j (by omega)).2, h.unborn j hjk]
  conns j y hy := by
    rcases Parties.getElem?_set_cases hy with ⟨rfl, rfl⟩ | ⟨hjk, hy⟩
    · exact hconn
    · obtain ⟨hidle, hexp⟩ := hothers j (Ne.symm hjk)
      exact (h.conns j y hy).imp (fun hs => hs.frame hidle hexp) id
  channels fd hfd := by
    obtain ⟨hold, hsame⟩ := hchannels fd hfd
    obtain ⟨y, hy, hreg, hyfd⟩ := h.channels fd hold
    obtain ⟨j, hj⟩ := List.getElem?_of_mem hy
    by_cases hjk : k = j
    · subst hjk
      obtain rfl : x = y := Option.some.inj (hx.symm.trans hj)
      exact ⟨x', List.mem_set (List.getElem?_eq_some_iff.1 hx).1 x', hsame hreg hyfd⟩
    · exact ⟨y, List.mem_of_getElem? ((List.getElem?_set_ne hjk).trans hj), hreg, hyfd⟩

/-- The connection stays open, with the channel that it has. -/
theorem Inv.storeServing (h : Inv s) (hx : s.conns[k]? = some x) {wheel : HttpServer Nat}
    (hwheel : wheel.Wheel) (hentry : wheel.entry = s.wheel.entry)
    (hothers : ∀ j, j ≠ k → wheel.idle j = s.wheel.idle j ∧ wheel.expired j = s.wheel.expired j)
    (hserving : Serving wheel k x') (hmap : TcpConnection.SameMap (s.attach x).conn x'.conn) :
    Inv ({ s with wheel }.store k x') := by
  refine h.store hx hwheel hentry hothers (.inl hserving) fun fd hfd => ⟨?_, fun _ hxfd => ⟨?_, ?_⟩⟩
  · rw [hmap.channels] at hfd
    exact hfd
  · rw [hserving.ready.conn.reading.added]
    simp
  · rw [hmap.fd, ← hxfd]
    rfl

/-- The connection has been closed before. -/
theorem Inv.storeClosed (h : Inv s) (hx : s.conns[k]? = some x) (hclosed : Closed x)
    (hclosed' : Closed x') (hpoller : x'.conn.poller = s.poller) : Inv (s.store k x') := by
  refine h.store hx h.wheel rfl (fun _ _ => ⟨rfl, rfl⟩) (.inr hclosed') fun fd hfd =>
    ⟨by rwa [hpoller] at hfd, fun hnew => absurd hclosed.new hnew⟩

/-! ## What a step does to each connection -/

/-- A message: what it finds, its data, and whether the kernel refuses the response to it. -/
structure Message where
  env : HttpEnv
  data : Bytes
  refused : Bool

/-- What a message has led to: the response, and the bytes that stay unread. -/
structure Answer where
  response : Bytes
  unread : Bytes
  refused : Bool

/-- The kernel refuses a response on connection `k`. -/
def refuses (s : HttpService) (k : Nat) (sent : WriteResult) : Bool :=
  s.conns[k]?.any fun x => decide (x.conn.Refused sent)

/-- The message on connection `k`, if its entry is alive. -/
def answered (k : Nat) (s : HttpService) : Step → List Message
  | .read j env (.data data) sent =>
    if j = k ∧ data ≠ [] ∧ (s.wheel.entry k).any s.wheel.lock then
      [{ env, data, refused := s.refuses k sent }]
    else []
  | _ => []

/-- The data of a message on connection `k` whose entry is gone. -/
def ignored (k : Nat) (s : HttpService) : Step → List Bytes
  | .read j _ (.data data) _ =>
    if j = k ∧ data ≠ [] ∧ ¬ (s.wheel.entry k).any s.wheel.lock then [data] else []
  | _ => []

/-- The messages of one connection: each is answered by `serve`, from the bytes that the ones before
have left unread and its own data. -/
def serveEach (unread : Bytes) : List Message → Checked (List Answer)
  | [] => return []
  | m :: messages => do
    let (rest, out) ← serve m.env (unread ++ m.data)
    let tail ← serveEach rest messages
    return { response := out, unread := rest, refused := m.refused } :: tail

/-- The responses that the kernel has not refused. -/
def delivered (answers : List Answer) : Bytes :=
  ((answers.filter fun a => !a.refused).map Answer.response).flatten

theorem delivered_append (answers more : List Answer) :
    delivered (answers ++ more) = delivered answers ++ delivered more := by
  simp [delivered]

theorem delivered_singleton (a : Answer) :
    delivered [a] = if a.refused = true then [] else a.response := by
  unfold delivered
  cases h : a.refused <;> simp [h]

/-- What is unread after `answers`. -/
def unreadAfter (unread : Bytes) (answers : List Answer) : Bytes :=
  (answers.map Answer.unread).getLastD unread

@[simp] theorem unreadAfter_nil (unread : Bytes) : unreadAfter unread [] = unread := rfl

@[simp] theorem unreadAfter_cons (unread : Bytes) (a : Answer) (answers : List Answer) :
    unreadAfter unread (a :: answers) = unreadAfter a.unread answers := by
  rw [unreadAfter, List.map_cons, List.getLastD_cons]
  rfl

theorem unreadAfter_append (unread : Bytes) (answers more : List Answer) :
    unreadAfter unread (answers ++ more) = unreadAfter (unreadAfter unread answers) more := by
  induction answers generalizing unread with
  | nil => rfl
  | cons a answers ih => rw [List.cons_append, unreadAfter_cons, unreadAfter_cons, ih]

theorem serveEach_append (unread : Bytes) (messages more : List Message) :
    serveEach unread (messages ++ more) = do
      let answers ← serveEach unread messages
      let later ← serveEach (unreadAfter unread answers) more
      return answers ++ later := by
  induction messages generalizing unread with
  | nil =>
    simp only [List.nil_append, serveEach, pure_bind, unreadAfter_nil, bind_pure]
  | cons m messages ih =>
    simp only [List.cons_append, serveEach, ih, bind_assoc, pure_bind, unreadAfter_cons]

/-- Every message has one answer, with a whole response. -/
theorem serveEach_framed {messages : List Message} : ∀ {unread : Bytes} {answers : List Answer},
    serveEach unread messages = .ok answers →
      answers.map Answer.refused = messages.map Message.refused ∧
        ∀ a ∈ answers, Framed a.response := by
  induction messages with
  | nil =>
    intro unread answers h
    cases h
    exact ⟨rfl, fun _ ha => absurd ha List.not_mem_nil⟩
  | cons m messages ih =>
    intro unread answers h
    obtain ⟨⟨rest, out⟩, hserve, h⟩ := bind_eq_ok.1 h
    obtain ⟨tail, htail, h⟩ := bind_eq_ok.1 h
    cases h
    obtain ⟨hrefused, hframed⟩ := ih htail
    refine ⟨congrArg (m.refused :: ·) hrefused, fun a ha => ?_⟩
    rcases List.mem_cons.1 ha with rfl | ha
    · exact serve_framed hserve
    · exact hframed a ha

/-- Connection `x` has become `x'`: it has answered `answered` and left `ignored` where it was; and once
it was no longer `CONNECTED` it has stayed so, without another half-close. -/
structure Progress (x x' : HttpConn) (answered : List Message) (ignored : List Bytes) : Prop where
  served : ∃ answers, serveEach x.context.readBuff.readable answered = .ok answers ∧
    x'.conn.stream = x.conn.stream ++ delivered answers ∧
    x'.context.readBuff.readable = unreadAfter x.context.readBuff.readable answers
  kept : x'.conn.inputBuffer.readable = x.conn.inputBuffer.readable ++ ignored.flatten
  down : x.conn.status ≠ .connected → x'.conn.status ≠ .connected ∧
    x'.conn.socket.shutdownWrites = x.conn.socket.shutdownWrites

theorem Progress.still (hstream : x'.conn.stream = x.conn.stream)
    (hcontext : x'.context = x.context)
    (hin : x'.conn.inputBuffer.readable = x.conn.inputBuffer.readable)
    (hdown : x.conn.status ≠ .connected → x'.conn.status ≠ .connected ∧
      x'.conn.socket.shutdownWrites = x.conn.socket.shutdownWrites) : Progress x x' [] [] :=
  ⟨⟨[], rfl, by simp [hstream, delivered], by simp [hcontext]⟩, by simp [hin], hdown⟩

theorem Progress.same (hstream : x'.conn.stream = x.conn.stream)
    (hcontext : x'.context = x.context)
    (hin : x'.conn.inputBuffer.readable = x.conn.inputBuffer.readable)
    (hlife : TcpConnection.SameLife x.conn x'.conn) : Progress x x' [] [] :=
  .still hstream hcontext hin fun hst => ⟨by rwa [hlife.status], hlife.shutdownWrites⟩

theorem Progress.refl (x : HttpConn) : Progress x x [] [] := .same rfl rfl rfl (.refl _)

/-- A new connection has neither sent nor read anything. -/
structure Fresh (x : HttpConn) : Prop where
  stream : x.conn.stream = []
  unread : x.context.readBuff.readable = []
  input : x.conn.inputBuffer.readable = []

/-- **What a step does.** -/
structure Stepped (s : HttpService) (act : Step) (t : HttpService) : Prop where
  inv : Inv t
  old : ∀ (k : Nat) (x : HttpConn), s.conns[k]? = some x →
    ∃ x', t.conns[k]? = some x' ∧ Progress x x' (answered k s act) (ignored k s act)
  fresh : ∀ (k : Nat) (x : HttpConn), t.conns[k]? = some x → s.conns[k]? = none → Fresh x

/-- Connections other than `k` are as they were, and have got no message. -/
theorem Stepped.store {act : Step} (hx : s.conns[k]? = some x) {wheel : HttpServer Nat}
    (hinv : Inv ({ s with wheel }.store k x'))
    (hothers : ∀ j, j ≠ k → answered j s act = [] ∧ ignored j s act = [])
    (hprogress : Progress x x' (answered k s act) (ignored k s act)) :
    Stepped s act ({ s with wheel }.store k x') := by
  have hk : k < s.conns.length := (List.getElem?_eq_some_iff.1 hx).1
  refine ⟨hinv, fun j y hy => ?_, fun j y hy hnone => ?_⟩
  · by_cases hjk : k = j
    · subst hjk
      obtain rfl : x = y := Option.some.inj (hx.symm.trans hy)
      exact ⟨x', List.getElem?_set_self hk, hprogress⟩
    · obtain ⟨hans, hign⟩ := hothers j (Ne.symm hjk)
      refine ⟨y, (List.getElem?_set_ne hjk).trans hy, ?_⟩
      rw [hans, hign]
      exact .refl y
  · rw [List.getElem?_eq_none_iff] at hnone
    have hj : j < (s.conns.set k x').length := (List.getElem?_eq_some_iff.1 hy).1
    rw [List.length_set] at hj
    omega

/-! ## The steps -/

theorem write_stepped (h : Inv s) (hx : s.conns[k]? = some x) {res : WriteResult}
    (hres : AtMost x.conn.outputBuffer.readAbleBytes res) :
    ∃ t, step s (.write k res) = .ok t ∧ Stepped s (.write k res) t := by
  simp only [step, hx]
  rcases h.conns k x hx with hs | hc
  · have ho := hs.attach.ready.conn
    have hk : ∀ n, res = .wrote n → n ≤ (s.attach x).conn.outputBuffer.readAbleBytes := by
      rintro n rfl
      exact hres
    obtain ⟨conn, hwrite, hreading⟩ := TcpConnection.handleWrite_returns ho.output ho.reading hk
    obtain ⟨hout, hin, hstream⟩ := TcpConnection.handleWrite_effect ho.output hk hwrite
    have htouched := TcpConnection.handleWrite_touched hwrite
    have hserving : Serving s.wheel k { x with conn } :=
      ⟨⟨⟨hout, hreading, by rw [hin]; exact ho.input⟩, hs.ready.context, hs.ready.sent⟩, hs.there,
        htouched.status.trans hs.status, fun hidle => by rw [hin]; exact hs.taken hidle,
        fun hidle => htouched.shutdownWrites.trans (hs.whole hidle)⟩
    simp only [hwrite, ok_bind, pure_eq_ok]
    refine ⟨_, rfl, Stepped.store hx ?_ (fun _ _ => ⟨rfl, rfl⟩) (.same hstream rfl ?_
      ⟨htouched.status, htouched.shutdownWrites⟩)⟩
    · exact h.storeServing hx h.wheel rfl (fun _ _ => ⟨rfl, rfl⟩) hserving
        (htouched.sameMap ho.reading.added)
    · rw [hin]
      rfl
  · have hidle : ¬ (s.attach x).conn.channel.isWriting = true := by
      simp [attach, Channel.isWriting, hc.events, Events.none]
    have hwrite : (s.attach x).conn.handleWrite res = .ok (s.attach x).conn := if_neg hidle
    simp only [hwrite, ok_bind, pure_eq_ok]
    refine ⟨_, rfl, Stepped.store hx ?_ (fun _ _ => ⟨rfl, rfl⟩) (.same rfl rfl rfl ⟨rfl, rfl⟩)⟩
    exact h.storeClosed hx hc ⟨hc.status, hc.new, hc.events⟩ rfl

theorem dopendingFunc_stepped (h : Inv s) (k : Nat) :
    ∃ t, step s (.dopendingFunc k) = .ok t ∧ Stepped s (.dopendingFunc k) t := by
  cases hx : s.conns[k]? with
  | none =>
    refine ⟨s, by simp only [step, hx, pure_eq_ok], h, fun j y hy => ⟨y, hy, .refl y⟩, ?_⟩
    intro j y hy hnone
    rw [hy] at hnone
    cases hnone
  | some x =>
    obtain ⟨fs, cbs, hrun⟩ := TcpConnection.dopendingFunc_eq (s.attach x).conn
    simp only [step, hx, hrun, ok_bind, pure_eq_ok]
    refine ⟨_, rfl, Stepped.store hx ?_ (fun _ _ => ⟨rfl, rfl⟩) (.same rfl rfl rfl ⟨rfl, rfl⟩)⟩
    rcases h.conns k x hx with hs | hc
    · refine h.storeServing hx h.wheel rfl (fun _ _ => ⟨rfl, rfl⟩) ?_ ⟨rfl, rfl⟩
      exact ⟨⟨hs.attach.ready.conn.frame rfl rfl rfl, hs.ready.context, hs.ready.sent⟩, hs.there,
        hs.status, hs.taken, hs.whole⟩
    · exact h.storeClosed hx hc ⟨hc.status, hc.new, hc.events⟩ rfl

/-- **`handle_close_`** of an open connection takes its channel out of the poller. -/
theorem closed_stepped (h : Inv s) (hx : s.conns[k]? = some x) {c : TcpConnection}
    (hc : c.status = .connected ∨ c.status = .disconnecting) (hadd : c.channel.status = .add)
    (hmap : TcpConnection.SameMap (s.attach x).conn c) (hstream : c.stream = x.conn.stream)
    (hin : c.inputBuffer.readable = x.conn.inputBuffer.readable)
    (hsocket : c.socket = x.conn.socket) (act : Step)
    (hmessage : ∀ j, answered j s act = [] ∧ ignored j s act = []) :
    ∃ d t, c.handleClose = .ok d ∧ s.closed k { x with conn := d } = .ok t ∧ Stepped s act t := by
  obtain ⟨d, e, hclose, hdestroy, hst, hnew, hnone, hout, hinput, hsame, hchannels⟩ :=
    TcpConnection.handleClose_destroyConnect hc hadd
  refine ⟨d, s.store k { x with conn := e }, hclose, ?_, Stepped.store hx ?_ (fun j _ => hmessage j) ?_⟩
  · simp only [closed, hdestroy, ok_bind, pure_eq_ok]
    rfl
  · refine h.store hx h.wheel rfl (fun _ _ => ⟨rfl, rfl⟩) (.inr ⟨hst, hnew, hnone⟩) fun fd hfd => ?_
    simp only [hchannels, Function.update_apply] at hfd
    split at hfd
    · exact absurd rfl hfd
    · rename_i hne
      rw [hmap.channels] at hfd
      refine ⟨hfd, fun _ hxfd => absurd ?_ hne⟩
      rw [hmap.fd, ← hxfd]
      rfl
  · obtain ⟨hans, hign⟩ := hmessage k
    rw [hans, hign]
    refine .still ?_ rfl ?_ fun _ => ⟨?_, ?_⟩
    · rw [← hstream, TcpConnection.stream, TcpConnection.stream, hout, hsame]
    · rw [← hin, hinput]
    · rw [hst]
      simp
    · rw [hsame, hsocket]

/-- A closed channel is not registered. -/
theorem Inv.serving_of_added (h : Inv s) (hx : s.conns[k]? = some x)
    (hadd : x.conn.channel.status = .add) : Serving s.wheel k x := by
  refine (h.conns k x hx).resolve_right fun hc => ?_
  rw [hc.new] at hadd
  cases hadd

theorem Inv.serving_of_reading (h : Inv s) (hx : s.conns[k]? = some x)
    (hread : x.conn.channel.isReading = true) : Serving s.wheel k x := by
  refine (h.conns k x hx).resolve_right fun hc => ?_
  simp [Channel.isReading, hc.events, Events.none] at hread

theorem hangup_stepped (h : Inv s) (hx : s.conns[k]? = some x)
    (hadd : x.conn.channel.status = .add) :
    ∃ t, step s (.hangup k) = .ok t ∧ Stepped s (.hangup k) t := by
  have hs := h.serving_of_added hx hadd
  obtain ⟨d, t, hclose, ht, hstepped⟩ := closed_stepped h hx hs.open_status
    (c := (s.attach x).conn) hadd (.refl _) rfl rfl rfl (.hangup k) fun _ => ⟨rfl, rfl⟩
  exact ⟨t, by simp only [step, hx, hclose, ok_bind, ht], hstepped⟩

/-! ### Messages -/

/-- `connection_cb` has given every connection a weak pointer, and it can be locked while fewer than
three ticks have passed. -/
theorem Inv.lock_iff (h : Inv s) (hx : s.conns[k]? = some x) :
    ∃ e, s.wheel.entry k = some e ∧ (s.wheel.lock e = true ↔ s.wheel.idle k < 3) := by
  have hne := (h.entry k).2 (List.getElem?_eq_some_iff.1 hx).1
  obtain ⟨e, he⟩ := Option.ne_none_iff_exists'.1 hne
  exact ⟨e, he, h.wheel.lock_iff he⟩

theorem Inv.alive_iff (h : Inv s) (hx : s.conns[k]? = some x) :
    (s.wheel.entry k).any s.wheel.lock = true ↔ s.wheel.idle k < 3 := by
  obtain ⟨e, he, hlock⟩ := h.lock_iff hx
  rw [he, Option.any_some, hlock]

/-- The wheel after a message: a live entry is touched. -/
theorem Inv.messageCb (h : Inv s) (hx : s.conns[k]? = some x) :
    ∃ wheel, s.wheel.messageCb k = .ok wheel ∧ wheel.Wheel ∧ wheel.entry = s.wheel.entry ∧
      wheel.expired = s.wheel.expired ∧ (∀ j, j ≠ k → wheel.idle j = s.wheel.idle j) ∧
      wheel.idle k = if s.wheel.idle k < 3 then 0 else s.wheel.idle k := by
  obtain ⟨e, he, hlock⟩ := h.lock_iff hx
  have hadm : HttpServer.Admissible s.wheel (.message k) := by
    rw [HttpServer.Admissible, he]
    simp
  obtain ⟨wheel, hstep, hwheel⟩ := HttpServer.step_wheel h.wheel hadm
  have heq := hstep
  simp only [HttpServer.step, HttpServer.messageCb, he, pure_eq_ok, Except.ok.injEq] at heq
  refine ⟨wheel, hstep, hwheel, ?_⟩
  by_cases hidle : s.wheel.idle k < 3
  · rw [if_pos (hlock.2 hidle)] at heq
    subst heq
    refine ⟨rfl, rfl, fun j hj => Function.update_of_ne hj _ _, ?_⟩
    rw [if_pos hidle]
    exact Function.update_self _ _ _
  · rw [if_neg (fun hl => hidle (hlock.1 hl))] at heq
    subst heq
    exact ⟨rfl, rfl, fun _ _ => rfl, by rw [if_neg hidle]⟩

/-- `handle_read_` when bytes have arrived. -/
theorem handleRead_data {c : TcpConnection} (hw : c.inputBuffer.Wf) (b : UInt8) (bs : Bytes) :
    ∃ inputBuffer invoked, c.handleRead (.data (b :: bs)) = .ok { c with inputBuffer, invoked } ∧
      inputBuffer.Wf ∧ inputBuffer.readable = c.inputBuffer.readable ++ b :: bs := by
  obtain ⟨inputBuffer, hread, hwf, hreadable⟩ := Buffer.readFd_spec hw (.data (b :: bs))
  refine ⟨inputBuffer, c.invoked ++ [.message], ?_, hwf, hreadable⟩
  simp only [TcpConnection.handleRead, hread, ok_bind, pure_eq_ok]
  rfl

/-- **A message on a connection with a live entry** is answered if `serve` returns, and stops the
server otherwise. -/
theorem message_alive (h : Inv s) (hx : s.conns[k]? = some x) (hs : Serving s.wheel k x)
    (halive : s.wheel.idle k < 3) (env : HttpEnv) (b : UInt8) (bs : Bytes) (sent : WriteResult) :
    (∀ served, serve env (x.context.readBuff.readable ++ b :: bs) = .ok served →
      ∃ t, step s (.read k env (.data (b :: bs)) sent) = .ok t ∧
        Stepped s (.read k env (.data (b :: bs)) sent) t) ∧
    (∀ t, step s (.read k env (.data (b :: bs)) sent) = .ok t →
      ∃ served, serve env (x.context.readBuff.readable ++ b :: bs) = .ok served) := by
  obtain ⟨inputBuffer, invoked, hread, hwf, hreadable⟩ := handleRead_data
    hs.attach.ready.conn.input b bs
  obtain ⟨wheel, hwheel, hw, hentry, hexp, hothers, hidle⟩ := h.messageCb hx
  have hinput : inputBuffer.readable = b :: bs := by
    rw [hreadable, show (s.attach x).conn.inputBuffer.readable = [] from hs.taken halive,
      List.nil_append]
  -- the connection as `message_cb` finds it
  obtain ⟨x₁, hx₁⟩ : ∃ x₁ : HttpConn, x₁ =
    { x with conn := { (s.attach x).conn with inputBuffer, invoked } } := ⟨_, rfl⟩
  have ho := hs.attach.ready.conn
  have hready : x₁.Ready := by
    subst hx₁
    exact ⟨⟨⟨ho.output.wf, ho.output.interest⟩, ⟨ho.reading.added, ho.reading.read⟩, hwf⟩,
      hs.ready.context, hs.ready.sent⟩
  have hconn : x₁.conn.status = .connected := by
    subst hx₁
    exact hs.status.trans (if_pos halive)
  have hne : x₁.conn.inputBuffer.readable ≠ [] := by
    subst hx₁
    simp [hinput]
  have hrefines := respond_refines env hready hconn hne sent
  rw [show x₁.context.readBuff.readable ++ x₁.conn.inputBuffer.readable =
    x.context.readBuff.readable ++ b :: bs by subst hx₁; rw [hinput]] at hrefines
  have hstep : step s (.read k env (.data (b :: bs)) sent) =
      x₁.respond env sent >>= fun x' => .ok ({ s with wheel }.store k x') := by
    subst hx₁
    simp only [step, hx, handleRead, hread, ok_bind, messageCb, hwheel,
      (h.alive_iff hx).2 halive, if_true, pure_eq_ok]
  have hmessage : ∀ j, answered j s (.read k env (.data (b :: bs)) sent) =
      (if k = j then [{ env, data := b :: bs, refused := decide (x₁.conn.Refused sent) }] else []) ∧
      ignored j s (.read k env (.data (b :: bs)) sent) = [] := by
    intro j
    by_cases hj : k = j
    · subst hj
      subst hx₁
      simp only [answered, ignored, (h.alive_iff hx).2 halive, refuses, hx, Option.any_some]
      simp only [ne_eq, reduceCtorEq, not_false_eq_true, and_self, if_true, not_true_eq_false,
        and_false, if_false, and_true]
      rfl
    · simp [answered, ignored, hj]
  refine ⟨fun served hserved => ?_, fun t ht => ?_⟩
  · obtain ⟨x', hx', hr⟩ := hrefines.returns hserved
    refine ⟨_, by rw [hstep, hx', ok_bind], Stepped.store hx ?_ ?_ ?_⟩
    · refine h.storeServing hx hw hentry (fun j hj => ⟨hothers j hj, by rw [hexp]⟩) ?_ ?_
      · refine ⟨hr.ready, by rw [hexp, hs.there], ?_, fun _ => hr.taken, fun _ => ?_⟩
        · rw [hr.life.status, hconn, hidle, if_pos halive, if_pos (by decide)]
        · rw [hr.life.shutdownWrites]
          subst hx₁
          exact hs.whole halive
      · subst hx₁
        exact ⟨hr.map.channels, hr.map.fd⟩
    · intro j hj
      rw [(hmessage j).1, (hmessage j).2, if_neg (Ne.symm hj)]
      exact ⟨rfl, rfl⟩
    · rw [(hmessage k).1, (hmessage k).2, if_pos rfl]
      refine ⟨⟨[⟨served.2, served.1, decide (x₁.conn.Refused sent)⟩], ?_, ?_, ?_⟩, ?_, fun hdown => ?_⟩
      · simp only [serveEach, hserved, ok_bind, pure_eq_ok]
      · rw [hr.stream, delivered_singleton]
        simp only [decide_eq_true_eq]
        subst hx₁
        rfl
      · rw [hr.unread]
        rfl
      · rw [hr.taken, hs.taken halive]
        rfl
      · exact absurd (hs.status.trans (if_pos halive)) hdown
  · rw [hstep, bind_eq_ok] at ht
    obtain ⟨x', hx', -⟩ := ht
    obtain ⟨served, hserved, -⟩ := hrefines.of_ok hx'
    exact ⟨served, hserved⟩

/-- **A message on a connection whose entry is gone** stays in the input buffer. -/
theorem message_gone (h : Inv s) (hx : s.conns[k]? = some x) (hs : Serving s.wheel k x)
    (hgone : ¬ s.wheel.idle k < 3) (env : HttpEnv) (b : UInt8) (bs : Bytes) (sent : WriteResult) :
    ∃ t, step s (.read k env (.data (b :: bs)) sent) = .ok t ∧
      Stepped s (.read k env (.data (b :: bs)) sent) t := by
  obtain ⟨inputBuffer, invoked, hread, hwf, hreadable⟩ := handleRead_data
    hs.attach.ready.conn.input b bs
  obtain ⟨wheel, hwheel, hw, hentry, hexp, hothers, hidle⟩ := h.messageCb hx
  have hdead : ¬ (s.wheel.entry k).any s.wheel.lock = true := fun hany => hgone ((h.alive_iff hx).1 hany)
  have ho := hs.attach.ready.conn
  rw [if_neg hgone] at hidle
  simp only [step, hx, handleRead, hread, ok_bind, messageCb, hwheel, if_neg hdead, pure_eq_ok]
  refine ⟨_, rfl, Stepped.store hx ?_ ?_ ?_⟩
  · refine h.storeServing hx hw hentry (fun j hj => ⟨hothers j hj, by rw [hexp]⟩) ?_ ⟨rfl, rfl⟩
    refine ⟨⟨⟨⟨ho.output.wf, ho.output.interest⟩, ⟨ho.reading.added, ho.reading.read⟩, hwf⟩,
      hs.ready.context, hs.ready.sent⟩, by rw [hexp, hs.there], ?_, fun hlt => ?_, fun hlt => ?_⟩
    · rw [hidle]
      exact hs.status
    · rw [hidle] at hlt
      exact absurd hlt hgone
    · rw [hidle] at hlt
      exact absurd hlt hgone
  · intro j hj
    simp [answered, ignored, Ne.symm hj]
  · simp only [answered, ignored, hdead, and_false, if_false, not_false_eq_true, and_true, ne_eq,
      reduceCtorEq, if_true]
    exact ⟨⟨[], rfl, by simp [delivered, TcpConnection.stream, attach], rfl⟩,
      by simp [hreadable, attach], fun hdown => ⟨hdown, rfl⟩⟩

/-- An end of file closes the connection. -/
theorem endOfFile_stepped (h : Inv s) (hx : s.conns[k]? = some x) (hs : Serving s.wheel k x)
    (env : HttpEnv) (sent : WriteResult) :
    ∃ t, step s (.read k env (.data []) sent) = .ok t ∧ Stepped s (.read k env (.data []) sent) t := by
  obtain ⟨inputBuffer, hread, hwf, hreadable⟩ :=
    Buffer.readFd_spec hs.attach.ready.conn.input (.data [])
  have hmessage : ∀ j, answered j s (.read k env (.data []) sent) = [] ∧
      ignored j s (.read k env (.data []) sent) = [] := by
    intro j
    simp [answered, ignored]
  obtain ⟨d, t, hclose, ht, hstepped⟩ := closed_stepped h hx
    (c := { (s.attach x).conn with inputBuffer }) hs.open_status hs.ready.conn.reading.added
    ⟨rfl, rfl⟩ rfl (by rw [hreadable]; simp [attach]) rfl (.read k env (.data []) sent) hmessage
  refine ⟨t, ?_, hstepped⟩
  simp only [step, hx, handleRead, TcpConnection.handleRead, hread, ok_bind, hclose, ht]

theorem readError_stepped (h : Inv s) (hx : s.conns[k]? = some x) (hs : Serving s.wheel k x)
    (env : HttpEnv) (errno : Int) (sent : WriteResult) :
    ∃ t, step s (.read k env (.error errno) sent) = .ok t ∧
      Stepped s (.read k env (.error errno) sent) t := by
  obtain ⟨inputBuffer, hread, hwf, hreadable⟩ :=
    Buffer.readFd_spec hs.attach.ready.conn.input (.error errno)
  have ho := hs.attach.ready.conn
  simp only [step, hx, handleRead, TcpConnection.handleRead, hread, ok_bind, pure_eq_ok]
  refine ⟨_, rfl, Stepped.store hx ?_ (fun _ _ => ⟨rfl, rfl⟩) (.same rfl rfl ?_ ⟨rfl, rfl⟩)⟩
  · refine h.storeServing hx h.wheel rfl (fun _ _ => ⟨rfl, rfl⟩) ?_ ⟨rfl, rfl⟩
    refine ⟨⟨⟨⟨ho.output.wf, ho.output.interest⟩, ⟨ho.reading.added, ho.reading.read⟩, hwf⟩,
      hs.ready.context, hs.ready.sent⟩, hs.there, hs.status, fun hidle => ?_, hs.whole⟩
    rw [hreadable, List.append_nil]
    exact hs.taken hidle
  · rw [hreadable, List.append_nil]
    rfl

/-! ### Other steps -/

theorem accept_stepped (h : Inv s) (address : Nat) {fd : Int}
    (hfree : ∀ x ∈ s.conns, x.conn.channel.status ≠ .new → x.conn.channel.fd ≠ fd) :
    ∃ t, step s (.accept address fd) = .ok t ∧ Stepped s (.accept address fd) t := by
  have hnone : s.poller.channels fd = none := by
    by_contra hsome
    obtain ⟨x, hx, hreg, hxfd⟩ := h.channels fd hsome
    exact hfree x hx hreg hxfd
  obtain ⟨conn, hbuild, hfd, hchannels, hin⟩ :=
    TcpConnection.make_buildConnect_returns address false hnone
  obtain ⟨ho, hconn, hstream, hwhole⟩ := TcpConnection.make_buildConnect hbuild
  have hnew : s.wheel.entry s.conns.length = none := by
    by_contra hsome
    exact lt_irrefl _ ((h.entry _).1 hsome)
  simp only [step, newConnection, hbuild, ok_bind, pure_eq_ok]
  refine ⟨_, rfl, ⟨?_, ?_, ?_, ?_, ?_⟩, ?_, ?_⟩
  · exact h.wheel.connected hnew
  · intro k
    rw [List.length_append, List.length_singleton, Nat.lt_succ_iff_lt_or_eq, ← h.entry]
    by_cases hk : k = s.conns.length
    · subst hk
      simp [HttpServer.connectionCb]
    · simp [HttpServer.connectionCb, hk]
  · intro k hk
    rw [List.length_append] at hk
    exact h.unborn k (by omega)
  · intro k x hx
    rcases Nat.lt_trichotomy k s.conns.length with hlt | rfl | hgt
    · rw [List.getElem?_append_left hlt] at hx
      refine (h.conns k x hx).imp (fun hs => hs.frame ?_ rfl) id
      simp [HttpServer.connectionCb, Function.update_of_ne hlt.ne]
    · obtain rfl : x = { conn, context := .make } := by simpa using hx.symm
      have hidle : (s.wheel.connectionCb s.conns.length true).idle s.conns.length = 0 := by
        simp [HttpServer.connectionCb]
      refine .inl ⟨⟨ho, HttpContext.make_wf, HttpContext.make_unwritten⟩, ?_, ?_, fun _ => hin,
        fun _ => hwhole⟩
      · exact h.unborn _ (Nat.le_refl _)
      · rw [hidle]
        exact hconn
    · rw [List.getElem?_eq_none (by rw [List.length_append, List.length_singleton]; omega)] at hx
      cases hx
  · intro fd' hfd'
    simp only [hchannels, Function.update_apply] at hfd'
    split at hfd'
    · rename_i heq
      subst heq
      refine ⟨{ conn, context := .make }, by simp, ?_, hfd⟩
      rw [ho.reading.added]
      simp
    · obtain ⟨x, hx, hreg, hxfd⟩ := h.channels fd' hfd'
      exact ⟨x, List.mem_append_left _ hx, hreg, hxfd⟩
  · intro k x hx
    refine ⟨x, ?_, .refl x⟩
    rw [List.getElem?_append_left (List.getElem?_eq_some_iff.1 hx).1, hx]
  · intro k x hx hnone'
    rw [List.getElem?_append_right (List.getElem?_eq_none_iff.1 hnone')] at hx
    obtain rfl : x = { conn, context := .make } := by
      simpa using List.mem_of_getElem? hx
    exact ⟨hstream, HttpContext.make_unread, hin⟩

/-- What the destructors of the entries do in a tick: a connection whose entry goes is shut down. -/
theorem Inv.evict_serving (h : Inv s) (hx : s.conns[k]? = some x) (hs : Serving s.wheel k x) :
    s.evict k x =
      if s.wheel.idle k = 2 then { x with conn := x.conn.shutdown } else x := by
  have hentry := (h.entry k).2 (List.getElem?_eq_some_iff.1 hx).1
  have hcount : s.wheel.ontime.shutdowns k - s.wheel.shutdowns k =
      if s.wheel.idle k = 2 then 1 else 0 := by
    simp only [HttpServer.ontime, hs.there, Bool.false_eq_true, if_false, h.wheel.card_destroyed,
      hentry, ne_eq, not_false_eq_true, true_and, Nat.add_sub_cancel_left]
  unfold evict
  rw [hcount]
  split <;> rfl

theorem evict_closed (hc : Closed x) : s.evict k x = x := by
  have hfix : x.conn.shutdown = x.conn :=
    TcpConnection.shutdownInLoop_of_ne (by rw [hc.status]; simp)
  unfold evict
  rw [Function.iterate_fixed hfix]

theorem shutdown_spec {c : TcpConnection} (ho : c.Open) (hconn : c.status = .connected) :
    c.shutdown.Open ∧ c.shutdown.stream = c.stream ∧ c.shutdown.status = .disconnecting ∧
      c.shutdown.inputBuffer = c.inputBuffer ∧ c.shutdown.channel = c.channel := by
  obtain ⟨c', hc', ho', hstream⟩ := TcpConnection.step_stream ho .shutdown trivial
  cases hc'
  rw [show c.sentBy .shutdown = [] from rfl, List.append_nil] at hstream
  refine ⟨ho', hstream, ?_⟩
  unfold TcpConnection.shutdown TcpConnection.shutdownInLoop
  rw [if_pos hconn]
  simp only
  split
  · exact ⟨rfl, rfl, rfl⟩
  · exact ⟨rfl, rfl, rfl⟩

theorem ontime_stepped (h : Inv s) :
    ∃ t, step s .ontime = .ok t ∧ Stepped s .ontime t := by
  have hget : ∀ k, (s.conns.mapIdx s.evict)[k]? = s.conns[k]?.map (s.evict k) := by
    intro k
    rw [List.getElem?_mapIdx]
  have hlocal : ∀ k x, s.conns[k]? = some x →
      (Serving s.wheel.ontime k (s.evict k x) ∨ Closed (s.evict k x)) ∧
      (s.evict k x).conn.channel = x.conn.channel ∧
      Progress x (s.evict k x) [] [] := by
    intro k x hx
    rcases h.conns k x hx with hs | hc
    · rw [h.evict_serving hx hs]
      have hidle : s.wheel.ontime.idle k = s.wheel.idle k + 1 := rfl
      split
      · rename_i htwo
        obtain ⟨ho, hstream, hst, hin, hch⟩ := shutdown_spec hs.ready.conn
          (hs.status.trans (if_pos (by omega)))
        refine ⟨.inl ⟨⟨ho, hs.ready.context, hs.ready.sent⟩, hs.there, ?_, fun hlt => ?_,
          fun hlt => ?_⟩, hch, .still hstream rfl (by rw [hin]) fun hdown => ?_⟩
        · rw [hst, if_neg (by omega)]
        · omega
        · omega
        · exact absurd (hs.status.trans (if_pos (by omega))) hdown
      · rename_i htwo
        refine ⟨.inl ⟨hs.ready, hs.there, ?_, fun hlt => hs.taken (by omega),
          fun hlt => hs.whole (by omega)⟩, rfl, .refl x⟩
        rw [hs.status, hidle]
        split_ifs <;> first | rfl | omega
    · rw [evict_closed hc]
      exact ⟨.inr hc, rfl, .refl x⟩
  refine ⟨_, rfl, ⟨h.wheel.ontime, fun k => ?_, fun k hk => ?_, fun k y hy => ?_, fun fd hfd => ?_⟩,
    fun k x hx => ?_, fun k y hy hnone => ?_⟩
  · rw [List.length_mapIdx]
    exact h.entry k
  · rw [List.length_mapIdx] at hk
    exact h.unborn k hk
  · rw [hget, Option.map_eq_some_iff] at hy
    obtain ⟨x, hx, rfl⟩ := hy
    exact (hlocal k x hx).1
  · obtain ⟨x, hx, hreg, hxfd⟩ := h.channels fd hfd
    obtain ⟨k, hk⟩ := List.getElem?_of_mem hx
    refine ⟨s.evict k x, List.mem_of_getElem? (i := k) ?_, ?_⟩
    · rw [hget, hk]
      rfl
    · rw [(hlocal k x hk).2.1]
      exact ⟨hreg, hxfd⟩
  · refine ⟨s.evict k x, ?_, (hlocal k x hx).2.2⟩
    rw [hget, hx]
    rfl
  · rw [hget, hnone] at hy
    cases hy

theorem release_stepped (h : Inv s) (hx : s.conns[k]? = some x) (hst : x.conn.status = .disconnected) :
    ∃ t, step s (.release k) = .ok t ∧ Stepped s (.release k) t := by
  obtain ⟨wheel, hstep, hwheel⟩ := HttpServer.step_wheel h.wheel
    (show HttpServer.Admissible s.wheel (.expire k) from trivial)
  obtain rfl := Except.ok.inj hstep
  have hclosed : Closed x := by
    refine (h.conns k x hx).resolve_left fun hs => ?_
    rcases hs.open_status with hopen | hopen
    · rw [hst] at hopen
      cases hopen
    · rw [hst] at hopen
      cases hopen
  refine ⟨_, rfl, ⟨hwheel, h.entry, fun j hj => ?_, fun j y hy => ?_, h.channels⟩,
    fun j y hy => ⟨y, hy, .refl y⟩, fun j y hy hnone => ?_⟩
  · have hk := (List.getElem?_eq_some_iff.1 hx).1
    simp only at hj
    simp only [Function.update_of_ne (show j ≠ k by omega), h.unborn j hj]
  · by_cases hjk : j = k
    · subst hjk
      obtain rfl : x = y := Option.some.inj (hx.symm.trans hy)
      exact .inr hclosed
    · exact (h.conns j y hy).imp (fun hs => hs.frame rfl (Function.update_of_ne hjk _ _)) id
  · rw [hy] at hnone
    cases hnone

/-! ## Every step -/

/-- A message on a live connection can be answered. -/
def Servable (s : HttpService) : Step → Prop
  | .read k env (.data data) _ => ∀ x ∈ s.conns[k]?, data ≠ [] → (s.wheel.entry k).any s.wheel.lock →
    ∃ served, serve env (x.context.readBuff.readable ++ data) = .ok served
  | _ => True

/-- **One step.** -/
theorem step_returns (h : Inv s) (act : Step) (hadm : s.Admissible act) (hserve : s.Servable act) :
    ∃ t, step s act = .ok t ∧ Stepped s act t := by
  cases act with
  | accept address fd => exact accept_stepped h address hadm
  | read k env res sent =>
    obtain ⟨x, hx, hread⟩ := hadm
    have hs := h.serving_of_reading hx hread
    match res with
    | .error errno => exact readError_stepped h hx hs env errno sent
    | .data [] => exact endOfFile_stepped h hx hs env sent
    | .data (b :: bs) =>
      by_cases halive : s.wheel.idle k < 3
      · obtain ⟨served, hserved⟩ := hserve x hx (List.cons_ne_nil b bs) ((h.alive_iff hx).2 halive)
        exact (message_alive h hx hs halive env b bs sent).1 served hserved
      · exact message_gone h hx hs halive env b bs sent
  | write k res =>
    obtain ⟨x, hx, hres⟩ := hadm
    exact write_stepped h hx hres
  | hangup k =>
    obtain ⟨x, hx, hadd⟩ := hadm
    exact hangup_stepped h hx hadd
  | dopendingFunc k => exact dopendingFunc_stepped h k
  | ontime => exact ontime_stepped h
  | release k =>
    obtain ⟨x, hx, hst⟩ := hadm
    exact release_stepped h hx hst

/-- The server stops at a message that cannot be answered. -/
theorem servable_of_returns (h : Inv s) (act : Step) (hadm : s.Admissible act)
    (ht : step s act = .ok t) : s.Servable act := by
  cases act with
  | read k env res sent =>
    obtain ⟨x, hx, hread⟩ := hadm
    match res with
    | .data (b :: bs) =>
      rintro y hy - hany
      obtain rfl : x = y := Option.some.inj (hx.symm.trans hy)
      exact (message_alive h hx (h.serving_of_reading hx hread) ((h.alive_iff hx).1 hany) env b bs
        sent).2 t ht
    | .data [] => exact fun _ _ hne => absurd rfl hne
    | .error _ => trivial
  | _ => trivial

theorem step_stepped (h : Inv s) (act : Step) (hadm : s.Admissible act)
    (ht : step s act = .ok t) : Stepped s act t := by
  obtain ⟨t', ht', hstepped⟩ := step_returns h act hadm (servable_of_returns h act hadm ht)
  obtain rfl : t = t' := Except.ok.inj (ht.symm.trans ht')
  exact hstepped

end HttpService
