import TinyHttpServer.Http.HttpServiceSteps
import TinyHttpServer.Http.HttpStream

/-!
# Runs of the HTTP server

Connections that come and go, messages on them, write events, ticks of the wheel and ends of files, in
any order.

* `responses_in_order` — every connection has sent the answers to the messages on it, and nothing else.
* `connected_iff_alive` — the wheel alone decides how long a connection stays `CONNECTED`.
* `run_returns_iff_servable` — what stops the server is a message that `serve` stops at.
* `eviction_is_final` — after an eviction nothing is answered, and what was pending keeps the socket
  from being half-closed.
-/

set_option autoImplicit false

open Checked Machine

namespace HttpService

open HttpConn

variable {s t : HttpService} {k : Nat} {x x' : HttpConn}

theorem run_inv {steps : List Step} (hadm : Allowed step Admissible make steps)
    (hrun : run step make steps = .ok s) : Inv s :=
  run_safe (fun _ act _ h hadm ht => (step_stepped h act hadm ht).inv) steps make s make_inv hadm hrun

/-- Messages come on connections that have been accepted. -/
theorem message_accepted {act : Step} (hadm : s.Admissible act) (hnone : s.conns[k]? = none) :
    answered k s act = [] ∧ ignored k s act = [] := by
  cases act with
  | read j env res sent =>
    obtain ⟨x, hx, -⟩ := hadm
    have hjk : j ≠ k := by
      rintro rfl
      rw [hnone] at hx
      cases hx
    cases res with
    | data data => simp [answered, ignored, hjk]
    | error errno => exact ⟨rfl, rfl⟩
  | _ => exact ⟨rfl, rfl⟩

/-- A connection that is not `CONNECTED` answers nothing. -/
theorem answered_of_down (h : Inv s) (hx : s.conns[k]? = some x) (hdown : x.conn.status ≠ .connected)
    {act : Step} (hadm : s.Admissible act) : answered k s act = [] := by
  cases act with
  | read j env res sent =>
    obtain ⟨y, hy, hread⟩ := hadm
    cases res with
    | error errno => rfl
    | data data =>
      refine if_neg ?_
      rintro ⟨rfl, -, halive⟩
      obtain rfl : x = y := Option.some.inj (hx.symm.trans hy)
      have hs := h.serving_of_reading hx hread
      exact hdown (hs.status.trans (if_pos ((h.alive_iff hx).1 halive)))
  | _ => rfl

/-- What connection `k` has sent and left unread, after the messages. -/
def Answers (k : Nat) (s : HttpService) (messages : List Message) : Prop :=
  Inv s ∧ (s.conns[k]? = none → messages = []) ∧ ∀ x, s.conns[k]? = some x →
    ∃ answers, serveEach [] messages = .ok answers ∧ x.conn.stream = delivered answers ∧
      x.context.readBuff.readable = unreadAfter [] answers

/-- The input that connection `k` has kept. -/
def Keeps (k : Nat) (s : HttpService) (chunks : List Bytes) : Prop :=
  Inv s ∧ (s.conns[k]? = none → chunks = []) ∧ ∀ x, s.conns[k]? = some x →
    x.conn.inputBuffer.readable = chunks.flatten

theorem Stepped.none {act : Step} (h : Stepped s act t) (hnone : t.conns[k]? = none) :
    s.conns[k]? = none := by
  by_contra hsome
  obtain ⟨x, hx⟩ := Option.ne_none_iff_exists'.1 hsome
  obtain ⟨x', hx', -⟩ := h.old k x hx
  rw [hnone] at hx'
  cases hx'

theorem answers_step {act : Step} {messages : List Message} (h : Answers k s messages)
    (hadm : s.Admissible act) (ht : step s act = .ok t) :
    Answers k t (messages ++ answered k s act) := by
  obtain ⟨hinv, hnone, hsome⟩ := h
  have hstepped := step_stepped hinv act hadm ht
  refine ⟨hstepped.inv, fun htk => ?_, fun x' hx' => ?_⟩
  · have hsk := hstepped.none htk
    rw [hnone hsk, (message_accepted hadm hsk).1]
    rfl
  · cases hsk : s.conns[k]? with
    | none =>
      have hfresh := hstepped.fresh k x' hx' hsk
      rw [hnone hsk, (message_accepted hadm hsk).1]
      exact ⟨[], rfl, hfresh.stream, hfresh.unread⟩
    | some x =>
      obtain ⟨y, hy, hprogress⟩ := hstepped.old k x hsk
      obtain rfl : x' = y := Option.some.inj (hx'.symm.trans hy)
      obtain ⟨answers, hanswers, hstream, hunread⟩ := hsome x hsk
      obtain ⟨more, hmore, hstream', hunread'⟩ := hprogress.served
      refine ⟨answers ++ more, ?_, ?_, ?_⟩
      · rw [serveEach_append, hanswers, ok_bind, ← hunread, hmore]
        rfl
      · rw [hstream', hstream, delivered_append]
      · rw [hunread', hunread, unreadAfter_append]

theorem keeps_step {act : Step} {chunks : List Bytes} (h : Keeps k s chunks)
    (hadm : s.Admissible act) (ht : step s act = .ok t) :
    Keeps k t (chunks ++ ignored k s act) := by
  obtain ⟨hinv, hnone, hsome⟩ := h
  have hstepped := step_stepped hinv act hadm ht
  refine ⟨hstepped.inv, fun htk => ?_, fun x' hx' => ?_⟩
  · have hsk := hstepped.none htk
    rw [hnone hsk, (message_accepted hadm hsk).2]
    rfl
  · cases hsk : s.conns[k]? with
    | none =>
      rw [hnone hsk, (message_accepted hadm hsk).2]
      exact (hstepped.fresh k x' hx' hsk).input
    | some x =>
      obtain ⟨y, hy, hprogress⟩ := hstepped.old k x hsk
      obtain rfl : x' = y := Option.some.inj (hx'.symm.trans hy)
      rw [hprogress.kept, hsome x hsk, List.flatten_append]

/-- **Responses in order.**  In every run of the server in its one loop, with any number of
connections, whatever the kernel takes or refuses and however messages, write events, ticks and
closings interleave: what a connection has handed to its socket, followed by what is pending, is the
sequence of the responses to the messages that came while its entry was alive, less those that the
kernel has refused.  There is one response for each, in the order of the messages, computed from the
bytes of this connection and from the files and the table of users as the message has found them. -/
theorem responses_in_order (steps : List Step) (hadm : Allowed step Admissible make steps)
    (s : HttpService) (hrun : run step make steps = .ok s) (k : Nat) (x : HttpConn)
    (hx : s.conns[k]? = some x) :
    ∃ answers, serveEach [] (outputs step (answered k) make steps) = .ok answers ∧
      x.conn.socket.accepted ++ x.conn.outputBuffer.readable = delivered answers ∧
      answers.map Answer.refused = (outputs step (answered k) make steps).map Message.refused ∧
      ∀ a ∈ answers, Framed a.response := by
  obtain ⟨-, -, hsome⟩ := run_history (answered k) (fun _ _ _ _ h hadm ht => answers_step h hadm ht)
    steps make s [] (show Answers k make [] from ⟨make_inv, fun _ => rfl, fun _ h => by cases h⟩)
    hadm hrun
  obtain ⟨answers, hanswers, hstream, -⟩ := hsome x hx
  rw [List.nil_append] at hanswers
  obtain ⟨hrefused, hframed⟩ := serveEach_framed hanswers
  exact ⟨answers, hanswers, hstream, hrefused, hframed⟩

/-- Two connections and a request on each; of the first response 100 bytes of 124 are taken at once. -/
def sampleSteps : List Step :=
  [.accept 1 5, .accept 2 6, .read 0 HttpContext.sampleEnv (.data HttpContext.getRequest.text)
    (.wrote 100), .ontime, .read 1 HttpContext.sampleEnv (.data HttpContext.getRequest.text)
    (.wrote 124), .ontime]

/-- After a third tick: the rest of the first response is written, and a request comes that is not
answered. -/
def lateSteps : List Step :=
  [.write 0 (.wrote 24), .read 0 HttpContext.sampleEnv (.data HttpContext.getRequest.text)
    (.wrote 124)]

theorem samples_run :
    Allowed step Admissible make (sampleSteps ++ .ontime :: lateSteps) ∧
    (run step make sampleSteps).map (fun s => (s.conns.length, s.wheel.idle 0,
      s.conns[0]?.map fun x => (x.conn.status, x.conn.outputBuffer.readable.length))) =
      .ok (2, 2, some (.connected, 24)) ∧
    (run step make (sampleSteps ++ .ontime :: lateSteps)).map
      (fun s => s.conns.length) = .ok 2 := by
  decide +kernel

theorem sampleSteps_admissible :
    Allowed step Admissible make sampleSteps := samples_run.1.append_left

theorem sampleSteps_returns :
    ∃ s, run step make sampleSteps = .ok s ∧ s.conns.length = 2 := by
  obtain ⟨s, hrun, hview⟩ := map_eq_ok.1 samples_run.2.1
  exact ⟨s, hrun, (Prod.mk.inj hview).1⟩

theorem responses_in_order_sample :
    ∃ (s : HttpService) (x : HttpConn) (answers : List Answer),
      run step make sampleSteps = .ok s ∧ s.conns[0]? = some x ∧
      serveEach [] (outputs step (answered 0) make sampleSteps) = .ok answers ∧
      x.conn.socket.accepted ++ x.conn.outputBuffer.readable = delivered answers := by
  obtain ⟨s, hrun, hlen⟩ := sampleSteps_returns
  have hx : s.conns[0]? = some (s.conns.get ⟨0, by omega⟩) := List.getElem?_eq_getElem _
  obtain ⟨answers, hanswers, hstream, -⟩ := responses_in_order sampleSteps sampleSteps_admissible s
    hrun 0 _ hx
  exact ⟨s, _, answers, hrun, hx, hanswers, hstream⟩

/-- **Alive or evicted.**  In every run, an open connection is `CONNECTED` exactly while fewer than
three ticks have passed since it was accepted or, later, has last got a message while its entry was
alive; no response closes it.  While it is `CONNECTED` its input is read at once; later messages are
never answered and stay in the input buffer, every byte of them. -/
theorem connected_iff_alive (steps : List Step)
    (hadm : Allowed step Admissible make steps) (s : HttpService)
    (hrun : run step make steps = .ok s) (k : Nat) (x : HttpConn)
    (hx : s.conns[k]? = some x) :
    x.conn.inputBuffer.readable = (outputs step (ignored k) make steps).flatten ∧
      (x.conn.status ≠ .disconnected →
        (x.conn.status = .connected ↔ s.wheel.idle k < 3) ∧
        (x.conn.status = .connected → x.conn.inputBuffer.readable = [] ∧
          x.conn.socket.shutdownWrites = [])) := by
  obtain ⟨hinv, -, hsome⟩ := run_history (ignored k) (fun _ _ _ _ h hadm ht => keeps_step h hadm ht)
    steps make s [] (show Keeps k make [] from ⟨make_inv, fun _ => rfl, fun _ h => by cases h⟩)
    hadm hrun
  refine ⟨hsome x hx, fun hopen => ?_⟩
  have hs := (hinv.conns k x hx).resolve_right fun hc => hopen hc.status
  have hiff : x.conn.status = .connected ↔ s.wheel.idle k < 3 := by
    rw [hs.status]
    split
    · rename_i hlt
      exact iff_of_true rfl hlt
    · rename_i hge
      exact iff_of_false (by simp) hge
  exact ⟨hiff, fun hconn => ⟨hs.taken (hiff.1 hconn), hs.whole (hiff.1 hconn)⟩⟩

theorem connected_iff_alive_sample :
    ∃ (s : HttpService) (x : HttpConn),
      run step make sampleSteps = .ok s ∧ s.conns[1]? = some x ∧
      x.conn.inputBuffer.readable = List.flatten
        (outputs step (ignored 1) make sampleSteps) := by
  obtain ⟨s, hrun, hlen⟩ := sampleSteps_returns
  have hx : s.conns[1]? = some (s.conns.get ⟨1, by omega⟩) := List.getElem?_eq_getElem _
  exact ⟨s, _, hrun, hx,
    (connected_iff_alive sampleSteps sampleSteps_admissible s hrun 1 _ hx).1⟩

/-- **The server stops only at a request that it cannot answer.**  A run returns if and only if `serve`
returns for every message on a connection with a live entry; nothing else that peers, the kernel and
the wheel do, in the one loop, fails an assertion or reaches an invalid object. -/
theorem run_returns_iff_servable (steps : List Step)
    (hadm : Allowed step Admissible make steps) :
    (∃ s, run step make steps = .ok s) ↔
      ∀ p act, p ++ [act] <+: steps → ∀ u, run step make p = .ok u → u.Servable act := by
  have hreturns : ∀ u act, Inv u → u.Admissible act → u.Servable act →
      ∃ t, step u act = .ok t ∧ Inv t := by
    intro u act h hadm hserve
    obtain ⟨t, ht, hstepped⟩ := step_returns h act hadm hserve
    exact ⟨t, ht, hstepped.inv⟩
  exact run_returns_iff hreturns (fun u act t h hadm ht => servable_of_returns h act hadm ht) steps
    make make_inv hadm

theorem run_returns_iff_servable_sample :
    (∃ s, run step make sampleSteps = .ok s) ↔
      ∀ p act, p ++ [act] <+: sampleSteps → ∀ u,
        run step make p = .ok u → u.Servable act :=
  run_returns_iff_servable sampleSteps sampleSteps_admissible

/-! ### Eviction -/

/-- Connection `k` is no longer `CONNECTED`, and has sent and half-closed what `x₀` had. -/
def Down (k : Nat) (x₀ : HttpConn) (s : HttpService) : Prop :=
  Inv s ∧ ∃ x, s.conns[k]? = some x ∧ x.conn.status ≠ .connected ∧ x.conn.stream = x₀.conn.stream ∧
    x.conn.socket.shutdownWrites = x₀.conn.socket.shutdownWrites

theorem down_step {x₀ : HttpConn} {act : Step} (h : Down k x₀ s) (hadm : s.Admissible act)
    (ht : step s act = .ok t) : Down k x₀ t := by
  obtain ⟨hinv, x, hx, hst, hstream, hshut⟩ := h
  have hstepped := step_stepped hinv act hadm ht
  obtain ⟨x', hx', hprogress⟩ := hstepped.old k x hx
  obtain ⟨hst', hshut'⟩ := hprogress.down hst
  obtain ⟨answers, hanswers, hstream', -⟩ := hprogress.served
  rw [answered_of_down hinv hx hst hadm] at hanswers
  cases hanswers
  exact ⟨hstepped.inv, x', hx', hst', by rw [hstream', hstream, delivered]; exact List.append_nil _,
    hshut'.trans hshut⟩

theorem shutdownWrites_shutdown {c : TcpConnection} (ho : c.Open) (hconn : c.status = .connected)
    (hnone : c.socket.shutdownWrites = []) :
    c.shutdown.socket.shutdownWrites = if c.outputBuffer.readable = [] then [0] else [] := by
  have hempty := Buffer.readable_eq_nil ho.output.wf
  unfold TcpConnection.shutdown TcpConnection.shutdownInLoop
  rw [if_pos hconn]
  simp only
  split
  · rename_i hwriting
    rw [if_neg fun hnil => ho.output.interest.1 hwriting (hempty.1 hnil)]
    exact hnone
  · rename_i hidle
    have hzero : c.outputBuffer.readAbleBytes = 0 := not_not.1 fun hne =>
      hidle (ho.output.interest.2 hne)
    rw [if_pos (hempty.2 hzero)]
    simp only [TcpConnection.shutdownWrite, hnone, List.nil_append, hzero]

/-- **What eviction does.**  The third tick after the last message that a connection has answered
shuts it down.  However the run goes on, the connection sends nothing but what it had sent or had
pending then, and it is half-closed, once, if and only if nothing was pending. -/
theorem eviction_is_final (pre post : List Step)
    (hadm : Allowed step Admissible make (pre ++ .ontime :: post)) (s₁ : HttpService)
    (hpre : run step make pre = .ok s₁) (k : Nat) (x₁ : HttpConn)
    (hx₁ : s₁.conns[k]? = some x₁) (hconn : x₁.conn.status = .connected)
    (hidle : s₁.wheel.idle k = 2) (s₂ : HttpService)
    (hrun : run step make (pre ++ .ontime :: post) = .ok s₂) :
    ∃ x₂, s₂.conns[k]? = some x₂ ∧ x₂.conn.status ≠ .connected ∧
      x₂.conn.socket.accepted ++ x₂.conn.outputBuffer.readable =
        x₁.conn.socket.accepted ++ x₁.conn.outputBuffer.readable ∧
      x₂.conn.socket.shutdownWrites = if x₁.conn.outputBuffer.readable = [] then [0] else [] := by
  have hinv := run_inv hadm.append_left hpre
  have hs := (hinv.conns k x₁ hx₁).resolve_right fun hc => by
    rw [hc.status] at hconn
    cases hconn
  obtain ⟨-, hstream, hst, -, -⟩ := shutdown_spec hs.ready.conn hconn
  have hevict : (s₁.conns.mapIdx s₁.evict)[k]? = some { x₁ with conn := x₁.conn.shutdown } := by
    rw [List.getElem?_mapIdx, hx₁, Option.map_some, hinv.evict_serving hx₁ hs, if_pos hidle]
  have hadm₁ := hadm.append_right hpre
  have hontime : ∃ t, step s₁ .ontime = .ok t ∧ Stepped s₁ .ontime t := ontime_stepped hinv
  obtain ⟨t, ht, hstepped⟩ := hontime
  rw [run_append, hpre, ok_bind, run_cons, ht, ok_bind] at hrun
  cases ht
  have hdown : Down k { x₁ with conn := x₁.conn.shutdown }
      { s₁ with wheel := s₁.wheel.ontime, conns := s₁.conns.mapIdx s₁.evict } :=
    ⟨hstepped.inv, _, hevict, by simp [hst], rfl, rfl⟩
  obtain ⟨-, x₂, hx₂, hst₂, hstream₂, hshut₂⟩ := run_safe
    (fun _ _ _ h hadm ht => down_step h hadm ht) post _ s₂ hdown (hadm₁.tail rfl) hrun
  refine ⟨x₂, hx₂, hst₂, hstream₂.trans hstream, hshut₂.trans ?_⟩
  exact shutdownWrites_shutdown hs.ready.conn hconn (hs.whole (by omega))

/-- The first connection of the sample has 24 bytes pending at the tick that evicts it; they are written
afterwards, a further request is not answered, and the socket is never half-closed. -/
theorem eviction_is_final_sample :
    ∃ x₁ x₂ : HttpConn, x₁.conn.outputBuffer.readable ≠ [] ∧ x₂.conn.status ≠ .connected ∧
      x₂.conn.socket.accepted ++ x₂.conn.outputBuffer.readable =
        x₁.conn.socket.accepted ++ x₁.conn.outputBuffer.readable ∧
      x₂.conn.socket.shutdownWrites = if x₁.conn.outputBuffer.readable = [] then [0] else [] := by
  obtain ⟨s₁, hpre, hview⟩ := map_eq_ok.1 samples_run.2.1
  obtain ⟨s₂, hrun, -⟩ := map_eq_ok.1 samples_run.2.2
  obtain ⟨-, hview⟩ := Prod.mk.inj hview
  obtain ⟨hidle, hconns⟩ := Prod.mk.inj hview
  obtain ⟨x₁, hx₁, hx⟩ := Option.map_eq_some_iff.1 hconns
  obtain ⟨hconn, hpending⟩ := Prod.mk.inj hx
  obtain ⟨x₂, -, hst, hstream, hshut⟩ := eviction_is_final sampleSteps lateSteps
    samples_run.1 s₁ hpre 0 x₁ hx₁ hconn hidle s₂ hrun
  refine ⟨x₁, x₂, fun hnil => ?_, hst, hstream, hshut⟩
  rw [hnil] at hpending
  cases hpending

end HttpService
