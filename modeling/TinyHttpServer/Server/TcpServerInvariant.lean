import TinyHttpServer.Http.HttpFraming
import TinyHttpServer.Lib.DueMessages
import TinyHttpServer.Server.TcpConnectionStages
import TinyHttpServer.Server.TcpServer

/-!
# The invariant of a server

Opening and closing a connection are functors that travel between the base loop and the loop of the
connection.  At every stage at most one functor is due for a connection, in one loop: it is in the
queue of that loop exactly once, or it is held by the loop that runs it or is about to issue it.

* `Conns`, `Pollers`, `Queues` — the three parts of the invariant, for the stages `σ` and the loops
  `home` of the connections; `held` is the connection whose due functor is not in a queue.
* `Inv.queue`, `Inv.queueDue`, `Inv.pop`, `Inv.popDue` — the changes of a queue.
* `Inv.store`, `Inv.add` — a change of one connection, and a new connection.
-/

set_option autoImplicit false

open Checked Machine Epoller TcpConnection DueMessages

namespace TcpServer

/-! ## Stages and functors -/

/-- The connection that a functor is about. -/
def Functor.conn : Functor → Nat
  | .buildConnect i => i
  | .removeConnectionInLoop i => i
  | .destroyConnect i => i
  | .sendInLoop i _ => i
  | .shutdownInLoop i => i
  | .pending i _ => i

/-- The connection whose stage a functor changes. -/
def Functor.key : Functor → Option Nat
  | .buildConnect i => some i
  | .removeConnectionInLoop i => some i
  | .destroyConnect i => some i
  | _ => none

/-- `send_in_loop_`. -/
def Functor.sends : Functor → Bool
  | .sendInLoop _ _ => true
  | _ => false

/-- The functor that takes connection `i` to its next stage, and the loop it runs in. -/
def due (i home : Nat) : Stage → Option (Nat × Functor)
  | .accepted => some (home, .buildConnect i)
  | .closing => some (0, .removeConnectionInLoop i)
  | .removed => some (home, .destroyConnect i)
  | _ => none

theorem due_cases {i home l : Nat} {f : Functor} {st : Stage} (h : due i home st = some (l, f)) :
    (st = .accepted ∧ l = home ∧ f = .buildConnect i) ∨
      (st = .closing ∧ l = 0 ∧ f = .removeConnectionInLoop i) ∨
      (st = .removed ∧ l = home ∧ f = .destroyConnect i) := by
  cases st with
  | accepted => cases h; exact .inl ⟨rfl, rfl, rfl⟩
  | closing => cases h; exact .inr (.inl ⟨rfl, rfl, rfl⟩)
  | removed => cases h; exact .inr (.inr ⟨rfl, rfl, rfl⟩)
  | absent | opened | destroyed => cases h

/-- How the stages follow each other. -/
inductive Advance : Stage → Stage → Prop
  | stay (st : Stage) : Advance st st
  | build : Advance .accepted .opened
  | close : Advance .opened .closing
  | remove : Advance .closing .removed
  | destroy : Advance .removed .destroyed

theorem Advance.destroyed {st : Stage} (h : Advance .destroyed st) : st = .destroyed := by
  cases h; rfl

theorem Advance.accepted {st : Stage} (h : Advance st .accepted) : st = .accepted := by
  cases h; rfl

/-- The connection is not in `connection_` any more. -/
def Unmapped (st : Stage) : Prop := st = .removed ∨ st = .destroyed

instance (st : Stage) : Decidable (Unmapped st) := inferInstanceAs (Decidable (_ ∨ _))

/-- The record of a connection at each stage, apart from dispatched events. -/
def milestones : Stage → List LifeEvent
  | .absent => []
  | .accepted => []
  | .opened => [.buildConnect, .connectionCb .connected]
  | .closing => [.buildConnect, .connectionCb .connected, .connectionCb .disconnected]
  | .removed => [.buildConnect, .connectionCb .connected, .connectionCb .disconnected,
      .removeConnectionInLoop]
  | .destroyed => [.buildConnect, .connectionCb .connected, .connectionCb .disconnected,
      .removeConnectionInLoop, .destroyConnect]

/-- The record of a connection at a stage. -/
structure LifeOk (st : Stage) (life : List LifeEvent) : Prop where
  reached : life.filter (· ≠ .handleEvent) = milestones st
  events : ∀ p, p ++ [.handleEvent] <+: life → .buildConnect ∈ p

/-- A functor may stand in the queue of loop `l`. -/
structure FunctorOk (σ : Nat → Stage) (home : Nat → Nat) (l : Nat) (f : Functor) : Prop where
  present : σ f.conn ≠ .absent
  loop : f.key = none → home f.conn = l
  built : f.sends = true → σ f.conn ≠ .accepted

/-- The state of connection `i` at a stage; `names` and `connection` are the names of the server and
its map. -/
structure ConnOk (names : Int → Bytes) (connection : Bytes → Option Nat) (st : Stage) (home i : Nat)
    (sc : ServerConn) : Prop where
  stage : sc.conn.AtStage st
  life : LifeOk st sc.life
  loop : sc.loop = home
  address : sc.conn.channel.address = i
  name : sc.name = names (i + 1)
  mapped : connection sc.name = if Unmapped st then none else some i

/-- Connection `i` is not destroyed. -/
structure Live (σ : Nat → Stage) (conns : Nat → Option ServerConn) (i : Nat) (sc : ServerConn) :
    Prop where
  conn : conns i = some sc
  stage : σ i ≠ .destroyed

/-- The pollers of the loops mirror the channels of the live connections, which have distinct
descriptors, and have no other entries. -/
structure Pollers (σ : Nat → Stage) (home : Nat → Nat) (conns : Nat → Option ServerConn)
    (pollers : Nat → Epoller) : Prop where
  fds : ∀ i j sc sc', Live σ conns i sc → Live σ conns j sc' →
    sc.conn.channel.fd = sc'.conn.channel.fd → i = j
  mirrors : ∀ i sc, Live σ conns i sc → (pollers (home i)).Mirrors sc.conn.channel
  outside : ∀ l fd, (∀ i sc, Live σ conns i sc → home i = l → sc.conn.channel.fd ≠ fd) →
    (pollers l).channels fd = none ∧ (pollers l).interest fd = none

/-- The connections, each as its stage says. -/
structure Conns (σ : Nat → Stage) (home : Nat → Nat) (names : Int → Bytes)
    (connection : Bytes → Option Nat) (accepted : Nat) (conns : Nat → Option ServerConn) : Prop where
  absent : ∀ i, conns i = none ↔ σ i = .absent
  bound : ∀ i, σ i ≠ .absent → i < accepted
  each : ∀ i sc, conns i = some sc → ConnOk names connection (σ i) (home i) i sc

/-- The queues of the loops. -/
structure Queues (σ : Nat → Stage) (home : Nat → Nat) (held : Option Nat)
    (queues : Nat → List Functor) : Prop where
  once : Once Functor.key (fun i => due i (home i) (σ i)) held queues
  each : ∀ l, ∀ f ∈ queues l, FunctorOk σ home l f

structure Inv (σ : Nat → Stage) (home : Nat → Nat) (held : Option Nat) (s : TcpServer) : Prop where
  pool : s.threadPool.loops = [] ∨ s.threadPool.next < s.threadPool.loops.length
  nextId : s.nextId = ((s.accepted : Int) + 1).bmod (2 ^ 32)
  conns : Conns σ home s.connName s.connection s.accepted s.conns
  pollers : Pollers σ home s.conns fun l => (s.loops l).poller
  queues : Queues σ home held fun l => (s.loops l).pendingFunc

variable {s : TcpServer} {σ : Nat → Stage} {home : Nat → Nat} {held : Option Nat} {i : Nat}

theorem Inv.exists_conn (h : Inv σ home held s) (hi : σ i ≠ .absent) :
    ∃ sc, s.conns i = some sc ∧ ConnOk s.connName s.connection (σ i) (home i) i sc := by
  cases hc : s.conns i with
  | none => exact absurd ((h.conns.absent i).1 hc) hi
  | some sc => exact ⟨sc, rfl, h.conns.each i sc hc⟩

/-! ## Records -/

theorem LifeOk.nil : LifeOk .accepted [] := by
  refine ⟨rfl, fun p hp => ?_⟩
  exact absurd (List.prefix_nil.1 hp) (List.append_ne_nil_of_right_ne_nil _ (List.cons_ne_nil _ _))

theorem prefix_of_not_mem {p : List LifeEvent} {x : LifeEvent} :
    ∀ {es life : List LifeEvent}, x ∉ es → p ++ [x] <+: life ++ es → p ++ [x] <+: life := by
  intro es
  induction es with
  | nil => intro life _ h; simpa using h
  | cons e es ih =>
    intro life hx h
    rw [List.mem_cons, not_or] at hx
    rw [List.append_cons life e es] at h
    obtain heq | h := List.prefix_concat_iff.1 (ih hx.2 h)
    · exact absurd (List.append_singleton_inj.1 heq).2 hx.1
    · exact h

theorem LifeOk.append {st st' : Stage} {life es : List LifeEvent} (h : LifeOk st life)
    (hm : milestones st' = milestones st ++ es) (hes : .handleEvent ∉ es) :
    LifeOk st' (life ++ es) := by
  refine ⟨?_, fun p hp => h.events p (prefix_of_not_mem hes hp)⟩
  rw [List.filter_append, h.reached, hm, List.filter_eq_self.2]
  intro e he
  apply decide_eq_true
  rintro rfl
  exact hes he

/-- A dispatched event, after `build_connect`. -/
theorem LifeOk.event {st : Stage} {life : List LifeEvent} (h : LifeOk st life)
    (hbuilt : .buildConnect ∈ life) : LifeOk st (life ++ [.handleEvent]) := by
  refine ⟨?_, fun p hp => ?_⟩
  · rw [List.filter_append, h.reached]
    exact List.append_nil _
  obtain heq | hp := List.prefix_concat_iff.1 hp
  · rwa [(List.append_singleton_inj.1 heq).1]
  · exact h.events p hp

theorem LifeOk.mem {st : Stage} {life : List LifeEvent} (h : LifeOk st life) (e : LifeEvent)
    (he : e ≠ .handleEvent) : e ∈ life ↔ e ∈ milestones st := by
  rw [← h.reached, List.mem_filter]
  simp [he]

/-! ## Queues -/

section Queues

variable {queues : Nat → List Functor} {l : Nat} {f : Functor} {fs : List Functor}

theorem Queues.set {held' : Option Nat} (h : Queues σ home held queues)
    (honce : Once Functor.key (fun i => due i (home i) (σ i)) held' (Function.update queues l fs))
    (hfs : ∀ f ∈ fs, FunctorOk σ home l f) :
    Queues σ home held' (Function.update queues l fs) := by
  refine ⟨honce, fun l' f hf => ?_⟩
  rw [Function.update_apply] at hf
  split at hf
  · rename_i hl
    rw [hl]
    exact hfs f hf
  · exact h.each l' f hf

/-- Functors that change no stage are queued. -/
theorem Queues.append (h : Queues σ home held queues) (hkey : ∀ f ∈ fs, f.key = none)
    (hfs : ∀ f ∈ fs, FunctorOk σ home l f) :
    Queues σ home held (Function.update queues l (queues l ++ fs)) := by
  refine h.set (h.once.append_other hkey) fun f hf => ?_
  obtain hf | hf := List.mem_append.1 hf
  · exact h.each l f hf
  · exact hfs f hf

theorem functorOk_of_due (hdue : due i (home i) (σ i) = some (l, f)) : FunctorOk σ home l f := by
  obtain ⟨hst, rfl, rfl⟩ | ⟨hst, rfl, rfl⟩ | ⟨hst, rfl, rfl⟩ := due_cases hdue
  all_goals
    refine ⟨?_, nofun, nofun⟩
    simp only [Functor.conn, hst]
    nofun

theorem key_of_due {home : Nat} {st : Stage} (hdue : due i home st = some (l, f)) :
    f.key = some i := by
  obtain ⟨-, -, rfl⟩ | ⟨-, -, rfl⟩ | ⟨-, -, rfl⟩ := due_cases hdue <;> rfl

/-- The due functor of the held connection is queued. -/
theorem Queues.appendDue (h : Queues σ home (some i) queues)
    (hdue : due i (home i) (σ i) = some (l, f)) :
    Queues σ home none (Function.update queues l (queues l ++ [f])) := by
  refine h.set (h.once.append_due (key_of_due hdue) hdue) fun g hg => ?_
  obtain hg | hg := List.mem_append.1 hg
  · exact h.each l g hg
  · rw [List.mem_singleton.1 hg]
    exact functorOk_of_due hdue

theorem Queues.each_tail (h : Queues σ home held queues) (hq : queues l = f :: fs) :
    ∀ g ∈ fs, FunctorOk σ home l g := by
  intro g hg
  apply h.each l
  rw [hq]
  exact List.mem_cons_of_mem f hg

/-- The stage of the held connection changes. -/
theorem Queues.advance {st : Stage} (h : Queues σ home held queues) (hadv : Advance (σ i) st)
    (hst : st ≠ .absent) (hheld : st = σ i ∨ held = some i) :
    Queues (Function.update σ i st) home held queues := by
  refine ⟨h.once.change fun j hj => ?_, fun l f hf => ?_⟩
  · obtain rfl | hne := eq_or_ne j i
    · rw [Function.update_self, hheld.resolve_right hj]
    · rw [Function.update_of_ne hne]
  · have hok := h.each l f hf
    obtain heq | hne := eq_or_ne f.conn i
    · refine ⟨by rw [heq, Function.update_self]; exact hst, hok.loop, fun hs => ?_⟩
      rw [heq, Function.update_self]
      rintro rfl
      exact hok.built hs (heq ▸ hadv.accepted)
    · refine ⟨?_, hok.loop, ?_⟩
      · rw [Function.update_of_ne hne]; exact hok.present
      · rw [Function.update_of_ne hne]; exact hok.built

/-- A connection that was absent is held, and may become any stage. -/
theorem Queues.add (h : Queues σ home none queues) (hi : σ i = .absent) (st : Stage) (loop : Nat) :
    Queues (Function.update σ i st) (Function.update home i loop) (some i) queues := by
  have hheld := (Once.held_iff (k := i) (by rw [hi]; rfl)).2 h.once
  refine ⟨hheld.change fun j hj => ?_, fun l f hf => ?_⟩
  · have hne : j ≠ i := fun heq => hj (heq ▸ rfl)
    rw [Function.update_of_ne hne, Function.update_of_ne hne]
  · have hok := h.each l f hf
    have hne : f.conn ≠ i := fun heq => hok.present (heq ▸ hi)
    refine ⟨?_, ?_, ?_⟩
    · rw [Function.update_of_ne hne]; exact hok.present
    · rw [Function.update_of_ne hne]; exact hok.loop
    · rw [Function.update_of_ne hne]; exact hok.built

theorem setPending_pollers (s : TcpServer) (l : Nat) (fs : List Functor) :
    (fun l' => ((s.setPending l fs).loops l').poller) = fun l' => (s.loops l').poller := by
  funext l'
  unfold setPending
  obtain rfl | hl := eq_or_ne l' l
  · simp
  · simp [Function.update_of_ne hl]

theorem setPending_queues (s : TcpServer) (l : Nat) (fs : List Functor) :
    (fun l' => ((s.setPending l fs).loops l').pendingFunc) =
      Function.update (fun l' => (s.loops l').pendingFunc) l fs := by
  funext l'
  unfold setPending
  obtain rfl | hl := eq_or_ne l' l
  · simp
  · simp [Function.update_of_ne hl]

/-- A change of one queue. -/
theorem Inv.setPending {held' : Option Nat} (h : Inv σ home held s)
    (hq : Queues σ home held' (Function.update (fun l => (s.loops l).pendingFunc) l fs)) :
    Inv σ home held' (s.setPending l fs) := by
  refine ⟨h.pool, h.nextId, h.conns, ?_, ?_⟩
  · rw [setPending_pollers]
    exact h.pollers
  · rw [setPending_queues]
    exact hq

theorem Inv.queue (h : Inv σ home held s) (hf : f.key = none) (hok : FunctorOk σ home l f) :
    Inv σ home held (s.queueInLoop l f) := by
  apply h.setPending
  apply h.queues.append
  · intro g hg
    rw [List.mem_singleton.1 hg]
    exact hf
  · intro g hg
    rw [List.mem_singleton.1 hg]
    exact hok

theorem Inv.queueDue (h : Inv σ home (some i) s) (hdue : due i (home i) (σ i) = some (l, f)) :
    Inv σ home none (s.queueInLoop l f) := h.setPending (h.queues.appendDue hdue)

/-- A functor that changes no stage is taken out of its queue. -/
theorem Inv.pop (h : Inv σ home held s) (hq : (s.loops l).pendingFunc = f :: fs)
    (hf : f.key = none) : Inv σ home held (s.setPending l fs) :=
  h.setPending (h.queues.set (h.queues.once.pop_other hq hf) (h.queues.each_tail hq))

/-- A functor that changes the stage of its connection is due; taken out of its queue, it is
held. -/
theorem Inv.popDue (h : Inv σ home none s) (hq : (s.loops l).pendingFunc = f :: fs)
    (hf : f.key = some i) :
    due i (home i) (σ i) = some (l, f) ∧ Inv σ home (some i) (s.setPending l fs) := by
  obtain ⟨hdue, honce⟩ := h.queues.once.pop_due hq hf
  exact ⟨hdue, h.setPending (h.queues.set honce (h.queues.each_tail hq))⟩

theorem Inv.held_iff (hdue : due i (home i) (σ i) = none) :
    Inv σ home (some i) s ↔ Inv σ home none s := by
  have honce : ∀ {queues : Nat → List Functor},
      Once Functor.key (fun i => due i (home i) (σ i)) (some i) queues ↔
        Once Functor.key (fun i => due i (home i) (σ i)) none queues := Once.held_iff hdue
  constructor
  · intro h
    exact ⟨h.pool, h.nextId, h.conns, h.pollers, honce.1 h.queues.once, h.queues.each⟩
  · intro h
    exact ⟨h.pool, h.nextId, h.conns, h.pollers, honce.2 h.queues.once, h.queues.each⟩

end Queues

/-! ## Connections -/

theorem connName_inj {a b : Nat} (h : s.connName (a + 1) = s.connName (b + 1)) : a = b := by
  have hstr : ∀ n : Nat, intStr ((n : Int) + 1) = toStr (n + 1) := fun n => if_neg (by omega)
  unfold connName at h
  have hdigits := List.append_cancel_left h
  rw [hstr, hstr] at hdigits
  have := toStr_inj hdigits
  omega

section Conns

variable {conns : Nat → Option ServerConn} {connection connection' : Bytes → Option Nat}
  {accepted accepted' : Nat} {st : Stage} {sc : ServerConn} {loop : Nat}

/-- One connection is changed or new; the entries of the others in `connection_` are as before. -/
theorem Conns.set (h : Conns σ home s.connName connection accepted conns)
    (hok : ConnOk s.connName connection' st loop i sc) (hi : i < accepted')
    (hle : accepted ≤ accepted') (hother : ∀ n, n ≠ sc.name → connection' n = connection n) :
    Conns (Function.update σ i st) (Function.update home i loop) s.connName connection' accepted'
      (Function.update conns i (some sc)) := by
  constructor
  · intro j
    obtain rfl | hne := eq_or_ne j i
    · rw [Function.update_self, Function.update_self]
      exact iff_of_false nofun hok.stage.ne_absent
    · rw [Function.update_of_ne hne, Function.update_of_ne hne]
      exact h.absent j
  · intro j hj
    obtain rfl | hne := eq_or_ne j i
    · exact hi
    · rw [Function.update_of_ne hne] at hj
      exact Nat.lt_of_lt_of_le (h.bound j hj) hle
  · intro j sj hj
    obtain rfl | hne := eq_or_ne j i
    · rw [Function.update_self] at hj
      cases hj
      rw [Function.update_self, Function.update_self]
      exact hok
    · rw [Function.update_of_ne hne] at hj
      rw [Function.update_of_ne hne, Function.update_of_ne hne]
      have hokj := h.each j sj hj
      have hname : sj.name ≠ sc.name := by
        rw [hokj.name, hok.name]
        exact fun heq => hne (connName_inj heq)
      exact ⟨hokj.stage, hokj.life, hokj.loop, hokj.address, hokj.name,
        (hother _ hname).trans hokj.mapped⟩

/-- The live connections after a change of connection `i`. -/
theorem Live.cases_update {j : Nat} {sj : ServerConn}
    (h : Live (Function.update σ i st) (Function.update conns i (some sc)) j sj) :
    (j = i ∧ sj = sc ∧ st ≠ .destroyed) ∨ (j ≠ i ∧ Live σ conns j sj) := by
  obtain ⟨hj, hst⟩ := h
  obtain rfl | hne := eq_or_ne j i
  · rw [Function.update_self] at hj hst
    exact .inl ⟨rfl, (Option.some.inj hj).symm, hst⟩
  · rw [Function.update_of_ne hne] at hj hst
    exact .inr ⟨hne, hj, hst⟩

theorem Live.update_of_ne {j : Nat} {sj : ServerConn} (h : Live σ conns j sj) (hne : j ≠ i) :
    Live (Function.update σ i st) (Function.update conns i (some sc)) j sj := by
  refine ⟨?_, ?_⟩
  · rw [Function.update_of_ne hne]; exact h.conn
  · rw [Function.update_of_ne hne]; exact h.stage

theorem Live.update_self (hst : st ≠ .destroyed) :
    Live (Function.update σ i st) (Function.update conns i (some sc)) i sc :=
  ⟨Function.update_self .., by rw [Function.update_self]; exact hst⟩

end Conns

/-! ## Pollers -/

section Pollers

variable {conns : Nat → Option ServerConn} {pollers : Nat → Epoller} {sc sc' : ServerConn}
  {st : Stage}

/-- The descriptors stay distinct when one connection is changed or new. -/
theorem Pollers.fds_update (h : Pollers σ home conns pollers)
    (hfd : ∀ j sj, j ≠ i → Live σ conns j sj → st ≠ .destroyed →
      sj.conn.channel.fd ≠ sc'.conn.channel.fd) (j k : Nat) (sj sk : ServerConn)
    (hj : Live (Function.update σ i st) (Function.update conns i (some sc')) j sj)
    (hk : Live (Function.update σ i st) (Function.update conns i (some sc')) k sk)
    (heq : sj.conn.channel.fd = sk.conn.channel.fd) : j = k := by
  obtain ⟨rfl, rfl, hst⟩ | ⟨hji, hj'⟩ := hj.cases_update
  · obtain ⟨rfl, -, -⟩ | ⟨hki, hk'⟩ := hk.cases_update
    · rfl
    · exact absurd heq.symm (hfd k sk hki hk' hst)
  · obtain ⟨rfl, rfl, hst⟩ | ⟨-, hk'⟩ := hk.cases_update
    · exact absurd heq (hfd j sj hji hj' hst)
    · exact h.fds j k sj sk hj' hk' heq

/-- The poller of the loop of connection `i`, after a function of it. -/
theorem Pollers.outside_move (h : Pollers σ home conns pollers) {c c' : TcpConnection}
    (hi : conns i = some sc) (hmoved : Moved (σ i) c c') (hp : c.poller = pollers (home i))
    (hch : c.channel = sc.conn.channel) (hch' : sc'.conn.channel = c'.channel)
    (hnew : st = .destroyed → c'.channel.status = .new) (fd : Int)
    (hall : ∀ j sj, Live (Function.update σ i st) (Function.update conns i (some sc')) j sj →
      home j = home i → sj.conn.channel.fd ≠ fd) :
    c'.poller.channels fd = none ∧ c'.poller.interest fd = none := by
  by_cases hold : Live σ conns i sc ∧ fd = sc.conn.channel.fd
  · -- only `destroy_connect` makes the descriptor one of no live connection
    obtain ⟨hlive, rfl⟩ := hold
    have hst : st = .destroyed := by
      by_contra hst
      exact hall i sc' (Live.update_self hst) rfl (by rw [hch', hmoved.fd, hch])
    have hm := h.mirrors i sc hlive
    rw [← hp, ← hch] at hm
    rw [← hch]
    exact hmoved.gone hm (hnew hst)
  · have hoff := hmoved.off fd fun hd heq => hold ⟨⟨hi, hd⟩, heq.trans (congrArg Channel.fd hch)⟩
    rw [hoff.1, hoff.2, hp]
    apply h.outside _ fd
    intro j sj hj
    obtain rfl | hji := eq_or_ne j i
    · obtain rfl : sc = sj := Option.some.inj (hi.symm.trans hj.conn)
      exact fun _ heq => hold ⟨hj, heq.symm⟩
    · exact hall j sj (hj.update_of_ne hji)

/-- A function of one connection. -/
theorem Pollers.move (h : Pollers σ home conns pollers) {c c' : TcpConnection}
    (hi : conns i = some sc) (hmoved : Moved (σ i) c c') (hp : c.poller = pollers (home i))
    (hch : c.channel = sc.conn.channel) (hch' : sc'.conn.channel = c'.channel)
    (hadv : Advance (σ i) st) (hnew : st = .destroyed → c'.channel.status = .new) :
    Pollers (Function.update σ i st) home (Function.update conns i (some sc'))
      (Function.update pollers (home i) c'.poller) := by
  have hfd : sc'.conn.channel.fd = sc.conn.channel.fd := by rw [hch', hmoved.fd, hch]
  have hlive : st ≠ .destroyed → Live σ conns i sc := by
    intro hst
    exact ⟨hi, fun hd => hst (Advance.destroyed (hd ▸ hadv))⟩
  constructor
  · apply h.fds_update
    intro j sj hji hj hst heq
    exact hji (h.fds j i sj sc hj (hlive hst) (heq.trans hfd))
  · intro j sj hj
    obtain ⟨rfl, rfl, hst⟩ | ⟨hji, hj⟩ := hj.cases_update
    · rw [Function.update_self, hch']
      apply hmoved.mirrors
      rw [hp, hch]
      exact h.mirrors j sc (hlive hst)
    · have hm := h.mirrors j sj hj
      obtain hhome | hhome := eq_or_ne (home j) (home i)
      · rw [hhome, ← hp] at hm
        rw [hhome, Function.update_self]
        have hoff := hmoved.off sj.conn.channel.fd fun hd heq =>
          hji (h.fds j i sj sc hj ⟨hi, hd⟩ (heq.trans (congrArg Channel.fd hch)))
        exact ⟨hoff.1.trans hm.channels, hoff.2.trans hm.interest⟩
      · rw [Function.update_of_ne hhome]
        exact hm
  · intro l fd hall
    obtain rfl | hl := eq_or_ne l (home i)
    · rw [Function.update_self]
      exact h.outside_move hi hmoved hp hch hch' hnew fd hall
    · rw [Function.update_of_ne hl]
      apply h.outside l fd
      intro j sj hj hhome
      refine hall j sj (hj.update_of_ne ?_) hhome
      rintro rfl
      exact hl hhome.symm

/-- A new connection with a new descriptor. -/
theorem Pollers.add (h : Pollers σ home conns pollers) (hi : conns i = none) (loop : Nat)
    (hfd : ∀ j sj, Live σ conns j sj → sj.conn.channel.fd ≠ sc.conn.channel.fd)
    (hnew : sc.conn.channel.status = .new) :
    Pollers (Function.update σ i .accepted) (Function.update home i loop)
      (Function.update conns i (some sc)) pollers := by
  constructor
  · exact h.fds_update fun j sj _ hj _ => hfd j sj hj
  · intro j sj hj
    obtain ⟨rfl, rfl, -⟩ | ⟨hne, hj'⟩ := hj.cases_update
    · obtain ⟨hch, hint⟩ := h.outside loop sj.conn.channel.fd fun k sk hk _ => hfd k sk hk
      rw [Function.update_self]
      refine ⟨?_, ?_⟩
      · rw [hch, if_pos hnew]
      · rw [hint, if_neg (by rw [hnew]; nofun)]
    · rw [Function.update_of_ne hne]
      exact h.mirrors j sj hj'
  · intro l fd hall
    apply h.outside l fd
    intro j sj hj hhome
    have hne : j ≠ i := by
      rintro rfl
      exact nomatch hi.symm.trans hj.conn
    apply hall j sj (hj.update_of_ne hne)
    rw [Function.update_of_ne hne]
    exact hhome

end Pollers

/-! ## A change of one connection -/

theorem store_pollers (s : TcpServer) (i : Nat) (sc : ServerConn) (entry : List LifeEvent)
    (c : TcpConnection) : (fun l => ((s.store i sc entry c).loops l).poller) =
      Function.update (fun l => (s.loops l).poller) sc.loop c.poller := by
  funext l
  unfold TcpServer.store
  obtain rfl | hl := eq_or_ne l sc.loop
  · simp
  · simp [Function.update_of_ne hl]

theorem store_queues (s : TcpServer) (i : Nat) (sc : ServerConn) (entry : List LifeEvent)
    (c : TcpConnection) : (fun l => ((s.store i sc entry c).loops l).pendingFunc) =
      Function.update (fun l => (s.loops l).pendingFunc) sc.loop
        ((s.loops sc.loop).pendingFunc ++ c.pendingFunc.map (.pending i)) := by
  funext l
  unfold TcpServer.store
  obtain rfl | hl := eq_or_ne l sc.loop
  · simp
  · simp [Function.update_of_ne hl]

/-- **A change of one connection**, and of its entry in `connection_`.  Its stage changes only while it
is held. -/
theorem Inv.store (h : Inv σ home held s) {sc : ServerConn} {st : Stage} {c : TcpConnection}
    {entry : List LifeEvent} {connection : Bytes → Option Nat} (hi : s.conns i = some sc)
    (hmoved : Moved (σ i) (s.view sc) c) (hstage : c.AtStage st)
    (hlife : LifeOk st (sc.life ++ (entry ++ connectionCbs c))) (hadv : Advance (σ i) st)
    (hheld : st = σ i ∨ held = some i)
    (hself : connection sc.name = if Unmapped st then none else some i)
    (hother : ∀ n, n ≠ sc.name → connection n = s.connection n) :
    Inv (Function.update σ i st) home held
      { s.store i sc entry c with connection := connection } := by
  have hok := h.conns.each i sc hi
  have hloop := hok.loop
  refine ⟨h.pool, h.nextId, ?_, ?_, ?_⟩
  · have hbound := h.conns.bound i hok.stage.ne_absent
    have hok' : ConnOk s.connName connection st (home i) i
        { sc with conn := c, life := sc.life ++ (entry ++ connectionCbs c) } :=
      ⟨hstage, hlife, hloop, hmoved.address.trans hok.address, hok.name, hself⟩
    have hset := h.conns.set hok' hbound (Nat.le_refl _) hother
    rw [Function.update_eq_self] at hset
    exact hset
  · show Pollers _ _ _ fun l => ((s.store i sc entry c).loops l).poller
    rw [store_pollers, hloop]
    exact h.pollers.move hi hmoved (by rw [← hloop]; rfl) rfl rfl hadv hstage.status_new
  · show Queues _ _ _ fun l => ((s.store i sc entry c).loops l).pendingFunc
    rw [store_queues]
    apply (h.queues.advance hadv hstage.ne_absent hheld).append
    · intro f hf
      obtain ⟨g, -, rfl⟩ := List.mem_map.1 hf
      rfl
    · intro f hf
      obtain ⟨g, -, rfl⟩ := List.mem_map.1 hf
      refine ⟨?_, fun _ => hloop.symm, nofun⟩
      rw [show (Functor.pending i g).conn = i from rfl, Function.update_self]
      exact hstage.ne_absent

/-! ## New connections -/

theorem destroyConnect_mem_milestones {st : Stage} :
    .destroyConnect ∈ milestones st ↔ st = .destroyed := by
  cases st <;> decide

/-- The descriptor of a new connection is not that of a live one. -/
theorem Inv.freshFd (h : Inv σ home held s) {fd : Int} (hfresh : s.FreshFd fd) :
    ∀ j sj, Live σ s.conns j sj → sj.conn.channel.fd ≠ fd := by
  intro j sj hj
  have hok := h.conns.each j sj hj.conn
  refine hfresh j (h.conns.bound j hok.stage.ne_absent) sj hj.conn ?_
  rw [hok.life.mem .destroyConnect nofun, destroyConnect_mem_milestones]
  exact hj.stage

/-- **A new connection**, held until `build_connect` is issued. -/
theorem Inv.add (h : Inv σ home none s) (hlt : s.accepted + 1 < 2 ^ 31) {fd : Int}
    (hfresh : s.FreshFd fd) (loop : Nat) {pool : EventLoopThreadPool}
    (hpool : pool.loops = [] ∨ pool.next < pool.loops.length) :
    Inv (Function.update σ s.accepted .accepted) (Function.update home s.accepted loop)
      (some s.accepted)
      { s with
        threadPool := pool
        nextId := (s.nextId + 1).bmod (2 ^ 32)
        connection := Function.update s.connection (s.connName s.nextId) (some s.accepted)
        conns := Function.update s.conns s.accepted
          (some { loop, name := s.connName s.nextId, life := []
                  conn := .make (s.loops loop).poller s.accepted fd s.writeCompleteCb })
        accepted := s.accepted + 1 } := by
  have habsent : σ s.accepted = .absent := by
    by_contra hne
    exact absurd (h.conns.bound _ hne) (Nat.lt_irrefl _)
  have hnextId : s.nextId = (s.accepted : Int) + 1 := by
    rw [h.nextId]
    apply Int.bmod_eq_of_le <;> omega
  refine ⟨hpool, ?_, ?_, ?_, ?_⟩
  · show (s.nextId + 1).bmod (2 ^ 32) = _
    rw [hnextId]
    rfl
  · refine h.conns.set ⟨make_accepted .., .nil, rfl, rfl, by rw [hnextId], ?_⟩ (Nat.lt_succ_self _)
      (Nat.le_succ _) fun n hn => Function.update_of_ne hn _ _
    exact (Function.update_self ..).trans (if_neg (by simp [Unmapped])).symm
  · exact h.pollers.add ((h.conns.absent _).2 habsent) loop (h.freshFd hfresh) rfl
  · exact h.queues.add habsent .accepted loop

end TcpServer
