import TinyHttpServer.Lib.Monitor
import TinyHttpServer.Lib.Run

/-!
# The thread pool (`src/threadpool.h`)

Workers take tasks from a queue under a mutex and wait for them at a condition variable.  Any number
of threads call `enqueue`, and the destructor stops the pool and joins the workers.  The steps of the
model are the places at which the threads can interleave; a step that has to wait changes nothing.

* `tasks_in_order` — the tasks are started in the order of their `emplace`, each once, no `pop` finds the
  queue empty, and the destructor returns when all of them have run.
* `sleepers_signalled` — a worker sleeps only while the queued tasks have somebody else to start them.
-/

set_option autoImplicit false

open Checked Machine Monitor
open scoped List

/-- Where a worker is in the loop of the constructor. -/
inductive WorkerPc (T : Type) where
  /-- before the mutex -/
  | lock
  /-- in `wait`, before the test of the predicate -/
  | test
  /-- in `wait`, without the mutex -/
  | asleep
  /-- in `wait`, awake again and before the mutex -/
  | woken
  /-- after `wait` -/
  | take
  /-- before the release of the mutex, with a task -/
  | unlock (task : T)
  | run (task : T)
  /-- before the release of the mutex, on the way out -/
  | exit
  | returned
  deriving DecidableEq, Repr

namespace WorkerPc

variable {T : Type}

/-- The worker has the mutex. -/
def holds : WorkerPc T → Bool
  | .test | .take | .unlock _ | .exit => true
  | _ => false

def isAsleep : WorkerPc T → Bool
  | .asleep => true
  | _ => false

/-- The worker will look at the queue before it can sleep. -/
def looking : WorkerPc T → Bool
  | .lock | .test | .woken | .take => true
  | _ => false

/-- The task that the worker has taken. -/
def task : WorkerPc T → List T
  | .unlock task | .run task => [task]
  | _ => []

/-- The worker has left its loop. -/
def left : WorkerPc T → Bool
  | .exit | .returned => true
  | _ => false

end WorkerPc

/-- Where a thread is in a call of `enqueue`. -/
inductive EnqueuePc (T : Type) where
  | idle
  | lock (task : T)
  /-- before the test of `stop` -/
  | push (task : T)
  /-- before the release of the mutex -/
  | unlock
  /-- before `notify_one` -/
  | notify
  /-- before the release of the mutex, with the exception -/
  | throwing
  deriving DecidableEq, Repr

namespace EnqueuePc

variable {T : Type}

/-- The thread has the mutex. -/
def holds : EnqueuePc T → Bool
  | .push _ | .unlock | .throwing => true
  | _ => false

/-- The thread has pushed a task and will notify a worker. -/
def notifying : EnqueuePc T → Bool
  | .unlock | .notify => true
  | _ => false

end EnqueuePc

/-- Where the destructor is. -/
inductive DestructorPc where
  /-- not called -/
  | idle
  | lock
  /-- before `stop = true` -/
  | stop
  | unlock
  /-- before `notify_all` -/
  | notify
  /-- before `join` of a worker -/
  | join (i : Nat)
  | done
  deriving DecidableEq, Repr

namespace DestructorPc

/-- The destructor has the mutex. -/
def holds : DestructorPc → Bool
  | .stop | .unlock => true
  | _ => false

/-- `stop` is set. -/
def stopped : DestructorPc → Bool
  | .unlock | .notify | .join _ | .done => true
  | .idle | .lock | .stop => false

/-- `notify_all` has been called. -/
def notified : DestructorPc → Bool
  | .join _ | .done => true
  | _ => false

end DestructorPc

/-- The threads that use the mutex. -/
inductive PoolOwner where
  | worker (i : Nat)
  | client (j : Nat)
  | destructor
  deriving DecidableEq, Repr

/-- `class ThreadPool` with the threads that use it.  `enqueued`, `started` and `finished` are the tasks
in the order in which that happened to them. -/
structure ThreadPool (T : Type) where
  workers : List (WorkerPc T)
  clients : List (EnqueuePc T)
  destructor : DestructorPc
  tasks : List T
  queueMutex : Option PoolOwner
  stop : Bool
  enqueued : List T
  started : List T
  finished : List T
  deriving DecidableEq, Repr

namespace ThreadPool

variable {T : Type}

/-- The constructor, and `m` threads that may call `enqueue`. -/
def make (threads m : Nat) : ThreadPool T :=
  { workers := List.replicate threads .lock, clients := List.replicate m .idle, destructor := .idle
    tasks := [], queueMutex := none, stop := false, enqueued := [], started := [], finished := [] }

def setWorker (s : ThreadPool T) (i : Nat) (pc : WorkerPc T) : ThreadPool T :=
  { s with workers := s.workers.set i pc }

def setClient (s : ThreadPool T) (j : Nat) (pc : EnqueuePc T) : ThreadPool T :=
  { s with clients := s.clients.set j pc }

/-- The next step of worker `i`. -/
def stepWorker (s : ThreadPool T) (i : Nat) : WorkerPc T → Checked (ThreadPool T)
  | .lock | .woken =>
    return if s.queueMutex = none then { s.setWorker i .test with queueMutex := some (.worker i) }
    else s
  | .test =>
    return if s.stop ∨ s.tasks ≠ [] then s.setWorker i .take
    else { s.setWorker i .asleep with queueMutex := none }
  | .asleep => return s
  | .take =>
    if s.stop ∧ s.tasks = [] then return s.setWorker i .exit
    else match s.tasks with
      | [] => .error .invalidAccess
      | task :: rest =>
        return { s.setWorker i (.unlock task) with tasks := rest, started := s.started ++ [task] }
  | .unlock task => return { s.setWorker i (.run task) with queueMutex := none }
  | .run task => return { s.setWorker i .lock with finished := s.finished ++ [task] }
  | .exit => return { s.setWorker i .returned with queueMutex := none }
  | .returned => return s

/-- `notify_one`: some worker that sleeps, here worker `i`, is woken; if there is none, nothing
happens. -/
def notifyOne (s : ThreadPool T) (i : Nat) : Option (ThreadPool T) :=
  match s.workers[i]? with
  | some .asleep => some (s.setWorker i .woken)
  | _ => if s.workers.any WorkerPc.isAsleep then none else some s

/-- The next step of the call of thread `j`; `i` is the worker that `notify_one` chooses. -/
def stepClient (s : ThreadPool T) (j i : Nat) : EnqueuePc T → ThreadPool T
  | .idle => s
  | .lock task =>
    if s.queueMutex = none then { s.setClient j (.push task) with queueMutex := some (.client j) }
    else s
  | .push task =>
    if s.stop then s.setClient j .throwing
    else { s.setClient j .unlock with tasks := s.tasks ++ [task], enqueued := s.enqueued ++ [task] }
  | .unlock => { s.setClient j .notify with queueMutex := none }
  | .notify => ((s.notifyOne i).map (·.setClient j .idle)).getD s
  | .throwing => { s.setClient j .idle with queueMutex := none }

/-- What `notify_all` does to a worker. -/
def wake : WorkerPc T → WorkerPc T
  | .asleep => .woken
  | pc => pc

/-- The next step of the destructor. -/
def stepDestructor (s : ThreadPool T) : DestructorPc → ThreadPool T
  | .idle => s
  | .lock =>
    if s.queueMutex = none then { s with destructor := .stop, queueMutex := some .destructor } else s
  | .stop => { s with destructor := .unlock, stop := true }
  | .unlock => { s with destructor := .notify, queueMutex := none }
  | .notify => { s with destructor := .join 0, workers := s.workers.map wake }
  | .join i =>
    match s.workers[i]? with
    | none => { s with destructor := .done }
    | some .returned => { s with destructor := .join (i + 1) }
    | some _ => s
  | .done => s

inductive Act (T : Type) where
  /-- a worker takes its next step -/
  | worker (i : Nat)
  /-- `wait` of a worker ends without a notification -/
  | spurious (i : Nat)
  /-- thread `j` calls `enqueue` -/
  | enqueue (j : Nat) (task : T)
  /-- thread `j` takes the next step of its call -/
  | client (j i : Nat)
  /-- the destructor is called -/
  | destroy
  | destructor
  deriving DecidableEq, Repr

def step (s : ThreadPool T) : Act T → Checked (ThreadPool T)
  | .worker i =>
    match s.workers[i]? with
    | some pc => s.stepWorker i pc
    | none => return s
  | .spurious i =>
    return match s.workers[i]? with
    | some .asleep => s.setWorker i .woken
    | _ => s
  | .enqueue j task =>
    return match s.clients[j]? with
    | some .idle => s.setClient j (.lock task)
    | _ => s
  | .client j i =>
    return match s.clients[j]? with
    | some pc => s.stepClient j i pc
    | none => s
  | .destroy => return if s.destructor = .idle then { s with destructor := .lock } else s
  | .destructor => return s.stepDestructor s.destructor

/-! ## The invariant -/

/-- The thread has the mutex. -/
def inside (s : ThreadPool T) : PoolOwner → Prop
  | .worker i => ∃ pc ∈ s.workers[i]?, pc.holds
  | .client j => ∃ pc ∈ s.clients[j]?, pc.holds
  | .destructor => s.destructor.holds

/-- What is true for a worker: after `wait` the predicate holds, it leaves when the pool is stopped and
empty, and it does not sleep after `notify_all`. -/
structure WorkerOk (s : ThreadPool T) (pc : WorkerPc T) : Prop where
  take : pc = .take → s.stop ∨ s.tasks ≠ []
  left : pc.left → s.stop ∧ s.tasks = []
  asleep : pc.isAsleep → s.destructor.notified = false

/-- The workers that have been joined have returned. -/
def Joined (workers : List (WorkerPc T)) : DestructorPc → Prop
  | .join k => ∀ i < k, workers[i]? = some .returned
  | .done => ∀ pc ∈ workers, pc = .returned
  | _ => True

structure Inv (s : ThreadPool T) : Prop where
  guarded : Guarded s.queueMutex s.inside
  order : s.enqueued = s.started ++ s.tasks
  taken : s.started ~ s.finished ++ s.workers.flatMap WorkerPc.task
  each : ∀ pc ∈ s.workers, WorkerOk s pc
  signalled : Signalled WorkerPc.isAsleep WorkerPc.looking s.workers
    (s.clients.countP EnqueuePc.notifying) s.tasks.length
  stop : s.stop = s.destructor.stopped
  joined : Joined s.workers s.destructor

variable {s t : ThreadPool T} {i j : Nat} {p q : WorkerPc T} {c d : EnqueuePc T}

theorem inside_worker (hw : s.workers[i]? = some p) : s.inside (.worker i) ↔ p.holds := by
  simp [inside, hw]

theorem inside_client (hc : s.clients[j]? = some c) : s.inside (.client j) ↔ c.holds := by
  simp [inside, hc]

theorem getElem?_set (hw : s.workers[i]? = some p) (q : WorkerPc T) :
    (s.workers.set i q)[i]? = some q := by
  obtain ⟨hi, -⟩ := List.getElem?_eq_some_iff.1 hw
  exact List.getElem?_set_self hi

/-- The others are inside as before when worker `i` takes a step. -/
theorem inside_of_ne_worker (hworkers : t.workers = s.workers.set i q)
    (hclients : t.clients = s.clients) (hdestructor : t.destructor = s.destructor) :
    ∀ o, o ≠ .worker i → (t.inside o ↔ s.inside o) := by
  intro o ho
  cases o with
  | worker k =>
    have hki : i ≠ k := fun heq => ho (by rw [heq])
    simp only [inside, hworkers, List.getElem?_set_ne hki]
  | client j => simp only [inside, hclients]
  | destructor => simp only [inside, hdestructor]

theorem Inv.guarded_worker (h : Inv s) (hw : s.workers[i]? = some p)
    (hpasses : Passes (.worker i) s.queueMutex t.queueMutex p.holds q.holds)
    (hworkers : t.workers = s.workers.set i q) (hclients : t.clients = s.clients)
    (hdestructor : t.destructor = s.destructor) : Guarded t.queueMutex t.inside := by
  have hw' : t.workers[i]? = some q := by
    rw [hworkers]
    exact getElem?_set hw q
  exact h.guarded.step hpasses (inside_worker hw) (inside_worker hw')
    (inside_of_ne_worker hworkers hclients hdestructor)

/-- A step of a worker that has not returned leaves the joined workers alone. -/
theorem Inv.joined_set (h : Inv s) (hw : s.workers[i]? = some p) (hp : p ≠ .returned)
    (q : WorkerPc T) : Joined (s.workers.set i q) s.destructor := by
  have hjoined := h.joined
  cases hd : s.destructor with
  | join k =>
    rw [hd] at hjoined
    intro l hl
    have hil : i ≠ l := by
      rintro rfl
      exact hp (Option.some.inj (hw.symm.trans (hjoined i hl)))
    rw [List.getElem?_set_ne hil]
    exact hjoined l hl
  | done =>
    rw [hd] at hjoined
    exact absurd (hjoined p (List.mem_of_getElem? hw)) hp
  | idle | lock | stop | unlock | notify => trivial

/-- **A step of one worker** that leaves the queue and its task as they are. -/
theorem Inv.move (h : Inv s) (hw : s.workers[i]? = some p) {mutex : Option PoolOwner}
    (hpasses : Passes (.worker i) s.queueMutex mutex p.holds q.holds) (htask : q.task = p.task)
    (hok : WorkerOk s q)
    (hsignal : s.tasks = [] ∨ (q.isAsleep → p.isAsleep) ∧ (p.looking → q.looking))
    (hp : p ≠ .returned) : Inv { s.setWorker i q with queueMutex := mutex } where
  guarded := h.guarded_worker hw hpasses rfl rfl rfl
  order := h.order
  taken := by
    have hset : s.finished ++ (s.workers.set i q).flatMap WorkerPc.task ~
        s.finished ++ s.workers.flatMap WorkerPc.task := Parties.perm_set hw (by rw [htask])
    exact h.taken.trans hset.symm
  each := by
    intro pc hpc
    obtain hpc | rfl := List.mem_or_eq_of_mem_set hpc
    · exact ⟨(h.each pc hpc).take, (h.each pc hpc).left, (h.each pc hpc).asleep⟩
    · exact ⟨hok.take, hok.left, hok.asleep⟩
  signalled := by
    obtain hnil | ⟨hsleep, hlook⟩ := hsignal
    · simp only [setWorker, hnil, List.length_nil]
      exact .of_no_items
    · refine h.signalled.set hw hsleep ?_
      have hle : p.looking.toNat ≤ q.looking.toNat := by
        cases hlooking : p.looking with
        | false => exact Nat.zero_le _
        | true => rw [hlook hlooking]
      simp only [setWorker]
      omega
  stop := h.stop
  joined := h.joined_set hw hp q

/-- **A worker takes the next task.** -/
theorem Inv.pop (h : Inv s) (hw : s.workers[i]? = some .take) {task : T} {rest : List T}
    (htasks : s.tasks = task :: rest) :
    Inv { s.setWorker i (.unlock task) with tasks := rest, started := s.started ++ [task] } where
  guarded := h.guarded_worker hw (.stay _ true) rfl rfl rfl
  order := by
    have horder := h.order
    rw [htasks] at horder
    simpa [setWorker] using horder
  taken := by
    have hset : (s.workers.set i (.unlock task)).flatMap WorkerPc.task ++ [] ~
        s.workers.flatMap WorkerPc.task ++ [task] := Parties.perm_flatMap_set hw (.unlock task)
    rw [List.append_nil] at hset
    calc
      s.started ++ [task]
      _ ~ (s.finished ++ s.workers.flatMap WorkerPc.task) ++ [task] := h.taken.append_right _
      _ = s.finished ++ (s.workers.flatMap WorkerPc.task ++ [task]) := List.append_assoc _ _ _
      _ ~ s.finished ++ (s.workers.set i (.unlock task)).flatMap WorkerPc.task :=
        hset.symm.append_left _
  each := by
    intro pc hpc
    obtain ⟨k, hk⟩ := List.mem_iff_getElem?.1 hpc
    obtain ⟨-, rfl⟩ | ⟨hik, hk⟩ := Parties.getElem?_set_cases hk
    · exact ⟨nofun, nofun, nofun⟩
    · have hok := h.each pc (List.mem_of_getElem? hk)
      refine ⟨?_, fun hleft => ?_, hok.asleep⟩
      · -- the other worker would have the mutex too
        rintro rfl
        have heq := h.guarded.eq ((inside_worker hw).2 rfl) ((inside_worker hk).2 rfl)
        exact absurd (PoolOwner.worker.inj heq) hik
      · have hnil := (hok.left hleft).2
        rw [htasks] at hnil
        cases hnil
  signalled := by
    refine h.signalled.set hw nofun ?_
    simp only [htasks, List.length_cons, WorkerPc.looking, Bool.toNat_true, Bool.toNat_false, setWorker]
    omega
  stop := h.stop
  joined := h.joined_set hw nofun _

/-- **A worker has run its task.** -/
theorem Inv.finish (h : Inv s) {task : T} (hw : s.workers[i]? = some (.run task)) :
    Inv { s.setWorker i .lock with finished := s.finished ++ [task] } where
  guarded := h.guarded_worker hw (.stay _ false) rfl rfl rfl
  order := h.order
  taken := by
    have hset : (s.workers.set i .lock).flatMap WorkerPc.task ++ [task] ~
        s.workers.flatMap WorkerPc.task ++ [] := Parties.perm_flatMap_set hw .lock
    rw [List.append_nil] at hset
    calc
      s.started
      _ ~ s.finished ++ s.workers.flatMap WorkerPc.task := h.taken
      _ ~ s.finished ++ ((s.workers.set i .lock).flatMap WorkerPc.task ++ [task]) :=
        hset.symm.append_left _
      _ ~ s.finished ++ ([task] ++ (s.workers.set i .lock).flatMap WorkerPc.task) :=
        List.perm_append_comm.append_left _
      _ = (s.finished ++ [task]) ++ (s.workers.set i .lock).flatMap WorkerPc.task :=
        (List.append_assoc _ _ _).symm
  each := by
    intro pc hpc
    obtain hpc | rfl := List.mem_or_eq_of_mem_set hpc
    · exact ⟨(h.each pc hpc).take, (h.each pc hpc).left, (h.each pc hpc).asleep⟩
    · exact ⟨nofun, nofun, nofun⟩
  signalled := by
    refine h.signalled.set hw nofun ?_
    simp only [WorkerPc.looking, Bool.toNat_true, Bool.toNat_false, setWorker]
    omega
  stop := h.stop
  joined := h.joined_set hw nofun _

/-- A worker takes the mutex, to test the predicate of `wait`. -/
theorem Inv.enter (h : Inv s) (hw : s.workers[i]? = some p) (hfree : s.queueMutex = none)
    (htask : p.task = []) (hp : p ≠ .returned) :
    Inv { s.setWorker i .test with queueMutex := some (.worker i) } :=
  h.move hw (by rw [hfree]; exact .acquire _) (by rw [htask]; rfl) ⟨nofun, nofun, nofun⟩
    (.inr ⟨nofun, fun _ => rfl⟩) hp

/-- **Every step of a worker returns**, so that no `pop` finds the queue empty, and keeps the
invariant. -/
theorem stepWorker_inv (h : Inv s) (hw : s.workers[i]? = some p) :
    ∃ t, s.stepWorker i p = .ok t ∧ Inv t := by
  have hok := h.each p (List.mem_of_getElem? hw)
  cases p with
  | lock =>
    refine ⟨_, rfl, ?_⟩
    split
    · rename_i hfree
      exact h.enter hw hfree rfl nofun
    · exact h
  | woken =>
    refine ⟨_, rfl, ?_⟩
    split
    · rename_i hfree
      exact h.enter hw hfree rfl nofun
    · exact h
  | test =>
    refine ⟨_, rfl, ?_⟩
    split
    · rename_i hready
      exact h.move hw (.stay _ _) rfl ⟨fun _ => hready, nofun, nofun⟩
        (.inr ⟨nofun, fun _ => rfl⟩) nofun
    · rename_i hready
      rw [not_or, not_not] at hready
      -- a pool that is not stopped has not been notified
      have hnotified : s.destructor.notified = false := by
        have hstop := h.stop
        cases hd : s.destructor with
        | join k | done =>
          rw [hd] at hstop
          exact absurd hstop hready.1
        | idle | lock | stop | unlock | notify => rfl
      exact h.move hw (.release _) rfl ⟨nofun, nofun, fun _ => hnotified⟩
        (.inl hready.2) nofun
  | asleep => exact ⟨s, rfl, h⟩
  | take =>
    simp only [stepWorker]
    split
    · rename_i hleave
      exact ⟨_, rfl, h.move hw (.stay _ _) rfl ⟨nofun, fun _ => hleave, nofun⟩ (.inl hleave.2)
        nofun⟩
    · rename_i hstay
      cases htasks : s.tasks with
      | nil =>
        obtain hstop | hne := hok.take rfl
        · exact absurd ⟨hstop, htasks⟩ hstay
        · exact absurd htasks hne
      | cons task rest => exact ⟨_, rfl, h.pop hw htasks⟩
  | unlock task =>
    exact ⟨_, rfl, h.move hw (.release _) rfl ⟨nofun, nofun, nofun⟩
      (.inr ⟨nofun, nofun⟩) nofun⟩
  | run task => exact ⟨_, rfl, h.finish hw⟩
  | exit =>
    exact ⟨_, rfl, h.move hw (.release _) rfl ⟨nofun, fun _ => hok.left rfl, nofun⟩
      (.inr ⟨nofun, nofun⟩) nofun⟩
  | returned => exact ⟨s, rfl, h⟩

/-- A worker that sleeps is woken. -/
theorem Inv.woken (h : Inv s) (hw : s.workers[i]? = some .asleep) : Inv (s.setWorker i .woken) :=
  h.move hw (.stay s.queueMutex _) rfl ⟨nofun, nofun, nofun⟩ (.inr ⟨nofun, fun _ => rfl⟩) nofun

/-! ## Calls of `enqueue` -/

theorem Inv.guarded_client (h : Inv s) (hc : s.clients[j]? = some c)
    (hpasses : Passes (.client j) s.queueMutex t.queueMutex c.holds d.holds)
    (hclients : t.clients = s.clients.set j d) (hworkers : t.workers = s.workers)
    (hdestructor : t.destructor = s.destructor) : Guarded t.queueMutex t.inside := by
  have hc' : t.clients[j]? = some d := by
    obtain ⟨hj, -⟩ := List.getElem?_eq_some_iff.1 hc
    rw [hclients]
    exact List.getElem?_set_self hj
  refine h.guarded.step hpasses (inside_client hc) (inside_client hc') fun o ho => ?_
  cases o with
  | worker i => simp only [inside, hworkers]
  | client k =>
    have hjk : j ≠ k := fun heq => ho (by rw [heq])
    simp only [inside, hclients, List.getElem?_set_ne hjk]
  | destructor => simp only [inside, hdestructor]

/-- A step of a call that leaves the queue as it is. -/
theorem Inv.moveClient (h : Inv s) (hc : s.clients[j]? = some c) {mutex : Option PoolOwner}
    (hpasses : Passes (.client j) s.queueMutex mutex c.holds d.holds)
    (hsignal : Signalled WorkerPc.isAsleep WorkerPc.looking s.workers
      ((s.clients.set j d).countP EnqueuePc.notifying) s.tasks.length) :
    Inv { s.setClient j d with queueMutex := mutex } where
  guarded := h.guarded_client hc hpasses rfl rfl rfl
  order := h.order
  taken := h.taken
  each := fun pc hpc => ⟨(h.each pc hpc).take, (h.each pc hpc).left, (h.each pc hpc).asleep⟩
  signalled := hsignal
  stop := h.stop
  joined := h.joined

/-- The pending notifications are as before. -/
theorem Inv.signalled_client (h : Inv s) (hc : s.clients[j]? = some c)
    (hnotify : d.notifying = c.notifying) :
    Signalled WorkerPc.isAsleep WorkerPc.looking s.workers
      ((s.clients.set j d).countP EnqueuePc.notifying) s.tasks.length := by
  have hcount := Parties.countP_set_add EnqueuePc.notifying hc d
  rw [hnotify] at hcount
  exact h.signalled.change (by omega)

/-- **A task is pushed.**  Its notification is pending. -/
theorem Inv.push (h : Inv s) {task : T} (hc : s.clients[j]? = some (.push task))
    (hstop : ¬ s.stop) :
    Inv { s.setClient j .unlock with
          tasks := s.tasks ++ [task], enqueued := s.enqueued ++ [task] } where
  guarded := h.guarded_client hc (.stay _ true) rfl rfl rfl
  order := by simp [setClient, h.order]
  taken := h.taken
  each := by
    intro pc hpc
    have hok := h.each pc hpc
    exact ⟨fun _ => .inr (by simp), fun hleft => absurd (hok.left hleft).1 hstop, hok.asleep⟩
  signalled := by
    have hcount := Parties.countP_set_add EnqueuePc.notifying hc .unlock
    simp only [EnqueuePc.notifying, Bool.toNat_true, Bool.toNat_false] at hcount
    refine h.signalled.change ?_
    simp only [setClient, List.length_append, List.length_singleton]
    omega
  stop := h.stop
  joined := h.joined

/-- **A worker is notified.** -/
theorem Inv.notify (h : Inv s) (hc : s.clients[j]? = some .notify)
    (ht : s.notifyOne i = some t) : Inv (t.setClient j .idle) := by
  have hcount := Parties.countP_set_add EnqueuePc.notifying hc .idle
  simp only [EnqueuePc.notifying, Bool.toNat_true, Bool.toNat_false] at hcount
  unfold notifyOne at ht
  split at ht
  · rename_i hw
    cases ht
    refine (h.woken hw).moveClient hc (.stay s.queueMutex false) (h.signalled.set hw nofun ?_)
    simp only [WorkerPc.looking, Bool.toNat_true, Bool.toNat_false, setWorker]
    omega
  · split at ht
    · cases ht
    · rename_i hnone
      cases ht
      refine h.moveClient hc (.stay s.queueMutex false) (.of_none_asleep fun pc hpc => ?_)
      rw [List.any_eq_true] at hnone
      cases hasleep : pc.isAsleep with
      | false => rfl
      | true => exact absurd ⟨pc, hpc, hasleep⟩ hnone

theorem stepClient_inv (h : Inv s) (hc : s.clients[j]? = some c) (i : Nat) :
    Inv (s.stepClient j i c) := by
  cases c with
  | idle => exact h
  | lock task =>
    simp only [stepClient]
    split
    · rename_i hfree
      exact h.moveClient hc (by rw [hfree]; exact .acquire _) (h.signalled_client hc rfl)
    · exact h
  | push task =>
    simp only [stepClient]
    split
    · exact h.moveClient hc (.stay s.queueMutex true) (h.signalled_client hc rfl)
    · rename_i hstop
      exact h.push hc hstop
  | unlock => exact h.moveClient hc (.release _) (h.signalled_client hc rfl)
  | notify =>
    simp only [stepClient]
    cases ht : s.notifyOne i with
    | none => exact h
    | some t => exact h.notify hc ht
  | throwing => exact h.moveClient hc (.release _) (h.signalled_client hc rfl)

/-! ## The destructor -/

/-- A step of the destructor, which may set `stop`. -/
theorem Inv.moveDestructor (h : Inv s) {mutex : Option PoolOwner} {d : DestructorPc}
    (hpasses : Passes .destructor s.queueMutex mutex s.destructor.holds d.holds)
    (hstop : s.stop → d.stopped) (hnotified : d.notified = s.destructor.notified)
    (hjoined : Joined s.workers d) :
    Inv { s with destructor := d, queueMutex := mutex, stop := d.stopped } where
  guarded := by
    refine h.guarded.step hpasses Iff.rfl Iff.rfl fun o ho => ?_
    cases o with
    | worker i => exact Iff.rfl
    | client j => exact Iff.rfl
    | destructor => exact absurd rfl ho
  order := h.order
  taken := h.taken
  each := by
    intro pc hpc
    have hok := h.each pc hpc
    refine ⟨fun htake => ?_, fun hleft => ⟨hstop (hok.left hleft).1, (hok.left hleft).2⟩, ?_⟩
    · exact (hok.take htake).imp_left hstop
    · rw [hnotified]
      exact hok.asleep
  signalled := h.signalled
  stop := rfl
  joined := hjoined

theorem holds_wake (pc : WorkerPc T) : (wake pc).holds = pc.holds := by
  cases pc <;> rfl

theorem task_wake (pc : WorkerPc T) : (wake pc).task = pc.task := by
  cases pc <;> rfl

theorem isAsleep_wake (pc : WorkerPc T) : (wake pc).isAsleep = false := by
  cases pc <;> rfl

/-- **All workers are notified.** -/
theorem Inv.notifyAll (h : Inv s) (hd : s.destructor = .notify) :
    Inv { s with destructor := .join 0, workers := s.workers.map wake } where
  guarded := by
    refine h.guarded.step (o := .destructor) (.stay s.queueMutex false) ?_ ?_ fun o ho => ?_
    · simp [inside, hd, DestructorPc.holds]
    · simp [inside, DestructorPc.holds]
    · cases o with
      | worker i => simp [inside, holds_wake]
      | client j => exact Iff.rfl
      | destructor => exact absurd rfl ho
  order := h.order
  taken := by
    have htask : (s.workers.map wake).flatMap WorkerPc.task = s.workers.flatMap WorkerPc.task := by
      rw [List.flatMap_map]
      simp only [task_wake]
    exact htask ▸ h.taken
  each := by
    intro pc hpc
    obtain ⟨w, hw, rfl⟩ := List.mem_map.1 hpc
    have hok := h.each w hw
    refine ⟨?_, ?_, ?_⟩
    · cases w with
      | take => exact hok.take
      | _ => nofun
    · cases w with
      | exit | returned => exact hok.left
      | _ => nofun
    · rw [isAsleep_wake]
      nofun
  signalled := by
    refine .of_none_asleep fun pc hpc => ?_
    obtain ⟨w, -, rfl⟩ := List.mem_map.1 hpc
    exact isAsleep_wake w
  stop := by
    rw [h.stop, hd]
    rfl
  joined := fun i hi => absurd hi (Nat.not_lt_zero i)

theorem stepDestructor_inv (h : Inv s) : Inv (s.stepDestructor s.destructor) := by
  have hstop := h.stop
  have hjoined := h.joined
  -- `stop` is what the place of the destructor says, before and after a step
  cases hd : s.destructor with
  | idle => exact h
  | lock =>
    simp only [stepDestructor]
    split
    · rename_i hfree
      rw [hd] at hstop
      have hmove := h.moveDestructor (d := .stop) (by rw [hfree, hd]; exact .acquire _)
        (by rw [hstop]; nofun) (by rw [hd]; rfl) trivial
      rwa [show DestructorPc.stop.stopped = s.stop from hstop.symm] at hmove
    · exact h
  | stop =>
    exact h.moveDestructor (d := .unlock) (by rw [hd]; exact .stay s.queueMutex true) (fun _ => rfl)
      (by rw [hd]; rfl) trivial
  | unlock =>
    rw [hd] at hstop
    have hmove := h.moveDestructor (d := .notify) (by rw [hd]; exact .release _) (fun _ => rfl)
      (by rw [hd]; rfl) trivial
    rwa [show DestructorPc.notify.stopped = s.stop from hstop.symm] at hmove
  | notify => exact h.notifyAll hd
  | join k =>
    rw [hd] at hstop hjoined
    simp only [stepDestructor]
    split
    · rename_i hnone
      have hall : Joined s.workers .done := by
        intro pc hpc
        obtain ⟨i, hi⟩ := List.mem_iff_getElem?.1 hpc
        have hlt := (List.getElem?_eq_some_iff.1 hi).1
        have hle := List.getElem?_eq_none_iff.1 hnone
        exact Option.some.inj (hi.symm.trans (hjoined i (by omega)))
      have hmove := h.moveDestructor (d := .done) (by rw [hd]; exact .stay s.queueMutex false)
        (fun _ => rfl) (by rw [hd]; rfl) hall
      rwa [show DestructorPc.done.stopped = s.stop from hstop.symm] at hmove
    · rename_i hret
      have hnext : Joined s.workers (.join (k + 1)) := by
        intro i hi
        obtain hlt | rfl := Nat.lt_succ_iff_lt_or_eq.1 hi
        · exact hjoined i hlt
        · exact hret
      have hmove := h.moveDestructor (d := .join (k + 1)) (by rw [hd]; exact .stay s.queueMutex false)
        (fun _ => rfl) (by rw [hd]; rfl) hnext
      rwa [show (DestructorPc.join (k + 1)).stopped = s.stop from hstop.symm] at hmove
    · exact h
  | done => exact h

/-! ## Runs -/

/-- **Step lemma.** -/
theorem step_inv (act : Act T) (h : Inv s) : ∃ t, s.step act = .ok t ∧ Inv t := by
  cases act with
  | worker i =>
    simp only [step]
    cases hw : s.workers[i]? with
    | none => exact ⟨s, rfl, h⟩
    | some p => exact stepWorker_inv h hw
  | spurious i =>
    refine ⟨_, rfl, ?_⟩
    split
    · rename_i hw
      exact h.woken hw
    · exact h
  | enqueue j task =>
    refine ⟨_, rfl, ?_⟩
    split
    · rename_i hc
      exact h.moveClient hc (.stay s.queueMutex false) (h.signalled_client hc rfl)
    · exact h
  | client j i =>
    refine ⟨_, rfl, ?_⟩
    split
    · rename_i c hc
      exact stepClient_inv h hc i
    · exact h
  | destroy =>
    refine ⟨_, rfl, ?_⟩
    split
    · rename_i hd
      have hstop := h.stop
      rw [hd] at hstop
      have hmove := h.moveDestructor (d := .lock) (by rw [hd]; exact .stay s.queueMutex false)
        (by rw [hstop]; nofun) (by rw [hd]; rfl) trivial
      rwa [show DestructorPc.lock.stopped = s.stop from hstop.symm] at hmove
    · exact h
  | destructor => exact ⟨_, rfl, stepDestructor_inv h⟩

theorem make_inv (threads m : Nat) : Inv (make threads m : ThreadPool T) := by
  refine ⟨fun o => ?_, rfl, ?_, ?_, .of_no_items, rfl, trivial⟩
  · refine iff_of_false (fun hin => ?_) nofun
    cases o with
    | worker i =>
      obtain ⟨pc, hpc, hholds⟩ := hin
      rw [List.eq_of_mem_replicate (List.mem_of_getElem? hpc)] at hholds
      cases hholds
    | client j =>
      obtain ⟨pc, hpc, hholds⟩ := hin
      rw [List.eq_of_mem_replicate (List.mem_of_getElem? hpc)] at hholds
      cases hholds
    | destructor => cases hin
  · have hnil : (List.replicate threads (WorkerPc.lock : WorkerPc T)).flatMap WorkerPc.task = [] := by
      rw [List.flatMap_eq_nil_iff]
      intro pc hpc
      rw [List.eq_of_mem_replicate hpc]
      rfl
    simp [make, hnil]
  · intro pc hpc
    rw [List.eq_of_mem_replicate hpc]
    exact ⟨nofun, nofun, nofun⟩

theorem run_inv (threads m : Nat) (acts : List (Act T)) :
    ∃ s, run step (make threads m) acts = .ok s ∧ Inv s := by
  have hall : Allowed step (fun _ _ => True) (make threads m) acts :=
    Allowed.of_forall (fun _ _ => trivial) acts _
  exact run_invariant (fun _ act h _ => step_inv act h) acts _ (make_inv threads m) hall

/-- When the queue is empty and no worker has a task, all tasks have run. -/
theorem Inv.finished_all (h : Inv s) (hnil : s.tasks = []) (hidle : ∀ pc ∈ s.workers, pc.task = []) :
    s.finished ~ s.enqueued := by
  have htaken := h.taken
  rw [List.flatMap_eq_nil_iff.2 hidle, List.append_nil] at htaken
  rw [h.order, hnil, List.append_nil]
  exact htaken.symm

/-- When a worker has returned, the queue is empty. -/
theorem Inv.tasks_eq_nil (h : Inv s) (hne : s.workers ≠ [])
    (hall : ∀ pc ∈ s.workers, pc = .returned) : s.tasks = [] := by
  obtain ⟨pc, hpc⟩ := List.exists_mem_of_ne_nil _ hne
  refine ((h.each pc hpc).left ?_).2
  rw [hall pc hpc]
  rfl

/-- **Tasks are executed in order, and once.**  Whatever the workers, the callers of `enqueue` and the
destructor do in whatever order, no worker pops from an empty queue; the tasks started are, in their
order, the first of the tasks pushed, and the others are in the queue; each task that was started has run
or is with one worker.  When the destructor is done all workers have returned, and all tasks have run,
unless the pool has no worker. -/
theorem tasks_in_order (threads m : Nat) (acts : List (Act T)) :
    ∃ s, run step (make threads m) acts = .ok s ∧ s.enqueued = s.started ++ s.tasks ∧
      s.started ~ s.finished ++ s.workers.flatMap WorkerPc.task ∧
      (s.destructor = .done → (∀ pc ∈ s.workers, pc = .returned) ∧
        (s.workers ≠ [] → s.tasks = [] ∧ s.finished ~ s.enqueued)) := by
  obtain ⟨s, hrun, h⟩ := run_inv threads m acts
  refine ⟨s, hrun, h.order, h.taken, fun hdone => ?_⟩
  have hjoined := h.joined
  rw [hdone] at hjoined
  refine ⟨hjoined, fun hne => ⟨h.tasks_eq_nil hne hjoined, ?_⟩⟩
  refine h.finished_all (h.tasks_eq_nil hne hjoined) fun pc hpc => ?_
  rw [hjoined pc hpc]
  rfl

/-- **No lost wake-up.**  While a worker sleeps, the queued tasks are no more than the workers that will
look at the queue before they sleep and the calls of `enqueue` that have still to notify; and after
`notify_all` of the destructor no worker sleeps. -/
theorem sleepers_signalled (threads m : Nat) (acts : List (Act T)) :
    ∃ s, run step (make threads m) acts = .ok s ∧
      ((∃ pc ∈ s.workers, pc = .asleep) → s.tasks.length ≤
        s.workers.countP WorkerPc.looking + s.clients.countP EnqueuePc.notifying) ∧
      (s.destructor.notified → ∀ pc ∈ s.workers, pc ≠ .asleep) := by
  obtain ⟨s, hrun, h⟩ := run_inv threads m acts
  refine ⟨s, hrun, ?_, ?_⟩
  · rintro ⟨pc, hpc, rfl⟩
    exact h.signalled (List.countP_pos_iff.2 ⟨_, hpc, rfl⟩)
  · rintro hnotified pc hpc rfl
    have hasleep := (h.each _ hpc).asleep rfl
    rw [hnotified] at hasleep
    cases hasleep

end ThreadPool
