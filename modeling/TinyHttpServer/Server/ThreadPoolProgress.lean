import TinyHttpServer.Server.ThreadPool

/-!
# The thread pool gets done

* `quiescent` — the threads of the pool block each other in no state: when none of them can take a
  step, all tasks have run, and the workers sleep, or have returned with the destructor.
* `steps_bounded` — between calls the threads take a bounded number of steps.  Together: the
  destructor returns, whichever threads are scheduled.
-/

set_option autoImplicit false

open Checked Machine Monitor
open scoped List

namespace ThreadPool

variable {T : Type} {s t u : ThreadPool T} {i j n : Nat} {p q : WorkerPc T} {c d : EnqueuePc T}

/-! ## Quiet states -/

/-- A step of a thread that is at work already, in contrast to a call and to a spurious wake-up. -/
def Act.internal : Act T → Bool
  | .worker _ | .client _ _ | .destructor => true
  | .spurious _ | .enqueue _ _ | .destroy => false

/-- No thread can go on. -/
def Quiet (s : ThreadPool T) : Prop := ∀ act : Act T, act.internal → s.step act = .ok s

/-- Whoever goes to another place changes the state. -/
theorem getElem?_of_set {α : Type} {xs : List α} {x y : α} (hset : xs.set i y = xs)
    (hx : xs[i]? = some x) : y = x := by
  obtain ⟨hi, -⟩ := List.getElem?_eq_some_iff.1 hx
  have hy : (xs.set i y)[i]? = some y := List.getElem?_set_self hi
  rw [hset, hx] at hy
  exact (Option.some.inj hy).symm

theorem eq_of_worker (hst : t = s) (hw : s.workers[i]? = some p)
    (ht : t.workers = s.workers.set i q) : q = p :=
  getElem?_of_set (ht.symm.trans (congrArg workers hst)) hw

theorem eq_of_client (hst : t = s) (hc : s.clients[j]? = some c)
    (ht : t.clients = s.clients.set j d) : d = c :=
  getElem?_of_set (ht.symm.trans (congrArg clients hst)) hc

theorem Quiet.worker (h : s.Quiet) (hw : s.workers[i]? = some p) : s.stepWorker i p = .ok s := by
  have hstep := h (.worker i) rfl
  simpa only [step, hw] using hstep

theorem Quiet.client (h : s.Quiet) (hc : s.clients[j]? = some c) (i : Nat) :
    s.stepClient j i c = s := by
  have hstep := h (.client j i) rfl
  simp only [step, hc] at hstep
  exact Except.ok.inj hstep

theorem Quiet.destructor (h : s.Quiet) : s.stepDestructor s.destructor = s :=
  Except.ok.inj (h .destructor rfl)

/-- A worker with the mutex can go on, and so can one with a task. -/
theorem Quiet.worker_holds (h : s.Quiet) (hw : s.workers[i]? = some p) :
    p.holds = false ∧ p.task = [] := by
  have hstep := h.worker hw
  cases p with
  | lock | woken | asleep | returned => exact ⟨rfl, rfl⟩
  | test =>
    have hst := Except.ok.inj hstep
    split at hst
    · cases eq_of_worker hst hw rfl
    · cases eq_of_worker hst hw rfl
  | take =>
    simp only [stepWorker] at hstep
    split at hstep
    · cases eq_of_worker (Except.ok.inj hstep) hw rfl
    · split at hstep
      · cases hstep
      · cases eq_of_worker (Except.ok.inj hstep) hw rfl
  | unlock task | run task | exit => cases eq_of_worker (Except.ok.inj hstep) hw rfl

/-- A caller with the mutex can go on. -/
theorem Quiet.client_holds (h : s.Quiet) (hc : s.clients[j]? = some c) : c.holds = false := by
  have hst := h.client hc 0
  cases c with
  | idle | lock task | notify => rfl
  | push task =>
    simp only [stepClient] at hst
    split at hst
    · cases eq_of_client hst hc rfl
    · cases eq_of_client hst hc rfl
  | unlock | throwing => cases eq_of_client hst hc rfl

theorem Quiet.destructor_holds (h : s.Quiet) : s.destructor.holds = false := by
  have hst := congrArg ThreadPool.destructor h.destructor
  cases hd : s.destructor with
  | idle | lock | notify | join k | done => rfl
  | stop | unlock =>
    rw [hd] at hst
    cases hst

/-- In a quiet state the mutex is free. -/
theorem Quiet.free (h : s.Quiet) (hinv : Inv s) : s.queueMutex = none := by
  cases ho : s.queueMutex with
  | none => rfl
  | some o =>
    exfalso
    have hin := (hinv.guarded o).2 ho
    cases o with
    | worker i =>
      obtain ⟨pc, hpc, hholds⟩ := hin
      rw [(h.worker_holds hpc).1] at hholds
      cases hholds
    | client j =>
      obtain ⟨pc, hpc, hholds⟩ := hin
      rw [h.client_holds hpc] at hholds
      cases hholds
    | destructor =>
      rw [inside, h.destructor_holds] at hin
      cases hin

/-- In a quiet state the workers sleep or have returned. -/
theorem Quiet.worker_cases (h : s.Quiet) (hinv : Inv s) (hw : s.workers[i]? = some p) :
    p = .asleep ∨ p = .returned := by
  obtain ⟨hholds, htask⟩ := h.worker_holds hw
  have hstep := h.worker hw
  cases p with
  | asleep => exact .inl rfl
  | returned => exact .inr rfl
  | lock | woken =>
    have hst := Except.ok.inj hstep
    rw [if_pos (h.free hinv)] at hst
    cases eq_of_worker hst hw rfl
  | test | take | unlock task | exit => cases hholds
  | run task => cases htask

/-- In a quiet state no call of `enqueue` is open. -/
theorem Quiet.client_idle (h : s.Quiet) (hinv : Inv s) (hc : s.clients[j]? = some c) : c = .idle := by
  have hholds := h.client_holds hc
  cases c with
  | idle => rfl
  | lock task =>
    have hst := h.client hc 0
    simp only [stepClient, if_pos (h.free hinv)] at hst
    cases eq_of_client hst hc rfl
  | push task | unlock | throwing => cases hholds
  | notify =>
    by_cases hasleep : ∃ i : Nat, s.workers[i]? = some WorkerPc.asleep
    · obtain ⟨i, hw⟩ := hasleep
      have hst := h.client hc i
      simp only [stepClient, notifyOne, hw, Option.map_some, Option.getD_some] at hst
      cases eq_of_client hst hc rfl
    · have hnone : s.workers.any WorkerPc.isAsleep = false := by
        rw [List.any_eq_false]
        intro pc hpc
        obtain ⟨i, hi⟩ := List.mem_iff_getElem?.1 hpc
        cases pc with
        | asleep => exact absurd ⟨i, hi⟩ hasleep
        | _ => exact Bool.false_ne_true
      have hst := h.client hc 0
      have hone : s.notifyOne 0 = some s := by
        unfold notifyOne
        split
        · rename_i hw
          exact absurd ⟨0, hw⟩ hasleep
        · rw [hnone]
          rfl
      simp only [stepClient, hone, Option.map_some, Option.getD_some] at hst
      cases eq_of_client hst hc rfl

/-- In a quiet state the destructor has not been called, or is done. -/
theorem Quiet.destructor_cases (h : s.Quiet) (hinv : Inv s) :
    s.destructor = .idle ∨ s.destructor = .done := by
  have hholds := h.destructor_holds
  have hst := h.destructor
  cases hd : s.destructor with
  | idle => exact .inl rfl
  | done => exact .inr rfl
  | stop | unlock =>
    rw [hd] at hholds
    cases hholds
  | lock =>
    simp only [hd, stepDestructor, if_pos (h.free hinv)] at hst
    have heq := congrArg ThreadPool.destructor hst
    rw [hd] at heq
    cases heq
  | notify =>
    rw [hd] at hst
    have heq := congrArg ThreadPool.destructor hst
    rw [hd] at heq
    cases heq
  | join k =>
    simp only [hd, stepDestructor] at hst
    split at hst
    · have heq := congrArg ThreadPool.destructor hst
      rw [hd] at heq
      cases heq
    · have heq := congrArg ThreadPool.destructor hst
      rw [hd] at heq
      exact absurd (DestructorPc.join.inj heq) (Nat.succ_ne_self k)
    · -- the destructor waits for a worker that sleeps, after it has notified all
      rename_i p hne hw
      obtain rfl | rfl := h.worker_cases hinv hw
      · have hasleep := (hinv.each _ (List.mem_of_getElem? hw)).asleep rfl
        rw [hd] at hasleep
        cases hasleep
      · exact absurd rfl hne

/-- **The threads do not block each other.**  In every reachable state in which no worker, no caller of
`enqueue` and not the destructor can take a step, no call of `enqueue` is open; the workers sleep and the
destructor has not been called, or they have returned and the destructor is done; and, with one worker
at least, all tasks have run. -/
theorem quiescent (threads m : Nat) (acts : List (Act T)) :
    ∃ s, run step (make threads m) acts = .ok s ∧ (s.Quiet →
      (∀ c ∈ s.clients, c = .idle) ∧
      ((s.destructor = .idle ∧ ∀ pc ∈ s.workers, pc = .asleep) ∨
        (s.destructor = .done ∧ ∀ pc ∈ s.workers, pc = .returned)) ∧
      (s.workers ≠ [] → s.tasks = [] ∧ s.finished ~ s.enqueued)) := by
  obtain ⟨s, hrun, hinv⟩ := run_inv threads m acts
  refine ⟨s, hrun, fun h => ?_⟩
  have hclients : ∀ c ∈ s.clients, c = .idle := by
    intro c hc
    obtain ⟨j, hj⟩ := List.mem_iff_getElem?.1 hc
    exact h.client_idle hinv hj
  have hworkers : ∀ pc ∈ s.workers, pc = .asleep ∨ pc = .returned := by
    intro pc hpc
    obtain ⟨i, hi⟩ := List.mem_iff_getElem?.1 hpc
    exact h.worker_cases hinv hi
  have htask : ∀ pc ∈ s.workers, pc.task = [] := by
    intro pc hpc
    obtain rfl | rfl := hworkers pc hpc <;> rfl
  obtain hd | hd := h.destructor_cases hinv
  · have hasleep : ∀ pc ∈ s.workers, pc = .asleep := by
      intro pc hpc
      refine (hworkers pc hpc).resolve_right fun hret => ?_
      have hstop := ((hinv.each pc hpc).left (by rw [hret]; rfl)).1
      rw [hinv.stop, hd] at hstop
      cases hstop
    refine ⟨hclients, .inl ⟨hd, hasleep⟩, fun hne => ?_⟩
    obtain ⟨pc, hpc⟩ := List.exists_mem_of_ne_nil _ hne
    have hle := hinv.signalled (List.countP_pos_iff.2 ⟨pc, hpc, by rw [hasleep pc hpc]; rfl⟩)
    have hlooking : s.workers.countP WorkerPc.looking = 0 := by
      rw [List.countP_eq_zero]
      intro w hw
      rw [hasleep w hw]
      nofun
    have hnotifying : s.clients.countP EnqueuePc.notifying = 0 := by
      rw [List.countP_eq_zero]
      intro c hc
      rw [hclients c hc]
      nofun
    have hnil : s.tasks = [] := List.eq_nil_of_length_eq_zero (by omega)
    exact ⟨hnil, hinv.finished_all hnil htask⟩
  · have hjoined := hinv.joined
    rw [hd] at hjoined
    refine ⟨hclients, .inr ⟨hd, hjoined⟩, fun hne => ?_⟩
    have hnil := hinv.tasks_eq_nil hne hjoined
    exact ⟨hnil, hinv.finished_all hnil htask⟩

/-! ## The number of steps -/

/-- The steps that a worker can take before it sleeps or returns, without those for a further task;
the notification of a worker that sleeps is charged to the one who notifies it. -/
def workerWeight : WorkerPc T → Nat
  | .returned => 0
  | .exit => 1
  | .take | .asleep => 2
  | .test => 3
  | .lock | .woken => 4
  | .run _ => 5
  | .unlock _ => 6

/-- The steps of a task, from `pop` to the next test of the predicate. -/
def taskWeight : Nat := 5

def clientWeight : EnqueuePc T → Nat
  | .idle => 0
  | .throwing => 1
  | .notify => 3
  | .unlock => 4
  | .push _ => taskWeight + 5
  | .lock _ => taskWeight + 6

/-- The same for the destructor of a pool with `n` workers. -/
def destructorWeight (n : Nat) : DestructorPc → Nat
  | .idle | .done => 0
  | .join i => n - i + 1
  | .notify => 3 * n + 2
  | .unlock => 3 * n + 3
  | .stop => 3 * n + 4
  | .lock => 3 * n + 5

/-- A bound for the steps that the threads can take. -/
def potential (n : Nat) (s : ThreadPool T) : Nat :=
  (s.workers.map workerWeight).sum + (s.clients.map clientWeight).sum +
    destructorWeight n s.destructor + taskWeight * s.tasks.length

/-- What a call, or a spurious wake-up, adds to the steps that the threads can take. -/
def Act.budget (n : Nat) : Act T → Nat
  | .enqueue _ _ => 12
  | .spurious _ => 3
  | .destroy => 3 * n + 6
  | .worker _ | .client _ _ | .destructor => 0

/-- A step of worker `i` is paid for by its weight, and by that of a task that it takes. -/
theorem potential_worker (hu : u = t) (hw : s.workers[i]? = some p)
    (hworkers : u.workers = s.workers.set i q) (hclients : u.clients = s.clients)
    (hdestructor : u.destructor = s.destructor)
    (hlt : workerWeight q + taskWeight * u.tasks.length <
      workerWeight p + taskWeight * s.tasks.length) : potential n t + 1 ≤ potential n s := by
  subst hu
  have hsum := Parties.sum_map_set_add workerWeight hw q
  simp only [potential, hworkers, hclients, hdestructor]
  omega

/-- A step of thread `j` is paid for by the weight of its place. -/
theorem potential_client (hu : u = t) (hc : s.clients[j]? = some c)
    (hclients : u.clients = s.clients.set j d) (hdestructor : u.destructor = s.destructor)
    (hlt : (u.workers.map workerWeight).sum + clientWeight d + taskWeight * u.tasks.length <
      (s.workers.map workerWeight).sum + clientWeight c + taskWeight * s.tasks.length) :
    potential n t + 1 ≤ potential n s := by
  subst hu
  have hsum := Parties.sum_map_set_add clientWeight hc d
  simp only [potential, hclients, hdestructor]
  omega

/-- **A step of a worker** that changes something. -/
theorem stepWorker_potential (hw : s.workers[i]? = some p) (h : s.stepWorker i p = .ok t)
    (hne : t ≠ s) : potential n t + 1 ≤ potential n s := by
  cases p with
  | lock | woken =>
    have h := Except.ok.inj h
    split at h
    · exact potential_worker h hw rfl rfl rfl (Nat.add_lt_add_right (by simp [workerWeight]) _)
    · exact absurd h.symm hne
  | asleep | returned => exact absurd (Except.ok.inj h).symm hne
  | test =>
    have h := Except.ok.inj h
    split at h
    · exact potential_worker h hw rfl rfl rfl (Nat.add_lt_add_right (by simp [workerWeight]) _)
    · exact potential_worker h hw rfl rfl rfl (Nat.add_lt_add_right (by simp [workerWeight]) _)
  | take =>
    simp only [stepWorker] at h
    split at h
    · exact potential_worker (Except.ok.inj h) hw rfl rfl rfl
        (Nat.add_lt_add_right (by simp [workerWeight]) _)
    · split at h
      · cases h
      · rename_i htasks
        refine potential_worker (Except.ok.inj h) hw rfl rfl rfl ?_
        simp only [htasks, List.length_cons, workerWeight, taskWeight]
        omega
  | unlock task | run task | exit =>
    exact potential_worker (Except.ok.inj h) hw rfl rfl rfl
      (Nat.add_lt_add_right (by simp [workerWeight]) _)

/-- **A step of a call of `enqueue`** that changes something. -/
theorem stepClient_potential (hc : s.clients[j]? = some c) (h : s.stepClient j i c = t)
    (hne : t ≠ s) : potential n t + 1 ≤ potential n s := by
  cases c with
  | idle => exact absurd h.symm hne
  | lock task =>
    simp only [stepClient] at h
    split at h
    · exact potential_client h hc rfl rfl (by simp [clientWeight, setClient])
    · exact absurd h.symm hne
  | push task =>
    simp only [stepClient] at h
    split at h
    · exact potential_client h hc rfl rfl (by simp [clientWeight, setClient, taskWeight])
    · refine potential_client h hc rfl rfl ?_
      simp only [clientWeight, setClient, taskWeight, List.length_append, List.length_singleton]
      omega
  | unlock | throwing =>
    exact potential_client h hc rfl rfl (by simp [clientWeight, stepClient, setClient])
  | notify =>
    simp only [stepClient, notifyOne] at h
    split at h
    · rename_i hw
      simp only [Option.map_some, Option.getD_some] at h
      refine potential_client h hc rfl rfl ?_
      -- the caller pays for the steps of the worker that it wakes
      have hsum := Parties.sum_map_set_add workerWeight hw .woken
      simp only [setClient, setWorker, clientWeight, workerWeight] at hsum ⊢
      omega
    · split at h
      · exact absurd h.symm hne
      · exact potential_client h hc rfl rfl (by simp [clientWeight, setClient])

theorem sum_map_wake (ws : List (WorkerPc T)) :
    ((ws.map wake).map workerWeight).sum ≤ (ws.map workerWeight).sum + 2 * ws.length := by
  induction ws with
  | nil => exact Nat.le_refl _
  | cons pc ws ih =>
    have hpc : workerWeight (wake pc) ≤ workerWeight pc + 2 := by
      cases pc <;> simp [wake, workerWeight]
    simp only [List.map_cons, List.sum_cons, List.length_cons]
    omega

/-- **A step of the destructor** that changes something. -/
theorem stepDestructor_potential (hn : s.workers.length = n)
    (h : s.stepDestructor s.destructor = t) (hne : t ≠ s) : potential n t + 1 ≤ potential n s := by
  cases hd : s.destructor with
  | idle | done =>
    rw [hd] at h
    exact absurd h.symm hne
  | lock =>
    simp only [hd, stepDestructor] at h
    split at h
    · subst h
      simp only [potential, hd, destructorWeight]
      omega
    · exact absurd h.symm hne
  | stop | unlock =>
    simp only [hd, stepDestructor] at h
    subst h
    simp only [potential, hd, destructorWeight]
    omega
  | notify =>
    simp only [hd, stepDestructor] at h
    subst h
    have hsum := sum_map_wake s.workers
    simp only [potential, hd, destructorWeight]
    omega
  | join k =>
    simp only [hd, stepDestructor] at h
    split at h
    · subst h
      simp only [potential, hd, destructorWeight]
      omega
    · rename_i hw
      have hlt := (List.getElem?_eq_some_iff.1 hw).1
      subst h
      simp only [potential, hd, destructorWeight]
      omega
    · exact absurd h.symm hne

theorem length_stepWorker (h : s.stepWorker i p = .ok t) : t.workers.length = s.workers.length := by
  cases p with
  | lock | woken | test =>
    have h := Except.ok.inj h
    split at h
    · subst h
      exact List.length_set ..
    · subst h
      simp [setWorker]
  | asleep | returned =>
    cases h
    rfl
  | take =>
    simp only [stepWorker] at h
    split at h
    · cases h
      exact List.length_set ..
    · split at h
      · cases h
      · cases h
        exact List.length_set ..
  | unlock task | run task | exit =>
    cases h
    exact List.length_set ..

theorem length_notifyOne (h : s.notifyOne i = some t) : t.workers.length = s.workers.length := by
  unfold notifyOne at h
  split at h
  · cases h
    exact List.length_set ..
  · split at h
    · cases h
    · cases h
      rfl

theorem length_stepClient : (s.stepClient j i c).workers.length = s.workers.length := by
  cases c with
  | idle | unlock | throwing => rfl
  | lock task | push task =>
    simp only [stepClient]
    split <;> rfl
  | notify =>
    simp only [stepClient]
    cases ht : s.notifyOne i with
    | none => rfl
    | some t =>
      have hlength := length_notifyOne ht
      exact hlength

theorem length_stepDestructor (d : DestructorPc) :
    (s.stepDestructor d).workers.length = s.workers.length := by
  cases d with
  | idle | stop | unlock | done => rfl
  | lock =>
    simp only [stepDestructor]
    split <;> rfl
  | notify => exact List.length_map ..
  | join k =>
    simp only [stepDestructor]
    split <;> rfl

/-- The number of workers stays. -/
theorem length_step {act : Act T} (h : s.step act = .ok t) :
    t.workers.length = s.workers.length := by
  cases act with
  | worker i =>
    simp only [step] at h
    split at h
    · exact length_stepWorker h
    · cases h
      rfl
  | spurious i =>
    rw [← Except.ok.inj h]
    split
    · exact List.length_set ..
    · rfl
  | enqueue j task =>
    rw [← Except.ok.inj h]
    split <;> rfl
  | client j i =>
    rw [← Except.ok.inj h]
    split
    · exact length_stepClient
    · rfl
  | destroy =>
    rw [← Except.ok.inj h]
    split <;> rfl
  | destructor =>
    rw [← Except.ok.inj h]
    exact length_stepDestructor _

/-- **Step lemma.** -/
theorem step_potential {act : Act T} (hn : s.workers.length = n) (h : s.step act = .ok t)
    (hne : t ≠ s) : potential n t + 1 ≤ potential n s + act.budget n := by
  cases act with
  | worker i =>
    simp only [step] at h
    split at h
    · rename_i hw
      have := stepWorker_potential (n := n) hw h hne
      omega
    · exact absurd (Except.ok.inj h).symm hne
  | spurious i =>
    have h := Except.ok.inj h
    split at h
    · rename_i hw
      have hsum := Parties.sum_map_set_add workerWeight hw .woken
      subst h
      simp only [potential, setWorker, workerWeight, Act.budget] at hsum ⊢
      omega
    · exact absurd h.symm hne
  | enqueue j task =>
    have h := Except.ok.inj h
    split at h
    · rename_i hc
      have hsum := Parties.sum_map_set_add clientWeight hc (.lock task)
      subst h
      simp only [potential, setClient, clientWeight, taskWeight, Act.budget] at hsum ⊢
      omega
    · exact absurd h.symm hne
  | client j i =>
    have h := Except.ok.inj h
    split at h
    · rename_i hc
      have := stepClient_potential (n := n) hc h hne
      omega
    · exact absurd h.symm hne
  | destroy =>
    have h := Except.ok.inj h
    split at h
    · rename_i hd
      subst h
      simp only [potential, hd, destructorWeight, Act.budget]
      omega
    · exact absurd h.symm hne
  | destructor =>
    have := stepDestructor_potential hn (Except.ok.inj h) hne
    omega

/-- **The pool does not spin.**  In every run without steps that change nothing, the number of steps is
at most `4` for each worker, `12` for each call of `enqueue`, `3` for each spurious wake-up, and
`3 * n + 6` for the destructor of a pool with `n` workers. -/
theorem steps_bounded (threads m : Nat) (acts : List (Act T))
    (hacts : Allowed step (fun s act => s.step act ≠ .ok s) (make threads m) acts) :
    acts.length ≤ 4 * threads + (acts.map (Act.budget threads)).sum := by
  obtain ⟨s, hrun, -⟩ := run_inv threads m acts
  have hbound := run_potential (fun s : ThreadPool T => s.workers.length = threads) (potential threads)
    (Act.budget threads) (fun s act t hn hne ht => by
      refine ⟨(length_step ht).trans hn, step_potential hn ht ?_⟩
      rintro rfl
      exact hne ht) acts _ s (List.length_replicate ..) hacts hrun
  have hstart : potential threads (make threads m : ThreadPool T) = 4 * threads := by
    simp [potential, make, workerWeight, clientWeight, destructorWeight, Nat.mul_comm]
  omega

/-- One worker falls asleep, is woken for a task, runs it, and leaves when the pool is destroyed. -/
def sampleSteps : List (Act Nat) :=
  [.worker 0, .worker 0, .enqueue 0 7, .client 0 0, .client 0 0, .client 0 0, .client 0 0, .worker 0,
    .worker 0, .worker 0, .worker 0, .worker 0, .destroy, .destructor, .destructor, .destructor,
    .destructor, .worker 0, .worker 0, .worker 0, .worker 0, .destructor, .destructor]

theorem steps_bounded_sample :
    Allowed step (fun s act => s.step act ≠ .ok s) (make 1 1) sampleSteps ∧
      sampleSteps.length ≤ 4 * 1 + (sampleSteps.map (Act.budget 1)).sum := by
  have hacts : Allowed step (fun s act => s.step act ≠ .ok s) (make 1 1) sampleSteps := by
    decide +kernel
  exact ⟨hacts, steps_bounded 1 1 sampleSteps hacts⟩

end ThreadPool
