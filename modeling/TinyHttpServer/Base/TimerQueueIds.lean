import TinyHttpServer.Base.TimerQueueThreads

/-!
# Ids that are given back (`TimerQueue::get_`, `TimerQueue::del_`)

`get_` takes ids from `seq_`, and `del_` gives them back.  `index_` was meant to count the ids that
are in use, but `get_` raises it together with `seq_limit_`, so the counters are equal in every
state that is reached, and every `del_` drops the whole queue and starts again at `1`.

* `step_inv` — the counters stay equal, and the ids handed out since the last `del_` are `1, 2, …`.
* `new_ids_iff` — along every run, every id that `get_` returns is new if and only if no `del_` is
  followed by as many calls of `get_` as the smallest id that is still handed out.
* `id_given_out_twice` — two timers, of which the second is deleted.
-/

set_option autoImplicit false

open Checked Machine FourHeap

/-- The supply of ids of a timer queue.  `held` are the ids that are handed out.  `left` and `given`
describe what has happened since the queue was last reset: the ids that were handed out then, and
the number of calls of `get_`. -/
structure IdSupply (Cb : Type) where
  queue : TimerQueue Cb
  held : List TimerId
  left : List TimerId
  given : Nat

namespace IdSupply

open TimerQueue

variable {Cb : Type} {s s' : IdSupply Cb}

/-- An empty `seq_`, and both counters `0`. -/
def start : IdSupply Cb := { queue := make 0 0, held := [], left := [], given := 0 }

inductive Op (Cb : Type) where
  | get
  | del (node : TimerNode Cb)
  deriving DecidableEq

def step (s : IdSupply Cb) : Op Cb → Checked (IdSupply Cb)
  | .get => do
    let (id, queue) ← s.queue.get
    return { s with queue, held := id :: s.held, given := s.given + 1 }
  | .del node =>
    return { queue := s.queue.del node, held := s.held.erase node.nodeSeq,
             left := s.held.erase node.nodeSeq, given := 0 }

/-- `del_` is called for a node whose id is handed out. -/
def Op.Admissible (s : IdSupply Cb) : Op Cb → Prop
  | .get => True
  | .del node => node.nodeSeq ∈ s.held

instance (s : IdSupply Cb) (op : Op Cb) : Decidable (op.Admissible s) := by
  cases op <;> unfold Op.Admissible <;> infer_instance

/-- `get_` returns an id that is not negative and not handed out. -/
def GivesNew (s : IdSupply Cb) : Prop :=
  ∃ id q, s.queue.get = .ok (id, q) ∧ 0 ≤ id ∧ id ∉ s.held

/-- Fewer calls of `get_` have followed the last `del_` than the smallest of `ids`, and fewer than
the numbers of an `int`. -/
def Below (given : Nat) (ids : List Int) : Prop :=
  given < 2 ^ 31 ∧ ∀ id ∈ ids, (given : Int) < id

/-- The next call of `get_` does not come up to an id that was handed out when the queue was
reset. -/
def HasRoom (s : IdSupply Cb) : Prop := Below (s.given + 1) s.left

instance (s : IdSupply Cb) : Decidable s.HasRoom := by
  unfold HasRoom Below
  infer_instance

/-! ## The supply -/

/-- The counters are equal, `seq_` continues after the ids given since the last reset, and the ids
handed out are these and what is left from before. -/
structure Inv (s : IdSupply Cb) : Prop where
  counters : s.queue.index = s.queue.seqLimit
  seq : s.queue.seq = (List.range' (s.given + 1) s.queue.seq.length).map narrow
  limit : (s.queue.seqLimit : Int) % 2 ^ 64 = ((s.given : Int) + s.queue.seq.length) % 2 ^ 64
  held : ∀ id : Int, id ∈ s.held ↔ id ∈ s.left ∨ ∃ k < s.given, id = narrow (k + 1)

theorem start_inv : (start : IdSupply Cb).Inv :=
  ⟨rfl, rfl, rfl, fun id => by simp [start]⟩

theorem refill_counters : ∀ (n : Nat) (q : TimerQueue Cb), q.index = q.seqLimit →
    (refill n q).index = (refill n q).seqLimit
  | 0, _, h => h
  | n + 1, q, h => refill_counters n _ (by show (q.index + 1) % 2 ^ 64 = _; rw [h])

theorem refill_length : ∀ (n : Nat) (q : TimerQueue Cb),
    (refill n q).seq.length = q.seq.length + n
  | 0, _ => rfl
  | n + 1, q => by
    rw [refill, refill_length n]
    simp only [List.length_append, List.length_singleton]
    omega

/-- **`get_`.**  It returns, and what it returns is the number after those given since the last
reset. -/
theorem get_spec (hi : s.Inv) : ∃ (id : Int) (q : TimerQueue Cb),
    s.queue.get = .ok (id, q) ∧ id = narrow (s.given + 1) ∧
    q.index = q.seqLimit ∧ q.seq = (List.range' (s.given + 2) q.seq.length).map narrow ∧
    (q.seqLimit : Int) % 2 ^ 64 = ((s.given + 1 : Nat) + (q.seq.length : Int)) % 2 ^ 64 := by
  -- the queue that `get_` takes the id from has at least one
  obtain ⟨q, hq, hcounters, hseq, hlim, hne⟩ : ∃ q : TimerQueue Cb,
      (if s.queue.seq.isEmpty then refill LIMIT s.queue else s.queue) = q ∧
        q.index = q.seqLimit ∧
        q.seq = (List.range' (s.given + 1) q.seq.length).map narrow ∧
        (q.seqLimit : Int) % 2 ^ 64 = ((s.given : Int) + q.seq.length) % 2 ^ 64 ∧ q.seq ≠ [] := by
    by_cases hempty : s.queue.seq.isEmpty
    · obtain ⟨-, hseq, hlim⟩ := refill_spec s.given LIMIT s.queue hi.seq hi.limit
      refine ⟨_, if_pos hempty, refill_counters _ _ hi.counters, hseq, hlim, fun hnil => ?_⟩
      have hlen := refill_length LIMIT s.queue
      rw [hnil, List.length_nil, LIMIT] at hlen
      omega
    · exact ⟨_, if_neg hempty, hi.counters, hi.seq, hi.limit, by simpa using hempty⟩
  cases hx : q.seq with
  | nil => exact absurd hx hne
  | cons x rest =>
    rw [hx, List.length_cons, List.range'_succ, List.map_cons, List.cons.injEq] at hseq
    refine ⟨x, { q with seq := rest }, ?_, hseq.1, hcounters, hseq.2, ?_⟩
    · unfold TimerQueue.get
      rw [hq]
      simp only [hx]
    · rw [hx, List.length_cons] at hlim
      simp only
      omega

/-- With equal counters `del_` drops all ids and starts again. -/
theorem del_eq (hi : s.Inv) (node : TimerNode Cb) :
    s.queue.del node = { s.queue with seqLimit := 0, index := 0, seq := [] } := by
  unfold del
  exact if_pos hi.counters

/-- **One step.** -/
theorem step_inv (hi : s.Inv) (op : Op Cb) : ∃ s', s.step op = .ok s' ∧ s'.Inv := by
  cases op with
  | get =>
    obtain ⟨id, q, hget, hid, hcounters, hseq, hlim⟩ := get_spec hi
    refine ⟨{ s with queue := q, held := id :: s.held, given := s.given + 1 },
      by simp only [step, hget, ok_bind, pure_eq_ok], hcounters, hseq, hlim, fun i => ?_⟩
    simp only [List.mem_cons, hi.held]
    constructor
    · rintro (hnew | hleft | ⟨k, hk, heq⟩)
      · exact .inr ⟨s.given, Nat.lt_succ_self _, hnew.trans hid⟩
      · exact .inl hleft
      · exact .inr ⟨k, Nat.lt_succ_of_lt hk, heq⟩
    · rintro (hleft | ⟨k, hk, heq⟩)
      · exact .inr (.inl hleft)
      · by_cases hlast : k = s.given
        · exact .inl (by rw [heq, hid, hlast])
        · exact .inr (.inr ⟨k, by omega, heq⟩)
  | del node =>
    refine ⟨_, rfl, ?_⟩
    rw [del_eq hi node]
    exact ⟨rfl, rfl, rfl, fun id => by simp⟩

theorem narrow_neg : narrow (2 ^ 31) < 0 := by decide

/-! ## When the next id is new -/

/-- No call of `get_` has come up to an id that was left when the queue was reset. -/
def Apart (s : IdSupply Cb) : Prop := Below s.given s.left

/-- As long as no id has come twice, the next one is new exactly if there is room for it. -/
theorem givesNew_iff (hi : s.Inv) (ha : s.Apart) : s.GivesNew ↔ s.HasRoom := by
  obtain ⟨id, q, hget, hid, -⟩ := get_spec hi
  obtain ⟨hgiven, hleft⟩ := ha
  constructor
  · rintro ⟨id', q', hget', hpos, hnew⟩
    obtain ⟨rfl, rfl⟩ : id = id' ∧ q = q' := by simpa [hget] using hget'
    have hlt : s.given + 1 < 2 ^ 31 := by
      by_contra hge
      rw [hid, show s.given + 1 = 2 ^ 31 by omega] at hpos
      exact absurd narrow_neg (not_lt.2 hpos)
    rw [narrow_of_lt hlt] at hid
    refine ⟨hlt, fun i hi' => ?_⟩
    have hne : i ≠ id := fun heq => hnew (heq ▸ (hi.held i).2 (.inl hi'))
    have := hleft i hi'
    omega
  · rintro ⟨hlt, hroom⟩
    rw [narrow_of_lt hlt] at hid
    refine ⟨id, q, hget, by omega, fun hmem => ?_⟩
    rcases (hi.held id).1 hmem with hold | ⟨k, hk, heq⟩
    · have := hroom id hold
      omega
    · rw [narrow_of_lt (k := k + 1) (by omega)] at heq
      omega

/-- The ids handed out are positive. -/
theorem Apart.held_pos (hi : s.Inv) (ha : s.Apart) {id : Int} (hid : id ∈ s.held) :
    0 < id := by
  obtain ⟨hgiven, hleft⟩ := ha
  rcases (hi.held id).1 hid with hold | ⟨k, hk, heq⟩
  · have := hleft id hold
    omega
  · rw [narrow_of_lt (k := k + 1) (by omega)] at heq
    omega

/-- What a step does to `Apart`: a call of `get_` keeps it exactly if there was room, and `del_`
always does. -/
theorem step_apart_iff (hi : s.Inv) (ha : s.Apart) {op : Op Cb} (he : s.step op = .ok s') :
    s'.Apart ↔ (op = .get → s.HasRoom) := by
  cases op with
  | get =>
    obtain ⟨id, q, hget, -⟩ := get_spec hi
    simp only [step, hget, ok_bind, pure_eq_ok] at he
    cases he
    exact ⟨fun h _ => h, fun h => h rfl⟩
  | del node =>
    cases he
    refine iff_of_true ⟨Nat.two_pow_pos 31, fun id hid => ?_⟩ nofun
    exact ha.held_pos hi (List.mem_of_mem_erase hid)

/-- **Every run.**  Take any sequence of calls of `get_` and of `del_` on nodes whose ids are handed
out.  Every id that `get_` returns is non-negative and not handed out if and only if each `get_`
comes while fewer calls have followed the last `del_` than the smallest id that this `del_` left
handed out (and fewer than `2 ^ 31 - 1`). -/
theorem new_ids_iff (ops : List (Op Cb))
    (hadm : Allowed step (fun s op => op.Admissible s) (start : IdSupply Cb) ops) :
    (∀ p op, p ++ [op] <+: ops → ∀ s, run step start p = .ok s → op = .get → s.GivesNew) ↔
      ∀ p op, p ++ [op] <+: ops → ∀ s, run step start p = .ok s → op = .get → s.HasRoom := by
  have hstep : ∀ (s : IdSupply Cb) (op : Op Cb), s.Inv → op.Admissible s →
      ∃ s', s.step op = .ok s' ∧ s'.Inv := fun _ op hi _ => step_inv hi op
  have hstart : (start : IdSupply Cb).Apart := ⟨Nat.two_pow_pos 31, nofun⟩
  -- both sides say that the supply never comes up to an id that was left
  rw [← run_forall_iff (P := Apart) (Q := fun s op => op = .get → s.HasRoom) hstep
    (fun s op t hi _ ha he => step_apart_iff hi ha he) start_inv hstart hadm]
  rw [← run_forall_iff (P := Apart) (Q := fun s op => op = .get → s.GivesNew) hstep
    (fun s op t hi _ ha he => by rw [step_apart_iff hi ha he, givesNew_iff hi ha])
    start_inv hstart hadm]

/-- The timer with the id `id`. -/
def timerWithId (id : TimerId) : TimerNode Unit := TimerNode.make id 1 0 () false

/-- The first of two timers is deleted, and its id is given out again. -/
theorem new_ids_sample :
    ∃ s, run step start [.get, .get, .del (timerWithId 1)] = .ok s ∧ s.held = [2] ∧ s.GivesNew := by
  obtain ⟨s, hs, hheld⟩ := map_eq_ok.1 (show (run step start
    [.get, .get, .del (timerWithId 1)]).map held = .ok [2] by decide +kernel)
  have hnew := (new_ids_iff [.get, .get, .del (timerWithId 1), .get] (by decide +kernel)).2
    (allowed_iff.1 (by decide +kernel))
  exact ⟨s, hs, hheld, hnew [.get, .get, .del (timerWithId 1)] .get (List.prefix_refl _) s hs rfl⟩

/-- The second of two timers is deleted, and the next timer gets the id of the first. -/
theorem id_given_out_twice :
    Allowed step (fun s op => op.Admissible s) start [.get, .get, .del (timerWithId 2), .get] ∧
      ∃ s, run step start [.get, .get, .del (timerWithId 2)] = .ok s ∧ s.held = [1] ∧
        s.queue.get.map Prod.fst = .ok 1 ∧ ¬ s.GivesNew := by
  obtain ⟨s, hs, hview⟩ := map_eq_ok.1 (show (run step start
    [.get, .get, .del (timerWithId 2)]).map (fun s => (s.held, s.queue.get.map Prod.fst)) =
      .ok ([1], .ok 1) by decide +kernel)
  simp only [Prod.mk.injEq] at hview
  obtain ⟨hheld, hget⟩ := hview
  refine ⟨by decide +kernel, s, hs, hheld, hget, ?_⟩
  rintro ⟨id, q, hok, -, hnew⟩
  obtain rfl : id = 1 := by simpa [hok, Except.map] using hget
  exact hnew (by rw [hheld]; exact List.mem_cons_self)

end IdSupply
