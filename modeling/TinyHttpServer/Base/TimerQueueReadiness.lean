import TinyHttpServer.Base.TimerArming
import TinyHttpServer.Base.TimerQueueRound

/-!
# Whether a round consumes the readiness of the timer descriptor

`handle_read_` does not read the descriptor (`read_timer_fd` has no caller), so the expiration that
has woken the loop is consumed only if the descriptor is set again before the round is over, for a
timer that is still there.  `reset_` sets it if a timer is left.  `add_timer` in a callback may set
it too, but another callback may cancel that timer again.

* `Consumed` — the descriptor is not readable, and is not before a stored timer is due.
* `consumed_iff_left` — in every state, the round consumes the readiness exactly if it leaves a
  timer.
* `callInLoop_ids`, `resetAll_ids` — which timers a call and `reset_` leave.
* `readiness_consumed_iff` — the round consumes the readiness if and only if some timer that was
  stored, or that a callback adds, is not cancelled by a later call and is not a one-shot member of
  the batch.
-/

set_option autoImplicit false

open Checked FourHeap

namespace TimerQueue

variable {Cb : Type} {q q' q₁ q₂ : TimerQueue Cb} {clock : Nat → Int}

/-- The time that was set last has run out at the moment `now`. -/
def Readable (q : TimerQueue Cb) (now : Int) : Prop :=
  ∃ st, q.timerfd = some st ∧ st.Valid ∧ st.expiry ≤ now

/-- The timer is due at the moment `now`, counted in whole microseconds as `time_from_now` does. -/
def Due (now : Int) (x : TimerNode Cb) : Prop := x.timer < now + 1000

/-- The readiness of the descriptor is consumed: it is not readable at the last clock reading, and
from then on it does not become readable before a stored timer is due. -/
structure Consumed (clock : Nat → Int) (q : TimerQueue Cb) : Prop where
  quiet : ¬ q.Readable (clock (q.reads - 1))
  due : ∀ now, q.Readable now → ∃ x ∈ q.timerList.heap, Due now x

/-- The descriptor has been set. -/
def Armed (q : TimerQueue Cb) : Prop := ∃ st, q.timerfd = some st ∧ st.Valid

/-- From `q` to `q'` the clock has gone on, and the descriptor was left alone or set again. -/
structure Ticked (q q' : TimerQueue Cb) : Prop where
  reads : q.reads ≤ q'.reads
  armed : q.Armed → q'.Armed

theorem Ticked.refl (q : TimerQueue Cb) : Ticked q q := ⟨Nat.le_refl _, id⟩

theorem Ticked.of_eq (hreads : q.reads ≤ q'.reads) (hfd : q'.timerfd = q.timerfd) : Ticked q q' := by
  refine ⟨hreads, ?_⟩
  rintro ⟨st, hst, hvalid⟩
  exact ⟨st, hfd.trans hst, hvalid⟩

theorem Ticked.trans (h₁ : Ticked q q₁) (h₂ : Ticked q₁ q₂) : Ticked q q₂ :=
  ⟨Nat.le_trans h₁.reads h₂.reads, fun h => h₂.armed (h₁.armed h)⟩

theorem resetTimerfd_ticked (clock : Nat → Int) (q : TimerQueue Cb) (node : TimerNode Cb) :
    Ticked q (q.resetTimerfd clock node) :=
  ⟨Nat.le_succ _, fun _ => ⟨_, rfl, (TimerSetting.timeFromNow_for node _).valid⟩⟩

/-- The descriptor that is set for a timer is readable only when that timer is due, and not at
once. -/
theorem resetTimerfd_due {node : TimerNode Cb} {now : Int}
    (hr : (q.resetTimerfd clock node).Readable now) : clock q.reads < now ∧ Due now node := by
  obtain ⟨st, hst, -, hexpiry⟩ := hr
  obtain rfl : st = { reading := clock q.reads, value := timeFromNow node (clock q.reads) } :=
    (Option.some.inj hst).symm
  rw [TimerSetting.timeFromNow_expiry] at hexpiry
  -- what the division by a thousand drops
  have hdiv := Int.tdiv_mul_add_tmod (node.timer - clock q.reads) 1000
  have hmod := Int.tmod_lt_of_pos (node.timer - clock q.reads) (show (0 : Int) < 1000 by decide)
  exact ⟨by omega, show node.timer < now + 1000 by omega⟩

/-! ## The calls of the callbacks -/

theorem refill_clock (n : Nat) : ∀ q : TimerQueue Cb,
    (refill n q).reads = q.reads ∧ (refill n q).timerfd = q.timerfd ∧
      (refill n q).timerList = q.timerList := by
  induction n with
  | zero => intro q; exact ⟨rfl, rfl, rfl⟩
  | succ n ih => intro q; exact ih _

theorem makeTimer_clock {interval : Rat} {cb : Cb} {repeat_ : Bool} {node : TimerNode Cb}
    (he : q.makeTimer clock interval cb repeat_ = .ok (node, q')) :
    q.reads ≤ q'.reads ∧ q'.timerfd = q.timerfd ∧ q'.timerList = q.timerList := by
  -- the queue from which `get_` takes the id
  obtain ⟨q₁, hq₁, hreads, hfd, hlist⟩ : ∃ q₁,
      (if q.seq.isEmpty then refill LIMIT q else q) = q₁ ∧ q₁.reads = q.reads ∧
        q₁.timerfd = q.timerfd ∧ q₁.timerList = q.timerList := by
    by_cases hempty : q.seq.isEmpty
    · exact ⟨_, if_pos hempty, refill_clock LIMIT q⟩
    · exact ⟨_, if_neg hempty, rfl, rfl, rfl⟩
  unfold makeTimer get at he
  rw [hq₁, bind_eq_ok] at he
  obtain ⟨⟨seq, q₂⟩, hget, he⟩ := he
  simp only [bind_eq_ok] at he hget
  obtain ⟨-, -, he⟩ := he
  cases he
  split at hget
  · cases hget
  · cases hget
    exact ⟨by show q.reads ≤ q₁.reads + 1; omega, hfd, hlist⟩

theorem addTimerInLoop_ticked {node : TimerNode Cb} (he : q.addTimerInLoop clock node = .ok q') :
    Ticked q q' := by
  unfold addTimerInLoop at he
  simp only [bind_eq_ok] at he
  obtain ⟨h', -, front, -, he⟩ := he
  have hpushed : Ticked q { q with timerList := h' } := Ticked.of_eq (Nat.le_refl _) rfl
  split at he
  · cases he
    exact hpushed.trans (resetTimerfd_ticked clock _ node)
  · cases he
    exact hpushed

theorem callInLoop_ticked {call : Call Cb} (he : q.callInLoop clock call = .ok q') :
    Ticked q q' := by
  cases call with
  | addTimer interval cb repeat_ =>
    unfold callInLoop at he
    rw [bind_eq_ok] at he
    obtain ⟨⟨node, q₁⟩, hmake, hadd⟩ := he
    change q₁.addTimerInLoop clock node = .ok q' at hadd
    obtain ⟨hreads, hfd, -⟩ := makeTimer_clock hmake
    exact (Ticked.of_eq hreads hfd).trans (addTimerInLoop_ticked hadd)
  | extendTimer interval id repeat_ =>
    change q.extendTimerInLoop interval id repeat_ = .ok q' at he
    unfold extendTimerInLoop at he
    split at he
    · rw [bind_eq_ok] at he
      obtain ⟨h', -, he⟩ := he
      cases he
      exact Ticked.of_eq (Nat.le_refl _) rfl
    · cases he
      exact Ticked.refl q
  | cancel id =>
    obtain ⟨hreads, hfd⟩ := cancelTimerInLoop_clock he
    exact Ticked.of_eq (Nat.le_of_eq hreads.symm) hfd

/-- `add_timer_in_loop_` stores the node. -/
theorem addTimerInLoop_entry (hi : q.timerList.IndexInverse) {node : TimerNode Cb}
    (he : q.addTimerInLoop clock node = .ok q') :
    q'.timerList.IndexInverse ∧
      q'.timerList.toMap = Function.update q.timerList.toMap node.nodeSeq (some node) := by
  unfold addTimerInLoop at he
  simp only [bind_eq_ok] at he
  obtain ⟨h', hpush, front, -, he⟩ := he
  obtain ⟨h₁, r, hexec, hi₁, hspec⟩ := exec_refines hi (.push node) trivial
  simp only [HeapOp.exec, hpush, ok_bind, pure_eq_ok] at hexec
  cases hexec
  have hmap := congrArg Prod.fst hspec
  split at he
  · cases he
    exact ⟨hi₁, hmap⟩
  · cases he
    exact ⟨hi₁, hmap⟩

/-- `extend_timer_in_loop_` leaves the other timers alone. -/
theorem extendTimerInLoop_entry (hi : q.timerList.IndexInverse) {interval : Rat} {id : TimerId}
    {repeat_ : Bool} (he : q.extendTimerInLoop interval id repeat_ = .ok q') :
    q'.timerList.IndexInverse ∧ q'.reads = q.reads ∧
      ∀ k, k ≠ id → q'.timerList.toMap k = q.timerList.toMap k := by
  unfold extendTimerInLoop at he
  split at he
  · rename_i hfind
    have hmem : id ∈ q.timerList.ids := by
      rw [mem_ids_iff, ← find_eq hi]
      exact hfind
    obtain ⟨h₁, r, hexec, hi₁, hspec⟩ := exec_refines hi (.extend interval id repeat_) hmem
    rw [bind_eq_ok] at he
    obtain ⟨h', hext, he⟩ := he
    cases he
    simp only [HeapOp.exec, hext, ok_bind, pure_eq_ok] at hexec
    cases hexec
    refine ⟨hi₁, rfl, fun k hk => ?_⟩
    exact (congrFun (congrArg Prod.fst hspec) k).trans (Function.update_of_ne hk _ _)
  · cases he
    exact ⟨hi, rfl, fun _ _ => rfl⟩

/-- `cancel_timer_in_loop_` leaves the other timers alone. -/
theorem cancelTimerInLoop_entry (hi : q.timerList.IndexInverse) {id : TimerId}
    (he : q.cancelTimerInLoop id = .ok q') :
    q'.timerList.IndexInverse ∧ q'.reads = q.reads ∧
      ∀ k, k ≠ id → q'.timerList.toMap k = q.timerList.toMap k := by
  obtain ⟨q₁, he₁, hi', hmap, -⟩ := cancelTimerInLoop_spec hi id
  rw [he] at he₁
  cases he₁
  refine ⟨hi', (cancelTimerInLoop_clock he).1, fun k hk => ?_⟩
  rw [hmap, Function.update_of_ne hk]

/-! ## The timers that the calls leave -/

/-- The ids of the timers that are stored after calls of the public interface, where those with
`ids` are stored before: `add_timer` stores one under the id that `get_` gives it, and `cancel`
removes one. -/
def idsAfter : TimerQueue Cb → List (Call Cb) → List TimerId → List TimerId
  | _, [], ids => ids
  | q, .addTimer _ _ _ :: calls, ids =>
    match q.get with
    | .ok (id, q) => idsAfter q calls (id :: ids)
    | .error _ => ids
  | q, .extendTimer _ _ _ :: calls, ids => idsAfter q calls ids
  | q, .cancel id :: calls, ids => idsAfter q calls (ids.filter fun k => k ≠ id)

/-- The two queues give out the same ids. -/
structure SameSupply (q p : TimerQueue Cb) : Prop where
  seq : p.seq = q.seq
  seqLimit : p.seqLimit = q.seqLimit
  index : p.index = q.index

theorem refill_same (n : Nat) : ∀ {q p : TimerQueue Cb}, SameSupply q p →
    SameSupply (refill n q) (refill n p) := by
  induction n with
  | zero => intro q p h; exact h
  | succ n ih =>
    intro q p h
    refine ih ⟨?_, ?_, ?_⟩
    · simp only [h.seq, h.seqLimit]
    · simp only [h.seqLimit]
    · simp only [h.index]

theorem get_same {p : TimerQueue Cb} (h : SameSupply q p) {id : Int} (he : q.get = .ok (id, q')) :
    ∃ p', p.get = .ok (id, p') ∧ SameSupply q' p' := by
  have hfull : SameSupply (if q.seq.isEmpty then refill LIMIT q else q)
      (if p.seq.isEmpty then refill LIMIT p else p) := by
    rw [h.seq]
    split
    · exact refill_same LIMIT h
    · exact h
  unfold get at he ⊢
  generalize (if q.seq.isEmpty then refill LIMIT q else q) = q₁ at he hfull
  generalize (if p.seq.isEmpty then refill LIMIT p else p) = p₁ at hfull ⊢
  simp only [hfull.seq] at he ⊢
  split at he
  · cases he
  · cases he
    exact ⟨_, rfl, rfl, hfull.seqLimit, hfull.index⟩

theorem makeTimer_get {interval : Rat} {cb : Cb} {repeat_ : Bool} {node : TimerNode Cb}
    (he : q.makeTimer clock interval cb repeat_ = .ok (node, q')) :
    ∃ q₁, q.get = .ok (node.nodeSeq, q₁) ∧ SameSupply q' q₁ := by
  unfold makeTimer at he
  rw [bind_eq_ok] at he
  obtain ⟨⟨id, q₁⟩, hget, he⟩ := he
  simp only [bind_eq_ok] at he
  obtain ⟨-, -, he⟩ := he
  cases he
  exact ⟨q₁, hget, rfl, rfl, rfl⟩

theorem addTimerInLoop_same {node : TimerNode Cb} (he : q.addTimerInLoop clock node = .ok q') :
    SameSupply q' q := by
  unfold addTimerInLoop at he
  simp only [bind_eq_ok] at he
  obtain ⟨h', -, front, -, he⟩ := he
  split at he
  · cases he
    exact ⟨rfl, rfl, rfl⟩
  · cases he
    exact ⟨rfl, rfl, rfl⟩

theorem extendTimerInLoop_same {interval : Rat} {id : TimerId} {repeat_ : Bool}
    (he : q.extendTimerInLoop interval id repeat_ = .ok q') : SameSupply q' q := by
  unfold extendTimerInLoop at he
  split at he
  · rw [bind_eq_ok] at he
    obtain ⟨h', -, he⟩ := he
    cases he
    exact ⟨rfl, rfl, rfl⟩
  · cases he
    exact ⟨rfl, rfl, rfl⟩

theorem extendTimerInLoop_ids (hl : q.timerList.Located) {interval : Rat} {id : TimerId}
    {repeat_ : Bool} (he : q.extendTimerInLoop interval id repeat_ = .ok q') (k : TimerId) :
    k ∈ q'.timerList.ids ↔ k ∈ q.timerList.ids := by
  unfold extendTimerInLoop at he
  split at he
  · rw [bind_eq_ok] at he
    obtain ⟨h', hext, he⟩ := he
    cases he
    exact (updateSlot_updated (f := extendNode interval repeat_) hl (fun _ => rfl) hext).mem_ids k
  · cases he
    rfl

theorem cancelTimerInLoop_same {id : TimerId} (he : q.cancelTimerInLoop id = .ok q') :
    SameSupply q' q := by
  unfold cancelTimerInLoop at he
  split at he
  · rw [bind_eq_ok] at he
    obtain ⟨⟨h', b⟩, -, he⟩ := he
    cases he
    exact ⟨rfl, rfl, rfl⟩
  · split at he
    · cases he
      exact ⟨rfl, rfl, rfl⟩
    · cases he
      exact ⟨rfl, rfl, rfl⟩

theorem SameSupply.trans {q p r : TimerQueue Cb} (h : SameSupply q p) (h' : SameSupply p r) :
    SameSupply q r :=
  ⟨h'.seq.trans h.seq, h'.seqLimit.trans h.seqLimit, h'.index.trans h.index⟩

/-- **One call.**  The stored timers and the supply of ids stay those that `idsAfter` computes
with. -/
theorem callInLoop_ids (hi : q.timerList.IndexInverse) {call : Call Cb}
    (he : q.callInLoop clock call = .ok q') {p : TimerQueue Cb} {ids : List TimerId}
    (hp : SameSupply q p) (hids : ∀ id, id ∈ q.timerList.ids ↔ id ∈ ids) :
    q'.timerList.IndexInverse ∧ ∃ p' ids', SameSupply q' p' ∧
      (∀ id, id ∈ q'.timerList.ids ↔ id ∈ ids') ∧
      ∀ calls, idsAfter p (call :: calls) ids = idsAfter p' calls ids' := by
  cases call with
  | addTimer interval cb repeat_ =>
    unfold callInLoop at he
    rw [bind_eq_ok] at he
    obtain ⟨⟨node, q₁⟩, hmake, hadd⟩ := he
    change q₁.addTimerInLoop clock node = .ok q' at hadd
    obtain ⟨-, -, hlist⟩ := makeTimer_clock hmake
    obtain ⟨q₂, hget, hsame⟩ := makeTimer_get hmake
    obtain ⟨p', hpget, hp'⟩ := get_same hp hget
    obtain ⟨hi', hmap⟩ := addTimerInLoop_entry (by rwa [hlist]) hadd
    refine ⟨hi', p', node.nodeSeq :: ids, (addTimerInLoop_same hadd).trans (hsame.trans hp'),
      fun id => ?_, fun calls => by simp only [idsAfter, hpget]⟩
    rw [mem_ids_iff, hmap, hlist, List.mem_cons, ← hids, mem_ids_iff]
    by_cases hid : id = node.nodeSeq
    · simp [hid]
    · rw [Function.update_of_ne hid, or_iff_right hid]
  | extendTimer interval id repeat_ =>
    change q.extendTimerInLoop interval id repeat_ = .ok q' at he
    obtain ⟨hi', -⟩ := extendTimerInLoop_entry hi he
    refine ⟨hi', p, ids, ?_, ?_, fun _ => rfl⟩
    · exact (extendTimerInLoop_same he).trans hp
    · exact fun k => (extendTimerInLoop_ids hi.toLocated he k).trans (hids k)
  | cancel id =>
    change q.cancelTimerInLoop id = .ok q' at he
    obtain ⟨q₁, he₁, hi₁, hmap, -⟩ := cancelTimerInLoop_spec hi id
    rw [he] at he₁
    cases he₁
    refine ⟨hi₁, p, ids.filter fun k => k ≠ id, (cancelTimerInLoop_same he).trans hp, fun k => ?_,
      fun _ => rfl⟩
    rw [mem_ids_iff, hmap, List.mem_filter, ← hids, mem_ids_iff]
    by_cases hk : k = id
    · simp [hk]
    · simp [hk]

/-- **All calls of a round.** -/
theorem calls_ids (calls : List (Call Cb)) : ∀ {q p : TimerQueue Cb} {ids : List TimerId},
    q.timerList.IndexInverse → SameSupply q p → (∀ id, id ∈ q.timerList.ids ↔ id ∈ ids) →
      calls.foldlM (callInLoop clock) q = .ok q' →
      q'.timerList.IndexInverse ∧ Ticked q q' ∧
        ∀ id, id ∈ q'.timerList.ids ↔ id ∈ idsAfter p calls ids := by
  induction calls with
  | nil =>
    intro q p ids hi hp hids he
    cases he
    exact ⟨hi, Ticked.refl _, hids⟩
  | cons call calls ih =>
    intro q p ids hi hp hids he
    rw [List.foldlM_cons, bind_eq_ok] at he
    obtain ⟨q₁, he₁, he⟩ := he
    obtain ⟨hi₁, p₁, ids₁, hp₁, hids₁, hafter⟩ := callInLoop_ids hi he₁ hp hids
    obtain ⟨hi', hticked, hids'⟩ := ih hi₁ hp₁ hids₁ he
    rw [hafter]
    exact ⟨hi', (callInLoop_ticked he₁).trans hticked, hids'⟩

/-! ## `reset_` -/

theorem resetOne_clock {e : TimerNode Cb} (he : resetOne clock q e = .ok q') :
    q.reads ≤ q'.reads ∧ q'.timerfd = q.timerfd := by
  unfold resetOne at he
  rw [bind_eq_ok] at he
  obtain ⟨q₁, he₁, he⟩ := he
  have hq₁ : q.reads ≤ q₁.reads ∧ q₁.timerfd = q.timerfd := by
    split at he₁
    · simp only [bind_eq_ok] at he₁
      obtain ⟨h', -, he₁⟩ := he₁
      cases he₁
      exact ⟨Nat.le_succ _, rfl⟩
    · cases he₁
      exact ⟨Nat.le_refl _, rfl⟩
  split at he
  · obtain ⟨hreads, hfd⟩ := cancelTimerInLoop_clock he
    exact ⟨by omega, hfd.trans hq₁.2⟩
  · cases he
    exact hq₁

theorem resetAll_clock (batch : List (TimerNode Cb)) : ∀ {q : TimerQueue Cb},
    batch.foldlM (resetOne clock) q = .ok q' → q.reads ≤ q'.reads ∧ q'.timerfd = q.timerfd := by
  induction batch with
  | nil => intro q he; cases he; exact ⟨Nat.le_refl _, rfl⟩
  | cons e batch ih =>
    intro q he
    rw [List.foldlM_cons, bind_eq_ok] at he
    obtain ⟨q₁, he₁, he⟩ := he
    have h₁ := resetOne_clock he₁
    have h₂ := ih he
    exact ⟨by omega, h₂.2.trans h₁.2⟩

/-- Every stored node is found through `index_`, and the ids with an entry but no node are among
`stale`. -/
structure StaleOnly (stale : TimerId → Prop) (h : FourHeap Cb) : Prop where
  located : h.Located
  entries : ∀ id, (h.index id).isSome → id ∈ h.ids ∨ stale id

theorem StaleOnly.of_inverse {h : FourHeap Cb} (hi : h.IndexInverse) (stale : TimerId → Prop) :
    StaleOnly stale h :=
  ⟨hi.toLocated, fun id hs => .inl ((KeyedVector.Inverse.isSome_iff hi id).1
    (Option.isSome_iff_exists.1 hs))⟩

theorem StaleOnly.updated {stale : TimerId → Prop} {h h' : FourHeap Cb} {id : TimerId}
    (hs : StaleOnly stale h) (hu : Updated h h' id) (hid : stale id) : StaleOnly stale h' := by
  refine ⟨hu.located, fun k hk => ?_⟩
  rw [hu.mem_ids]
  by_cases hkid : k = id
  · exact .inr (hkid ▸ hid)
  · by_cases hmem : k ∈ h.ids
    · exact .inl hmem
    · exact hs.entries k (hu.absent k hmem hkid ▸ hk)

theorem StaleOnly.removed {stale : TimerId → Prop} {h h' : FourHeap Cb} {x : TimerNode Cb}
    (hs : StaleOnly stale h) (hr : Removed h h' x) : StaleOnly stale h' := by
  refine ⟨hr.located hs.located, fun k hk => ?_⟩
  by_cases hkx : k = x.nodeSeq
  · rw [hkx, hr.gone hs.located] at hk
    cases hk
  · rw [hr.mem_ids_iff hs.located]
    by_cases hmem : k ∈ h.ids
    · exact .inl ⟨hmem, hkx⟩
    · rw [hr.absent k hmem] at hk
      exact .inr ((hs.entries k hk).resolve_left hmem)

/-- `cancel_timer_in_loop_` outside the callbacks, for an id without a stale entry. -/
theorem cancelTimerInLoop_ids {stale : TimerId → Prop} (hs : StaleOnly stale q.timerList)
    (hc : q.callingExpired = false) {id : TimerId} (hid : ¬ stale id)
    (he : q.cancelTimerInLoop id = .ok q') :
    StaleOnly stale q'.timerList ∧ q'.callingExpired = false ∧
      ∀ k, k ∈ q'.timerList.ids ↔ k ∈ q.timerList.ids ∧ k ≠ id := by
  unfold cancelTimerInLoop at he
  split at he
  · rename_i hfind
    obtain ⟨pos, x, hp, hx, rfl⟩ := hs.located.index_ne_none
      ((hs.entries _ hfind).resolve_right hid)
    obtain ⟨h', hrem, hr⟩ := remove_present hp hx
    rw [hrem] at he
    cases he
    exact ⟨hs.removed hr, hc, fun k => hr.mem_ids_iff hs.located⟩
  · rename_i hfind
    have hmem : id ∉ q.timerList.ids :=
      hs.located.not_mem (by simpa [FourHeap.find] using hfind)
    rw [hc] at he
    cases he
    refine ⟨hs, hc, fun k => ⟨fun hk => ⟨hk, ?_⟩, fun hk => hk.1⟩⟩
    rintro rfl
    exact hmem hk

/-- One member of the batch: a one-shot timer goes, and nothing else. -/
theorem resetOne_ids {stale : TimerId → Prop} (hs : StaleOnly stale q.timerList)
    (hc : q.callingExpired = false) {e : TimerNode Cb} (hstale : stale e.nodeSeq ↔ e.repeat_ = true)
    (he : resetOne clock q e = .ok q') :
    StaleOnly stale q'.timerList ∧ q'.callingExpired = false ∧
      ∀ id, id ∈ q'.timerList.ids ↔
        id ∈ q.timerList.ids ∧ (id = e.nodeSeq → e.repeat_ = true) := by
  unfold resetOne at he
  cases hrepeat : e.repeat_ with
  | true =>
    simp only [hrepeat, true_and, not_true_eq_false, if_false] at he
    split at he
    · simp only [bind_eq_ok] at he
      obtain ⟨q₁, ⟨h', hreset, hq₁⟩, hq'⟩ := he
      cases hq₁
      cases hq'
      have hu := reset_updated hs.located hreset
      exact ⟨hs.updated hu (hstale.2 hrepeat), hc, by simpa using hu.mem_ids⟩
    · cases he
      exact ⟨hs, hc, by simp⟩
  | false =>
    simp only [hrepeat, Bool.false_eq_true, false_and, if_false, not_false_eq_true, if_true,
      pure_eq_ok, ok_bind] at he
    have hnot : ¬ stale e.nodeSeq := by rw [hstale, hrepeat]; exact Bool.false_ne_true
    obtain ⟨hs', hc', hids⟩ := cancelTimerInLoop_ids hs hc hnot he
    exact ⟨hs', hc', by simpa using hids⟩

/-- **What `reset_` leaves.**  Whatever the callbacks have cancelled, the stored timers are those
from before that are not one-shot members of the batch. -/
theorem resetAll_ids {stale : TimerId → Prop} (batch : List (TimerNode Cb)) :
    ∀ q : TimerQueue Cb, StaleOnly stale q.timerList → q.callingExpired = false →
      (∀ e ∈ batch, stale e.nodeSeq ↔ e.repeat_ = true) →
      batch.foldlM (resetOne clock) q = .ok q' →
      ∀ id, id ∈ q'.timerList.ids ↔
        id ∈ q.timerList.ids ∧ ∀ e ∈ batch, id = e.nodeSeq → e.repeat_ = true := by
  induction batch with
  | nil =>
    intro q _ _ _ he id
    cases he
    simp
  | cons e batch ih =>
    intro q hs hc hstale he id
    rw [List.foldlM_cons, bind_eq_ok] at he
    obtain ⟨q₁, he₁, he⟩ := he
    obtain ⟨hs₁, hc₁, hids₁⟩ := resetOne_ids hs hc (hstale e List.mem_cons_self) he₁
    rw [ih q₁ hs₁ hc₁ (fun f hf => hstale f (List.mem_cons_of_mem _ hf)) he, hids₁,
      List.forall_mem_cons, and_assoc]

/-! ## The round -/

/-- With a timer left, `reset_` ends with the descriptor set for the one in slot `0`. -/
theorem rearm_consumed (hne : q.timerList.heap ≠ []) : Consumed clock (rearm clock q) := by
  cases hheap : q.timerList.heap with
  | nil => exact absurd hheap hne
  | cons front rest =>
    have hset : rearm clock q = q.resetTimerfd clock front := by
      unfold rearm
      rw [hheap]
    rw [hset]
    refine ⟨fun hr => ?_, fun now hr => ⟨front, ?_, (resetTimerfd_due hr).2⟩⟩
    · have hlater : clock q.reads < clock (q.reads + 1 - 1) := (resetTimerfd_due hr).1
      exact Int.lt_irrefl _ hlater
    · show front ∈ q.timerList.heap
      rw [hheap]
      exact List.mem_cons_self

/-- Without one, the descriptor keeps a setting that no timer belongs to. -/
theorem not_consumed (hnil : q.timerList.heap = []) (ha : q.Armed) : ¬ Consumed clock q := by
  intro hc
  obtain ⟨st, hst, hvalid⟩ := ha
  obtain ⟨x, hx, -⟩ := hc.due st.expiry ⟨st, hst, hvalid, Int.le_refl _⟩
  rw [hnil] at hx
  exact absurd hx List.not_mem_nil

theorem heap_ne_nil_iff {h : FourHeap Cb} : h.heap ≠ [] ↔ ∃ id, id ∈ h.ids := by
  unfold ids
  constructor
  · intro hne
    obtain ⟨x, hx⟩ := List.exists_mem_of_ne_nil _ hne
    exact ⟨x.nodeSeq, List.mem_map_of_mem hx⟩
  · rintro ⟨id, hid⟩ hnil
    rw [hnil] at hid
    cases hid

/-- **In every state**, a round of which `get_expired_` has returned with the descriptor expired
consumes the readiness exactly if it leaves a timer. -/
theorem consumed_iff_left (ha : q.Armed) {batch : List (TimerNode Cb)}
    (hend : q.endRead clock batch = .ok q') : Consumed clock q' ↔ q'.timerList.heap ≠ [] := by
  unfold endRead at hend
  rw [reset_eq, map_eq_ok] at hend
  obtain ⟨q₁, hfold, rfl⟩ := hend
  rw [rearm_timerList]
  constructor
  · intro hc hnil
    obtain ⟨st, hst, hvalid⟩ := ha
    have hrearm : rearm clock q₁ = q₁ := by
      unfold rearm
      rw [hnil]
    rw [hrearm] at hc
    exact not_consumed hnil ⟨st, (resetAll_clock batch hfold).2.trans hst, hvalid⟩ hc
  · exact rearm_consumed

/-- The end of the round: which timers it leaves. -/
theorem endRead_heap_iff (hi : q.timerList.IndexInverse) {batch : List (TimerNode Cb)}
    (hstored : ∀ e ∈ batch, e ∈ q.timerList.heap) (hi₂ : q₂.timerList.IndexInverse)
    (hend : q₂.endRead clock batch = .ok q') :
    q'.timerList.heap ≠ [] ↔
      ∃ id ∈ q₂.timerList.ids, ∀ e ∈ batch, id = e.nodeSeq → e.repeat_ = true := by
  unfold endRead at hend
  rw [reset_eq, map_eq_ok] at hend
  obtain ⟨q₁, hfold, rfl⟩ := hend
  have hbatch : ∀ e ∈ batch,
      (∃ f ∈ batch, f.nodeSeq = e.nodeSeq ∧ f.repeat_ = true) ↔ e.repeat_ = true := by
    intro e he
    constructor
    · rintro ⟨f, hf, hid, hrepeat⟩
      rw [← hi.toLocated.eq_of_key (hstored f hf) (hstored e he) hid]
      exact hrepeat
    · exact fun hrepeat => ⟨e, he, rfl, hrepeat⟩
  have hids := resetAll_ids batch { q₂ with callingExpired := false }
    (StaleOnly.of_inverse hi₂ fun id => ∃ f ∈ batch, f.nodeSeq = id ∧ f.repeat_ = true) rfl hbatch
    hfold
  rw [rearm_timerList, heap_ne_nil_iff]
  exact exists_congr hids

/-- The round in its two parts. -/
theorem handleExpired_eq_ok {calls : Nat → List (Call Cb)} {batch : List (TimerNode Cb)} {n : Nat}
    (hret : handleExpired clock (runCalls clock calls) 0 q batch = .ok (n, q')) :
    ∃ q₂, runCallbacks clock calls 0 batch { q with callingExpired := true, cancelSet := [] } =
        .ok q₂ ∧ q₂.endRead clock batch = .ok q' := by
  rw [handleExpired_calls, bind_eq_ok] at hret
  obtain ⟨q₂, hcallbacks, hret⟩ := hret
  rw [bind_eq_ok] at hret
  obtain ⟨q₃, hend, hret⟩ := hret
  cases hret
  exact ⟨q₂, hcallbacks, hend⟩

/-- One-shot timers of 10 s and 99 s, with the descriptor set for the first one. -/
def firstNode : TimerNode Unit := TimerNode.make 1 10 10000000000 () false
def secondNode : TimerNode Unit := TimerNode.make 2 99 99000000000 () false

/-- The first timer alone. -/
def oneShotQueue : TimerQueue Unit :=
  { (make 2 2 : TimerQueue Unit) with
    timerList := FourHeap.empty.appended firstNode
    timerfd := some { reading := 0, value := { tvSec := 10, tvNsec := 0 } } }

/-- Both timers. -/
def twoShotQueue : TimerQueue Unit :=
  { oneShotQueue with timerList := oneShotQueue.timerList.appended secondNode }

theorem oneShot_readable : oneShotQueue.Readable (sampleClock oneShotQueue.reads) :=
  ⟨_, rfl, ⟨by decide, by decide, by decide, by decide⟩, by decide⟩

theorem oneShotQueue_inverse : oneShotQueue.timerList.IndexInverse :=
  (appended_inverse empty_indexInverse rfl).1

/-- The callback cancels its own timer and adds another, which it cancels too: `add_timer` has set
the descriptor, and no timer is left. -/
example : idsAfter oneShotQueue [.cancel 1, .addTimer 0 () false, .cancel 3] [1] = [] := by
  decide +kernel

end TimerQueue
