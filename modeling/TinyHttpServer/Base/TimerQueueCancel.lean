import TinyHttpServer.Base.FourHeapStale
import TinyHttpServer.Base.TimerQueue

/-!
# Cancelling timers from callbacks

During an expiry round the expired nodes stay in the heap.  The first `cancel` of such a node
removes it and leaves no trace; only a second `cancel` of the same id reaches `cancel_set_`.
`reset_` then takes a repeating node that was cancelled once for one that is still stored, and
`index_[id]` records slot `0` for it.

* `cancelAll_spec` — the cancels of a round: what is stored and what is in `cancel_set_` afterwards.
* `resetAll_kept` — `reset_` where every node that it re-dates is stored.
* `resetAll_stale` — `reset_` where it re-dates a node that is not stored.
* `cancel_frame_iff` — the round leaves all other timers alone if and only if no repeating member
  of the batch is cancelled exactly once.
-/

set_option autoImplicit false

open Checked FourHeap

namespace TimerQueue

variable {Cb : Type} {q q' : TimerQueue Cb} {clock : Nat → Int}

/-! ## One cancel -/

theorem find_eq {h : FourHeap Cb} (hi : h.IndexInverse) (id : TimerId) :
    h.find id = (h.toMap id).isSome := by
  unfold FourHeap.find
  cases hn : h.index id with
  | none =>
    have : h.toMap id = none := KeyedVector.lookup_eq_none.2 (hi.index_none.1 hn)
    rw [this]
    rfl
  | some pos =>
    obtain ⟨x, hx, rfl⟩ := hi.get hn
    rw [hi.toMap_get hx]
    rfl

theorem cancelTimerInLoop_spec (hi : q.timerList.IndexInverse) (id : TimerId) :
    ∃ q', q.cancelTimerInLoop id = .ok q' ∧ q'.timerList.IndexInverse ∧
      q'.timerList.toMap = Function.update q.timerList.toMap id none ∧
      q'.callingExpired = q.callingExpired ∧
      q'.cancelSet = if (q.timerList.toMap id).isSome ∨ q.callingExpired = false then q.cancelSet
        else id :: q.cancelSet := by
  unfold cancelTimerInLoop
  rw [find_eq hi]
  split
  · rename_i hs
    obtain ⟨x, hx⟩ := Option.isSome_iff_exists.1 hs
    obtain ⟨hmem, rfl⟩ := (KeyedVector.lookup_eq_some hi.toLocated).1 hx
    obtain ⟨pos, y, hp, hy, hyid⟩ := hi.toLocated.index_ne_none
      (List.mem_map_of_mem (f := TimerNode.nodeSeq) hmem)
    obtain ⟨h', he, hr⟩ := remove_present hp hy
    rw [he]
    refine ⟨_, rfl, hr.inverse hi, ?_, rfl, by simp [hx]⟩
    rw [hr.toMap_eq hi.toLocated, hyid]
  · rename_i hs
    have hnone : q.timerList.toMap id = none := by simpa using hs
    have hsame : q.timerList.toMap = Function.update q.timerList.toMap id none := by
      rw [← hnone, Function.update_eq_self]
    split
    · rename_i hc
      exact ⟨_, rfl, hi, hsame, rfl, by simp [hc, hnone]⟩
    · rename_i hc
      exact ⟨q, rfl, hi, hsame, rfl, by simp [hc]⟩

/-! ## The cancels of a round -/

/-- The ids cancelled by the callbacks of a batch of `n` nodes, in order; the `i`-th callback cancels
`cs i`. -/
def cancelledIds (cs : Nat → List TimerId) (n : Nat) : List TimerId := (List.range' 0 n).flatMap cs

theorem runCallbacks_eq (calls : Nat → List (Call Cb)) :
    ∀ (batch : List (TimerNode Cb)) (i : Nat) (q : TimerQueue Cb),
      runCallbacks clock calls i batch q =
        ((List.range' i batch.length).flatMap calls).foldlM (callInLoop clock) q
  | [], i, q => rfl
  | e :: batch, i, q => by
    unfold runCallbacks
    rw [List.length_cons, List.range'_succ, List.flatMap_cons, List.foldlM_append]
    congr 1
    funext q'
    exact runCallbacks_eq calls batch (i + 1) q'

theorem runCallbacks_cancels (cs : Nat → List TimerId) (batch : List (TimerNode Cb)) (i : Nat)
    (q : TimerQueue Cb) :
    runCallbacks clock (fun i => (cs i).map Call.cancel) i batch q =
      ((List.range' i batch.length).flatMap cs).foldlM cancelTimerInLoop q := by
  rw [runCallbacks_eq, ← List.map_flatMap, List.foldlM_map]
  rfl

/-- **The cancels of a round.**  A stored id is in `cancel_set_` afterwards exactly if it was
cancelled at least twice. -/
theorem cancelAll_spec :
    ∀ (ids : List TimerId) (q : TimerQueue Cb), q.timerList.IndexInverse →
      q.callingExpired = true →
      ∃ q', ids.foldlM cancelTimerInLoop q = .ok q' ∧ q'.timerList.IndexInverse ∧
        (∀ k, q'.timerList.toMap k = if k ∈ ids then none else q.timerList.toMap k) ∧
        ∀ k, k ∈ q'.cancelSet ↔ k ∈ q.cancelSet ∨
          (if (q.timerList.toMap k).isSome then 2 else 1) ≤ ids.count k
  | [], q, hi, _ => ⟨q, rfl, hi, by simp, fun k => by split <;> simp⟩
  | a :: ids, q, hi, hc => by
    obtain ⟨q₁, he₁, hi₁, hmap₁, hc₁, hset₁⟩ := cancelTimerInLoop_spec hi a
    obtain ⟨q', he, hi', hmap, hset⟩ := cancelAll_spec ids q₁ hi₁ (hc₁.trans hc)
    refine ⟨q', by rw [List.foldlM_cons, he₁]; exact he, hi', fun k => ?_, fun k => ?_⟩
    · rw [hmap, hmap₁]
      by_cases hk : k = a
      · simp [hk]
      · simp [hk]
    · rw [hset, hmap₁, hset₁, hc]
      by_cases hk : k = a
      · subst hk
        cases hs : (q.timerList.toMap k).isSome <;> simp [List.count_cons_self]
      · have hcount : (a :: ids).count k = ids.count k := List.count_cons_of_ne (Ne.symm hk)
        rw [hcount, Function.update_of_ne hk]
        have hmem : (k ∈ if (q.timerList.toMap a).isSome = true ∨ true = false then q.cancelSet
            else a :: q.cancelSet) ↔ k ∈ q.cancelSet := by
          split <;> simp [hk]
        rw [hmem]

/-! ## `reset_` on stored nodes -/

/-- Re-dating a stored node changes no other entry. -/
theorem reset_spec (hi : q.timerList.IndexInverse) {id : TimerId} (timer : Int)
    (hid : (q.timerList.toMap id).isSome) :
    ∃ h', q.timerList.reset id timer = .ok h' ∧ h'.IndexInverse ∧
      (∀ k, k ≠ id → h'.toMap k = q.timerList.toMap k) ∧ (h'.toMap id).isSome := by
  have hmem := mem_ids_iff.2 hid
  obtain ⟨h', he, hinv, hmap⟩ := updateSlot_refines hi
    (f := fun node => node.setTimerStamp timer) (fun _ => rfl) hmem
  refine ⟨h', he, hinv, fun k hk => by rw [hmap, Function.update_of_ne hk], ?_⟩
  rw [hmap, Function.update_self, Option.isSome_map]
  exact hid

theorem resetOne_kept (clock : Nat → Int) (hi : q.timerList.IndexInverse) (hc : q.callingExpired = false)
    {e : TimerNode Cb}
    (he : e.repeat_ = true → e.nodeSeq ∉ q.cancelSet → (q.timerList.toMap e.nodeSeq).isSome) :
    ∃ q', resetOne clock q e = .ok q' ∧ q'.timerList.IndexInverse ∧ q'.callingExpired = false ∧
      q'.cancelSet = q.cancelSet ∧
      (∀ k, k ≠ e.nodeSeq → q'.timerList.toMap k = q.timerList.toMap k) ∧
      (e.repeat_ = true → (q'.timerList.toMap e.nodeSeq).isSome =
        (q.timerList.toMap e.nodeSeq).isSome) ∧
      (q.timerList.toMap e.nodeSeq = none → q'.timerList.toMap e.nodeSeq = none) := by
  unfold resetOne
  cases hr : e.repeat_ with
  | true =>
    by_cases hset : e.nodeSeq ∈ q.cancelSet
    · refine ⟨q, ?_, hi, hc, rfl, fun _ _ => rfl, fun _ => rfl, id⟩
      simp [hset]
    · have hstored := he hr hset
      obtain ⟨h', her, hinv, hother, hself⟩ := reset_spec (q := (q.now clock).2) hi
        ((q.now clock).1 + TimerNode.micro (TimerNode.tarnsMirco e.getInterval)) hstored
      refine ⟨{ (q.now clock).2 with timerList := h' }, ?_, hinv, hc, rfl, hother, fun _ => ?_, ?_⟩
      · simp [hset, her]
      · rw [hstored]; exact hself
      · intro hn; rw [hn] at hstored; cases hstored
  | false =>
    obtain ⟨q₁, he₁, hi₁, hmap₁, hc₁, hset₁⟩ := cancelTimerInLoop_spec hi e.nodeSeq
    refine ⟨q₁, ?_, hi₁, hc₁.trans hc, by simp [hset₁, hc], ?_, by simp, ?_⟩
    · simp [he₁]
    · intro k hk; rw [hmap₁, Function.update_of_ne hk]
    · intro _; rw [hmap₁, Function.update_self]

/-- **`reset_`, where every repeating member of the batch is stored or in `cancel_set_`.** -/
theorem resetAll_kept (clock : Nat → Int) :
    ∀ (batch : List (TimerNode Cb)) (q : TimerQueue Cb), q.timerList.IndexInverse →
      q.callingExpired = false →
      (∀ e ∈ batch, e.repeat_ = true → e.nodeSeq ∉ q.cancelSet →
        (q.timerList.toMap e.nodeSeq).isSome) →
      (∀ e ∈ batch, ∀ f ∈ batch, e.nodeSeq = f.nodeSeq → e.repeat_ = f.repeat_) →
      ∃ q', batch.foldlM (resetOne clock) q = .ok q' ∧ q'.timerList.IndexInverse ∧
        (∀ k, k ∉ batch.map TimerNode.nodeSeq → q'.timerList.toMap k = q.timerList.toMap k) ∧
        ∀ k, q.timerList.toMap k = none → q'.timerList.toMap k = none
  | [], q, hi, _, _, _ => ⟨q, rfl, hi, fun _ _ => rfl, fun _ hk => hk⟩
  | e :: batch, q, hi, hc, hstored, hsame => by
    obtain ⟨q₁, he₁, hi₁, hc₁, hset₁, hother, hself, hnone⟩ :=
      resetOne_kept clock hi hc (hstored e List.mem_cons_self)
    obtain ⟨q', he, hi', hrest, hnone'⟩ := resetAll_kept clock batch q₁ hi₁ hc₁
      (by
        intro f hf hfr hfs
        rw [hset₁] at hfs
        have hfq := hstored f (List.mem_cons_of_mem _ hf) hfr hfs
        by_cases hk : f.nodeSeq = e.nodeSeq
        · have her := hsame e List.mem_cons_self f (List.mem_cons_of_mem _ hf) hk.symm
          rw [hk, hself (her.trans hfr), ← hk]
          exact hfq
        · rw [hother _ hk]; exact hfq)
      (fun f hf g hg => hsame f (List.mem_cons_of_mem _ hf) g (List.mem_cons_of_mem _ hg))
    refine ⟨q', by rw [List.foldlM_cons, he₁]; exact he, hi', fun k hk => ?_, fun k hk => ?_⟩
    · rw [List.map_cons, List.mem_cons, not_or] at hk
      rw [hrest k hk.2, hother k hk.1]
    · refine hnone' k ?_
      by_cases hke : k = e.nodeSeq
      · subst hke; exact hnone hk
      · rw [hother k hke]; exact hk

/-! ## `reset_` on a node that is not stored -/

/-- What an operation that adds no timer leaves in place, also where `index_` has stale entries. -/
structure Kept (q q' : TimerQueue Cb) : Prop where
  shrunk : Shrunk q.timerList q'.timerList
  seq : q'.seq = q.seq
  seqLimit : q'.seqLimit = q.seqLimit

theorem Kept.refl (hl : q.timerList.Located) : Kept q q := ⟨Shrunk.refl hl, rfl, rfl⟩

theorem Kept.trans {q₁ q₂ q₃ : TimerQueue Cb} (ha : Kept q₁ q₂) (hb : Kept q₂ q₃) : Kept q₁ q₃ :=
  ⟨ha.shrunk.trans hb.shrunk, hb.seq.trans ha.seq, hb.seqLimit.trans ha.seqLimit⟩

theorem cancelTimerInLoop_kept (hl : q.timerList.Located) {id : TimerId}
    (he : q.cancelTimerInLoop id = .ok q') :
    Kept q q' ∧ id ∉ q'.timerList.ids ∧ q'.callingExpired = q.callingExpired ∧
      (q.callingExpired = false → q'.cancelSet = q.cancelSet) := by
  unfold cancelTimerInLoop at he
  split at he
  · rw [bind_eq_ok] at he
    obtain ⟨⟨h', b⟩, hrem, hq'⟩ := he
    cases hq'
    obtain ⟨hshrunk, hid⟩ := remove_located hl hrem
    exact ⟨⟨hshrunk, rfl, rfl⟩, hid, rfl, fun _ => rfl⟩
  · rename_i hfind
    have hid : id ∉ q.timerList.ids := hl.not_mem (by simpa [FourHeap.find] using hfind)
    split at he
    · rename_i hc
      cases he
      exact ⟨⟨Shrunk.refl hl, rfl, rfl⟩, hid, rfl, fun hf => by simp [hc] at hf⟩
    · cases he
      exact ⟨Kept.refl hl, hid, rfl, fun _ => rfl⟩

theorem resetOne_stale (hl : q.timerList.Located) (hc : q.callingExpired = false)
    {e : TimerNode Cb} (he : resetOne clock q e = .ok q') :
    Kept q q' ∧ q'.callingExpired = false ∧ q'.cancelSet = q.cancelSet ∧
      (e.repeat_ = true → e.nodeSeq ∉ q.cancelSet → (q'.timerList.index e.nodeSeq).isSome) := by
  unfold resetOne at he
  cases hr : e.repeat_ with
  | true =>
    simp only [hr, true_and, not_true_eq_false, if_false] at he
    split at he
    · rename_i hset
      simp only [bind_eq_ok] at he
      obtain ⟨q₁, ⟨h', hreset, hq₁⟩, hq'⟩ := he
      cases hq₁
      cases hq'
      have hupdated := reset_updated hl hreset
      exact ⟨⟨hupdated.shrunk, rfl, rfl⟩, hc, rfl, fun _ _ => hupdated.isSome⟩
    · rename_i hset
      cases he
      exact ⟨Kept.refl hl, hc, rfl, fun _ hn => absurd hn hset⟩
  | false =>
    simp only [hr, Bool.false_eq_true, false_and, if_false, not_false_eq_true, if_true, pure_eq_ok,
      ok_bind] at he
    obtain ⟨hkept, -, hc', hset⟩ := cancelTimerInLoop_kept hl he
    exact ⟨hkept, hc'.trans hc, hset hc, by simp⟩

/-- **`reset_`, where it re-dates a node that is not stored.**  If it returns, `index_` has an entry
for that node's id, and the id is still not stored. -/
theorem resetAll_stale {e : TimerNode Cb} (hr : e.repeat_ = true) :
    ∀ (batch : List (TimerNode Cb)) (q q' : TimerQueue Cb), q.timerList.Located →
      q.callingExpired = false → e.nodeSeq ∉ q.cancelSet → e.nodeSeq ∉ q.timerList.ids →
      batch.foldlM (resetOne clock) q = .ok q' →
      e ∈ batch ∨ (q.timerList.index e.nodeSeq).isSome →
      (q'.timerList.index e.nodeSeq).isSome
  | [], q, q', _, _, _, _, he, hm => by
    cases he
    simpa using hm
  | f :: batch, q, q', hl, hc, hset, hids, he, hm => by
    rw [List.foldlM_cons, bind_eq_ok] at he
    obtain ⟨q₁, he₁, he⟩ := he
    obtain ⟨⟨hshrunk, -, -⟩, hc₁, hset₁, hstale⟩ := resetOne_stale hl hc he₁
    refine resetAll_stale hr batch q₁ q' hshrunk.located hc₁ (by rw [hset₁]; exact hset)
      (fun hid => hids (hshrunk.ids_subset _ hid)) he ?_
    rcases hm with hm | hm
    · rcases List.mem_cons.1 hm with rfl | hm
      · exact .inr (hstale hr hset)
      · exact .inl hm
    · exact .inr (hshrunk.stale _ hids hm)

/-! ## Whole rounds -/

theorem getExpired_eq_ok {tie : Nat → Nat} {fuel : Nat} {batch : List (TimerNode Cb)}
    (hl : q.timerList.Located) (he : q.getExpired clock tie fuel = .ok (batch, q')) :
    q' = (q.now clock).2 ∧ ∀ x ∈ batch, x ∈ q.timerList.heap := by
  unfold getExpired at he
  simp only at he
  rw [bind_eq_ok] at he
  obtain ⟨⟨res, h'⟩, hk, he⟩ := he
  cases he
  obtain ⟨rfl, hmem⟩ := getK_mem hl hk
  exact ⟨rfl, hmem⟩

/-- The tail of `reset_`: with a timer left, the descriptor is set for the one in slot `0`. -/
def rearm (clock : Nat → Int) (q : TimerQueue Cb) : TimerQueue Cb :=
  match q.timerList.heap with
  | [] => q
  | newExpire :: _ => q.resetTimerfd clock newExpire

@[simp] theorem rearm_timerList : (rearm clock q).timerList = q.timerList := by
  unfold rearm
  split <;> rfl

theorem reset_eq (batch : List (TimerNode Cb)) :
    reset clock q batch = (batch.foldlM (resetOne clock) q).map (rearm clock) := by
  unfold reset
  cases batch.foldlM (resetOne clock) q with
  | error e => rfl
  | ok q₁ =>
    rw [ok_bind]
    unfold rearm FourHeap.isEmpty FourHeap.front nth
    cases hheap : q₁.timerList.heap with
    | nil => simp [Except.map, hheap]
    | cons x rest => simp [Except.map, hheap]

theorem reset_eq_ok {batch : List (TimerNode Cb)} (he : reset clock q batch = .ok q') :
    ∃ q₁, batch.foldlM (resetOne clock) q = .ok q₁ ∧ q'.timerList = q₁.timerList := by
  rw [reset_eq, map_eq_ok] at he
  obtain ⟨q₁, he₁, rfl⟩ := he
  exact ⟨q₁, he₁, rearm_timerList⟩

theorem reset_returns {batch : List (TimerNode Cb)} {q₁ : TimerQueue Cb}
    (he : batch.foldlM (resetOne clock) q = .ok q₁) :
    reset clock q batch = .ok (rearm clock q₁) := by
  rw [reset_eq, he]
  rfl

/-- What a round must leave behind: `index_` is the inverse of `heap_`, with no entry for a cancelled
id, and every timer outside the batch that was not cancelled is as before. -/
structure FrameKept (q q' : TimerQueue Cb) (batch : List (TimerNode Cb)) (cancelled : List TimerId) :
    Prop where
  inverse : q'.timerList.IndexInverse
  gone : ∀ id ∈ cancelled, q'.timerList.index id = none
  others : ∀ id, id ∉ batch.map TimerNode.nodeSeq → id ∉ cancelled →
    q'.timerList.toMap id = q.timerList.toMap id

/-- **Cancelling from callbacks.**  Whatever batch expires and whatever ids its callbacks cancel, the
round returns and leaves the other timers alone if and only if no repeating member of the batch
is cancelled exactly once. -/
theorem cancel_frame_iff (hi : q.timerList.IndexInverse) (tie : Nat → Nat) (fuel : Nat)
    (cs : Nat → List TimerId) {batch : List (TimerNode Cb)} {q₁ : TimerQueue Cb}
    (hexp : q.getExpired clock tie fuel = .ok (batch, q₁)) :
    (∃ q', q.handleRead clock tie fuel (fun i => (cs i).map Call.cancel) = .ok q' ∧
        FrameKept q q' batch (cancelledIds cs batch.length)) ↔
      ∀ e ∈ batch, e.repeat_ = true →
        (cancelledIds cs batch.length).count e.nodeSeq ≠ 1 := by
  obtain ⟨rfl, hmem⟩ := getExpired_eq_ok hi.toLocated hexp
  obtain ⟨q₂, he₂, hi₂, hmap₂, hset₂⟩ := cancelAll_spec (cancelledIds cs batch.length)
    { (q.now clock).2 with callingExpired := true, cancelSet := [] } hi rfl
  have hstored : ∀ e ∈ batch, q.timerList.toMap e.nodeSeq = some e := fun e he =>
    (KeyedVector.lookup_eq_some hi.toLocated).2 ⟨hmem e he, rfl⟩
  have hset : ∀ e ∈ batch,
      (e.nodeSeq ∈ q₂.cancelSet ↔ 2 ≤ (cancelledIds cs batch.length).count e.nodeSeq) := by
    intro e he
    rw [hset₂]
    show (_ ∈ [] ∨ (if (q.timerList.toMap e.nodeSeq).isSome = true then 2 else 1) ≤ _) ↔ _
    rw [hstored e he]
    simp
  have hread : q.handleRead clock tie fuel (fun i => (cs i).map Call.cancel) =
      reset clock { q₂ with callingExpired := false } batch := by
    unfold handleRead beginRead
    rw [hexp]
    simp only [ok_bind, pure_eq_ok, runCallbacks_cancels]
    rw [show (List.range' 0 batch.length).flatMap cs = cancelledIds cs batch.length from rfl, he₂]
    rfl
  rw [hread]
  constructor
  · rintro ⟨q', he, hframe⟩ e heb her hcount
    obtain ⟨q₃, hfold, htl⟩ := reset_eq_ok he
    have hpos : e.nodeSeq ∈ cancelledIds cs batch.length :=
      List.count_pos_iff.1 (by omega)
    have hids : e.nodeSeq ∉ q₂.timerList.ids := by
      refine KeyedVector.lookup_eq_none.1 ?_
      exact (hmap₂ e.nodeSeq).trans (if_pos hpos)
    have hstale := resetAll_stale her batch { q₂ with callingExpired := false } q₃ hi₂.toLocated rfl
      (by show e.nodeSeq ∉ q₂.cancelSet; rw [hset e heb]; omega) hids hfold (.inl heb)
    rw [← htl, hframe.gone _ hpos] at hstale
    cases hstale
  · intro hcond
    obtain ⟨q₃, hfold, hi₃, hother, hnone⟩ := resetAll_kept clock batch
      { q₂ with callingExpired := false } hi₂ rfl
      (by
        intro e he her hes
        have hcount := hcond e he her
        have hlt : ¬ 2 ≤ (cancelledIds cs batch.length).count e.nodeSeq := fun hle =>
          hes ((hset e he).2 hle)
        have hno : e.nodeSeq ∉ cancelledIds cs batch.length := fun hm => by
          have := List.count_pos_iff.2 hm
          omega
        show (q₂.timerList.toMap e.nodeSeq).isSome
        rw [hmap₂, if_neg hno]
        exact hstored e he ▸ rfl)
      (fun e he f hf hk => by rw [KeyedVector.Located.eq_of_key hi.toLocated (hmem e he) (hmem f hf) hk])
    refine ⟨rearm clock q₃, reset_returns hfold,
      ⟨by rw [rearm_timerList]; exact hi₃, fun id hid => ?_, fun id hb hid => ?_⟩⟩
    · rw [rearm_timerList, hi₃.index_none]
      refine KeyedVector.lookup_eq_none.1 (hnone id ?_)
      exact (hmap₂ id).trans (if_pos hid)
    · rw [rearm_timerList, hother id hb]
      exact (hmap₂ id).trans (if_neg hid)

/-- A repeating timer of 10 s that has expired, and one of 99 s that has not. -/
def sampleNode : TimerNode Unit := TimerNode.make 1 10 10000000000 () true
def sampleOther : TimerNode Unit := TimerNode.make 2 99 99000000000 () true

def sampleQueue : TimerQueue Unit :=
  { (make 2 2 : TimerQueue Unit) with
    timerList := (FourHeap.empty.appended sampleNode).appended sampleOther }

def sampleClock : Nat → Int := fun _ => 50000000000

theorem sampleQueue_inverse : sampleQueue.timerList.IndexInverse :=
  (appended_inverse (appended_inverse empty_indexInverse rfl).1 (by decide)).1

/-- The batch is the first timer alone. -/
theorem sampleQueue_expired :
    ∃ q₁, sampleQueue.getExpired sampleClock (fun _ => 0) 8 = .ok ([sampleNode], q₁) := by
  obtain ⟨⟨batch, q₁⟩, he, hb⟩ := map_eq_ok.1 (show
    (sampleQueue.getExpired sampleClock (fun _ => 0) 8).map Prod.fst = .ok [sampleNode] by
      decide +kernel)
  exact ⟨q₁, by rw [he, ← hb]⟩

/-- The expired timer cancels the other one. -/
theorem cancel_frame_iff_sample :
    sampleQueue.timerList.IndexInverse ∧
      ∃ q', sampleQueue.handleRead sampleClock (fun _ => 0) 8
          (fun i => ((fun _ => [2] : Nat → List TimerId) i).map Call.cancel) = .ok q' ∧
        FrameKept sampleQueue q' [sampleNode] (cancelledIds (fun _ => [2]) 1) := by
  obtain ⟨q₁, hexp⟩ := sampleQueue_expired
  exact ⟨sampleQueue_inverse,
    (cancel_frame_iff sampleQueue_inverse _ _ (fun _ => [2]) hexp).2 (by decide)⟩

/-- **A timer that cancels itself moves another one.**  The round returns, but `index_` has slot `0`
for the cancelled id, and the deadline of the other timer is 60 s instead of 99 s. -/
theorem cancel_self_moves_other :
    sampleQueue.timerList.IndexInverse ∧
      (∃ q₁, sampleQueue.getExpired sampleClock (fun _ => 0) 8 = .ok ([sampleNode], q₁)) ∧
      ∃ q', sampleQueue.handleRead sampleClock (fun _ => 0) 8
          (fun i => ((fun _ => [1] : Nat → List TimerId) i).map Call.cancel) = .ok q' ∧
        q'.timerList.index 1 = some 0 ∧
        (sampleQueue.timerList.toMap 2).map TimerNode.timer = some 99000000000 ∧
        (q'.timerList.toMap 2).map TimerNode.timer = some 60000000000 ∧
        ¬ FrameKept sampleQueue q' [sampleNode] (cancelledIds (fun _ => [1]) 1) := by
  obtain ⟨q', he, hv⟩ := map_eq_ok.1 (show
    (sampleQueue.handleRead sampleClock (fun _ => 0) 8
      (fun i => ((fun _ => [1] : Nat → List TimerId) i).map Call.cancel)).map
      (fun q => (q.timerList.index 1, (q.timerList.toMap 2).map TimerNode.timer)) =
        .ok (some 0, some 60000000000) by decide +kernel)
  simp only [Prod.mk.injEq] at hv
  refine ⟨sampleQueue_inverse, sampleQueue_expired, q', he, hv.1, by decide, hv.2, fun hframe => ?_⟩
  have := hframe.gone 1 (by decide)
  rw [hv.1] at this
  cases this

end TimerQueue
