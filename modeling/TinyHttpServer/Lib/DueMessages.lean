import TinyHttpServer.Lib.Run
import Mathlib.Data.List.Count
import Mathlib.Logic.Function.Basic

/-!
# Due messages

Parties exchange messages through queues.  For every key at most one message is due at a time, for
one receiver; other messages have no key.  `Once` says that a due message is in the queue of its
receiver exactly once, and that no other message with a key is in a queue.  The message of a key that
is *held* is in no queue: its receiver has taken it out, or its sender is about to send it.

* `Once.append_other`, `Once.append_due` — a message is sent.
* `Once.pop_other`, `Once.pop_due` — a message is received.
* `Once.held_iff` — holding a key for which nothing is due.
* `Once.change` — what is due for a held key may change.
* `run_serves`, `run_reaches` — a queue that is served in order serves all its messages, and each comes
  to the front when those ahead of it have been served.
-/

set_option autoImplicit false

namespace DueMessages

variable {L M K : Type} [DecidableEq L] [DecidableEq M] [DecidableEq K]

/-- The due messages of the keys that are not held are in their queues, once each. -/
def Once (key : M → Option K) (due : K → Option (L × M)) (held : Option K) (q : L → List M) : Prop :=
  ∀ l m k, key m = some k → (q l).count m = if held ≠ some k ∧ due k = some (l, m) then 1 else 0

variable {key : M → Option K} {due : K → Option (L × M)} {held : Option K} {q : L → List M}
  {l : L} {m : M} {ms : List M} {k : K}

theorem Once.mem (h : Once key due held q) (hm : key m = some k) (hheld : held ≠ some k)
    (hdue : due k = some (l, m)) : m ∈ q l := by
  have hcount := h l m k hm
  rw [if_pos ⟨hheld, hdue⟩] at hcount
  exact List.count_pos_iff.1 (by omega)

/-- Messages without a key are sent. -/
theorem Once.append_other (h : Once key due held q) (hms : ∀ m ∈ ms, key m = none) :
    Once key due held (Function.update q l (q l ++ ms)) := by
  intro l' m' k' hm'
  rw [← h l' m' k' hm', Function.update_apply]
  split
  · rename_i hl
    have hnone : m' ∉ ms := by
      intro hmem
      rw [hms m' hmem] at hm'
      cases hm'
    rw [hl, List.count_append, List.count_eq_zero_of_not_mem hnone, Nat.add_zero]
  · rfl

/-- The due message of the held key is sent. -/
theorem Once.append_due (h : Once key due (some k) q) (hm : key m = some k)
    (hdue : due k = some (l, m)) : Once key due none (Function.update q l (q l ++ [m])) := by
  intro l' m' k' hm'
  have hcount := h l' m' k' hm'
  rw [Function.update_apply]
  by_cases hk : k' = k
  · subst hk
    rw [if_neg fun hx => hx.1 rfl] at hcount
    simp only [hdue, Option.some.injEq, Prod.mk.injEq, ne_eq, reduceCtorEq, not_false_eq_true,
      true_and]
    split
    · rename_i hl
      subst hl
      rw [List.count_append, hcount, Nat.zero_add, List.count_singleton]
      simp
    · rename_i hl
      rw [hcount, if_neg fun heq => hl heq.1.symm]
  · have hne : m' ∉ [m] := by
      rw [List.mem_singleton]
      rintro rfl
      exact hk (Option.some.inj (hm'.symm.trans hm))
    have hheld : some k ≠ some k' := fun heq => hk (Option.some.inj heq).symm
    simp only [hheld, ne_eq, not_false_eq_true, true_and] at hcount
    simp only [ne_eq, reduceCtorEq, not_false_eq_true, true_and, ← hcount]
    split
    · rename_i hl
      rw [hl, List.count_append, List.count_eq_zero_of_not_mem hne, Nat.add_zero]
    · rfl

/-- A message without a key is received. -/
theorem Once.pop_other (h : Once key due held q) (hq : q l = m :: ms) (hm : key m = none) :
    Once key due held (Function.update q l ms) := by
  intro l' m' k' hm'
  rw [← h l' m' k' hm', Function.update_apply]
  split
  · rename_i hl
    rw [hl, hq, List.count_cons_of_ne]
    rintro rfl
    rw [hm] at hm'
    cases hm'
  · rfl

/-- A message with a key is due when it is received, and then held. -/
theorem Once.pop_due (h : Once key due none q) (hq : q l = m :: ms) (hm : key m = some k) :
    due k = some (l, m) ∧ Once key due (some k) (Function.update q l ms) := by
  have hfirst := h l m k hm
  rw [hq, List.count_cons_self] at hfirst
  have hdue : due k = some (l, m) := by
    by_contra hne
    rw [if_neg fun hx => hne hx.2] at hfirst
    omega
  refine ⟨hdue, fun l' m' k' hm' => ?_⟩
  have hcount := h l' m' k' hm'
  rw [Function.update_apply]
  by_cases hk : k' = k
  · -- nothing else is queued for the key
    subst hk
    simp only [hdue, Option.some.injEq, Prod.mk.injEq, ne_eq, reduceCtorEq, not_false_eq_true,
      true_and] at hcount
    rw [if_neg fun hx : some k' ≠ some k' ∧ _ => hx.1 rfl]
    split
    · rename_i hl
      rw [hl, hq] at hcount
      obtain rfl | hne := eq_or_ne m' m
      · rw [List.count_cons_self, if_pos ⟨rfl, rfl⟩] at hcount
        omega
      · rwa [if_neg fun heq => hne heq.2.symm, List.count_cons_of_ne hne.symm] at hcount
    · rename_i hl
      rw [hcount, if_neg fun heq => hl heq.1.symm]
  · have hheld : some k ≠ some k' := fun heq => hk (Option.some.inj heq).symm
    simp only [ne_eq, reduceCtorEq, not_false_eq_true, true_and] at hcount
    simp only [hheld, ne_eq, not_false_eq_true, true_and, ← hcount]
    split
    · rename_i hl
      rw [hl, hq, List.count_cons_of_ne]
      rintro rfl
      exact hk (Option.some.inj (hm'.symm.trans hm))
    · rfl

/-- Where nothing is due for a key, it makes no difference whether it is held. -/
theorem Once.held_iff (hdue : due k = none) : Once key due (some k) q ↔ Once key due none q := by
  have hsame : ∀ l m k', (some k ≠ some k' ∧ due k' = some (l, m)) ↔
      ((none : Option K) ≠ some k' ∧ due k' = some (l, m)) := by
    intro l m k'
    refine ⟨fun h => ⟨nofun, h.2⟩, fun h => ⟨?_, h.2⟩⟩
    rintro ⟨rfl⟩
    rw [hdue] at h
    exact nomatch h.2
  constructor
  · intro h l m k' hm
    exact (h l m k' hm).trans (if_congr (hsame l m k') rfl rfl)
  · intro h l m k' hm
    exact (h l m k' hm).trans (if_congr (hsame l m k').symm rfl rfl)

/-- What is due changes for the held key only. -/
theorem Once.change {due' : K → Option (L × M)} (h : Once key due held q)
    (hdue : ∀ k, held ≠ some k → due' k = due k) : Once key due' held q := by
  intro l m k hm
  refine (h l m k hm).trans (if_congr (and_congr_right fun hheld => ?_) rfl rfl)
  rw [hdue k hheld]

/-! ## Service in order -/

section Service

open Checked Machine

variable {S A : Type} {step : S → A → Checked S} {adm : S → A → Prop} {Inv Done : S → Prop}
  {queue : S → List M} {serves : A → Bool}

omit [DecidableEq M] in
/-- **Service rule.**  The steps append to a queue, and those that serve it take its first message.
What the service of a message brings about, and no step undoes, holds after a run that serves the queue
more often than there are messages in front of this one. -/
theorem run_serves
    (hstep : ∀ s a, Inv s → adm s a → ∃ t, step s a = .ok t ∧ Inv t ∧ (Done s → Done t) ∧
      (∃ new, queue t = (if serves a then (queue s).tail else queue s) ++ new) ∧
      (serves a → (queue s).head? = some m → Done t)) :
    ∀ (as : List A) (s : S) (front back : List M), Inv s → Allowed step adm s as →
      queue s = front ++ m :: back → front.length < as.countP serves →
      ∃ t, run step s as = .ok t ∧ Inv t ∧ Done t := by
  have hdone : ∀ s a, Inv s ∧ Done s → adm s a → ∃ t, step s a = .ok t ∧ Inv t ∧ Done t := by
    intro s a hs hadm
    obtain ⟨t, ht, hinv, hkeep, -⟩ := hstep s a hs.1 hadm
    exact ⟨t, ht, hinv, hkeep hs.2⟩
  intro as
  induction as with
  | nil => intro s front back _ _ _ hlt; exact absurd hlt (Nat.not_lt_zero _)
  | cons a as ih =>
    intro s front back hs hall hq hlt
    obtain ⟨t, ht, hinv, -, ⟨new, hnew⟩, hserved⟩ := hstep s a hs hall.1
    rw [run_cons, ht, ok_bind]
    rw [List.countP_cons] at hlt
    by_cases ha : serves a
    · rw [if_pos ha] at hnew hlt
      cases front with
      | nil =>
        have hd : Done t := hserved ha (by rw [hq]; rfl)
        exact run_invariant hdone as t ⟨hinv, hd⟩ (hall.tail ht)
      | cons x front =>
        refine ih t front (back ++ new) hinv (hall.tail ht) ?_ ?_
        · rw [hnew, hq]
          simp
        · rw [List.length_cons] at hlt
          omega
    · rw [if_neg ha] at hnew hlt
      refine ih t front (back ++ new) hinv (hall.tail ht) ?_ hlt
      rw [hnew, hq]
      simp

variable {Q : List M → S → Prop}

omit [DecidableEq M] in
/-- **Front rule.**  When a run has served the queue exactly as often as there were messages in front of
this one, it is at the front of the queue, and what the steps keep about the messages that are ahead of
it holds with none ahead. -/
theorem run_reaches
    (hstep : ∀ s a, Inv s → adm s a → ∃ t, step s a = .ok t ∧ Inv t ∧
      (∃ new, queue t = (if serves a then (queue s).tail else queue s) ++ new) ∧
      (serves a = false → ∀ front, Q front s → Q front t) ∧
      (serves a → ∀ x front, (queue s).head? = some x → Q (x :: front) s → Q front t)) :
    ∀ (as : List A) (s : S) (front back : List M), Inv s → Allowed step adm s as →
      queue s = front ++ m :: back → Q front s → as.countP serves = front.length →
      ∃ t back', run step s as = .ok t ∧ Inv t ∧ queue t = m :: back' ∧ Q [] t := by
  intro as
  induction as with
  | nil =>
    intro s front back hs _ hq hahead hcount
    obtain rfl := List.length_eq_zero_iff.1 hcount.symm
    exact ⟨s, back, rfl, hs, hq, hahead⟩
  | cons a as ih =>
    intro s front back hs hall hq hahead hcount
    obtain ⟨t, ht, hinv, ⟨new, hnew⟩, hwait, hserved⟩ := hstep s a hs hall.1
    rw [run_cons, ht, ok_bind]
    rw [List.countP_cons] at hcount
    by_cases ha : serves a
    · rw [if_pos ha] at hnew hcount
      cases front with
      | nil => exact absurd hcount (Nat.succ_ne_zero _)
      | cons x front =>
        refine ih t front (back ++ new) hinv (hall.tail ht) ?_ ?_ (Nat.succ.inj hcount)
        · rw [hnew, hq]
          simp
        · exact hserved ha x front (by rw [hq]; rfl) hahead
    · rw [if_neg ha] at hnew hcount
      have ha' : serves a = false := by simpa using ha
      refine ih t front (back ++ new) hinv (hall.tail ht) ?_ (hwait ha' front hahead) hcount
      rw [hnew, hq]
      simp

end Service

end DueMessages
