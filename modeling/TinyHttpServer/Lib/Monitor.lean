import TinyHttpServer.Lib.Parties

/-!
# Monitors

Threads share a mutex and a condition variable, and wait for items.

* `Guarded` — the mutex is held by the thread that is inside, and only by that one; `Guarded.step` is
  the rule for a step of one thread, which takes the mutex, releases it or leaves it as it is.
* `Signalled` — while a thread sleeps, there are as many threads that are about to look, or wake-ups
  still to come, as there are items.  `Signalled.set` is the rule for a step of one thread: a thread
  falls asleep where there is no item, and an item comes with a wake-up.
-/

set_option autoImplicit false

namespace Monitor

/-! ## The mutex -/

section Guarded

variable {O : Type} {mutex : Option O} {inside inside' : O → Prop} {o o' : O}

/-- The threads inside are those that hold the mutex. -/
def Guarded (mutex : Option O) (inside : O → Prop) : Prop := ∀ o, inside o ↔ mutex = some o

theorem Guarded.eq (h : Guarded mutex inside) (ho : inside o) (ho' : inside o') : o = o' := by
  have hsome := ((h o).1 ho).symm.trans ((h o').1 ho')
  exact Option.some.inj hsome

theorem Guarded.acquire (h : Guarded none inside) (hin : inside' o)
    (hother : ∀ o', o' ≠ o → (inside' o' ↔ inside o')) : Guarded (some o) inside' := by
  intro o'
  by_cases ho : o' = o
  · subst ho
    exact iff_of_true hin rfl
  · rw [hother o' ho, h o']
    exact iff_of_false nofun fun heq => ho (Option.some.inj heq).symm

theorem Guarded.release (h : Guarded mutex inside) (ho : inside o) (hout : ¬ inside' o)
    (hother : ∀ o', o' ≠ o → (inside' o' ↔ inside o')) : Guarded none inside' := by
  intro o'
  refine iff_of_false (fun hin => ?_) nofun
  by_cases heq : o' = o
  · subst heq
    exact hout hin
  · exact heq (h.eq ((hother o' heq).1 hin) ho)

theorem Guarded.stay (h : Guarded mutex inside) (hself : inside' o ↔ inside o)
    (hother : ∀ o', o' ≠ o → (inside' o' ↔ inside o')) : Guarded mutex inside' := by
  intro o'
  by_cases heq : o' = o
  · subst heq
    exact hself.trans (h _)
  · exact (hother o' heq).trans (h o')

/-- What a step of thread `o` does to the mutex; it is inside before and after the step as the two
truth values say. -/
inductive Passes (o : O) : Option O → Option O → Bool → Bool → Prop
  | stay (mutex : Option O) (b : Bool) : Passes o mutex mutex b b
  | acquire (b : Bool) : Passes o none (some o) b true
  | release (mutex : Option O) : Passes o mutex none true false

/-- **A step of one thread.** -/
theorem Guarded.step {mutex' : Option O} {b b' : Bool} (h : Guarded mutex inside)
    (hpasses : Passes o mutex mutex' b b') (hb : inside o ↔ b = true) (hb' : inside' o ↔ b' = true)
    (hother : ∀ o', o' ≠ o → (inside' o' ↔ inside o')) : Guarded mutex' inside' := by
  cases hpasses with
  | stay => exact h.stay (hb'.trans hb.symm) hother
  | acquire => exact h.acquire (hb'.2 rfl) hother
  | release => exact h.release (hb.2 rfl) (fun hin => nomatch hb'.1 hin) hother

end Guarded

/-! ## The condition variable -/

section Signalled

variable {P : Type} {asleep awake : P → Bool} {parties : List P} {pending pending' items items' i : Nat}
  {p q : P}

/-- Where a thread is asleep, the items are no more than the threads that are awake and the wake-ups
that are pending. -/
def Signalled (asleep awake : P → Bool) (parties : List P) (pending items : Nat) : Prop :=
  0 < parties.countP asleep → items ≤ parties.countP awake + pending

theorem Signalled.of_no_items : Signalled asleep awake parties pending 0 := fun _ => Nat.zero_le _

theorem Signalled.of_none_asleep (h : ∀ p ∈ parties, asleep p = false) :
    Signalled asleep awake parties pending items := by
  intro hpos
  obtain ⟨p, hp, hasleep⟩ := List.countP_pos_iff.1 hpos
  rw [h p hp] at hasleep
  cases hasleep

/-- The items and the pending wake-ups change. -/
theorem Signalled.change (h : Signalled asleep awake parties pending items)
    (hcount : items' + pending ≤ items + pending') :
    Signalled asleep awake parties pending' items' := by
  intro hpos
  have := h hpos
  omega

/-- **A step of one thread** that does not fall asleep. -/
theorem Signalled.set (h : Signalled asleep awake parties pending items)
    (hp : parties[i]? = some p) (hsleep : asleep q → asleep p)
    (hcount : items' + (awake p).toNat + pending ≤ items + (awake q).toNat + pending') :
    Signalled asleep awake (parties.set i q) pending' items' := by
  intro hpos
  have hasleep := Parties.countP_set_add asleep hp q
  have hawake := Parties.countP_set_add awake hp q
  have hle : (asleep q).toNat ≤ (asleep p).toNat := by
    cases hq : asleep q with
    | false => exact Nat.zero_le _
    | true => rw [hsleep hq]
  have := h (by omega)
  omega

end Signalled

end Monitor
