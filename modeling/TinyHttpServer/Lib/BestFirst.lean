import TinyHttpServer.Lib.PriorityQueue

/-!
# Best-first search with a bound

The search pops the top of a priority queue, stops when the queue is empty or the rank of the top
is beyond the bound, and otherwise reports the element and queues what comes after it.  `next` is
any function, so that an element may be queued again and again; `none` means that the fuel did not
suffice.

* `search_late` — once an element beyond the bound is queued, the search is over.
* `search_none_of_invariant` — an invariant of the queue under which the search goes on for ever.
* `search_none_of_choice` — the same for one way to decide the ties.
-/

set_option autoImplicit false

namespace BestFirst

open PriorityQueue

variable {α β : Type} [LinearOrder β] (rank : α → β) (bound : β) (next : α → List α)

def search (tie : Nat → Nat) : Nat → List α → List α → Option (List α)
  | 0, _, _ => none
  | fuel + 1, q, res =>
    match popTop rank (tie fuel) q with
    | none => some res
    | some (x, q) =>
      if bound < rank x then some res else search tie fuel (q ++ next x) (res ++ [x])

variable {rank bound next} {tie : Nat → Nat} {fuel : Nat} {q res : List α} {x : α}

theorem search_nil : search rank bound next tie (fuel + 1) [] res = some res := rfl

theorem search_step {q' : List α} (hpop : popTop rank (tie fuel) q = some (x, q'))
    (hx : rank x ≤ bound) :
    search rank bound next tie (fuel + 1) q res =
      search rank bound next tie fuel (q' ++ next x) (res ++ [x]) := by
  rw [search, hpop]
  exact if_neg (not_lt.2 hx)

/-- An element beyond the bound keeps every other one from being looked at. -/
theorem search_late (hx : x ∈ q) (hlate : bound < rank x) :
    search rank bound next tie (fuel + 1) q res = some res := by
  obtain ⟨y, q', hpop⟩ := popTop_of_ne_nil rank (List.ne_nil_of_mem hx) (tie fuel)
  have hy : bound < rank y := lt_of_lt_of_le hlate ((popTop_spec hpop).1 x hx)
  rw [search, hpop]
  exact if_pos hy

theorem search_singleton (hx : rank x ≤ bound) :
    search rank bound next tie (fuel + 1) [x] res =
      search rank bound next tie fuel (next x) (res ++ [x]) := by
  obtain ⟨y, q', hpop⟩ := popTop_of_ne_nil rank (List.cons_ne_nil x []) (tie fuel)
  obtain ⟨rfl, rfl⟩ : x = y ∧ q' = [] := by
    have hperm := List.singleton_perm.1 (popTop_spec hpop).2
    simpa using hperm
  rw [search_step hpop hx, List.nil_append]

/-- What is reported is within the bound. -/
theorem search_within : ∀ (fuel : Nat) (q res out : List α), (∀ x ∈ res, rank x ≤ bound) →
    search rank bound next tie fuel q res = some out → ∀ x ∈ out, rank x ≤ bound
  | 0, _, _, _, _, h => by cases h
  | fuel + 1, q, res, out, hres, h => by
    rw [search] at h
    split at h
    · cases h
      exact hres
    · rename_i x q' hpop
      split at h
      · cases h
        exact hres
      · rename_i hle
        refine search_within fuel _ _ out (fun y hy => ?_) h
        rcases List.mem_append.1 hy with hy | hy
        · exact hres y hy
        · rw [List.mem_singleton.1 hy]
          exact not_lt.1 hle

/-- Only the choices for the pops that are made matter. -/
theorem search_congr {tie' : Nat → Nat} : ∀ (fuel : Nat) (q res : List α),
    (∀ i < fuel, tie i = tie' i) →
      search rank bound next tie fuel q res = search rank bound next tie' fuel q res
  | 0, _, _, _ => rfl
  | fuel + 1, q, res, htie => by
    rw [search, search, htie fuel (Nat.lt_succ_self fuel)]
    split
    · rfl
    · split
      · rfl
      · exact search_congr fuel _ _ fun i hi => htie i (Nat.lt_succ_of_lt hi)

/-- **A search without end.**  The queue stays non-empty and whatever is popped is within the
bound. -/
theorem search_none_of_invariant (I : List α → Prop) (hne : ∀ q, I q → q ≠ [])
    (hstep : ∀ q x q', I q → (∀ y ∈ q, rank y ≤ rank x) → x ∈ q → (∀ y ∈ q', y ∈ q) →
      rank x ≤ bound ∧ I (q' ++ next x)) :
    ∀ (fuel : Nat) (q res : List α), I q → search rank bound next tie fuel q res = none
  | 0, _, _, _ => rfl
  | fuel + 1, q, res, hq => by
    obtain ⟨x, q', hpop⟩ := popTop_of_ne_nil rank (hne q hq) (tie fuel)
    obtain ⟨hx, hq'⟩ := popTop_mem hpop
    obtain ⟨hle, hnext⟩ := hstep q x q' hq (popTop_spec hpop).1 hx hq'
    rw [search_step hpop hle]
    exact search_none_of_invariant I hne hstep fuel _ _ hnext

/-- The tie of the first pop is free: an element of largest rank can be popped. -/
theorem search_choose (next : α → List α) (hx : x ∈ q) (hmax : ∀ y ∈ q, rank y ≤ rank x)
    (hle : rank x ≤ bound) :
    ∃ q', (∀ y ∈ q', y ∈ q) ∧ ∀ (tie : Nat → Nat) (fuel : Nat) (res : List α),
      ∃ tie', search rank bound next tie' (fuel + 1) q res =
        search rank bound next tie fuel (q' ++ next x) (res ++ [x]) := by
  obtain ⟨k, q', hpop⟩ := popTop_choose hx hmax
  refine ⟨q', (popTop_mem hpop).2, fun tie fuel res => ⟨Function.update tie fuel k, ?_⟩⟩
  rw [search_step (by rw [Function.update_self]; exact hpop) hle]
  exact search_congr fuel _ _ fun i hi => Function.update_of_ne (Nat.ne_of_lt hi) _ _

/-- **A search without end, for one way to decide the ties.**  An element of largest rank that is
queued again by its own expansion can be popped for ever. -/
theorem search_none_of_choice (S : α → Prop) (hx : x ∈ next x) (hle : rank x ≤ bound)
    (hmax : ∀ y, S y → rank y ≤ rank x) (hnext : ∀ y ∈ next x, S y) :
    ∀ (fuel : Nat) (q res : List α), x ∈ q → (∀ y ∈ q, S y) →
      ∃ tie, search rank bound next tie fuel q res = none
  | 0, _, _, _, _ => ⟨fun _ => 0, rfl⟩
  | fuel + 1, q, res, hxq, hq => by
    obtain ⟨q', hq', hpop⟩ := search_choose next hxq (fun y hy => hmax y (hq y hy)) hle
    have hS : ∀ y ∈ q' ++ next x, S y := by
      intro y hy
      rcases List.mem_append.1 hy with hy | hy
      · exact hq y (hq' y hy)
      · exact hnext y hy
    obtain ⟨tie, hnone⟩ := search_none_of_choice S hx hle hmax hnext fuel (q' ++ next x)
      (res ++ [x]) (List.mem_append_right _ hx) hS
    obtain ⟨tie', hstep⟩ := hpop tie fuel res
    exact ⟨tie', hstep.trans hnone⟩

end BestFirst
