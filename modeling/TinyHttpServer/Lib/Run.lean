import TinyHttpServer.Lib.Checked
import Mathlib.Algebra.GroupWithZero.Nat
import Mathlib.Data.List.Induction

/-!
# Runs of a checked step function

A machine is a step function `σ → α → Checked σ`; its runs are the folds over lists of actions.

* `Allowed` — every action of a list is taken in a state that admits it; `allowed_iff` says so
  about the steps of the run.
* `run_invariant` — an invariant that each admitted step keeps, and under which each admitted
  step returns, holds at the end of every allowed run.
* `run_safe` — the same for steps that may stop: the invariant holds if the run returns.
* `run_refines` — step-wise refinement of a specification gives refinement by whole runs.
* `run_outputs` — where each admitted step adds its output to an accumulator, a whole run adds
  the concatenation of the outputs.
* `run_history` — the same for an invariant that also reads everything put out so far.
* `run_simulates` — where each step is a run of another machine, a whole run is one.
* `run_potential` — where each step pays for itself out of a potential, the length of a run is bounded.
* `run_returns_iff` — where a step returns exactly under a condition, a run returns exactly when
  every step of it meets the condition.
* `run_forall_iff` — where a step keeps a property exactly when it meets a condition, the
  property holds all along a run exactly when every step of the run meets the condition.
-/

set_option autoImplicit false

namespace Machine

open Checked

variable {σ α : Type} {step : σ → α → Checked σ}

/-- The state after a list of actions. -/
def run (step : σ → α → Checked σ) (s : σ) (as : List α) : Checked σ := as.foldlM step s

@[simp] theorem run_nil (s : σ) : run step s [] = .ok s := rfl

@[simp] theorem run_cons (s : σ) (a : α) (as : List α) :
    run step s (a :: as) = step s a >>= fun t => run step t as := rfl

theorem run_append (s : σ) (as bs : List α) :
    run step s (as ++ bs) = run step s as >>= fun t => run step t bs := by
  simp [run, List.foldlM_append]

theorem run_snoc {s t : σ} {as : List α} (h : run step s as = .ok t) (a : α) :
    run step s (as ++ [a]) = step t a := by
  rw [run_append, h]
  simp only [ok_bind, run_cons, run_nil]
  cases step t a <;> rfl

theorem run_single {s t : σ} {a : α} (h : step s a = .ok t) : run step s [a] = .ok t :=
  (run_snoc (run_nil s) a).trans h

/-- Every action is admitted by the state in which it is taken. -/
def Allowed (step : σ → α → Checked σ) (adm : σ → α → Prop) : σ → List α → Prop
  | _, [] => True
  | s, a :: as => adm s a ∧
    match step s a with
    | .ok t => Allowed step adm t as
    | .error _ => True

instance Allowed.decidable (step : σ → α → Checked σ) (adm : σ → α → Prop)
    [∀ s a, Decidable (adm s a)] : ∀ s as, Decidable (Allowed step adm s as)
  | _, [] => inferInstanceAs (Decidable True)
  | s, a :: as =>
    match h : step s a with
    | .ok t =>
      have := Allowed.decidable step adm t as
      decidable_of_iff (adm s a ∧ Allowed step adm t as) (by simp only [Allowed, h])
    | .error _ => decidable_of_iff (adm s a) (by simp only [Allowed, h, and_true])

variable {adm : σ → α → Prop} {Inv : σ → Prop}

theorem Allowed.tail {s t : σ} {a : α} {as : List α} (h : Allowed step adm s (a :: as))
    (ht : step s a = .ok t) : Allowed step adm t as := by
  have := h.2
  rwa [ht] at this

theorem Allowed.of_forall (h : ∀ s a, adm s a) : ∀ (as : List α) (s : σ), Allowed step adm s as
  | [], _ => trivial
  | a :: as, s => by
    refine ⟨h s a, ?_⟩
    split
    · exact Allowed.of_forall h as _
    · trivial

theorem Allowed.of_forall_mem {P : α → Prop} :
    ∀ {as : List α} {s : σ}, (∀ a ∈ as, P a) → Allowed step (fun _ a => P a) s as := by
  intro as
  induction as with
  | nil => intro s _; trivial
  | cons a as ih =>
    intro s hall
    refine ⟨hall a List.mem_cons_self, ?_⟩
    split
    · exact ih fun b hb => hall b (List.mem_cons_of_mem a hb)
    · trivial

theorem Allowed.of_invariant (hstep : ∀ s a t, Inv s → step s a = .ok t → Inv t)
    (hadm : ∀ s a, Inv s → adm s a) : ∀ (as : List α) (s : σ), Inv s → Allowed step adm s as
  | [], _, _ => trivial
  | a :: as, s, hs => by
    refine ⟨hadm s a hs, ?_⟩
    split
    · rename_i t ht
      exact Allowed.of_invariant hstep hadm as t (hstep s a t hs ht)
    · trivial

theorem Allowed.append_left {as bs : List α} :
    ∀ {s : σ}, Allowed step adm s (as ++ bs) → Allowed step adm s as := by
  induction as with
  | nil => intro s _; trivial
  | cons a as ih =>
    intro s h
    refine ⟨h.1, ?_⟩
    split
    · rename_i t ht; exact ih (h.tail ht)
    · trivial

theorem Allowed.append_right {as bs : List α} :
    ∀ {s t : σ}, Allowed step adm s (as ++ bs) → run step s as = .ok t →
      Allowed step adm t bs := by
  induction as with
  | nil => intro s t h ht; cases ht; exact h
  | cons a as ih =>
    intro s t h ht
    rw [run_cons, bind_eq_ok] at ht
    obtain ⟨u, hu, ht⟩ := ht
    exact ih (h.tail hu) ht

theorem Allowed.append {as bs : List α} : ∀ {s : σ}, Allowed step adm s as →
    (∀ t, run step s as = .ok t → Allowed step adm t bs) → Allowed step adm s (as ++ bs) := by
  induction as with
  | nil => intro s _ h; exact h s rfl
  | cons a as ih =>
    intro s h hbs
    refine ⟨h.1, ?_⟩
    split
    · rename_i u hu
      refine ih (h.tail hu) fun t ht => hbs t ?_
      rw [run_cons, hu, ok_bind, ht]
    · trivial

theorem Allowed.last {as : List α} {a : α} {s t : σ} (h : Allowed step adm s (as ++ [a]))
    (ht : run step s as = .ok t) : adm t a := (h.append_right ht).1

/-- The actions of a run that returns are taken in states that admit them, where a step returns only
in such states. -/
theorem Allowed.of_returns {P : α → Prop}
    (hstep : ∀ s a t, P a → step s a = .ok t → adm s a) : ∀ {as : List α} {s t : σ},
      (∀ a ∈ as, P a) → run step s as = .ok t → Allowed step adm s as := by
  intro as
  induction as with
  | nil => intro s t _ _; trivial
  | cons a as ih =>
    intro s t hall ht
    rw [run_cons, bind_eq_ok] at ht
    obtain ⟨u, hu, ht⟩ := ht
    refine ⟨hstep s a u (hall a List.mem_cons_self) hu, ?_⟩
    rw [hu]
    exact ih (fun b hb => hall b (List.mem_cons_of_mem a hb)) ht

/-- The condition, step by step: it holds of every step that the run gets to. -/
theorem allowed_iff {as : List α} : ∀ {s : σ}, Allowed step adm s as ↔
    ∀ p a, p ++ [a] <+: as → ∀ t, run step s p = .ok t → adm t a := by
  induction as with
  | nil =>
    intro s
    refine iff_of_true trivial fun p a hp => ?_
    exact absurd (List.prefix_nil.1 hp) (List.append_ne_nil_of_right_ne_nil _ (List.cons_ne_nil _ _))
  | cons b as ih =>
    intro s
    constructor
    · rintro h p a ⟨q, hq⟩ t ht
      rw [← hq] at h
      exact h.append_left.last ht
    · intro h
      refine ⟨h [] b (List.cons_prefix_cons.2 ⟨rfl, List.nil_prefix⟩) s rfl, ?_⟩
      split
      · rename_i u hu
        refine ih.2 fun p a hp t ht => h (b :: p) a (List.cons_prefix_cons.2 ⟨rfl, hp⟩) t ?_
        rw [run_cons, hu, ok_bind, ht]
      · trivial

theorem Allowed.snoc {as : List α} {s : σ} {a : α} (h : Allowed step adm s as)
    (ha : ∀ t, run step s as = .ok t → adm t a) : Allowed step adm s (as ++ [a]) := by
  refine allowed_iff.2 fun p b hp t ht => ?_
  rcases List.prefix_concat_iff.1 hp with heq | hp
  · obtain ⟨rfl, rfl⟩ := List.append_singleton_inj.1 heq
    exact ha t ht
  · exact allowed_iff.1 h p b hp t ht

theorem Allowed.and {adm' : σ → α → Prop} {as : List α} {s : σ} (h : Allowed step adm s as)
    (h' : Allowed step adm' s as) : Allowed step (fun s a => adm s a ∧ adm' s a) s as :=
  allowed_iff.2 fun p a hp t ht => ⟨allowed_iff.1 h p a hp t ht, allowed_iff.1 h' p a hp t ht⟩

/-- A run that stops does so at one of its steps. -/
theorem run_stops {as : List α} {e : Fault} : ∀ {s : σ}, run step s as = .error e →
    ∃ p a t, p ++ [a] <+: as ∧ run step s p = .ok t ∧ step t a = .error e := by
  induction as with
  | nil => intro s h; cases h
  | cons b as ih =>
    intro s h
    cases hb : step s b with
    | error e' =>
      rw [run_cons, hb] at h
      cases h
      exact ⟨[], b, s, List.cons_prefix_cons.2 ⟨rfl, List.nil_prefix⟩, rfl, hb⟩
    | ok u =>
      rw [run_cons, hb, ok_bind] at h
      obtain ⟨p, a, t, hp, ht, hstop⟩ := ih h
      refine ⟨b :: p, a, t, List.cons_prefix_cons.2 ⟨rfl, hp⟩, ?_, hstop⟩
      rw [run_cons, hb, ok_bind, ht]

theorem Allowed.and_of_forall {P : α → Prop} :
    ∀ {as : List α} {s : σ}, Allowed step adm s as → (∀ a ∈ as, P a) →
      Allowed step (fun s a => adm s a ∧ P a) s as := by
  intro as
  induction as with
  | nil => intro s _ _; trivial
  | cons a as ih =>
    intro s h hall
    refine ⟨⟨h.1, hall a List.mem_cons_self⟩, ?_⟩
    split
    · rename_i t ht
      exact ih (h.tail ht) fun b hb => hall b (List.mem_cons_of_mem a hb)
    · trivial

/-- **Invariant rule.** -/
theorem run_invariant
    (hstep : ∀ s a, Inv s → adm s a → ∃ t, step s a = .ok t ∧ Inv t) :
    ∀ (as : List α) (s : σ), Inv s → Allowed step adm s as →
      ∃ t, run step s as = .ok t ∧ Inv t
  | [], s, hs, _ => ⟨s, rfl, hs⟩
  | a :: as, s, hs, hal => by
    obtain ⟨t, ht, hi⟩ := hstep s a hs hal.1
    obtain ⟨u, hu, hiu⟩ := run_invariant hstep as t hi (hal.tail ht)
    exact ⟨u, by rw [run_cons, ht, ok_bind, hu], hiu⟩

/-- **Invariant rule, for the runs that return.** -/
theorem run_safe (hstep : ∀ s a t, Inv s → adm s a → step s a = .ok t → Inv t) :
    ∀ (as : List α) (s t : σ), Inv s → Allowed step adm s as → run step s as = .ok t → Inv t
  | [], s, t, hs, _, h => by cases h; exact hs
  | a :: as, s, t, hs, hal, h => by
    rw [run_cons, bind_eq_ok] at h
    obtain ⟨u, hu, h⟩ := h
    exact run_safe hstep as u t (hstep s a u hs hal.1 hu) (hal.tail hu) h

/-- **Refinement rule.**  Where each admitted step acts on the abstraction of the state as
`spec` does, every allowed run does. -/
theorem run_refines {τ : Type} (Inv : σ → Prop) (abs : σ → τ) (spec : τ → α → τ)
    (hstep : ∀ s a, Inv s → adm s a →
      ∃ t, step s a = .ok t ∧ Inv t ∧ abs t = spec (abs s) a) :
    ∀ (as : List α) (s : σ), Inv s → Allowed step adm s as →
      ∃ t, run step s as = .ok t ∧ Inv t ∧ abs t = as.foldl spec (abs s)
  | [], s, hs, _ => ⟨s, rfl, hs, rfl⟩
  | a :: as, s, hs, hal => by
    obtain ⟨t, ht, hi, ha⟩ := hstep s a hs hal.1
    obtain ⟨u, hu, hiu, hau⟩ := run_refines Inv abs spec hstep as t hi (hal.tail ht)
    exact ⟨u, by rw [run_cons, ht, ok_bind, hu], hiu, by rw [hau, ha, List.foldl_cons]⟩

/-- The concatenation of what the steps of a run put out. -/
def outputs {β : Type} (step : σ → α → Checked σ) (out : σ → α → List β) : σ → List α → List β
  | _, [] => []
  | s, a :: as => out s a ++
    match step s a with
    | .ok t => outputs step out t as
    | .error _ => []

/-- What holds of everything a run puts out holds of what each of its steps puts out. -/
theorem Allowed.of_outputs {β : Type} {out : σ → α → List β} {P : β → Prop} :
    ∀ {as : List α} {s : σ}, (∀ b ∈ outputs step out s as, P b) →
      Allowed step (fun s a => ∀ b ∈ out s a, P b) s as := by
  intro as
  induction as with
  | nil => intro s _; trivial
  | cons a as ih =>
    intro s hall
    refine ⟨fun b hb => hall b (List.mem_append_left _ hb), ?_⟩
    split
    · rename_i t ht
      refine ih fun b hb => hall b (List.mem_append_right _ ?_)
      rw [ht]
      exact hb
    · trivial

/-- **Accumulation rule.** -/
theorem run_outputs {β : Type} (Inv : σ → Prop) (acc : σ → List β) (out : σ → α → List β)
    (hstep : ∀ s a, Inv s → adm s a →
      ∃ t, step s a = .ok t ∧ Inv t ∧ acc t = acc s ++ out s a) :
    ∀ (as : List α) (s : σ), Inv s → Allowed step adm s as →
      ∃ t, run step s as = .ok t ∧ Inv t ∧ acc t = acc s ++ outputs step out s as
  | [], s, hs, _ => ⟨s, rfl, hs, by simp [outputs]⟩
  | a :: as, s, hs, hal => by
    obtain ⟨t, ht, hi, ha⟩ := hstep s a hs hal.1
    obtain ⟨u, hu, hiu, hau⟩ := run_outputs Inv acc out hstep as t hi (hal.tail ht)
    refine ⟨u, by rw [run_cons, ht, ok_bind, hu], hiu, ?_⟩
    rw [hau, ha, outputs, ht, List.append_assoc]

/-- **History rule.**  An invariant of the state and of everything that has been put out so far. -/
theorem run_history {β : Type} (out : σ → α → List β) {J : σ → List β → Prop}
    (hstep : ∀ s a t bs, J s bs → adm s a → step s a = .ok t → J t (bs ++ out s a)) :
    ∀ (as : List α) (s t : σ) (bs : List β), J s bs → Allowed step adm s as →
      run step s as = .ok t → J t (bs ++ outputs step out s as)
  | [], s, t, bs, hs, _, h => by
    cases h
    rw [outputs, List.append_nil]
    exact hs
  | a :: as, s, t, bs, hs, hal, h => by
    rw [run_cons, bind_eq_ok] at h
    obtain ⟨u, hu, h⟩ := h
    rw [outputs, hu, ← List.append_assoc]
    exact run_history out hstep as u t _ (hstep s a u bs hs hal.1 hu) (hal.tail hu) h

/-- **Potential rule.**  Where each step pays for itself out of a potential and what its action brings,
the length of a run is bounded by the potential at the start and what all its actions bring. -/
theorem run_potential (Inv : σ → Prop) (potential : σ → Nat) (budget : α → Nat)
    (hstep : ∀ s a t, Inv s → adm s a → step s a = .ok t →
      Inv t ∧ potential t + 1 ≤ potential s + budget a) :
    ∀ (as : List α) (s t : σ), Inv s → Allowed step adm s as → run step s as = .ok t →
      potential t + as.length ≤ potential s + (as.map budget).sum
  | [], s, t, _, _, h => by
    cases h
    exact Nat.le_refl _
  | a :: as, s, t, hs, hal, h => by
    rw [run_cons, bind_eq_ok] at h
    obtain ⟨u, hu, h⟩ := h
    obtain ⟨hiu, hle⟩ := hstep s a u hs hal.1 hu
    have hrest := run_potential Inv potential budget hstep as u t hiu (hal.tail hu) h
    rw [List.length_cons, List.map_cons, List.sum_cons]
    omega

/-- **Simulation rule.**  Where each admitted step is, on the abstraction of the state, the run `out` of
another machine, every allowed run is one. -/
theorem run_simulates {τ β : Type} {step' : τ → β → Checked τ} {adm' : τ → β → Prop}
    (Inv : σ → Prop) (abs : σ → τ) (out : σ → α → List β)
    (hstep : ∀ s a, Inv s → adm s a → ∃ t, step s a = .ok t ∧ Inv t ∧
      Allowed step' adm' (abs s) (out s a) ∧ run step' (abs s) (out s a) = .ok (abs t)) :
    ∀ (as : List α) (s : σ), Inv s → Allowed step adm s as →
      ∃ t, run step s as = .ok t ∧ Inv t ∧ Allowed step' adm' (abs s) (outputs step out s as) ∧
        run step' (abs s) (outputs step out s as) = .ok (abs t)
  | [], s, hs, _ => ⟨s, rfl, hs, trivial, rfl⟩
  | a :: as, s, hs, hal => by
    obtain ⟨t, ht, hi, hallowed, hrun⟩ := hstep s a hs hal.1
    obtain ⟨u, hu, hiu, hallowed', hrun'⟩ := run_simulates Inv abs out hstep as t hi (hal.tail ht)
    refine ⟨u, by rw [run_cons, ht, ok_bind, hu], hiu, ?_, ?_⟩
    · rw [outputs, ht]
      refine hallowed.append fun v hv => ?_
      rw [hrun] at hv
      cases hv
      exact hallowed'
    · rw [outputs, ht, run_append, hrun]
      exact hrun'

/-- **Exact condition along a run.**  `P` holds in every state of an allowed run if and only
if `Q` holds of every step of it. -/
theorem run_forall_iff {P : σ → Prop} {Q : σ → α → Prop} {s₀ : σ} {as : List α}
    (hstep : ∀ s a, Inv s → adm s a → ∃ t, step s a = .ok t ∧ Inv t)
    (hexact : ∀ s a t, Inv s → adm s a → P s → step s a = .ok t → (P t ↔ Q s a))
    (hinv : Inv s₀) (hP : P s₀) (hal : Allowed step adm s₀ as) :
    (∀ p, p <+: as → ∀ s, run step s₀ p = .ok s → P s) ↔
      (∀ p a, p ++ [a] <+: as → ∀ s, run step s₀ p = .ok s → Q s a) := by
  have hpre : ∀ p, p <+: as → Allowed step adm s₀ p := by
    rintro p ⟨q, rfl⟩; exact hal.append_left
  have hreach : ∀ p a, p ++ [a] <+: as → ∀ s, run step s₀ p = .ok s → Inv s ∧ adm s a := by
    intro p a hp s hs
    have hall := hpre _ hp
    obtain ⟨t, ht, hi⟩ := run_invariant hstep p s₀ hinv hall.append_left
    rw [hs] at ht; cases ht
    exact ⟨hi, hall.last hs⟩
  constructor
  · intro hall p a hp s hs
    obtain ⟨hi, had⟩ := hreach p a hp s hs
    obtain ⟨t, ht, _⟩ := hstep s a hi had
    have hPs := hall p ((List.prefix_append p [a]).trans hp) s hs
    exact (hexact s a t hi had hPs ht).1 (hall _ hp t (by rw [run_snoc hs, ht]))
  · intro hall p
    induction p using List.reverseRecOn with
    | nil => intro _ s hs; cases hs; exact hP
    | append_singleton p a ih =>
      intro hp t ht
      rw [run_append, bind_eq_ok] at ht
      obtain ⟨s, hs, ht⟩ := ht
      have hst : step s a = .ok t := by
        rw [← ht, ← run_snoc hs a, run_append, hs, ok_bind]
      obtain ⟨hi, had⟩ := hreach p a hp s hs
      exact (hexact s a t hi had (ih ((List.prefix_append p [a]).trans hp) s hs) hst).2
        (hall p a hp s hs)

/-- **Exact condition for a run to return.**  Where an admitted step returns exactly under `Q`, an
allowed run returns if and only if `Q` holds of every step of it. -/
theorem run_returns_iff {Q : σ → α → Prop}
    (hstep : ∀ s a, Inv s → adm s a → Q s a → ∃ t, step s a = .ok t ∧ Inv t)
    (hstop : ∀ s a t, Inv s → adm s a → step s a = .ok t → Q s a) :
    ∀ (as : List α) (s : σ), Inv s → Allowed step adm s as →
      ((∃ t, run step s as = .ok t) ↔
        ∀ p a, p ++ [a] <+: as → ∀ u, run step s p = .ok u → Q u a) := by
  intro as
  induction as with
  | nil =>
    intro s _ _
    refine ⟨fun _ p a hp => ?_, fun _ => ⟨s, rfl⟩⟩
    exact absurd (List.prefix_nil.1 hp) (List.append_ne_nil_of_right_ne_nil _ (List.cons_ne_nil _ _))
  | cons a as ih =>
    intro s hs hal
    constructor
    · rintro ⟨t, ht⟩ p b hp u hu
      rw [run_cons, bind_eq_ok] at ht
      obtain ⟨v, hv, ht⟩ := ht
      have hQ := hstop s a v hs hal.1 hv
      cases p with
      | nil =>
        cases hu
        obtain rfl : b = a := (List.cons_prefix_cons.1 hp).1
        exact hQ
      | cons c p =>
        obtain ⟨rfl, hp'⟩ := List.cons_prefix_cons.1 hp
        rw [run_cons, hv, ok_bind] at hu
        obtain ⟨w, hw, hi⟩ := hstep s c hs hal.1 hQ
        rw [hv] at hw
        cases hw
        exact (ih v hi (hal.tail hv)).1 ⟨t, ht⟩ p b hp' u hu
    · intro hall
      have hQ := hall [] a (List.cons_prefix_cons.2 ⟨rfl, List.nil_prefix⟩) s rfl
      obtain ⟨t, ht, hi⟩ := hstep s a hs hal.1 hQ
      have hrest : ∀ p b, p ++ [b] <+: as → ∀ u, run step t p = .ok u → Q u b := by
        intro p b hp u hu
        apply hall (a :: p) b (List.cons_prefix_cons.2 ⟨rfl, hp⟩) u
        rw [run_cons, ht, ok_bind, hu]
      obtain ⟨u, hu⟩ := (ih t hi (hal.tail ht)).2 hrest
      exact ⟨u, by rw [run_cons, ht, ok_bind, hu]⟩

end Machine
