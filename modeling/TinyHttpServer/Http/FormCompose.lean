import TinyHttpServer.Http.FormEncoding

/-!
# Forms that are put together

A body is a list of components between `'&'`, and a component has a key if it has a `'='`.  A
component without one goes under the key of the component before it (`pairsOf`), and the last
component is entered only if its key is not there yet and its value is not empty (`formMap`).

* `scan_components` — the loop reads the components of a body.
* `components_append` — the components of two bodies joined by `'&'`.
* `Composes` — when the place of a component makes no difference.
* `form_composes_iff` — two bodies joined give what the first gives, overridden by what the second
  gives, exactly then.
-/

set_option autoImplicit false

open Checked

namespace HttpRequest

/-! ## The components of a body -/

/-- The components of a body, each with its key if it has one; `key` and `part` are what has been read
of the first one. -/
def components (key : Option Bytes) (part : Bytes) : Bytes → List (Option Bytes × Bytes)
  | [] => [(key, part)]
  | b :: rest =>
    if b = 61 then components (some part) [] rest
    else if b = 43 then components key (part ++ [SP]) rest
    else if b = 38 then (key, part) :: components none [] rest
    else components key (part ++ [b]) rest

/-- The components with their keys filled in; `key` is the key from before. -/
def keyed (key : Bytes) : List (Option Bytes × Bytes) → List (Bytes × Bytes)
  | [] => []
  | c :: cs => (c.1.getD key, c.2) :: keyed (c.1.getD key) cs

/-- The key behind a list of components. -/
def keyBehind (key : Bytes) (cs : List (Option Bytes × Bytes)) : Bytes :=
  cs.foldl (fun key c => c.1.getD key) key

/-- The pairs of a body that is read on its own. -/
def pairsOf (x : Bytes) : List (Bytes × Bytes) := keyed [] (components none [] x)

theorem keyed_append (key : Bytes) (cs ds : List (Option Bytes × Bytes)) :
    keyed key (cs ++ ds) = keyed key cs ++ keyed (keyBehind key cs) ds := by
  induction cs generalizing key with
  | nil => rfl
  | cons c cs ih => rw [List.cons_append, keyed, keyed, ih]; rfl

/-- **The components of two bodies joined by `'&'`.** -/
theorem components_append (a b : Bytes) : ∀ (key : Option Bytes) (part : Bytes),
    components key part (a ++ 38 :: b) = components key part a ++ components none [] b := by
  induction a with
  | nil => intro key part; rfl
  | cons c a ih =>
    intro key part
    rw [List.cons_append, components, components, ih, ih, ih, ih]
    split
    · rfl
    split
    · rfl
    split
    · rfl
    · rfl

/-- **The loop reads the components.**  All pairs but the last have been entered, and the last one is
in the variables. -/
theorem scan_components (x : Bytes) : 37 ∉ x → ∀ (f : FormScan) (before : Bytes)
    (key : Option Bytes), f.key = key.getD before →
    ∃ pairs p, keyed before (components key f.part x) = pairs ++ [p] ∧
      f.scan x = some { post := pairs.foldl Assoc.enter f.post, key := p.1, part := p.2 } := by
  induction x with
  | nil =>
    intro _ f before key hkey
    refine ⟨[], (f.key, f.part), ?_, rfl⟩
    rw [hkey]
    rfl
  | cons b x ih =>
    intro hfree f before key hkey
    rw [List.mem_cons, not_or] at hfree
    obtain ⟨hb, hfree⟩ := hfree
    rw [f.scan_byte (Ne.symm hb), FormScan.byte, components]
    by_cases heq : b = 61
    · rw [if_pos heq, if_pos heq]
      exact ih hfree { f with key := f.part, part := [] } before (some f.part) rfl
    rw [if_neg heq, if_neg heq]
    by_cases hplus : b = 43
    · rw [if_pos hplus, if_pos hplus]
      exact ih hfree { f with part := f.part ++ [SP] } before key hkey
    rw [if_neg hplus, if_neg hplus]
    by_cases hamp : b = 38
    · rw [if_pos hamp, if_pos hamp, keyed, ← hkey]
      obtain ⟨pairs, p, hpairs, hscan⟩ := ih hfree
        { f with post := Assoc.enter f.post (f.key, f.part), part := [] } f.key none rfl
      exact ⟨(f.key, f.part) :: pairs, p, congrArg _ hpairs, hscan⟩
    · rw [if_neg hamp, if_neg hamp]
      exact ih hfree { f with part := f.part ++ [b] } before key hkey

/-- What a body without `'%'` leaves in an empty map. -/
theorem parse_components (req : HttpRequest) {x : Bytes} (hfree : 37 ∉ x) :
    ∃ pairs p body, pairsOf x = pairs ++ [p] ∧
      parseFromUrlencoded { req with body := x, post := fun _ => none } =
        .ok { req with body, post := formMap pairs p } := by
  obtain ⟨pairs, p, hpairs, hscan⟩ := scan_components x hfree (FormScan.start fun _ => none) [] none
    rfl
  rw [FormScan.start, Assoc.foldl_enter_none] at hscan
  have heq := parseFromUrlencoded_eq { req with body := x, post := fun _ => none }
  simp only [FormScan.start, hscan] at heq
  obtain ⟨body, heq⟩ := heq
  exact ⟨pairs, p, body, hpairs, heq⟩

/-! ## The components before the first key -/

/-- The values of the components that come before the first one with a key. -/
def leading (cs : List (Option Bytes × Bytes)) : List Bytes :=
  (cs.takeWhile fun c => c.1.isNone).map Prod.snd

/-- The pairs from the first component with a key on. -/
def trailing (cs : List (Option Bytes × Bytes)) : List (Bytes × Bytes) :=
  keyed [] (cs.dropWhile fun c => c.1.isNone)

/-- The components before the first key go under the key from before, and only they. -/
theorem keyed_eq (key : Bytes) (cs : List (Option Bytes × Bytes)) :
    keyed key cs = (leading cs).map (fun v => (key, v)) ++ trailing cs := by
  unfold leading trailing
  induction cs with
  | nil => rfl
  | cons c cs ih =>
    obtain ⟨k, v⟩ := c
    cases k with
    | none =>
      rw [List.takeWhile_cons_of_pos rfl, List.dropWhile_cons_of_pos rfl, List.map_cons,
        List.map_cons, List.cons_append, ← ih]
      rfl
    | some k => rfl

/-! ## When the place makes no difference -/

/-- The last pair `p` of a body is entered behind the pairs `pairs`. -/
def Entered (pairs : List (Bytes × Bytes)) (p : Bytes × Bytes) : Prop :=
  p.1 ∉ pairs.map Prod.fst ∧ p.2 ≠ []

instance (pairs : List (Bytes × Bytes)) (p : Bytes × Bytes) : Decidable (Entered pairs p) :=
  inferInstanceAs (Decidable (_ ∧ _))

theorem formMap_apply (pairs : List (Bytes × Bytes)) (p : Bytes × Bytes) (k : Bytes) :
    formMap pairs p k =
      if Entered pairs p ∧ k = p.1 then some p.2 else Assoc.lastWins pairs k := by
  have hnew : Assoc.lastWins pairs p.1 = none ↔ p.1 ∉ pairs.map Prod.fst := by
    rw [← Assoc.lastWins_isSome_iff, Option.not_isSome_iff_eq_none]
  unfold formMap FormScan.finish Entered
  simp only [hnew]
  by_cases h : p.1 ∉ pairs.map Prod.fst ∧ p.2 ≠ []
  · rw [if_pos h, Assoc.enter, Function.update_apply]
    by_cases hk : k = p.1
    · rw [if_pos hk, if_pos ⟨h, hk⟩]
    · rw [if_neg hk, if_neg fun hand => hk hand.2]
  · rw [if_neg h, if_neg fun hand => h hand.1]

/-- A key among the pairs `J` has the value that `J` gives it, whatever stands before. -/
theorem formMap_of_mem {J : List (Bytes × Bytes)} {k : Bytes} (hk : k ∈ J.map Prod.fst) :
    ∃ v, ∀ P q, formMap (P ++ J) q k = some v := by
  obtain ⟨v, hv⟩ := Option.isSome_iff_exists.1 (Assoc.lastWins_isSome_iff.2 hk)
  refine ⟨v, fun P q => ?_⟩
  have hnot : ¬ (Entered (P ++ J) q ∧ k = q.1) := by
    rintro ⟨hent, rfl⟩
    exact hent.1 (by rw [List.map_append]; exact List.mem_append_right _ hk)
  rw [formMap_apply, if_neg hnot, Assoc.lastWins_append, hv]
  rfl

/-- Another key has the value of the last pair, or what stands before `J` gives it. -/
theorem formMap_of_not_mem {P J : List (Bytes × Bytes)} {q : Bytes × Bytes} {k : Bytes}
    (hk : k ∉ J.map Prod.fst) : formMap (P ++ J) q k =
      if (k = q.1 ∧ q.2 ≠ []) ∧ k ∉ P.map Prod.fst then some q.2 else Assoc.lastWins P k := by
  have hent : (Entered (P ++ J) q ∧ k = q.1) ↔ (k = q.1 ∧ q.2 ≠ []) ∧ k ∉ P.map Prod.fst := by
    unfold Entered
    rw [List.map_append, List.mem_append, not_or]
    constructor
    · rintro ⟨⟨⟨hP, -⟩, hne⟩, rfl⟩
      exact ⟨⟨rfl, hne⟩, hP⟩
    · rintro ⟨⟨rfl, hne⟩, hP⟩
      exact ⟨⟨⟨hP, hk⟩, hne⟩, rfl⟩
  rw [formMap_apply, Assoc.lastWins_append, Assoc.lastWins_eq_none hk, Option.none_or]
  exact if_congr hent rfl rfl

/-- A body that is read on its own, at a key that is not among its first pairs. -/
theorem formMap_alone {J : List (Bytes × Bytes)} {q : Bytes × Bytes} {k : Bytes}
    (hk : k ∉ J.map Prod.fst) :
    formMap J q k = if k = q.1 ∧ q.2 ≠ [] then some q.2 else none := by
  have h := formMap_of_not_mem (P := []) (q := q) hk
  rw [List.nil_append] at h
  rw [h]
  exact if_congr (and_iff_left List.not_mem_nil) rfl rfl

theorem formMap_first (I : List (Bytes × Bytes)) (p : Bytes × Bytes) (k : Bytes) :
    formMap I p k = if k = p.1 then if Entered I p then some p.2 else Assoc.lastWins I k
      else Assoc.lastWins I k := by
  rw [formMap_apply]
  by_cases hk : k = p.1
  · rw [if_pos hk]
    exact if_congr (and_iff_left hk) rfl rfl
  · rw [if_neg hk, if_neg fun h => hk h.2]

theorem lastWins_snoc (I : List (Bytes × Bytes)) (p : Bytes × Bytes) (k : Bytes) :
    Assoc.lastWins (I ++ [p]) k = if k = p.1 then some p.2 else Assoc.lastWins I k := by
  rw [Assoc.lastWins_append, Assoc.lastWins_singleton]
  split <;> rfl

/-- The last components make no difference: that of the first body is entered when the body is read on
its own, or its key is entered again by the second body, or the key has this value anyway; and the
key of that of the second body, if it is entered, is new in the first body or has this value there. -/
def LastsAgree (I : List (Bytes × Bytes)) (p : Bytes × Bytes) (J : List (Bytes × Bytes))
    (q : Bytes × Bytes) : Prop :=
  (Entered I p ∨ p.1 ∈ J.map Prod.fst ∨ (p.1 = q.1 ∧ q.2 ≠ []) ∨
    Assoc.lastWins I p.1 = some p.2) ∧
  (Entered J q → q.1 ∈ (I ++ [p]).map Prod.fst → Assoc.lastWins (I ++ [p]) q.1 = some q.2)

instance (I : List (Bytes × Bytes)) (p : Bytes × Bytes) (J : List (Bytes × Bytes))
    (q : Bytes × Bytes) : Decidable (LastsAgree I p J q) := inferInstanceAs (Decidable (_ ∧ _))

/-- At a key that is not among the first pairs of the second body. -/
theorem agree_at_iff {I J : List (Bytes × Bytes)} {p q : Bytes × Bytes} {k : Bytes}
    (hk : k ∉ J.map Prod.fst) :
    formMap (I ++ [p] ++ J) q k = (formMap J q k).or (formMap I p k) ↔
      if k = q.1 ∧ q.2 ≠ [] then
        k ∈ (I ++ [p]).map Prod.fst → Assoc.lastWins (I ++ [p]) k = some q.2
      else k = p.1 → Entered I p ∨ Assoc.lastWins I k = some p.2 := by
  rw [formMap_of_not_mem hk, formMap_alone hk]
  by_cases hq : k = q.1 ∧ q.2 ≠ []
  · rw [if_pos hq, if_pos hq, Option.some_or]
    by_cases hmem : k ∈ (I ++ [p]).map Prod.fst
    · rw [if_neg fun h => h.2 hmem]
      exact ⟨fun h _ => h, fun h => h hmem⟩
    · rw [if_pos ⟨hq, hmem⟩]
      exact iff_of_true rfl fun h => absurd h hmem
  · rw [if_neg hq, if_neg hq, if_neg fun h => hq h.1, Option.none_or, lastWins_snoc, formMap_first]
    by_cases hp : k = p.1
    · rw [if_pos hp, if_pos hp]
      by_cases hent : Entered I p
      · rw [if_pos hent]
        exact iff_of_true rfl fun _ => .inl hent
      · rw [if_neg hent]
        exact ⟨fun h _ => .inr h.symm, fun h => ((h hp).resolve_left hent).symm⟩
    · rw [if_neg hp, if_neg hp]
      exact iff_of_true rfl fun h => absurd h hp

theorem lastsAgree_iff (I J : List (Bytes × Bytes)) (p q : Bytes × Bytes) :
    (∀ k, formMap (I ++ [p] ++ J) q k = (formMap J q k).or (formMap I p k)) ↔
      LastsAgree I p J q := by
  constructor
  · intro h
    refine ⟨?_, fun hent hmem => ?_⟩
    · by_cases hJ : p.1 ∈ J.map Prod.fst
      · exact .inr (.inl hJ)
      by_cases hq : p.1 = q.1 ∧ q.2 ≠ []
      · exact .inr (.inr (.inl hq))
      have hat := (agree_at_iff hJ).1 (h p.1)
      rw [if_neg hq] at hat
      rcases hat rfl with hat | hat
      · exact .inl hat
      · exact .inr (.inr (.inr hat))
    · have hat := (agree_at_iff hent.1).1 (h q.1)
      rw [if_pos ⟨rfl, hent.2⟩] at hat
      exact hat hmem
  · rintro ⟨hfirst, hsecond⟩ k
    by_cases hk : k ∈ J.map Prod.fst
    · obtain ⟨v, hv⟩ := formMap_of_mem hk
      rw [hv, show formMap J q k = some v from hv [] q]
      rfl
    · rw [agree_at_iff hk]
      split
      · rename_i hq
        obtain ⟨rfl, hne⟩ := hq
        exact hsecond ⟨hk, hne⟩
      · rename_i hq
        rintro rfl
        rcases hfirst with h | h | h | h
        · exact .inl h
        · exact absurd h hk
        · exact absurd h hq
        · exact .inr h

/-! ## A second body that begins without a key -/

/-- The components before the first key go under the key `key`. -/
theorem lastWins_leading {lead : List Bytes} {v : Bytes} (hlead : lead.getLast? = some v)
    (P : List (Bytes × Bytes)) (key k : Bytes) :
    Assoc.lastWins (P ++ lead.map fun v => (key, v)) k =
      if k = key then some v else Assoc.lastWins P k := by
  rw [Assoc.lastWins_append, Assoc.lastWins_same, hlead]
  split <;> rfl

theorem mem_keys_leading {lead : List Bytes} {v : Bytes} (hlead : lead.getLast? = some v)
    {P : List (Bytes × Bytes)} {key k : Bytes} :
    k ∈ (P ++ lead.map fun v => (key, v)).map Prod.fst ↔ k = key ∨ k ∈ P.map Prod.fst := by
  rw [← Assoc.lastWins_isSome_iff, lastWins_leading hlead]
  split
  · rename_i hk
    exact iff_of_true rfl (.inl hk)
  · rename_i hk
    rw [Assoc.lastWins_isSome_iff, or_iff_right hk]

/-- The components before the first key of the second body, of which `v` is the last, make no
difference, although they go under the key of `p` and not under the empty key: both keys are entered
again behind them, or have the value `v` anyway. -/
def CarriedAgree (I : List (Bytes × Bytes)) (p : Bytes × Bytes) (v : Bytes)
    (J : List (Bytes × Bytes)) (q : Bytes × Bytes) : Prop :=
  ([] ∈ J.map Prod.fst ∨
    if ([] = q.1 ∧ q.2 ≠ []) ∧ [] ∉ I.map Prod.fst then q.2 = v
    else Assoc.lastWins I [] = some v) ∧
  (p.1 ∈ J.map Prod.fst ∨
    if p.1 = q.1 ∧ q.2 ≠ [] then q.2 = v
    else if Entered I p then p.2 = v else Assoc.lastWins I p.1 = some v) ∧
  (q.1 ≠ [] → q.1 ≠ p.1 → Entered J q → q.1 ∈ I.map Prod.fst →
    Assoc.lastWins I q.1 = some q.2)

instance (I : List (Bytes × Bytes)) (p : Bytes × Bytes) (v : Bytes) (J : List (Bytes × Bytes))
    (q : Bytes × Bytes) : Decidable (CarriedAgree I p v J q) :=
  @instDecidableAnd _ _ inferInstance (@instDecidableAnd _ _ inferInstance inferInstance)

section Carried

variable {I J : List (Bytes × Bytes)} {p q : Bytes × Bytes} {lead : List Bytes} {v k : Bytes}

/-- The joined bodies, at a key that is not entered later. -/
theorem formMap_carried (hlead : lead.getLast? = some v) (hk : k ∉ J.map Prod.fst) :
    formMap (I ++ [p] ++ (lead.map (fun v => (p.1, v)) ++ J)) q k =
      if k = p.1 then some v
      else if (k = q.1 ∧ q.2 ≠ []) ∧ k ∉ I.map Prod.fst then some q.2
      else Assoc.lastWins I k := by
  have hmem : k ∈ (I ++ [p] ++ lead.map fun v => (p.1, v)).map Prod.fst ↔
      k = p.1 ∨ k ∈ I.map Prod.fst := by
    rw [mem_keys_leading hlead, List.map_append, List.mem_append]
    simp [or_comm]
  rw [← List.append_assoc, formMap_of_not_mem hk, lastWins_leading hlead, lastWins_snoc]
  by_cases hp : k = p.1
  · rw [if_neg fun h => h.2 (hmem.2 (.inl hp)), if_pos hp, if_pos hp]
  · rw [if_neg hp, if_neg hp, if_neg hp]
    exact if_congr (and_congr_right fun _ => not_congr (hmem.trans (or_iff_right hp))) rfl rfl

/-- The second body alone. -/
theorem formMap_uncarried (hlead : lead.getLast? = some v) (hk : k ∉ J.map Prod.fst) :
    formMap (lead.map (fun v => ([], v)) ++ J) q k =
      if k = [] then some v else if k = q.1 ∧ q.2 ≠ [] then some q.2 else none := by
  have hmem : k ∈ ([] ++ lead.map fun v => ([], v)).map Prod.fst ↔ k = [] := by
    rw [mem_keys_leading hlead]
    exact or_iff_left List.not_mem_nil
  have h := formMap_of_not_mem (P := [] ++ lead.map fun v => ([], v)) (q := q) hk
  rw [lastWins_leading hlead, List.nil_append] at h
  rw [h]
  by_cases hnil : k = []
  · rw [if_neg fun h => h.2 (hmem.2 hnil), if_pos hnil, if_pos hnil]
  · rw [if_neg hnil, if_neg hnil]
    exact if_congr (and_iff_left (mt hmem.1 hnil)) rfl rfl

theorem carriedAgree_iff (hlead : lead.getLast? = some v) (hp : p.1 ≠ []) :
    (∀ k, formMap (I ++ [p] ++ (lead.map (fun v => (p.1, v)) ++ J)) q k =
      (formMap (lead.map (fun v => ([], v)) ++ J) q k).or (formMap I p k)) ↔
      CarriedAgree I p v J q := by
  -- the equation at each of the three keys
  have hempty : [] ∉ J.map Prod.fst →
      (formMap (I ++ [p] ++ (lead.map (fun v => (p.1, v)) ++ J)) q [] =
        (formMap (lead.map (fun v => ([], v)) ++ J) q []).or (formMap I p []) ↔
      if ([] = q.1 ∧ q.2 ≠ []) ∧ [] ∉ I.map Prod.fst then q.2 = v
      else Assoc.lastWins I [] = some v) := by
    intro hk
    rw [formMap_carried hlead hk, formMap_uncarried hlead hk, if_neg (Ne.symm hp), if_pos rfl,
      Option.some_or]
    split
    · exact Option.some_inj
    · rfl
  have hfirst : p.1 ∉ J.map Prod.fst →
      (formMap (I ++ [p] ++ (lead.map (fun v => (p.1, v)) ++ J)) q p.1 =
        (formMap (lead.map (fun v => ([], v)) ++ J) q p.1).or (formMap I p p.1) ↔
      if p.1 = q.1 ∧ q.2 ≠ [] then q.2 = v
      else if Entered I p then p.2 = v else Assoc.lastWins I p.1 = some v) := by
    intro hk
    rw [formMap_carried hlead hk, formMap_uncarried hlead hk, if_pos rfl, if_neg hp, formMap_first,
      if_pos rfl]
    split
    · rw [Option.some_or, Option.some_inj, eq_comm]
    · rw [Option.none_or]
      split
      · rw [Option.some_inj, eq_comm]
      · exact eq_comm
  have hother : ∀ k, k ∉ J.map Prod.fst → k ≠ [] → k ≠ p.1 →
      (formMap (I ++ [p] ++ (lead.map (fun v => (p.1, v)) ++ J)) q k =
        (formMap (lead.map (fun v => ([], v)) ++ J) q k).or (formMap I p k) ↔
      (k = q.1 ∧ q.2 ≠ [] → k ∈ I.map Prod.fst → Assoc.lastWins I k = some q.2)) := by
    intro k hk hnil hkp
    rw [formMap_carried hlead hk, formMap_uncarried hlead hk, if_neg hkp, if_neg hnil,
      formMap_first, if_neg hkp]
    by_cases hq : k = q.1 ∧ q.2 ≠ []
    · rw [if_pos hq, Option.some_or]
      by_cases hmem : k ∈ I.map Prod.fst
      · rw [if_neg fun h => h.2 hmem]
        exact ⟨fun h _ _ => h, fun h => h hq hmem⟩
      · rw [if_pos ⟨hq, hmem⟩]
        exact iff_of_true rfl fun _ h => absurd h hmem
    · rw [if_neg hq, if_neg fun h => hq h.1, Option.none_or]
      exact iff_of_true rfl fun h => absurd h hq
  constructor
  · intro h
    refine ⟨?_, ?_, fun hnil hqp hent => ?_⟩
    · exact or_iff_not_imp_left.2 fun hk => (hempty hk).1 (h [])
    · exact or_iff_not_imp_left.2 fun hk => (hfirst hk).1 (h p.1)
    · exact (hother q.1 hent.1 hnil hqp).1 (h q.1) ⟨rfl, hent.2⟩
  · rintro ⟨h₁, h₂, h₃⟩ k
    by_cases hk : k ∈ J.map Prod.fst
    · obtain ⟨w, hw⟩ := formMap_of_mem hk
      rw [← List.append_assoc, hw, hw]
      rfl
    by_cases hnil : k = []
    · subst hnil
      exact (hempty hk).2 (h₁.resolve_left hk)
    by_cases hkp : k = p.1
    · subst hkp
      exact (hfirst hk).2 (h₂.resolve_left hk)
    · refine (hother k hk hnil hkp).2 fun hq => ?_
      obtain ⟨rfl, hne⟩ := hq
      exact h₃ hnil hkp ⟨hk, hne⟩

end Carried

/-- The second body has no key at all; `vs` and `v` are its values. -/
def BareAgree (I : List (Bytes × Bytes)) (p : Bytes × Bytes) (vs : List Bytes) (v : Bytes) : Prop :=
  Assoc.lastWins I [] = some (vs.getLast?.getD v) ∧
    if Entered I p then p.2 = vs.getLast?.getD p.2
    else Assoc.lastWins I p.1 = some (vs.getLast?.getD p.2)

instance (I : List (Bytes × Bytes)) (p : Bytes × Bytes) (vs : List Bytes) (v : Bytes) :
    Decidable (BareAgree I p vs v) := inferInstanceAs (Decidable (_ ∧ _))

theorem bareAgree_iff {I : List (Bytes × Bytes)} {p : Bytes × Bytes} {vs : List Bytes} {v : Bytes}
    (hp : p.1 ≠ []) (hv : vs = [] → v ≠ []) :
    (∀ k, formMap (I ++ [p] ++ vs.map fun v => (p.1, v)) (p.1, v) k =
      (formMap (vs.map fun v => ([], v)) ([], v) k).or (formMap I p k)) ↔ BareAgree I p vs v := by
  have hjoined : ∀ k, formMap (I ++ [p] ++ vs.map fun v => (p.1, v)) (p.1, v) k =
      if k = p.1 then some (vs.getLast?.getD p.2) else Assoc.lastWins I k := by
    intro k
    have hnot : ¬ (Entered (I ++ [p] ++ vs.map fun v => (p.1, v)) (p.1, v) ∧ k = p.1) :=
      fun h => h.1.1 (by simp)
    rw [formMap_apply, if_neg hnot, Assoc.lastWins_append, Assoc.lastWins_same, lastWins_snoc]
    split
    · cases vs.getLast? <;> rfl
    · rfl
  have halone : ∀ k, formMap (vs.map fun v => ([], v)) ([], v) k =
      if k = [] then some (vs.getLast?.getD v) else none := by
    intro k
    rw [formMap_apply, Assoc.lastWins_same]
    by_cases hk : k = []
    · rw [if_pos hk, if_pos hk]
      cases vs with
      | nil => rw [if_pos ⟨⟨List.not_mem_nil, hv rfl⟩, hk⟩]; rfl
      | cons w vs =>
        rw [if_neg fun h => h.1.1 (by simp), List.getLast?_cons]
        rfl
    · rw [if_neg fun h => hk h.2, if_neg hk, if_neg hk]
  constructor
  · intro h
    refine ⟨?_, ?_⟩
    · have hnil := h []
      rwa [hjoined, halone, if_neg (Ne.symm hp), if_pos rfl, Option.some_or] at hnil
    · have hfirst := h p.1
      rw [hjoined, halone, if_pos rfl, if_neg hp, Option.none_or, formMap_first, if_pos rfl] at hfirst
      split at hfirst
      · rename_i hent
        rw [if_pos hent]
        exact (Option.some.inj hfirst).symm
      · rename_i hent
        rw [if_neg hent]
        exact hfirst.symm
  · rintro ⟨hnil, hfirst⟩ k
    rw [hjoined, halone]
    by_cases hk : k = []
    · subst hk
      rw [if_neg (Ne.symm hp), if_pos rfl, Option.some_or, hnil]
    rw [if_neg hk, Option.none_or, formMap_first]
    by_cases hkp : k = p.1
    · rw [if_pos hkp, if_pos hkp]
      split at hfirst
      · rename_i hent
        rw [if_pos hent, ← hfirst]
      · rename_i hent
        rw [if_neg hent, hkp, hfirst]
    · rw [if_neg hkp, if_neg hkp]

/-! ## Two bodies joined by `'&'` -/

/-- The bodies that are put together. -/
structure FormBody (x : Bytes) : Prop where
  nonempty : x ≠ []
  percentFree : 37 ∉ x
  begins : x.head? ≠ some 38
  ends : x.getLast? ≠ some 38

/-- Where the second body begins with a key, or the first body ends under the empty key, the last
components decide; otherwise the components before the first key do as well. -/
def Composes (a b : Bytes) : Prop :=
  let I := (pairsOf a).dropLast
  let p := (pairsOf a).getLastD ([], [])
  let lead := leading (components none [] b)
  let trail := trailing (components none [] b)
  if p.1 = [] ∨ lead = [] then LastsAgree I p (pairsOf b).dropLast ((pairsOf b).getLastD ([], []))
  else if trail = [] then BareAgree I p lead.dropLast (lead.getLastD [])
  else CarriedAgree I p (lead.getLastD []) trail.dropLast (trail.getLastD ([], []))

instance (a b : Bytes) : Decidable (Composes a b) := by
  unfold Composes
  infer_instance

theorem keyBehind_eq (cs : List (Option Bytes × Bytes)) : ∀ {key : Bytes}
    {pairs : List (Bytes × Bytes)} {p : Bytes × Bytes}, keyed key cs = pairs ++ [p] →
      keyBehind key cs = p.1 := by
  induction cs with
  | nil =>
    intro key pairs p h
    exact absurd h.symm (List.append_ne_nil_of_right_ne_nil _ (List.cons_ne_nil _ _))
  | cons c cs ih =>
    intro key pairs p h
    rw [keyed] at h
    cases pairs with
    | nil =>
      obtain ⟨hc, hcs⟩ := List.cons.inj h
      cases cs with
      | nil => rw [← hc]; rfl
      | cons d cs => exact absurd hcs (List.cons_ne_nil _ _)
    | cons q pairs => exact ih (List.cons.inj h).2

/-- A component that has begun with a byte, and has no key at its end, has a value. -/
theorem components_head (x : Bytes) : ∀ {key : Option Bytes} {part : Bytes},
    (key = none → part ≠ []) →
      ∀ c ∈ (components key part x).head?, c.1 = none → c.2 ≠ [] := by
  induction x with
  | nil =>
    intro key part hpart c hc
    rw [components, List.head?_cons, Option.mem_some] at hc
    rw [← hc]
    exact hpart
  | cons b x ih =>
    intro key part hpart c hc
    rw [components] at hc
    split at hc
    · exact ih (by simp) c hc
    split at hc
    · exact ih (fun _ => by simp) c hc
    split at hc
    · rw [List.head?_cons, Option.mem_some] at hc
      rw [← hc]
      exact hpart
    · exact ih (fun _ => by simp) c hc

theorem FormBody.head_value {x : Bytes} (h : FormBody x) :
    ∀ c ∈ (components none [] x).head?, c.1 = none → c.2 ≠ [] := by
  cases x with
  | nil => exact absurd rfl h.nonempty
  | cons b x =>
    intro c hc
    rw [components] at hc
    split at hc
    · exact components_head x (by simp) c hc
    split at hc
    · exact components_head x (fun _ => by simp) c hc
    split at hc
    · rename_i hamp
      exact absurd (congrArg some hamp) h.begins
    · exact components_head x (fun _ => by simp) c hc

/-- The components are those before the first key and those from it on. -/
theorem leading_single {cs : List (Option Bytes × Bytes)} {v : Bytes} (hlead : leading cs = [v]) :
    ∃ c ∈ cs.head?, c.1 = none ∧ c.2 = v := by
  unfold leading at hlead
  cases cs with
  | nil => cases hlead
  | cons c cs =>
    rw [List.takeWhile_cons] at hlead
    split at hlead
    · rename_i hnone
      rw [List.map_cons] at hlead
      exact ⟨c, rfl, Option.isNone_iff_eq_none.1 hnone, (List.cons.inj hlead).1⟩
    · cases hlead

/-- **Forms that are put together.**  Take any two non-empty bodies without `'%'` that neither begin
nor end with `'&'`.  Joined by `'&'` they give the map that the first gives, overridden by the one that
the second gives, if and only if the place of their components makes no difference. -/
theorem form_composes_iff (req : HttpRequest) {a b : Bytes} (ha : FormBody a) (hb : FormBody b) :
    (∃ ra rb r, parseFromUrlencoded { req with body := a, post := fun _ => none } = .ok ra ∧
        parseFromUrlencoded { req with body := b, post := fun _ => none } = .ok rb ∧
        parseFromUrlencoded { req with body := a ++ 38 :: b, post := fun _ => none } = .ok r ∧
        ∀ k, r.post k = (rb.post k).or (ra.post k)) ↔ Composes a b := by
  have hjoined : 37 ∉ a ++ 38 :: b := by
    simp [ha.percentFree, hb.percentFree]
  obtain ⟨I, p, _, hA, hra⟩ := parse_components req ha.percentFree
  obtain ⟨J, q, _, hB, hrb⟩ := parse_components req hb.percentFree
  obtain ⟨K, r, _, hAB, hr⟩ := parse_components req hjoined
  have hpairs : K ++ [r] = I ++ [p] ++ keyed p.1 (components none [] b) := by
    rw [← hAB, ← hA, pairsOf, components_append, keyed_append, keyBehind_eq _ hA]
    rfl
  have hmaps : (∃ ra rb r, parseFromUrlencoded { req with body := a, post := fun _ => none } = .ok ra ∧
      parseFromUrlencoded { req with body := b, post := fun _ => none } = .ok rb ∧
      parseFromUrlencoded { req with body := a ++ 38 :: b, post := fun _ => none } = .ok r ∧
      ∀ k, r.post k = (rb.post k).or (ra.post k)) ↔
        ∀ k, formMap K r k = (formMap J q k).or (formMap I p k) := by
    rw [hra, hrb, hr]
    constructor
    · rintro ⟨_, _, _, ha, hb, hab, h⟩
      cases ha
      cases hb
      cases hab
      exact h
    · intro h
      exact ⟨_, _, _, rfl, rfl, rfl, h⟩
  rw [hmaps, Composes, hA, List.dropLast_concat, List.getLastD_concat]
  have hkeyed := keyed_eq p.1 (components none [] b)
  have hB' : (leading (components none [] b)).map (fun v => ([], v)) ++
      trailing (components none [] b) = J ++ [q] := by
    rw [← keyed_eq]
    exact hB
  split
  · -- the pairs of the second body are read as when it is alone
    rename_i hsame
    have hread : keyed p.1 (components none [] b) = J ++ [q] := by
      rw [hkeyed, ← hB']
      rcases hsame with hnil | hnil
      · rw [hnil]
      · rw [hnil]
        rfl
    rw [hread, ← List.append_assoc] at hpairs
    obtain ⟨rfl, rfl⟩ := List.append_singleton_inj.1 hpairs
    rw [hB, List.dropLast_concat, List.getLastD_concat]
    exact lastsAgree_iff I J p r
  · rename_i hcarried
    rw [not_or] at hcarried
    obtain ⟨hp, hne⟩ := hcarried
    obtain ⟨vs, v, hlead⟩ := (List.eq_nil_or_concat' _).resolve_left hne
    split
    · rename_i hnil
      rw [hkeyed, hnil, hlead, List.append_nil, List.map_append, List.map_singleton,
        ← List.append_assoc] at hpairs
      rw [hnil, hlead, List.append_nil, List.map_append, List.map_singleton] at hB'
      obtain ⟨rfl, rfl⟩ := List.append_singleton_inj.1 hpairs
      obtain ⟨rfl, rfl⟩ := List.append_singleton_inj.1 hB'
      rw [hlead, List.dropLast_concat, List.getLastD_concat]
      refine bareAgree_iff hp fun hvs => ?_
      rw [hvs, List.nil_append] at hlead
      obtain ⟨c, hc, hkey, rfl⟩ := leading_single hlead
      exact hb.head_value c hc hkey
    · rename_i htrail
      obtain ⟨J', q', htrail⟩ := (List.eq_nil_or_concat' _).resolve_left htrail
      rw [hkeyed, htrail, ← List.append_assoc, ← List.append_assoc, List.append_assoc (I ++ [p])]
        at hpairs
      rw [htrail, ← List.append_assoc] at hB'
      obtain ⟨rfl, rfl⟩ := List.append_singleton_inj.1 hpairs
      obtain ⟨rfl, rfl⟩ := List.append_singleton_inj.1 hB'
      rw [htrail, List.dropLast_concat, List.getLastD_concat]
      refine carriedAgree_iff ?_ hp
      rw [hlead, List.getLast?_concat, List.getLastD_concat]

/-- `x=1` and `y=2`. -/
theorem form_composes_sample :
    FormBody (str "x=1") ∧ FormBody (str "y=2") ∧
      ∃ ra rb r, parseFromUrlencoded { init with body := str "x=1", post := fun _ => none } = .ok ra ∧
        parseFromUrlencoded { init with body := str "y=2", post := fun _ => none } = .ok rb ∧
        parseFromUrlencoded { init with body := str "x=1" ++ 38 :: str "y=2", post := fun _ => none } =
          .ok r ∧ ∀ k, r.post k = (rb.post k).or (ra.post k) := by
  have hx : FormBody (str "x=1") := ⟨by decide, by decide, by decide, by decide⟩
  have hy : FormBody (str "y=2") := ⟨by decide, by decide, by decide, by decide⟩
  exact ⟨hx, hy, (form_composes_iff init hx hy).2 (by decide +kernel)⟩

/-- `x=1` and `x=2`: the last component is not entered, since its key is there already. -/
theorem last_component_lost :
    FormBody (str "x=1") ∧ FormBody (str "x=2") ∧
      (parseFromUrlencoded { init with body := str "x=1&x=2" }).map (fun r => r.post (str "x")) =
        .ok (some (str "1")) ∧
      ¬∃ ra rb r, parseFromUrlencoded { init with body := str "x=1", post := fun _ => none } = .ok ra ∧
        parseFromUrlencoded { init with body := str "x=2", post := fun _ => none } = .ok rb ∧
        parseFromUrlencoded { init with body := str "x=1" ++ 38 :: str "x=2", post := fun _ => none } =
          .ok r ∧ ∀ k, r.post k = (rb.post k).or (ra.post k) := by
  have hrb : (parseFromUrlencoded { init with body := str "x=2", post := fun _ => none }).map
      (fun r => r.post (str "x")) = .ok (some (str "2")) := by decide +kernel
  have hr : (parseFromUrlencoded
      { init with body := str "x=1" ++ 38 :: str "x=2", post := fun _ => none }).map
        (fun r => r.post (str "x")) = .ok (some (str "1")) := by decide +kernel
  refine ⟨⟨by decide, by decide, by decide, by decide⟩, ⟨by decide, by decide, by decide, by decide⟩,
    by decide +kernel, ?_⟩
  rintro ⟨ra, rb, r, -, hb, hab, h⟩
  rw [hb] at hrb
  rw [hab] at hr
  have hlost : r.post (str "x") = some (str "1") := Except.ok.inj hr
  have hgiven : rb.post (str "x") = some (str "2") := Except.ok.inj hrb
  have hk := h (str "x")
  rw [hlost, hgiven, Option.some_or] at hk
  revert hk
  decide

end HttpRequest
