import TinyHttpServer.Http.UserVerifyCalls

/-!
# Concurrent registrations of one name

Calls of `UserVerify` that register the same new name, each with its own password.  The `SELECT` and
the `INSERT` of a call are separate statements, and the answer is `true` whenever the `SELECT` found
no row.

* `register_once` — at most one call is told that it registered the name, and the table has its
  password, where the statements of the calls do not overlap and no `INSERT` fails; and only there.
* `register_twice` — two calls that both find no row.
-/

set_option autoImplicit false

open Checked Machine

namespace VerifyCall

open UserVerify

/-- The call has found no row and has not sent its `INSERT`. -/
def window : VerifyPc → Bool
  | .store _ [] | .insert _ => true
  | _ => false

/-- The call has found no row. -/
def claims : VerifyPc → Bool
  | .store _ [] | .insert _ | .free true _ | .returned true => true
  | _ => false

theorem claims_of_window {pc : VerifyPc} (h : window pc) : claims pc := by
  cases pc with
  | store sql rows =>
    cases rows with
    | nil => rfl
    | cons => cases h
  | insert => rfl
  | _ => cases h

/-- A step of the pool changes neither. -/
theorem claims_resume {pc : VerifyPc} {ppc : PoolPc} (hpc : pc.poolPc = some ppc) (ppc' : PoolPc) :
    claims (pc.resume ppc') = claims pc ∧ window (pc.resume ppc') = window pc := by
  cases pc with
  | construct _ =>
    cases ppc' with
    | done sql => cases sql <;> exact ⟨rfl, rfl⟩
    | _ => exact ⟨rfl, rfl⟩
  | destroy _ _ => cases ppc' <;> exact ⟨rfl, rfl⟩
  | free flag _ => cases flag <;> cases ppc' <;> exact ⟨rfl, rfl⟩
  | _ => cases hpc

/-- A registration of `name`, with strings that the server reads as they are. -/
structure Registers (name : Bytes) (c : VerifyCall) : Prop where
  named : c.name = name
  isLogin : c.isLogin = false
  plain : Plain c.pwd
  fits : (insertText name c.pwd).length ≤ 255

/-- What a step of a registration does to the table. -/
inductive TableMove (name : Bytes) (table : Table) (ok : Bool) (c : VerifyCall) (table' : Table)
    (c' : VerifyCall) : Prop where
  | idle (htable : table' = table) (hclaims : claims c'.pc = claims c.pc)
      (hwindow : window c'.pc = window c.pc)
      (hpc : ∀ sql, (c.pc = .select sql → ¬(ok = true ∧ table name = none)) ∧ c.pc ≠ .insert sql)
  /-- the `SELECT` finds no row -/
  | claim (sql : Mysql) (hpc : c.pc = .select sql) (hok : ok = true) (habsent : table name = none)
      (htable : table' = table) (hwindow : window c'.pc)
  | insert (sql : Mysql) (hpc : c.pc = .insert sql)
      (htable : table' = if ok = true ∧ table name = none then
        Function.update table name (some c.pwd) else table)
      (hclaims : claims c'.pc) (hwindow : window c'.pc = false)

variable {exec : Exec} {pool pool' : SqlConnPool} {table table' : Table} {i : Nat} {ok : Bool}
  {name : Bytes} {c c' : VerifyCall}

/-- **One step of a registration.** -/
theorem step_table (hexec : Serves exec) (hname : Plain name)
    (hlen : (selectText name).length ≤ 255) (hreg : Registers name c)
    (hstep : c.step exec pool table i ok = .ok (pool', table', c')) :
    TableMove name table ok c table' c' := by
  have hidle : ∀ {pc : VerifyPc}, c.pc = pc → (∀ sql, pc ≠ .select sql ∧ pc ≠ .insert sql) →
      table' = table → claims c'.pc = claims pc ∧ window c'.pc = window pc →
      TableMove name table ok c table' c' := by
    rintro pc rfl hpc htable ⟨hclaims, hwindow⟩
    exact .idle htable hclaims hwindow fun sql =>
      ⟨fun hsel => absurd hsel (hpc sql).1, (hpc sql).2⟩
  have hrows : ∀ rows, fetchRows c.pwd c.isLogin rows (initialFlag c.isLogin) = decide (rows = []) := by
    intro rows
    rw [hreg.isLogin]
    cases rows with
    | nil => rfl
    | cons row rows => exact fetchRows_register c.pwd row rows _
  cases step_moves hstep with
  | leave hpc | enter hpc | assert _ hpc =>
    exact hidle hpc (fun sql => ⟨nofun, nofun⟩) rfl ⟨rfl, rfl⟩
  | stay flag hpc =>
    exact hidle hpc (fun sql => ⟨nofun, nofun⟩) rfl (by rw [hpc]; exact ⟨rfl, rfl⟩)
  | pool _ pc pc' hpc =>
    refine hidle rfl (fun sql => ⟨fun h => ?_, fun h => ?_⟩) rfl (claims_resume hpc pc')
    · rw [h] at hpc
      cases hpc
    · rw [h] at hpc
      cases hpc
  | selectFails sql hpc hquery =>
    refine .idle rfl (by rw [hpc]; rfl) (by rw [hpc]; rfl) fun sql' => ⟨fun _ hfound => ?_, ?_⟩
    · rw [hreg.named, query_select hexec hname hlen, if_pos hfound.1] at hquery
      cases hquery
    · rw [hpc]
      nofun
  | select sql rows _ hpc hquery =>
    rw [hreg.named, query_select hexec hname hlen] at hquery
    cases ok with
    | false => cases hquery
    | true =>
      cases hrow : table name with
      | none =>
        rw [hrow] at hquery
        cases hquery
        exact .claim sql hpc rfl hrow rfl rfl
      | some pwd =>
        rw [hrow] at hquery
        cases hquery
        refine .idle rfl (by rw [hpc]; rfl) (by rw [hpc]; rfl) fun sql' => ⟨fun _ hfound => ?_, ?_⟩
        · rw [hrow] at hfound
          cases hfound.2
        · rw [hpc]
          nofun
  | goInsert sql rows hpc hflag =>
    rw [hrows, Bool.and_eq_true, decide_eq_true_eq] at hflag
    obtain ⟨-, rfl⟩ := hflag
    exact hidle hpc (fun sql => ⟨nofun, nofun⟩) rfl ⟨rfl, rfl⟩
  | goFree sql rows hpc hflag =>
    rw [hrows, hreg.isLogin] at hflag
    cases rows with
    | nil => exact absurd rfl hflag
    | cons row rows =>
      refine hidle hpc (fun sql => ⟨nofun, nofun⟩) rfl ?_
      rw [hrows]
      exact ⟨rfl, rfl⟩
  | insertFails sql hpc hquery =>
    rw [hreg.named, query_insert hexec hname hreg.plain hreg.fits] at hquery
    split at hquery
    · cases hquery
    · rename_i hadd
      exact .insert sql hpc (if_neg hadd).symm rfl rfl
  | insert sql rows _ hpc hquery =>
    rw [hreg.named, query_insert hexec hname hreg.plain hreg.fits] at hquery
    split at hquery
    · rename_i hadd
      cases hquery
      exact .insert sql hpc (if_pos hadd).symm rfl rfl
    · cases hquery

/-- A call that has found no row stays one that did. -/
theorem TableMove.claims (hm : TableMove name table ok c table' c') (h : claims c.pc) :
    VerifyCall.claims c'.pc := by
  cases hm with
  | idle _ hclaims => exact hclaims.trans h
  | claim _ _ _ _ _ hwindow => exact claims_of_window hwindow
  | insert _ _ _ hclaims => exact hclaims

/-- The table changes only by an `INSERT`, after which the call is past its statements. -/
theorem TableMove.changes (hm : TableMove name table ok c table' c') :
    table' = table ∨ window c.pc ∧ VerifyCall.claims c'.pc ∧ window c'.pc = false := by
  cases hm with
  | idle htable => exact .inl htable
  | claim _ _ _ _ htable => exact .inl htable
  | insert _ hpc _ hclaims hwindow => exact .inr ⟨by rw [hpc]; rfl, hclaims, hwindow⟩

/-- A call past its statements stays there. -/
theorem TableMove.past (hm : TableMove name table ok c table' c') (h : VerifyCall.claims c.pc)
    (hw : window c.pc = false) : VerifyCall.claims c'.pc ∧ window c'.pc = false := by
  cases hm with
  | idle _ hclaims hwindow => exact ⟨hclaims.trans h, hwindow.trans hw⟩
  | claim _ hpc =>
    rw [hpc] at h
    cases h
  | insert _ _ _ hclaims hwindow => exact ⟨hclaims, hwindow⟩

end VerifyCall

namespace VerifyCalls

open UserVerify VerifyCall

/-- A `SELECT` that finds no row comes while no other call is between such a `SELECT` and its
`INSERT`; an `INSERT` does not fail. -/
def SerialPc (name : Bytes) (s : VerifyCalls) (ok : Bool) : VerifyPc → Prop
  | .select _ => ok = true → s.table name = none → ∀ d ∈ s.calls, window d.pc = false
  | .insert _ => ok = true
  | _ => True

def Serial (name : Bytes) (s : VerifyCalls) (a : VerifyAct) : Prop :=
  ∀ c ∈ s.calls[a.call]?, SerialPc name s a.ok c.pc

instance (name : Bytes) (s : VerifyCalls) (ok : Bool) : ∀ pc, Decidable (SerialPc name s ok pc)
  | .select _ => inferInstanceAs (Decidable (_ → _ → ∀ d ∈ s.calls, window d.pc = false))
  | .insert _ => inferInstanceAs (Decidable (_ = _))
  | .entry | .construct _ | .destroy _ _ | .assertSql _ | .store _ _ | .free _ _ | .returned _ =>
    inferInstanceAs (Decidable True)

instance (name : Bytes) (s : VerifyCalls) (a : VerifyAct) : Decidable (Serial name s a) :=
  inferInstanceAs (Decidable (∀ c ∈ s.calls[a.call]?, _))

/-- At most one call is told that it registered the name, and the table has its password. -/
structure RegisteredOnce (name : Bytes) (s : VerifyCalls) : Prop where
  unique : ∀ (i j : Nat) (c d : VerifyCall), s.calls[i]? = some c → s.calls[j]? = some d →
    c.pc = .returned true → d.pc = .returned true → i = j
  stored : ∀ c ∈ s.calls, c.pc = .returned true → s.table name = some c.pwd

/-- The invariant of the runs without overlap: one call at most has found no row, and the table has
its password from the `INSERT` on. -/
structure Single (name : Bytes) (s : VerifyCalls) : Prop where
  unique : ∀ (i j : Nat) (c d : VerifyCall), s.calls[i]? = some c → s.calls[j]? = some d →
    claims c.pc → claims d.pc → i = j
  stored : ∀ c ∈ s.calls, claims c.pc → s.table name = if window c.pc then none else some c.pwd

variable {exec : Exec} {name : Bytes} {s t : VerifyCalls} {a : VerifyAct}

/-- All calls register the name. -/
def AllRegister (name : Bytes) (s : VerifyCalls) : Prop := ∀ c ∈ s.calls, Registers name c

theorem single_of_only {i : Nat} {c' : VerifyCall}
    (honly : ∀ (j : Nat) (d : VerifyCall), s.calls[j]? = some d → claims d.pc → i = j ∧ d = c')
    (hstored : s.table name = if window c'.pc then none else some c'.pwd) : Single name s := by
  refine ⟨fun i j d e hd he hclaim hclaim' => ?_, fun d hd hclaim => ?_⟩
  · exact (honly i d hd hclaim).1.symm.trans (honly j e he hclaim').1
  · obtain ⟨j, hj⟩ := List.getElem?_of_mem hd
    obtain ⟨-, rfl⟩ := honly j d hj hclaim
    exact hstored

/-- Call `i` has found no row. -/
def Claimant (s : VerifyCalls) (i : Nat) : Prop := ∃ c, s.calls[i]? = some c ∧ claims c.pc

/-- Call `i` has found no row and has sent its `INSERT`. -/
def Past (s : VerifyCalls) (i : Nat) : Prop :=
  ∃ c, s.calls[i]? = some c ∧ claims c.pc ∧ window c.pc = false

theorem Past.claimant {i : Nat} (h : Past s i) : Claimant s i := by
  obtain ⟨c, hc, hclaims, -⟩ := h
  exact ⟨c, hc, hclaims⟩

/-- Two calls have found no row, or one has sent its `INSERT` and there is still none. -/
def Cheated (name : Bytes) (s : VerifyCalls) : Prop :=
  (∃ i j, i ≠ j ∧ Claimant s i ∧ Claimant s j) ∨ ∃ i, Past s i ∧ s.table name = none

section Step

variable (hexec : Serves exec) (hname : Plain name) (hlen : (selectText name).length ≤ 255)

include hexec hname hlen

theorem step_registers (hall : AllRegister name s) (ht : step exec s a = .ok t) :
    s.calls[a.call]? = none ∧ t = s ∨
      ∃ c pool table c', s.calls[a.call]? = some c ∧ Registers name c' ∧ c'.pwd = c.pwd ∧
      TableMove name s.table a.ok c table c' ∧
      t = { pool, table, calls := s.calls.set a.call c' } := by
  rcases step_eq_ok ht with ⟨hnone, rfl⟩ | ⟨c, pool, table, c', hc, hstep, rfl⟩
  · exact .inl ⟨hnone, rfl⟩
  · have hreg := hall c (List.mem_of_getElem? hc)
    have hargs := args_step hstep
    obtain ⟨hname', hargs⟩ := Prod.mk.inj hargs
    obtain ⟨hpwd', hlogin'⟩ := Prod.mk.inj hargs
    refine .inr ⟨c, pool, table, c', hc, ?_, hpwd', step_table hexec hname hlen hreg hstep, rfl⟩
    exact ⟨hname'.trans hreg.named, hlogin'.trans hreg.isLogin, hpwd' ▸ hreg.plain,
      hpwd' ▸ hreg.fits⟩

/-- **One step without overlap.** -/
theorem step_single (hall : AllRegister name s) (h : Single name s) (hser : Serial name s a)
    (ht : step exec s a = .ok t) : Single name t := by
  rcases step_registers hexec hname hlen hall ht with
    ⟨-, rfl⟩ | ⟨c, pool, table, c', hc, -, hpwd, hm, rfl⟩
  · exact h
  · have hmem := List.mem_of_getElem? hc
    have hser := hser c hc
    cases hm with
    | idle htable hclaims hwindow =>
      -- the calls that have found no row are the same
      have hback : ∀ (j : Nat) (d : VerifyCall), (s.calls.set a.call c')[j]? = some d →
          claims d.pc → ∃ d', s.calls[j]? = some d' ∧ claims d'.pc := by
        intro j d hd hclaim
        rcases Parties.getElem?_set_cases hd with ⟨rfl, rfl⟩ | ⟨-, hd⟩
        · exact ⟨c, hc, hclaims.symm.trans hclaim⟩
        · exact ⟨d, hd, hclaim⟩
      refine ⟨fun i j d e hd he hclaim hclaim' => ?_, fun d hd hclaim => ?_⟩
      · obtain ⟨d', hd', hclaimd⟩ := hback i d hd hclaim
        obtain ⟨e', he', hclaime⟩ := hback j e he hclaim'
        exact h.unique i j d' e' hd' he' hclaimd hclaime
      · simp only [htable]
        rcases List.mem_or_eq_of_mem_set hd with hd | rfl
        · exact h.stored d hd hclaim
        · rw [hwindow, hpwd]
          exact h.stored c hmem (hclaims.symm.trans hclaim)
    | claim sql hpc hok habsent htable hwindow =>
      have hnone : ∀ d ∈ s.calls, ¬claims d.pc := by
        intro d hd hclaim
        rw [hpc] at hser
        have hstored := h.stored d hd hclaim
        rw [hser hok habsent d hd, habsent] at hstored
        cases hstored
      have honly : ∀ (j : Nat) (d : VerifyCall), (s.calls.set a.call c')[j]? = some d →
          claims d.pc → a.call = j ∧ d = c' := by
        intro j d hd hclaim
        rcases Parties.getElem?_set_cases hd with heq | ⟨-, hd⟩
        · exact heq
        · exact absurd hclaim (hnone d (List.mem_of_getElem? hd))
      refine single_of_only honly ?_
      simp only [htable, hwindow, if_true]
      exact habsent
    | insert sql hpc htable hclaims hwindow =>
      have hclaim₀ : claims c.pc := by rw [hpc]; rfl
      have honly : ∀ (j : Nat) (d : VerifyCall), (s.calls.set a.call c')[j]? = some d →
          claims d.pc → a.call = j ∧ d = c' := by
        intro j d hd hclaim
        rcases Parties.getElem?_set_cases hd with heq | ⟨hne, hd⟩
        · exact heq
        · exact absurd (h.unique _ _ c d hc hd hclaim₀ hclaim) hne
      refine single_of_only honly ?_
      rw [hpc] at hser
      have habsent : s.table name = none := by
        have := h.stored c hmem hclaim₀
        rw [hpc] at this
        exact this
      have hok : a.ok = true := hser
      simp only [htable, hwindow, hpwd, hok, habsent, and_self, if_true, Function.update_self]
      rfl

theorem step_allRegister (hall : AllRegister name s) (ht : step exec s a = .ok t) :
    AllRegister name t := by
  rcases step_registers hexec hname hlen hall ht with ⟨-, rfl⟩ | ⟨c, pool, table, c', hc, hreg, -, -, rfl⟩
  · exact hall
  · intro d hd
    rcases List.mem_or_eq_of_mem_set hd with hd | rfl
    · exact hall d hd
    · exact hreg

theorem step_claimant (hall : AllRegister name s) (ht : step exec s a = .ok t) {i : Nat}
    (h : Claimant s i) : Claimant t i := by
  rcases step_registers hexec hname hlen hall ht with ⟨-, rfl⟩ | ⟨c, pool, table, c', hc, -, -, hm, rfl⟩
  · exact h
  · obtain ⟨d, hd, hclaims⟩ := h
    by_cases hi : a.call = i
    · subst hi
      obtain rfl := Option.some.inj (hc.symm.trans hd)
      exact ⟨c', List.getElem?_set_self (List.getElem?_eq_some_iff.1 hc).1, hm.claims hclaims⟩
    · exact ⟨d, (List.getElem?_set_ne hi).trans hd, hclaims⟩

theorem step_past (hall : AllRegister name s) (ht : step exec s a = .ok t) {i : Nat}
    (h : Past s i) : Past t i := by
  rcases step_registers hexec hname hlen hall ht with ⟨-, rfl⟩ | ⟨c, pool, table, c', hc, -, -, hm, rfl⟩
  · exact h
  · obtain ⟨d, hd, hclaims, hwindow⟩ := h
    by_cases hi : a.call = i
    · subst hi
      obtain rfl := Option.some.inj (hc.symm.trans hd)
      exact ⟨c', List.getElem?_set_self (List.getElem?_eq_some_iff.1 hc).1,
        hm.past hclaims hwindow⟩
    · exact ⟨d, (List.getElem?_set_ne hi).trans hd, hclaims, hwindow⟩

/-- A step that changes the table is the `INSERT` of a call. -/
theorem step_changes (hall : AllRegister name s) (ht : step exec s a = .ok t) :
    t.table = s.table ∨ ¬Past s a.call ∧ Past t a.call := by
  rcases step_registers hexec hname hlen hall ht with ⟨-, rfl⟩ | ⟨c, pool, table, c', hc, -, -, hm, rfl⟩
  · exact .inl rfl
  · refine hm.changes.imp_right fun hpast => ⟨?_, ?_⟩
    · rintro ⟨d, hd, -, hwindow⟩
      obtain rfl := Option.some.inj (hc.symm.trans hd)
      rw [hpast.1] at hwindow
      cases hwindow
    · exact ⟨c', List.getElem?_set_self (List.getElem?_eq_some_iff.1 hc).1, hpast.2⟩

/-- A row of the name comes from a call that is past its `INSERT`. -/
theorem step_accounted (hall : AllRegister name s) (ht : step exec s a = .ok t)
    (h : s.table name = none ∨ ∃ i, Past s i) : t.table name = none ∨ ∃ i, Past t i := by
  rcases h with hnone | ⟨i, hi⟩
  · rcases step_changes hexec hname hlen hall ht with hsame | ⟨-, hpast⟩
    · rw [hsame]
      exact .inl hnone
    · exact .inr ⟨a.call, hpast⟩
  · exact .inr ⟨i, step_past hexec hname hlen hall ht hi⟩

omit hexec hname hlen in
/-- Where all calls have returned, a call that has found no row has answered `true`. -/
theorem Claimant.answer {i : Nat} (h : Claimant s i) (hfin : Finished s) :
    ∃ c, s.calls[i]? = some c ∧ c.pc = .returned true := by
  obtain ⟨c, hc, hclaims⟩ := h
  obtain ⟨flag, hpc⟩ := hfin c (List.mem_of_getElem? hc)
  rw [hpc] at hclaims
  cases flag with
  | true => exact ⟨c, hc, hpc⟩
  | false => cases hclaims

omit hexec hname hlen in
theorem Cheated.not_registeredOnce (h : Cheated name s) (hfin : Finished s) :
    ¬RegisteredOnce name s := by
  intro honce
  rcases h with ⟨i, j, hij, hi, hj⟩ | ⟨i, hi, hnone⟩
  · obtain ⟨c, hc, hpc⟩ := hi.answer hfin
    obtain ⟨d, hd, hpc'⟩ := hj.answer hfin
    exact hij (honce.unique i j c d hc hd hpc hpc')
  · obtain ⟨c, hc, hpc⟩ := hi.claimant.answer hfin
    rw [honce.stored c (List.mem_of_getElem? hc) hpc] at hnone
    cases hnone

/-- What is lost is lost: a later `INSERT` is that of a second call. -/
theorem step_cheated (hall : AllRegister name s) (ht : step exec s a = .ok t)
    (h : Cheated name s) : Cheated name t := by
  rcases h with ⟨i, j, hij, hi, hj⟩ | ⟨i, hi, hnone⟩
  · exact .inl ⟨i, j, hij, step_claimant hexec hname hlen hall ht hi,
      step_claimant hexec hname hlen hall ht hj⟩
  · have hi' := step_past hexec hname hlen hall ht hi
    rcases step_changes hexec hname hlen hall ht with hsame | ⟨hbefore, hafter⟩
    · rw [← hsame] at hnone
      exact .inr ⟨i, hi', hnone⟩
    · refine .inl ⟨i, a.call, ?_, hi'.claimant, hafter.claimant⟩
      rintro rfl
      exact hbefore hi

theorem run_cheated {acts : List VerifyAct} (hall : AllRegister name s) (h : Cheated name s)
    (ht : run (step exec) s acts = .ok t) : Cheated name t := by
  have hstep : ∀ s a t, AllRegister name s ∧ Cheated name s → True → step exec s a = .ok t →
      AllRegister name t ∧ Cheated name t := fun s a t h _ ht =>
    ⟨step_allRegister hexec hname hlen h.1 ht, step_cheated hexec hname hlen h.1 ht h.2⟩
  exact (run_safe hstep acts s t ⟨hall, h⟩ (Allowed.of_forall (fun _ _ => trivial) acts s) ht).2

/-- A step that overlaps, or an `INSERT` that fails, is not made good. -/
theorem step_cheats (hall : AllRegister name s) (hacc : s.table name = none ∨ ∃ i, Past s i)
    (hser : ¬Serial name s a) (ht : step exec s a = .ok t) : Cheated name t := by
  rcases step_registers hexec hname hlen hall ht with
    ⟨hnone, rfl⟩ | ⟨c, pool, table, c', hc, -, -, hm, rfl⟩
  · exact absurd (fun c hc => by rw [hnone] at hc; cases hc) hser
  · have hself : (s.calls.set a.call c')[a.call]? = some c' :=
      List.getElem?_set_self (List.getElem?_eq_some_iff.1 hc).1
    have hother : ∀ i, i ≠ a.call → Claimant s i →
        Claimant { pool, table, calls := s.calls.set a.call c' } i := by
      rintro i hi ⟨d, hd, hclaims⟩
      exact ⟨d, (List.getElem?_set_ne hi.symm).trans hd, hclaims⟩
    have hbad : ¬SerialPc name s a.ok c.pc := by
      intro hgood
      apply hser
      intro d hd
      obtain rfl := Option.some.inj (hc.symm.trans hd)
      exact hgood
    cases hm with
    | idle _ _ _ hpc =>
      -- such a step is none of the two
      exfalso
      apply hbad
      cases hcase : c.pc with
      | select sql => exact fun hok habsent => absurd ⟨hok, habsent⟩ ((hpc sql).1 hcase)
      | insert sql => exact absurd hcase (hpc sql).2
      | _ => trivial
    | claim sql hpc hok habsent htable hwindow =>
      rw [hpc] at hbad
      have hoverlap : ∃ d ∈ s.calls, window d.pc := by
        by_contra hnone
        apply hbad
        intro _ _ d hd
        exact Bool.eq_false_iff.2 fun hw => hnone ⟨d, hd, hw⟩
      obtain ⟨d, hd, hw⟩ := hoverlap
      obtain ⟨j, hj⟩ := List.getElem?_of_mem hd
      have hne : j ≠ a.call := by
        rintro rfl
        obtain rfl := Option.some.inj (hc.symm.trans hj)
        rw [hpc] at hw
        cases hw
      exact .inl ⟨j, a.call, hne, hother j hne ⟨d, hj, claims_of_window hw⟩,
        ⟨c', hself, claims_of_window hwindow⟩⟩
    | insert sql hpc htable hclaims hwindow =>
      rw [hpc] at hbad
      have hsame : table = s.table := by
        rw [htable, if_neg]
        exact fun h => hbad h.1
      have hpast : Past { pool, table, calls := s.calls.set a.call c' } a.call :=
        ⟨c', hself, hclaims, hwindow⟩
      rcases hacc with hnone | ⟨i, hi⟩
      · exact .inr ⟨a.call, hpast, by rw [← hsame] at hnone; exact hnone⟩
      · have hne : i ≠ a.call := by
          rintro rfl
          obtain ⟨d, hd, -, hw⟩ := hi
          obtain rfl := Option.some.inj (hc.symm.trans hd)
          rw [hpc] at hw
          cases hw
        exact .inl ⟨i, a.call, hne, hother i hne hi.claimant, hpast.claimant⟩

/-- Where the answers are right in the end, no two calls overlapped and no `INSERT` failed. -/
theorem serial_of_registeredOnce (acts : List VerifyAct) : ∀ (s : VerifyCalls),
    AllRegister name s → (s.table name = none ∨ ∃ i, Past s i) →
    run (step exec) s acts = .ok t → Finished t → RegisteredOnce name t →
    Allowed (step exec) (Serial name) s acts := by
  induction acts with
  | nil => intro s _ _ _ _ _; trivial
  | cons a acts ih =>
    intro s hall hacc ht hfin honce
    rw [run_cons, bind_eq_ok] at ht
    obtain ⟨u, hu, ht⟩ := ht
    have hall' := step_allRegister hexec hname hlen hall hu
    refine ⟨?_, ?_⟩
    · by_contra hser
      have hcheat := step_cheats hexec hname hlen hall hacc hser hu
      exact (run_cheated hexec hname hlen hall' hcheat ht).not_registeredOnce hfin honce
    · rw [hu]
      exact ih u hall' (step_accounted hexec hname hlen hall hu hacc) ht hfin honce

end Step

theorem start_allRegister (pool : SqlConnPool) (table : Table) (pwds : List Bytes)
    (hpwds : ∀ pwd ∈ pwds, Plain pwd ∧ (insertText name pwd).length ≤ 255) :
    AllRegister name (start pool table (pwds.map fun pwd => (name, pwd, false))) := by
  intro c hc
  obtain ⟨arg, harg, rfl⟩ := List.mem_map.1 hc
  obtain ⟨pwd, hpwd, rfl⟩ := List.mem_map.1 harg
  exact ⟨rfl, rfl, (hpwds pwd hpwd).1, (hpwds pwd hpwd).2⟩

theorem start_single (pool : SqlConnPool) (table : Table) (args : List (Bytes × Bytes × Bool)) :
    Single name (start pool table args) := by
  have hnone : ∀ c ∈ (start pool table args).calls, ¬claims c.pc := by
    intro c hc
    obtain ⟨arg, -, rfl⟩ := List.mem_map.1 hc
    nofun
  exact ⟨fun i j c d hc _ hclaims => absurd hclaims (hnone c (List.mem_of_getElem? hc)),
    fun c hc hclaims => absurd hclaims (hnone c hc)⟩

theorem Single.registeredOnce (h : Single name s) : RegisteredOnce name s := by
  constructor
  · intro i j c d hc hd hpc hpc'
    exact h.unique i j c d hc hd (by rw [hpc]; rfl) (by rw [hpc']; rfl)
  · intro c hc hpc
    have hstored := h.stored c hc (by rw [hpc]; rfl)
    rw [hpc] at hstored
    exact hstored

/-- **When a name is registered once.**  Take any run of any number of registrations of one new name,
with any passwords, over any pool.  If no call finds the name absent while another is between such
a `SELECT` and its `INSERT`, and no `INSERT` fails, then at most one call has answered `true`, and the
table has its password; where all calls have returned, this holds only then. -/
theorem register_once (exec : Exec) (hexec : Serves exec) (name : Bytes) (hname : Plain name)
    (hlen : (selectText name).length ≤ 255) (pwds : List Bytes)
    (hpwds : ∀ pwd ∈ pwds, Plain pwd ∧ (insertText name pwd).length ≤ 255) (pool : SqlConnPool)
    (table : Table) (habsent : table name = none) (acts : List VerifyAct) (s : VerifyCalls)
    (hs : run (step exec) (start pool table (pwds.map fun pwd => (name, pwd, false))) acts = .ok s) :
    (Allowed (step exec) (Serial name)
        (start pool table (pwds.map fun pwd => (name, pwd, false))) acts → RegisteredOnce name s) ∧
      (Finished s → RegisteredOnce name s → Allowed (step exec) (Serial name)
        (start pool table (pwds.map fun pwd => (name, pwd, false))) acts) := by
  have hall := start_allRegister pool table pwds hpwds
  constructor
  · intro hser
    have hstep : ∀ s a t, AllRegister name s ∧ Single name s → Serial name s a →
        step exec s a = .ok t → AllRegister name t ∧ Single name t := fun s a t h hser ht =>
      ⟨step_allRegister hexec hname hlen h.1 ht, step_single hexec hname hlen h.1 h.2 hser ht⟩
    exact (run_safe hstep acts _ s ⟨hall, start_single pool table _⟩ hser hs).2.registeredOnce
  · intro hfin honce
    exact serial_of_registeredOnce hexec hname hlen acts _ hall (.inl habsent) hs hfin honce

/-- Two calls, one after the other. -/
theorem register_once_sample :
    ∃ s, run (step plainServer) (start ⟨[some 7], 1, none⟩ (fun _ => none)
        ([str "a", str "b"].map fun pwd => (str "eve", pwd, false)))
        (List.replicate 20 ⟨0, true⟩ ++ List.replicate 20 ⟨1, true⟩) = .ok s ∧
      s.calls.map VerifyCall.pc = [.returned true, .returned false] ∧
      RegisteredOnce (str "eve") s := by
  obtain ⟨s, hs, hpc⟩ := map_eq_ok.1 (show (run (step plainServer) (start ⟨[some 7], 1, none⟩
    (fun _ => none) ([str "a", str "b"].map fun pwd => (str "eve", pwd, false)))
      (List.replicate 20 ⟨0, true⟩ ++ List.replicate 20 ⟨1, true⟩)).map
      (fun s => s.calls.map VerifyCall.pc) = .ok [.returned true, .returned false] by decide +kernel)
  exact ⟨s, hs, hpc, (register_once plainServer plainServer_serves (str "eve") (by decide) (by decide)
    [str "a", str "b"] (by decide) ⟨[some 7], 1, none⟩ (fun _ => none) rfl _ s hs).1
    (by decide +kernel)⟩

/-- Two calls that send their `SELECT` before any `INSERT`: both answer `true`, and the second
password is lost. -/
theorem register_twice :
    ∃ s, run (step plainServer) (start ⟨[some 7, some 8], 2, none⟩ (fun _ => none)
        ([str "a", str "b"].map fun pwd => (str "eve", pwd, false)))
        (List.replicate 14 ⟨0, true⟩ ++ List.replicate 20 ⟨1, true⟩ ++ List.replicate 6 ⟨0, true⟩) =
          .ok s ∧
      s.calls.map VerifyCall.pc = [.returned true, .returned true] ∧
      s.table (str "eve") = some (str "b") ∧ ¬RegisteredOnce (str "eve") s := by
  obtain ⟨s, hs, hview⟩ := map_eq_ok.1 (show (run (step plainServer) (start
    ⟨[some 7, some 8], 2, none⟩ (fun _ => none)
      ([str "a", str "b"].map fun pwd => (str "eve", pwd, false)))
      (List.replicate 14 ⟨0, true⟩ ++ List.replicate 20 ⟨1, true⟩ ++ List.replicate 6 ⟨0, true⟩)).map
      (fun s => (s.calls.map VerifyCall.pc, s.table (str "eve"))) =
      .ok ([.returned true, .returned true], some (str "b")) by decide +kernel)
  obtain ⟨hpc, htable⟩ := Prod.mk.inj hview
  refine ⟨s, hs, hpc, htable, fun honce => ?_⟩
  obtain ⟨c, rest, hcalls, hpc₀, hrest⟩ := List.map_eq_cons_iff.1 hpc
  obtain ⟨d, rest', hcalls', hpc₁, -⟩ := List.map_eq_cons_iff.1 hrest
  subst hcalls'
  have heq := honce.unique 0 1 c d (by rw [hcalls]; rfl) (by rw [hcalls]; rfl) hpc₀ hpc₁
  cases heq

end VerifyCalls
