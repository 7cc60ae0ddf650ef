import TinyHttpServer.Http.FormScan

/-!
# The accesses of the decoding of a form

`formAccesses` lists what `ParseFromUrlencoded_` does with `body_` in the order in which it does it:
the subscripts that are read or written, the starts of the substrings, and the assertion behind the
loop.  The list ends at the first access that leaves the string, since nothing can be said of what
comes after it.

* `form_accesses_in_range_iff` — they are all in range exactly when the escapes are complete.
* `truncated_escape_accesses` — a body that ends within an escape.
-/

set_option autoImplicit false

open Checked

namespace HttpRequest

/-- What `ParseFromUrlencoded_` does with `body_`. -/
inductive FormAccess where
  /-- `body_[k]` is read or written -/
  | subscript (k : Nat)
  /-- `body_.substr` from position `j` on -/
  | substr (j : Nat)
  /-- `assert(j <= i)` -/
  | assertion (j i : Nat)
  deriving DecidableEq, Repr

/-- The access is as it should be for a string of `size` bytes. -/
def FormAccess.InRange (size : Nat) : FormAccess → Prop
  | .subscript k => k < size
  | .substr j => j ≤ size
  | .assertion j i => j ≤ i

instance (size : Nat) : ∀ a : FormAccess, Decidable (a.InRange size)
  | .subscript k => inferInstanceAs (Decidable (k < size))
  | .substr j => inferInstanceAs (Decidable (j ≤ size))
  | .assertion j i => inferInstanceAs (Decidable (j ≤ i))

/-- The accesses of the `switch`. -/
def switchAccesses (s : FormState) (ch : UInt8) : List FormAccess :=
  if ch = 61 then [.substr s.j]
  else if ch = 43 then [.subscript s.i]
  else if ch = 37 then
    [.subscript (s.i + 1), .subscript (s.i + 2), .subscript (s.i + 2), .subscript (s.i + 1)]
  else if ch = 38 then [.substr s.j]
  else []

/-- The accesses of the loop, and of what stands behind it. -/
def loopAccesses (n : Nat) : Nat → FormState → List FormAccess
  | 0, _ => []
  | fuel + 1, s =>
    if s.i < n then
      .subscript s.i ::
        match charAt s.body s.i with
        | .error _ => []
        | .ok ch => switchAccesses s ch ++
          match formSwitch s ch with
          | .error _ => []
          | .ok s => loopAccesses n fuel { s with i := s.i + 1 }
    else .assertion s.j s.i :: if (s.post s.key).isNone ∧ s.j < s.i then [.substr s.j] else []

/-- The accesses of `ParseFromUrlencoded_`. -/
def formAccesses (req : HttpRequest) : List FormAccess :=
  if req.body.length = 0 then []
  else loopAccesses req.body.length (req.body.length + 1)
    { body := req.body, post := req.post, key := [], i := 0, j := 0 }

section Loop

variable {s : FormState} {f : FormScan} {done rest : Bytes} {b : UInt8}

theorem ScanAt.start_le (h : ScanAt s f done rest) : s.j ≤ s.i := by
  rw [h.start, h.here, List.length_append]
  omega

/-- At a byte other than `'%'` all accesses are in range. -/
theorem switchAccesses_byte (h : ScanAt s f done (b :: rest)) (hb : b ≠ 37) :
    ∀ a ∈ switchAccesses s b, a.InRange s.body.length := by
  have hlen : s.body.length = s.i + (rest.length + 1) := h.length
  have hstart := h.start_le
  have hsub : ∀ a ∈ [FormAccess.substr s.j], a.InRange s.body.length := by
    intro a ha
    rw [List.mem_singleton.1 ha]
    show s.j ≤ s.body.length
    omega
  unfold switchAccesses
  rw [if_neg hb]
  split
  · exact hsub
  · split
    · intro a ha
      rw [List.mem_singleton.1 ha]
      show s.i < s.body.length
      omega
    · split
      · exact hsub
      · nofun

/-- At a `'%'` they are in range when two bytes stand behind it. -/
theorem switchAccesses_escape_iff (h : ScanAt s f done (37 :: rest)) :
    (∀ a ∈ switchAccesses s 37, a.InRange s.body.length) ↔ 2 ≤ rest.length := by
  have hlen : s.body.length = s.i + (rest.length + 1) := h.length
  have hlist : switchAccesses s 37 =
      [.subscript (s.i + 1), .subscript (s.i + 2), .subscript (s.i + 2), .subscript (s.i + 1)] := rfl
  rw [hlist]
  constructor
  · intro hall
    have hfar : s.i + 2 < s.body.length := hall (.subscript (s.i + 2)) (by simp)
    omega
  · intro htwo a ha
    have hnear : (FormAccess.subscript (s.i + 1)).InRange s.body.length := by
      show s.i + 1 < s.body.length
      omega
    have hfar : (FormAccess.subscript (s.i + 2)).InRange s.body.length := by
      show s.i + 2 < s.body.length
      omega
    simp only [List.mem_cons, List.not_mem_nil, or_false] at ha
    rcases ha with rfl | rfl | rfl | rfl
    · exact hnear
    · exact hfar
    · exact hfar
    · exact hnear

theorem loopAccesses_iff {n : Nat} (fuel : Nat) : ∀ (s : FormState) (f : FormScan)
    (done rest : Bytes), s.body.length = n → ScanAt s f done rest → rest.length < fuel →
      ((∀ a ∈ loopAccesses n fuel s, a.InRange n) ↔ escapesComplete rest = true) := by
  induction fuel with
  | zero => intro s f done rest _ _ hfuel; omega
  | succ fuel ih =>
    intro s f done rest hn h hfuel
    have hlen := h.length
    unfold loopAccesses
    cases rest with
    | nil =>
      have hstart := h.start_le
      rw [List.length_nil] at hlen
      rw [if_neg (by omega), List.forall_mem_cons]
      refine iff_of_true ⟨hstart, ?_⟩ rfl
      split
      · intro a ha
        rw [List.mem_singleton.1 ha]
        show s.j ≤ n
        omega
      · nofun
    | cons b rest =>
      rw [List.length_cons] at hfuel hlen
      have hhere : (FormAccess.subscript s.i).InRange n := by
        show s.i < n
        omega
      rw [if_pos (by omega), h.charAt, List.forall_mem_cons, and_iff_right hhere]
      simp only [List.forall_mem_append]
      by_cases hb : b = 37
      · subst hb
        have hswitch := switchAccesses_escape_iff h
        rw [hn] at hswitch
        rw [hswitch]
        match rest with
        | [] | [_] => simp [escapesComplete]
        | high :: low :: rest =>
          obtain ⟨t, ht, htn, hat⟩ := formSwitch_escape h
          simp only [List.length_cons] at hfuel
          rw [escapesComplete, if_pos rfl, ht, and_iff_right (by simp)]
          exact ih _ _ done rest (htn.trans hn) hat (by omega)
      · obtain ⟨t, done', ht, htn, hat⟩ := formSwitch_byte h hb
        have hswitch := switchAccesses_byte h hb
        rw [hn] at hswitch
        rw [escapesComplete_cons hb, ht, and_iff_right hswitch]
        exact ih _ _ done' rest (htn.trans hn) hat (by omega)

end Loop

/-- The accesses are those of the model: it returns exactly when all of them are in range. -/
theorem returns_iff_in_range (req : HttpRequest) :
    (∃ req', req.parseFromUrlencoded = .ok req') ↔
      ∀ a ∈ req.formAccesses, a.InRange req.body.length := by
  rw [parseFromUrlencoded_returns_iff]
  unfold formAccesses
  by_cases hempty : req.body.length = 0
  · rw [if_pos hempty, List.eq_nil_of_length_eq_zero hempty]
    exact iff_of_true rfl nofun
  · rw [if_neg hempty]
    exact (loopAccesses_iff (req.body.length + 1)
      { body := req.body, post := req.post, key := [], i := 0, j := 0 } (FormScan.start req.post) []
      req.body rfl ⟨rfl, rfl, rfl, rfl, rfl⟩ (Nat.lt_succ_self _)).symm

/-- **In-range decoding.**  Every subscript of `body_` is below its size, every substring starts
inside it and the assertion holds, if and only if two bytes stand behind every `'%'` that is not
among the two bytes behind another. -/
theorem form_accesses_in_range_iff (req : HttpRequest) :
    (∀ a ∈ req.formAccesses, a.InRange req.body.length) ↔ escapesComplete req.body = true := by
  rw [← returns_iff_in_range, parseFromUrlencoded_returns_iff]

/-- The body `%`: the third byte of a string of one byte is read and written. -/
theorem truncated_escape_accesses :
    ¬∀ a ∈ formAccesses { init with body := str "%" }, a.InRange (str "%").length := by
  intro hall
  have hfar : (FormAccess.subscript 2).InRange (str "%").length := hall _ (by decide +kernel)
  revert hfar
  decide

end HttpRequest
