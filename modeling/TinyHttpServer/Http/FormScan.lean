import TinyHttpServer.Http.HttpRequest
import TinyHttpServer.Lib.Assoc

/-!
# The decoding of a form as a scan of its bytes

`ParseFromUrlencoded_` works with two positions in `body_`, which it rewrites as it goes.
`FormScan.scan` is the same loop on the bytes ahead: what stands between the two positions is the
component that is being read.  It has no value where the loop looks behind the end of the body.

* `parseFromUrlencoded_eq` — the decoding of a form is the scan of its body.
* `escapesComplete` — two bytes stand behind every `'%'` that the loop comes to.
* `parseFromUrlencoded_returns_iff` — the decoding returns exactly then.
-/

set_option autoImplicit false

open Checked

namespace HttpRequest

/-! ## The scan -/

/-- What the loop has at a byte of the body: the map, the key, and the bytes from `j` on as they have
been rewritten. -/
structure FormScan where
  post : Bytes → Option Bytes
  key : Bytes
  part : Bytes

/-- What the loop makes of a `'%'` and the two bytes behind it. -/
def escaped (high low : UInt8) : Bytes :=
  let num := converHex high * 16 + converHex low
  [37, intChar (num.tdiv 10 + 48), intChar (num.tmod 10 + 48)]

namespace FormScan

/-- A byte other than `'%'`. -/
def byte (f : FormScan) (b : UInt8) : FormScan :=
  if b = 61 then { f with key := f.part, part := [] }
  else if b = 43 then { f with part := f.part ++ [SP] }
  else if b = 38 then { f with post := Assoc.enter f.post (f.key, f.part), part := [] }
  else { f with part := f.part ++ [b] }

/-- The loop on the bytes ahead. -/
def scan (f : FormScan) : Bytes → Option FormScan
  | [] => some f
  | b :: rest =>
    if b = 37 then
      match rest with
      | high :: low :: rest => scan { f with part := f.part ++ escaped high low } rest
      | _ => none
    else scan (f.byte b) rest

/-- What stands behind the loop. -/
def finish (f : FormScan) : Bytes → Option Bytes :=
  if f.post f.key = none ∧ f.part ≠ [] then Assoc.enter f.post (f.key, f.part) else f.post

/-- The scan at the start of a body. -/
def start (post : Bytes → Option Bytes) : FormScan := { post, key := [], part := [] }

theorem scan_nil (f : FormScan) : f.scan [] = some f := rfl

theorem scan_escape (f : FormScan) (high low : UInt8) (rest : Bytes) :
    f.scan (37 :: high :: low :: rest) = scan { f with part := f.part ++ escaped high low } rest := by
  rw [scan, if_pos rfl]

theorem scan_byte (f : FormScan) {b : UInt8} (hb : b ≠ 37) (rest : Bytes) :
    f.scan (b :: rest) = (f.byte b).scan rest := by
  rw [scan.eq_def]
  exact if_neg hb

theorem scan_truncated (f : FormScan) {rest : Bytes} (hrest : rest.length < 2) :
    f.scan (37 :: rest) = none := by
  match rest with
  | [] => rfl
  | [_] => rfl
  | _ :: _ :: _ =>
    simp only [List.length_cons] at hrest
    omega

end FormScan

/-! ## The loop -/

theorem charAt_append (pre : Bytes) (b : UInt8) (rest : Bytes) :
    charAt (pre ++ b :: rest) pre.length = .ok b := by
  have hlt : pre.length ≠ (pre ++ b :: rest).length := by
    rw [List.length_append, List.length_cons]
    omega
  rw [charAt, if_neg hlt]
  exact nth_of_some (by simp)

theorem setChar_append (pre : Bytes) (b : UInt8) (rest : Bytes) (x : UInt8) :
    setChar (pre ++ b :: rest) pre.length x = .ok (pre ++ x :: rest) := by
  have hlt : pre.length < (pre ++ b :: rest).length := by
    rw [List.length_append, List.length_cons]
    omega
  rw [setChar, if_pos hlt]
  simp

theorem substr_append (done part rest : Bytes) :
    substr (done ++ (part ++ rest)) done.length part.length = .ok part := by
  have hle : done.length ≤ (done ++ (part ++ rest)).length := by
    rw [List.length_append]
    omega
  rw [substr, if_pos hle]
  simp

/-- The variables of the loop and the scan agree: `done` has been cut into components, and `rest`
has not been looked at. -/
structure ScanAt (s : FormState) (f : FormScan) (done rest : Bytes) : Prop where
  body : s.body = done ++ (f.part ++ rest)
  start : s.j = done.length
  here : s.i = (done ++ f.part).length
  post : s.post = f.post
  key : s.key = f.key

section Loop

variable {s : FormState} {f : FormScan} {done rest : Bytes} {b : UInt8}

theorem ScanAt.length (h : ScanAt s f done rest) : s.body.length = s.i + rest.length := by
  rw [h.body, h.here, ← List.append_assoc, List.length_append]

theorem ScanAt.part_length (h : ScanAt s f done rest) : s.i - s.j = f.part.length := by
  rw [h.here, h.start, List.length_append]
  omega

theorem ScanAt.substr (h : ScanAt s f done rest) : substr s.body s.j (s.i - s.j) = .ok f.part := by
  rw [h.part_length, h.body, h.start]
  exact substr_append done f.part rest

theorem ScanAt.charAt (h : ScanAt s f done (b :: rest)) : charAt s.body s.i = .ok b := by
  rw [h.body, h.here, ← List.append_assoc]
  exact charAt_append _ b rest

/-- A byte other than `'%'`. -/
theorem formSwitch_byte (h : ScanAt s f done (b :: rest)) (hb : b ≠ 37) :
    ∃ t done', formSwitch s b = .ok t ∧ t.body.length = s.body.length ∧
      ScanAt { t with i := t.i + 1 } (f.byte b) done' rest := by
  have hnext : ∀ x : UInt8, s.i + 1 = (done ++ (f.part ++ [x])).length := by
    intro x
    rw [h.here, List.length_append, List.length_append, List.length_append, List.length_singleton]
    omega
  have hcut : s.body = done ++ f.part ++ [b] ++ ([] ++ rest) := by
    rw [h.body]
    simp
  unfold formSwitch FormScan.byte
  by_cases heq : b = 61
  · rw [if_pos heq, if_pos heq, h.substr]
    exact ⟨_, done ++ f.part ++ [b], rfl, rfl, hcut, by simpa using hnext b, by simpa using hnext b,
      h.post, rfl⟩
  rw [if_neg heq, if_neg heq]
  by_cases hplus : b = 43
  · have hset : setChar s.body s.i SP = .ok (done ++ f.part ++ SP :: rest) := by
      rw [h.body, h.here, ← List.append_assoc]
      exact setChar_append _ b rest SP
    rw [if_pos hplus, if_pos hplus, hset]
    exact ⟨_, done, rfl, by simp [h.body], by simp, h.start, hnext SP, h.post, h.key⟩
  rw [if_neg hplus, if_neg hplus, if_neg hb]
  by_cases hamp : b = 38
  · rw [if_pos hamp, if_pos hamp, h.substr]
    refine ⟨_, done ++ f.part ++ [b], rfl, rfl, hcut, by simpa using hnext b,
      by simpa using hnext b, ?_, h.key⟩
    simp only [h.post, h.key]
    rfl
  · rw [if_neg hamp, if_neg hamp]
    exact ⟨s, done, rfl, rfl, by rw [h.body]; simp, h.start, hnext b, h.post, h.key⟩

/-- A `'%'` with two bytes behind it. -/
theorem formSwitch_escape {high low : UInt8} (h : ScanAt s f done (37 :: high :: low :: rest)) :
    ∃ t, formSwitch s 37 = .ok t ∧ t.body.length = s.body.length ∧
      ScanAt { t with i := t.i + 1 } { f with part := f.part ++ escaped high low } done rest := by
  obtain ⟨pre, hpre⟩ : ∃ pre, pre = done ++ f.part := ⟨_, rfl⟩
  have hhere : s.i = pre.length := by rw [h.here, hpre]
  have hbody : s.body = pre ++ 37 :: high :: low :: rest := by
    rw [h.body, hpre, List.append_assoc]
  have hi₁ : s.i + 1 = (pre ++ [37]).length := by simp [hhere]
  have hi₂ : s.i + 2 = (pre ++ [37, high]).length := by simp [hhere]
  have hhigh : charAt s.body (s.i + 1) = .ok high := by
    rw [hi₁, hbody, List.append_cons pre]
    exact charAt_append _ high _
  have hlow : charAt s.body (s.i + 2) = .ok low := by
    have happ : s.body = pre ++ [37, high] ++ low :: rest := by simp [hbody]
    rw [hi₂, happ]
    exact charAt_append _ low rest
  -- the second byte is written first
  have hset₂ : ∀ x, setChar s.body (s.i + 2) x = .ok (pre ++ [37] ++ high :: x :: rest) := by
    intro x
    have happ : s.body = pre ++ [37, high] ++ low :: rest := by simp [hbody]
    rw [hi₂, happ, setChar_append]
    simp
  have hset₁ : ∀ x y, setChar (pre ++ [37] ++ high :: x :: rest) (s.i + 1) y =
      .ok (pre ++ [37] ++ y :: x :: rest) := by
    intro x y
    rw [hi₁]
    exact setChar_append _ high _ y
  have hswitch : formSwitch s 37 = decodeEscape s := rfl
  rw [hswitch, decodeEscape]
  simp only [hhigh, hlow, hset₂, hset₁, ok_bind]
  refine ⟨_, rfl, by simp [hbody], ?_, h.start, ?_, h.post, h.key⟩
  · simp [hpre, escaped]
  · simp [hhere, hpre, escaped]
    omega

/-- A `'%'` near the end of the body. -/
theorem formSwitch_truncated (h : ScanAt s f done (37 :: rest)) (hrest : rest.length < 2) :
    formSwitch s 37 = .error .outOfRange := by
  have hlen : s.body.length = s.i + (rest.length + 1) := h.length
  have hswitch : formSwitch s 37 = decodeEscape s := rfl
  have hout : ∀ x, setChar s.body (s.i + 2) x = .error .outOfRange := by
    intro x
    rw [setChar, if_neg (by omega)]
  rw [hswitch, decodeEscape]
  by_cases hlast : rest.length = 0
  · -- the second byte lies behind the terminating zero
    have hhigh : charAt s.body (s.i + 1) = .ok 0 := by
      rw [HttpRequest.charAt, if_pos (by omega)]
      rfl
    have hlow : charAt s.body (s.i + 2) = .error .outOfRange := by
      rw [HttpRequest.charAt, if_neg (by omega), nth, List.getElem?_eq_none (by omega)]
    simp only [hhigh, hlow, ok_bind, error_bind]
  · -- the second byte is the terminating zero, which is overwritten
    have hhigh : ∃ x, charAt s.body (s.i + 1) = .ok x := by
      rw [HttpRequest.charAt, if_neg (by omega)]
      exact ⟨_, nth_of_some (List.getElem?_eq_getElem (by omega))⟩
    obtain ⟨x, hhigh⟩ := hhigh
    have hlow : charAt s.body (s.i + 2) = .ok 0 := by
      rw [HttpRequest.charAt, if_pos (by omega)]
      rfl
    simp only [hhigh, hlow, ok_bind, hout, error_bind]

/-- The end of the loop, against the end of the scan. -/
inductive ScanEnd (n : Nat) : Checked FormState → Option FormScan → Prop
  | ok {t : FormState} {g : FormScan} {done : Bytes} (hlen : t.body.length = n)
      (h : ScanAt t g done []) : ScanEnd n (.ok t) (some g)
  | error : ScanEnd n (.error .outOfRange) none

/-- **The loop of `ParseFromUrlencoded_`** does what the scan of the bytes ahead does. -/
theorem formLoop_scan {n : Nat} (fuel : Nat) : ∀ (s : FormState) (f : FormScan) (done rest : Bytes),
    s.body.length = n → ScanAt s f done rest → rest.length < fuel →
      ScanEnd n (formLoop n fuel s) (f.scan rest) := by
  induction fuel with
  | zero => intro s f done rest _ _ hfuel; omega
  | succ fuel ih =>
    intro s f done rest hn h hfuel
    have hlen := h.length
    unfold formLoop
    cases rest with
    | nil =>
      rw [List.length_nil] at hlen
      rw [if_neg (by omega)]
      exact .ok hn h
    | cons b rest =>
      rw [List.length_cons] at hfuel hlen
      rw [if_pos (by omega), h.charAt, ok_bind]
      by_cases hb : b = 37
      · subst hb
        by_cases hrest : rest.length < 2
        · rw [formSwitch_truncated h hrest, f.scan_truncated hrest]
          exact .error
        · match rest with
          | [] | [_] => exact absurd (by simp) hrest
          | high :: low :: rest =>
            obtain ⟨t, ht, htn, hat⟩ := formSwitch_escape h
            rw [ht, ok_bind, f.scan_escape]
            simp only [List.length_cons] at hfuel
            exact ih _ _ done rest (htn.trans hn) hat (by omega)
      · obtain ⟨t, done', ht, htn, hat⟩ := formSwitch_byte h hb
        rw [ht, ok_bind, f.scan_byte hb]
        exact ih _ _ done' rest (htn.trans hn) hat (by omega)

/-- **The decoding of a form is the scan of its body.** -/
theorem parseFromUrlencoded_eq (req : HttpRequest) :
    match (FormScan.start req.post).scan req.body with
    | some f => ∃ body, req.parseFromUrlencoded = .ok { req with body, post := f.finish }
    | none => req.parseFromUrlencoded = .error .outOfRange := by
  unfold parseFromUrlencoded
  by_cases hempty : req.body.length = 0
  · rw [if_pos hempty]
    have hnil : req.body = [] := List.eq_nil_of_length_eq_zero hempty
    rw [hnil, FormScan.scan_nil]
    refine ⟨[], ?_⟩
    simp [FormScan.finish, FormScan.start, ← hnil]
  · rw [if_neg hempty]
    have hloop := formLoop_scan (req.body.length + 1)
      { body := req.body, post := req.post, key := [], i := 0, j := 0 } (FormScan.start req.post) []
      req.body rfl ⟨rfl, rfl, rfl, rfl, rfl⟩ (Nat.lt_succ_self _)
    generalize formLoop req.body.length (req.body.length + 1) _ = x,
      (FormScan.start req.post).scan req.body = y at hloop
    cases hloop with
    | error => rfl
    | ok hn h =>
      rename_i t g done
      have hle : t.j ≤ t.i := by rw [h.start, h.here, List.length_append]; omega
      have hpart : t.j < t.i ↔ g.part ≠ [] := by
        rw [← List.length_pos_iff, ← h.part_length]
        omega
      refine ⟨t.body, ?_⟩
      simp only [ok_bind, require_of hle, h.post, h.key, hpart, FormScan.finish,
        Option.isNone_iff_eq_none]
      by_cases hstore : g.post g.key = none ∧ g.part ≠ []
      · rw [if_pos hstore, if_pos hstore, h.substr]
        rfl
      · rw [if_neg hstore, if_neg hstore]
        rfl

end Loop

/-! ## When the decoding returns -/

/-- Two bytes stand behind every `'%'` that is not among the two bytes behind another. -/
def escapesComplete : Bytes → Bool
  | [] => true
  | [b] => b ≠ 37
  | [b, c] => b ≠ 37 && c ≠ 37
  | b :: c :: d :: rest =>
    if b = 37 then escapesComplete rest else escapesComplete (c :: d :: rest)

theorem escapesComplete_cons {b : UInt8} (hb : b ≠ 37) (rest : Bytes) :
    escapesComplete (b :: rest) = escapesComplete rest := by
  match rest with
  | [] => simp [escapesComplete, hb]
  | [c] => simp [escapesComplete, hb]
  | c :: d :: rest => rw [escapesComplete, if_neg hb]

theorem escapesComplete_truncated {rest : Bytes} (hrest : rest.length < 2) :
    escapesComplete (37 :: rest) = false := by
  match rest with
  | [] => rfl
  | [_] => rfl
  | _ :: _ :: _ =>
    simp only [List.length_cons] at hrest
    omega

/-- The scan gets through exactly when the escapes are complete. -/
theorem FormScan.scan_isSome (f : FormScan) (rest : Bytes) :
    (f.scan rest).isSome = escapesComplete rest := by
  fun_induction FormScan.scan f rest with
  | case1 f => rfl
  | case2 f high low rest ih => rw [ih, escapesComplete, if_pos rfl]
  | case3 f rest hshort =>
    have hrest : rest.length < 2 := by
      match rest with
      | [] | [_] => simp
      | high :: low :: rest => exact absurd rfl (hshort high low rest)
    rw [escapesComplete_truncated hrest]
    rfl
  | case4 f b rest hb ih => rw [ih, escapesComplete_cons hb]

/-- **The decoding of a form returns exactly when its escapes are complete.** -/
theorem parseFromUrlencoded_returns_iff (req : HttpRequest) :
    (∃ req', req.parseFromUrlencoded = .ok req') ↔ escapesComplete req.body = true := by
  have heq := parseFromUrlencoded_eq req
  rw [← FormScan.scan_isSome (FormScan.start req.post)]
  cases hscan : (FormScan.start req.post).scan req.body with
  | some f =>
    rw [hscan] at heq
    obtain ⟨body, h⟩ := heq
    exact ⟨fun _ => rfl, fun _ => ⟨_, h⟩⟩
  | none =>
    rw [hscan] at heq
    rw [heq]
    exact ⟨nofun, nofun⟩

end HttpRequest
