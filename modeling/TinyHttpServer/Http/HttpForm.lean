import TinyHttpServer.Http.FormScan
import TinyHttpServer.Http.HttpParse

/-!
# When the parser returns

The only accesses of the parser that can leave a string are those of `ParseFromUrlencoded_` behind a
`'%'`: it reads and writes two bytes there without looking at the end of the body.

* `bodyLine` — the line that `parse` hands to `ParseBody_`.
* `parseBytes_returns_iff` — `parse` returns exactly when such a line of a form is complete.
-/

set_option autoImplicit false

open Checked Lines

namespace HttpRequest

/-! ## The parser -/

/-- The request is a form that `ParsePost_` decodes. -/
def isForm (req : HttpRequest) : Bool :=
  req.method = str "POST" ∧
    req.header (str "Content-Type") = some (str "application/x-www-form-urlencoded")

variable (verify : Bytes → Bytes → Bool → Bool)

theorem parsePost_form {req : HttpRequest} (h : req.isForm = true) :
    parsePost verify req = req.parseFromUrlencoded.map fun req => req.verifyForm verify := by
  obtain ⟨hmethod, htype⟩ : req.method = str "POST" ∧
      req.header (str "Content-Type") = some (str "application/x-www-form-urlencoded") := by
    simpa [isForm] using h
  have hsub : subscript req.header (str "Content-Type") =
      (str "application/x-www-form-urlencoded", req.header) := by
    rw [subscript, htype]
  rw [parsePost, if_pos hmethod, hsub]
  simp only [if_true]
  cases req.parseFromUrlencoded <;> rfl

/-- A request that is not a form: the map of headers may have got an empty entry. -/
theorem parsePost_other {req : HttpRequest} (h : req.isForm = false) :
    ∃ header, parsePost verify req = .ok { req with header } := by
  unfold parsePost
  by_cases hmethod : req.method = str "POST"
  · have htype : (subscript req.header (str "Content-Type")).1 ≠
        str "application/x-www-form-urlencoded" := by
      intro htype
      unfold subscript at htype
      cases hvalue : req.header (str "Content-Type") with
      | none =>
        rw [hvalue] at htype
        have hne : [] ≠ str "application/x-www-form-urlencoded" := by decide
        exact hne htype
      | some value =>
        rw [hvalue] at htype
        simp only at htype
        simp [isForm, hmethod, hvalue, htype] at h
    rw [if_pos hmethod]
    simp only [if_neg htype]
    exact ⟨_, rfl⟩
  · rw [if_neg hmethod]
    exact ⟨req.header, rfl⟩

theorem parseBody_returns_iff (req : HttpRequest) (line : Bytes) :
    (∃ req', req.parseBody verify line = .ok req') ↔
      (req.isForm = true → escapesComplete line = true) := by
  have hpost : (∃ req', req.parseBody verify line = .ok req') ↔
      ∃ req', parsePost verify { req with body := line } = .ok req' := by
    unfold parseBody
    constructor
    · rintro ⟨req', h⟩
      obtain ⟨req₁, h₁, -⟩ := bind_eq_ok.1 h
      exact ⟨req₁, h₁⟩
    · rintro ⟨req₁, h₁⟩
      exact ⟨_, by rw [h₁]; rfl⟩
  rw [hpost]
  cases hform : req.isForm with
  | true =>
    have hform' : ({ req with body := line } : HttpRequest).isForm = true := hform
    rw [parsePost_form verify hform']
    simp only [forall_const]
    rw [← parseFromUrlencoded_returns_iff { req with body := line }]
    constructor
    · rintro ⟨req', h⟩
      obtain ⟨req₁, h₁, -⟩ := map_eq_ok.1 h
      exact ⟨req₁, h₁⟩
    · rintro ⟨req₁, h₁⟩
      exact ⟨_, map_eq_ok.2 ⟨req₁, h₁, rfl⟩⟩
  | false =>
    have hform' : ({ req with body := line } : HttpRequest).isForm = false := hform
    obtain ⟨header, h⟩ := parsePost_other verify hform'
    exact ⟨fun _ => nofun, fun _ => ⟨_, h⟩⟩

/-- The `switch` of `parse` in front of the body. -/
def parseHeadLine (req : HttpRequest) (line : Bytes) (readAbleBytes : Nat) : Option HttpRequest :=
  match req.state with
  | .requestLine => (req.parseRequestLine line).map parsePath
  | .headers =>
    let req := req.parseHeader line
    some (if readAbleBytes ≤ 2 then { req with state := .finish } else req)
  | .body | .finish => some req

theorem parseLine_head {req : HttpRequest} (hstate : req.state ≠ .body) (line : Bytes) (n : Nat) :
    req.parseLine verify line n = .ok (req.parseHeadLine line n) := by
  unfold parseLine parseHeadLine
  cases hcase : req.state with
  | body => exact absurd hcase hstate
  | requestLine | headers | finish => rfl

/-- The line that `parse` hands to `ParseBody_`, with the request at that point. -/
def bodyLine : Nat → HttpRequest → Bytes → Option (HttpRequest × Bytes)
  | 0, _, _ => none
  | fuel + 1, req, bytes =>
    if bytes ≠ [] ∧ req.state ≠ .finish then
      if req.state = .body then some (req, bytes.take (search CRLF bytes))
      else
        match req.parseHeadLine (bytes.take (search CRLF bytes)) bytes.length with
        | none => none
        | some req =>
          if search CRLF bytes = bytes.length then none
          else bodyLine fuel req (bytes.drop (search CRLF bytes + 2))
    else none

/-- The parser has nothing more to do after the body. -/
theorem parseBytes_finish {fuel : Nat} {req : HttpRequest} (hstate : req.state = .finish)
    (bytes : Bytes) : parseBytes verify (fuel + 1) req bytes = .ok (true, req, bytes) := by
  rw [parseBytes, if_neg (fun h => h.2 hstate)]
  rfl

theorem parseBody_state {req req' : HttpRequest} {line : Bytes}
    (h : req.parseBody verify line = .ok req') : req'.state = .finish := by
  obtain ⟨req₁, -, h⟩ := bind_eq_ok.1 h
  cases h
  rfl

/-- **The parser returns** exactly when the line that it takes for the body of a form has complete
escapes. -/
theorem parseBytes_returns_iff (fuel : Nat) : ∀ (req : HttpRequest) (bytes : Bytes),
    bytes.length < fuel →
    ((∃ result, parseBytes verify fuel req bytes = .ok result) ↔
      ∀ req' line, bodyLine fuel req bytes = some (req', line) → req'.isForm = true →
        escapesComplete line = true) := by
  induction fuel with
  | zero => intro req bytes hfuel; omega
  | succ fuel ih =>
    intro req bytes hfuel
    unfold parseBytes bodyLine
    by_cases hgo : bytes ≠ [] ∧ req.state ≠ .finish
    · rw [if_pos hgo, if_pos hgo]
      by_cases hbody : req.state = .body
      · have hline : ∀ line n, req.parseLine verify line n = (req.parseBody verify line).map some := by
          intro line n
          rw [parseLine, hbody]
          cases req.parseBody verify line <;> rfl
        rw [if_pos hbody, hline]
        have hreturns := parseBody_returns_iff verify req (bytes.take (search CRLF bytes))
        constructor
        · rintro ⟨result, h⟩ req' line heq
          cases heq
          obtain ⟨req₁, h₁, -⟩ := bind_eq_ok.1 h
          obtain ⟨req₂, h₂, -⟩ := map_eq_ok.1 h₁
          exact hreturns.1 ⟨req₂, h₂⟩
        · intro hesc
          obtain ⟨req₁, h₁⟩ := hreturns.2 (hesc req _ rfl)
          have hstate := parseBody_state verify h₁
          rw [h₁]
          simp only [Except.map, ok_bind]
          by_cases hend : search CRLF bytes = bytes.length
          · rw [if_pos hend]
            exact ⟨_, rfl⟩
          · rw [if_neg hend]
            obtain ⟨k, rfl⟩ : ∃ k, fuel = k + 1 := by
              have hpos := List.length_pos_of_ne_nil hgo.1
              exact ⟨fuel - 1, by omega⟩
            exact ⟨_, parseBytes_finish verify hstate _⟩
      · rw [if_neg hbody, parseLine_head verify hbody, ok_bind]
        cases hline : req.parseHeadLine (bytes.take (search CRLF bytes)) bytes.length with
        | none => exact ⟨nofun, fun _ => ⟨_, rfl⟩⟩
        | some req' =>
          simp only
          by_cases hend : search CRLF bytes = bytes.length
          · rw [if_pos hend, if_pos hend]
            exact ⟨nofun, fun _ => ⟨_, rfl⟩⟩
          · rw [if_neg hend, if_neg hend]
            have hle := search_crlf_le hend
            apply ih
            rw [List.length_drop]
            omega
    · rw [if_neg hgo, if_neg hgo]
      exact ⟨nofun, fun _ => ⟨_, rfl⟩⟩

end HttpRequest
