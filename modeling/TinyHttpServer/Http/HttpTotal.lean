import TinyHttpServer.Http.HttpParse

/-!
# The parser on arbitrary bytes

`parseWith` is `parse` with `ParsePost_` as a parameter; `parse_eq_with` says that it is the parser
when the parameter is `parsePost`.  Where the form decoder and `UserVerify` return, the parser
returns on every request, in every state and for every buffer.

* `parse_total` — it returns, what stays readable is a suffix of what was, and it answers `false`
  exactly where the first line is no request line, and then changes nothing.
-/

set_option autoImplicit false

open Checked Lines

namespace HttpRequest

/-! ## The parser over `ParsePost_` -/

section With

variable (post : HttpRequest → Checked HttpRequest)

def parseBodyWith (req : HttpRequest) (line : Bytes) : Checked HttpRequest := do
  let req ← post { req with body := line }
  return { req with state := .finish }

def parseLineWith (req : HttpRequest) (line : Bytes) (readAbleBytes : Nat) :
    Checked (Option HttpRequest) :=
  match req.state with
  | .requestLine => return (req.parseRequestLine line).map parsePath
  | .headers =>
    let req := req.parseHeader line
    return some (if readAbleBytes ≤ 2 then { req with state := .finish } else req)
  | .body => do return some (← req.parseBodyWith post line)
  | .finish => return some req

def parseLoopWith : Nat → HttpRequest → Buffer → Checked (Bool × HttpRequest × Buffer)
  | 0, _, _ => .error .outOfFuel
  | fuel + 1, req, buff =>
    if buff.readAbleBytes ≠ 0 ∧ req.state ≠ .finish then do
      let lineEnd := search CRLF buff.readable
      match ← req.parseLineWith post (buff.readable.take lineEnd) buff.readAbleBytes with
      | none => return (false, req, buff)
      | some req =>
        if buff.readerIndex + lineEnd = buff.writerIndex then return (true, req, buff)
        else do
          let buff ← buff.retrieveUnitil (buff.readerIndex + lineEnd + 2)
          parseLoopWith fuel req buff
    else return (true, req, buff)

def parseWith (req : HttpRequest) (buff : Buffer) : Checked (Bool × HttpRequest × Buffer) :=
  if buff.readAbleBytes = 0 then return (false, req, buff)
  else parseLoopWith post (buff.readAbleBytes + 1) req buff

end With

section Same

variable (verify : Bytes → Bytes → Bool → Bool)

theorem parseLine_eq_with (req : HttpRequest) (line : Bytes) (n : Nat) :
    req.parseLine verify line n = req.parseLineWith (parsePost verify) line n := by
  unfold parseLine parseLineWith
  cases req.state <;> rfl

theorem parseLoop_eq_with (fuel : Nat) (req : HttpRequest) (buff : Buffer) :
    parseLoop verify fuel req buff = parseLoopWith (parsePost verify) fuel req buff := by
  induction fuel generalizing req buff with
  | zero => rfl
  | succ fuel ih =>
    unfold parseLoop parseLoopWith
    split
    · simp only [parseLine_eq_with]
      cases req.parseLineWith (parsePost verify) (buff.readable.take (search CRLF buff.readable))
          buff.readAbleBytes with
      | error e => rfl
      | ok result =>
        cases result with
        | none => rfl
        | some req' => simp only [ok_bind, ih]
    · rfl

/-- With `ParsePost_` as it is, this is the parser. -/
theorem parse_eq_with (req : HttpRequest) (buff : Buffer) :
    req.parse verify buff = req.parseWith (parsePost verify) buff := by
  unfold parse parseWith
  rw [parseLoop_eq_with]

/-- `ParsePost_`, where the form decoder is `decode`: what it leaves of the body and of the map. -/
def parsePostWith (decode : Bytes → (Bytes → Option Bytes) → Bytes × (Bytes → Option Bytes))
    (req : HttpRequest) : HttpRequest :=
  if req.method = str "POST" then
    let (type, header) := subscript req.header (str "Content-Type")
    let req := { req with header }
    if type = str "application/x-www-form-urlencoded" then
      let (body, post) := decode req.body req.post
      verifyForm verify { req with body, post }
    else req
  else req

end Same

/-! ## Request lines -/

/-- A line of the form `A SP B SP HTTP/C`. -/
def IsRequestLine (line : Bytes) : Prop :=
  ∃ a b c, line = a ++ SP :: (b ++ SP :: (str "HTTP/" ++ c)) ∧ SP ∉ a ∧ SP ∉ b ∧ SP ∉ c

/-- The bytes before the first `CRLF`, or all bytes. -/
def firstLine (bytes : Bytes) : Bytes := bytes.take (search CRLF bytes)

theorem matchRequestLine_isSome (line : Bytes) :
    (matchRequestLine line).isSome = true ↔ IsRequestLine line := by
  constructor
  · intro h
    unfold matchRequestLine at h
    split at h
    · cases h
    · rename_i a rest hcut
      obtain ⟨rfl, ha⟩ := cut_eq_some hcut
      split at h
      · cases h
      · rename_i b last hcut'
        obtain ⟨rfl, hb⟩ := cut_eq_some hcut'
        split at h
        · rename_i hlast
          obtain ⟨c, rfl⟩ := List.isPrefixOf_iff_prefix.1 hlast.1
          exact ⟨a, b, c, rfl, ha, hb, fun hc => hlast.2 (List.mem_append_right _ hc)⟩
        · cases h
  · rintro ⟨a, b, c, rfl, ha, hb, hc⟩
    have hhttp : (str "HTTP/").isPrefixOf (str "HTTP/" ++ c) = true :=
      List.isPrefixOf_iff_prefix.2 ⟨c, rfl⟩
    have hlast : SP ∉ str "HTTP/" ++ c := by
      rw [List.mem_append, not_or]
      exact ⟨by decide, hc⟩
    unfold matchRequestLine
    rw [cut_append ha]
    simp only
    rw [cut_append hb]
    simp only
    rw [if_pos ⟨hhttp, hlast⟩]
    rfl

instance (line : Bytes) : Decidable (IsRequestLine line) :=
  decidable_of_iff _ (matchRequestLine_isSome line)

/-! ## The loop -/

section Total

variable (post : HttpRequest → HttpRequest)

/-- A line behind the request line: the parser goes on in another state. -/
theorem parseLineWith_later {req : HttpRequest} (hstate : req.state ≠ .requestLine) (line : Bytes)
    (n : Nat) : ∃ req', req.parseLineWith (fun req => .ok (post req)) line n = .ok (some req') ∧
      req'.state ≠ .requestLine := by
  unfold parseLineWith
  cases hcase : req.state with
  | requestLine => exact absurd hcase hstate
  | headers =>
    refine ⟨_, rfl, ?_⟩
    have hparsed : (req.parseHeader line).state ≠ .requestLine := by
      unfold parseHeader
      split
      · exact hstate
      · nofun
    split
    · nofun
    · exact hparsed
  | body => exact ⟨_, rfl, nofun⟩
  | finish => exact ⟨req, rfl, hstate⟩

/-- The loop, and what it returns and leaves. -/
def Consumes (fuel : Nat) (req : HttpRequest) (buff : Buffer) : Prop :=
  ∃ req' buff', parseLoopWith (fun req => .ok (post req)) fuel req buff = .ok (true, req', buff') ∧
    buff'.Wf ∧ buff'.readable <:+ buff.readable

/-- One round: the line is the last one, or is retrieved. -/
theorem parseLoopWith_line {fuel : Nat} {req req' : HttpRequest} {buff : Buffer} (hw : buff.Wf)
    (hgo : buff.readAbleBytes ≠ 0 ∧ req.state ≠ .finish)
    (hline : req.parseLineWith (fun req => .ok (post req))
      (buff.readable.take (search CRLF buff.readable)) buff.readAbleBytes = .ok (some req'))
    (hrest : ∀ buff₁ : Buffer, buff₁.Wf → buff₁.readable.length < buff.readable.length →
      Consumes post fuel req' buff₁) : Consumes post (fuel + 1) req buff := by
  unfold Consumes parseLoopWith
  simp only [if_pos hgo, hline, ok_bind]
  by_cases hend : buff.readerIndex + search CRLF buff.readable = buff.writerIndex
  · rw [if_pos hend]
    exact ⟨req', buff, rfl, hw, List.suffix_refl _⟩
  · rw [if_neg hend]
    have hlen := Buffer.length_readable hw
    have hreader := hw.reader_le
    have hle := @search_crlf_le buff.readable (by
      unfold Buffer.readAbleBytes at hlen
      omega)
    obtain ⟨buff₁, he, hw₁, hr⟩ := Buffer.retrieveUnitil_spec hw (hlen ▸ hle)
    rw [Nat.add_assoc, he, ok_bind]
    obtain ⟨req₂, buff₂, hok, hw₂, hsuffix⟩ := hrest buff₁ hw₁ (by
      rw [hr, List.length_drop]
      omega)
    refine ⟨req₂, buff₂, hok, hw₂, hsuffix.trans ?_⟩
    rw [hr]
    exact List.drop_suffix _ _

/-- Behind the request line the loop ends with `true`, and has used up a part of the buffer. -/
theorem parseLoopWith_later (fuel : Nat) : ∀ (req : HttpRequest) (buff : Buffer), buff.Wf →
    buff.readable.length < fuel → req.state ≠ .requestLine → Consumes post fuel req buff := by
  induction fuel with
  | zero => intro req buff _ hfuel; omega
  | succ fuel ih =>
    intro req buff hw hfuel hstate
    by_cases hgo : buff.readAbleBytes ≠ 0 ∧ req.state ≠ .finish
    · obtain ⟨req', hline, hstate'⟩ := parseLineWith_later post hstate
        (buff.readable.take (search CRLF buff.readable)) buff.readAbleBytes
      exact parseLoopWith_line post hw hgo hline fun buff₁ hw₁ hlt =>
        ih req' buff₁ hw₁ (by omega) hstate'
    · unfold Consumes parseLoopWith
      rw [if_neg hgo]
      exact ⟨req, buff, rfl, hw, List.suffix_refl _⟩

/-- The loop on a request line. -/
theorem parseLoopWith_first {fuel : Nat} {req : HttpRequest} {buff : Buffer} (hw : buff.Wf)
    (hne : buff.readAbleBytes ≠ 0) (hfuel : buff.readable.length ≤ fuel)
    (hstate : req.state = .requestLine) :
    if IsRequestLine (firstLine buff.readable) then Consumes post (fuel + 1) req buff
    else parseLoopWith (fun req => .ok (post req)) (fuel + 1) req buff = .ok (false, req, buff) := by
  have hgo : buff.readAbleBytes ≠ 0 ∧ req.state ≠ .finish := ⟨hne, by rw [hstate]; nofun⟩
  have hparse : req.parseLineWith (fun req => .ok (post req)) (firstLine buff.readable)
      buff.readAbleBytes = .ok ((req.parseRequestLine (firstLine buff.readable)).map parsePath) := by
    unfold parseLineWith
    rw [hstate]
    rfl
  split
  · rename_i hline
    obtain ⟨parts, hmatch⟩ := Option.isSome_iff_exists.1 ((matchRequestLine_isSome _).2 hline)
    rw [parseRequestLine, hmatch] at hparse
    refine parseLoopWith_line post hw hgo hparse fun buff₁ hw₁ hlt =>
      parseLoopWith_later post fuel _ buff₁ hw₁ (by omega) ?_
    rw [Request.parsePath_state]
    nofun
  · rename_i hline
    rw [← matchRequestLine_isSome, Option.not_isSome_iff_eq_none] at hline
    rw [parseRequestLine, hline] at hparse
    have hnone : req.parseLineWith (fun req => .ok (post req))
        (buff.readable.take (search CRLF buff.readable)) buff.readAbleBytes = .ok none := hparse
    unfold parseLoopWith
    simp only [if_pos hgo, hnone, ok_bind, pure_eq_ok]

end Total

/-- **The parser is total and consumes a prefix.**  Whatever the form decoder and `UserVerify`
return, `parse` ends on every request and every buffer, without a failed assertion, and what stays
readable is a suffix of what was.  A request without a request line gets the answer `false` exactly
where the buffer is empty or its first line is no request line, and then nothing changes. -/
theorem parse_total (decode : Bytes → (Bytes → Option Bytes) → Bytes × (Bytes → Option Bytes))
    (verify : Bytes → Bytes → Bool → Bool) (req : HttpRequest) (buff : Buffer) (hw : buff.Wf) :
    ∃ answer req' buff',
      req.parseWith (fun req => .ok (parsePostWith verify decode req)) buff =
        .ok (answer, req', buff') ∧
      buff'.Wf ∧ buff'.readable <:+ buff.readable ∧
      (req.state = .requestLine →
        (answer = false ↔ buff.readable = [] ∨ ¬IsRequestLine (firstLine buff.readable)) ∧
        (answer = false → req' = req ∧ buff' = buff)) := by
  unfold parseWith
  by_cases hempty : buff.readAbleBytes = 0
  · rw [if_pos hempty]
    have hnil := (Buffer.readable_eq_nil hw).2 hempty
    exact ⟨false, req, buff, rfl, hw, List.suffix_refl _, fun _ =>
      ⟨iff_of_true rfl (.inl hnil), fun _ => ⟨rfl, rfl⟩⟩⟩
  · rw [if_neg hempty]
    have hne : buff.readable ≠ [] := fun h => hempty ((Buffer.readable_eq_nil hw).1 h)
    have hlen := Buffer.length_readable hw
    by_cases hstate : req.state = .requestLine
    · have hfirst := parseLoopWith_first (parsePostWith verify decode) hw hempty
        (Nat.le_of_eq hlen) hstate
      by_cases hline : IsRequestLine (firstLine buff.readable)
      · rw [if_pos hline] at hfirst
        obtain ⟨req', buff', hok, hw', hsuffix⟩ := hfirst
        exact ⟨true, req', buff', hok, hw', hsuffix, fun _ =>
          ⟨iff_of_false nofun (not_or.2 ⟨hne, not_not_intro hline⟩), nofun⟩⟩
      · rw [if_neg hline] at hfirst
        exact ⟨false, req, buff, hfirst, hw, List.suffix_refl _, fun _ =>
          ⟨iff_of_true rfl (.inr hline), fun _ => ⟨rfl, rfl⟩⟩⟩
    · obtain ⟨req', buff', hok, hw', hsuffix⟩ := parseLoopWith_later (parsePostWith verify decode)
        (buff.readAbleBytes + 1) req buff hw (by omega) hstate
      exact ⟨true, req', buff', hok, hw', hsuffix, fun h => absurd h hstate⟩

/-- A buffer whose first line is `GET`. -/
theorem parse_total_sample :
    ∃ buff answer req' buff', Buffer.readable buff = str "GET\r\n\r\n" ∧
      init.parseWith (fun req => .ok (parsePostWith (fun _ _ _ => false) (fun b m => (b, m)) req))
        buff = .ok (answer, req', buff') ∧ answer = false ∧ buff' = buff := by
  obtain ⟨buff, hw, hr⟩ := Buffer.exists_readable (str "GET\r\n\r\n")
  obtain ⟨answer, req', buff', hok, -, -, hanswer⟩ :=
    parse_total (fun b m => (b, m)) (fun _ _ _ => false) init buff hw
  obtain ⟨hiff, hsame⟩ := hanswer rfl
  have hfalse : answer = false := hiff.2 (.inr (by rw [hr]; decide))
  exact ⟨buff, answer, req', buff', hr, hok, hfalse, (hsame hfalse).2⟩

end HttpRequest
