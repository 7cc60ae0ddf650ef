import TinyHttpServer.Http.HttpForm
import TinyHttpServer.Http.HttpFraming

/-!
# Requests that are delivered whole

What `parse` makes of the text of a request in the buffer of a fresh `HttpRequest`.

* `round_trip` — a request without a body comes back with all its parts, and is used up.
* `body_framing_iff` — a body that is not a form comes back and is used up exactly when it is empty:
  the parser takes one line for the body, and leaves a line without `CRLF` in the buffer.
-/

set_option autoImplicit false

open Checked Lines

namespace HttpRequest

/-- The table of default pages. -/
def defaultPage (path : Bytes) : Bytes :=
  if path = str "/" then str "/index.html"
  else if path ∈ [str "/index", str "/register", str "/login", str "/welcome", str "/video",
      str "/picture"] then path ++ str ".html"
  else path

/-- `name: value`. -/
def headerText (p : Bytes × Bytes) : Bytes := p.1 ++ str ": " ++ p.2

/-- The text of a request without a body. -/
def requestText (method path version : Bytes) (pairs : List (Bytes × Bytes)) : Bytes :=
  method ++ str " " ++ path ++ str " HTTP/" ++ version ++ CRLF ++
    pairs.flatMap (fun p => headerText p ++ CRLF) ++ CRLF

theorem parsePath_eq (req : HttpRequest) :
    parsePath req = { req with path := defaultPage req.path } := by
  have htable : DEFAULT_HTML = [str "/index", str "/register", str "/login", str "/welcome",
    str "/video", str "/picture"] := rfl
  unfold parsePath defaultPage
  rw [htable]
  split
  · rfl
  · split <;> rfl

end HttpRequest

namespace Request

open HttpRequest

variable (verify : Bytes → Bytes → Bool → Bool) (r : Request)

/-- The headers as the parser enters them. -/
def entered : List (Bytes × Bytes) := r.headers.map fun h => (h.1, optionalSpace h.2)

theorem parsedHead_eq :
    r.parsedHead =
      { HttpRequest.init with
        state := .headers, method := r.method, path := defaultPage r.path, version := r.version,
        header := Assoc.lastWins r.entered } := by
  have hline : r.parsedLine =
      { HttpRequest.init with
        state := .headers, method := r.method, path := defaultPage r.path, version := r.version } :=
    parsePath_eq _
  have hfold : r.headers.foldl enterHeader (fun _ => none) = Assoc.lastWins r.entered := by
    rw [← Assoc.foldl_enter_none, entered, List.foldl_map]
    rfl
  unfold parsedHead
  rw [hline, ← hfold]
  rfl

/-- **The parser on the buffer of a request.** -/
theorem parse_buffer {buff : Buffer} (hw : buff.Wf) (hbuff : buff.readable = r.text) :
    Refines SameParse (HttpRequest.init.parse verify buff) (r.parsed verify r.body) := by
  have hne : buff.readable ≠ [] := by
    rw [hbuff]
    exact List.append_ne_nil_of_right_ne_nil _ (List.cons_ne_nil _ _)
  have h := parse_refines verify HttpRequest.init hw hne
  rw [hbuff] at h
  unfold text at h
  rwa [parse_text] at h

end Request

namespace HttpRequest

/-- **Request round trip.**  The text of a request without a body, delivered whole, gives back
method, path, version and headers, and is used up. -/
theorem round_trip (verify : Bytes → Bytes → Bool → Bool) (method path version : Bytes)
    (pairs : List (Bytes × Bytes)) (hmethod : SP ∉ method ∧ CR ∉ method ∧ LF ∉ method)
    (hpath : SP ∉ path ∧ CR ∉ path ∧ LF ∉ path) (hversion : SP ∉ version ∧ CR ∉ version ∧ LF ∉ version)
    (hpairs : ∀ p ∈ pairs, (COLON ∉ p.1 ∧ CR ∉ p.1 ∧ LF ∉ p.1) ∧ CR ∉ p.2 ∧ LF ∉ p.2)
    (buff : Buffer) (hw : buff.Wf) (hbuff : buff.readable = requestText method path version pairs) :
    ∃ req buff', init.parse verify buff = .ok (true, req, buff') ∧ buff'.readable = [] ∧
      req.state = .finish ∧ req.method = method ∧ req.path = defaultPage path ∧
      req.version = version ∧ req.header = Assoc.lastWins pairs ∧ (req.post = fun _ => none) ∧
      req.body = [] := by
  have hheaders : ∀ h ∈ pairs.map (fun p => (p.1, SP :: p.2)),
      (COLON ∉ h.1 ∧ CR ∉ h.1 ∧ LF ∉ h.1) ∧ CR ∉ h.2 ∧ LF ∉ h.2 := by
    intro h hh
    obtain ⟨p, hp, rfl⟩ := List.mem_map.1 hh
    obtain ⟨hname, hcr, hlf⟩ := hpairs p hp
    refine ⟨hname, ?_, ?_⟩
    · exact List.not_mem_cons_of_ne_of_not_mem (by decide) hcr
    · exact List.not_mem_cons_of_ne_of_not_mem (by decide) hlf
  let r : Request :=
    { method, path, version, headers := pairs.map (fun p => (p.1, SP :: p.2)), body := [],
      method_ok := hmethod, path_ok := hpath, version_ok := hversion, headers_ok := hheaders }
  have htext : r.text = requestText method path version pairs := by
    simp [r, Request.text, Request.head, Request.requestLine, requestText, render, List.flatMap_map,
      Request.headerLine, headerText, str, SP, COLON, CRLF]
  have hentered : r.entered = pairs := by
    simp [r, Request.entered, optionalSpace, Function.comp_def]
  have hparse := r.parse_buffer verify hw (hbuff.trans htext.symm)
  have hparsed : r.parsed verify r.body =
      .ok (true, { r.parsedHead with state := .finish }, []) := if_pos rfl
  rw [hparsed, r.parsedHead_eq, hentered] at hparse
  generalize init.parse verify buff = result at hparse
  cases hparse with
  | ok h =>
    rename_i a
    obtain ⟨answer, req, buff'⟩ := a
    obtain ⟨rfl, rfl, -, hread⟩ := h
    exact ⟨_, buff', rfl, hread, rfl, rfl, rfl, rfl, rfl, rfl, rfl⟩

/-- `GET / HTTP/1.1` with a header that is given twice. -/
theorem round_trip_sample :
    ∃ buff req buff', Buffer.readable buff =
        requestText (str "GET") (str "/") (str "1.1") [(str "A", str "1"), (str "A", str " 2")] ∧
      init.parse (fun _ _ _ => false) buff = .ok (true, req, buff') ∧ buff'.readable = [] ∧
      req.path = str "/index.html" ∧ req.header (str "A") = some (str " 2") := by
  obtain ⟨buff, hw, hr⟩ := Buffer.exists_readable
    (requestText (str "GET") (str "/") (str "1.1") [(str "A", str "1"), (str "A", str " 2")])
  obtain ⟨req, buff', hparse, hread, -, -, hpath, -, hheader, -⟩ :=
    round_trip (fun _ _ _ => false) (str "GET") (str "/") (str "1.1")
      [(str "A", str "1"), (str "A", str " 2")] (by decide) (by decide) (by decide) (by decide) buff
      hw hr
  exact ⟨buff, req, buff', hr, hparse, hread, hpath.trans rfl, by rw [hheader]; rfl⟩

end HttpRequest

/-! ## Bodies -/

/-- A `POST` request with a body that is announced by its length and is not a form. -/
structure PostRequest extends Request where
  isPost : method = str "POST"
  announced : (str "Content-Length", SP :: toStr body.length) ∈ headers
  otherType : Assoc.lastWins toRequest.entered (str "Content-Type") ≠
    some (str "application/x-www-form-urlencoded")

namespace PostRequest

open HttpRequest

variable (verify : Bytes → Bytes → Bool → Bool) (r : PostRequest)

/-- The parser enters the line that it takes for the body. -/
theorem parsedBody_eq (line : Bytes) :
    ∃ req, r.parsedBody verify line = .ok req ∧ req.body = line := by
  have hother : ({ r.parsedHead with state := .body, body := line } : HttpRequest).isForm = false := by
    have htype : r.parsedHead.header (str "Content-Type") ≠
        some (str "application/x-www-form-urlencoded") := by
      rw [r.parsedHead_eq]
      exact r.otherType
    simp [isForm, htype]
  obtain ⟨header, hpost⟩ := parsePost_other verify hother
  refine ⟨{ r.parsedHead with state := .finish, body := line, header }, ?_, rfl⟩
  unfold Request.parsedBody parseBody
  rw [hpost]
  rfl

/-- **Body framing.**  A request with a body that is not a form, delivered whole, is parsed with its
body and used up if and only if the body is empty. -/
theorem body_framing_iff (buff : Buffer) (hw : buff.Wf) (hbuff : buff.readable = r.text) :
    (∃ req buff', HttpRequest.init.parse verify buff = .ok (true, req, buff') ∧ req.body = r.body ∧
        buff'.readable = []) ↔ r.body = [] := by
  have hparse := r.parse_buffer verify hw hbuff
  generalize HttpRequest.init.parse verify buff = result at hparse
  by_cases hbody : r.body = []
  · have hparsed : r.parsed verify r.body =
        .ok (true, { r.parsedHead with state := .finish }, []) := if_pos hbody
    rw [hparsed, r.parsedHead_eq] at hparse
    refine iff_of_true ?_ hbody
    cases hparse with
    | ok h =>
      rename_i a
      obtain ⟨answer, req, buff'⟩ := a
      obtain ⟨rfl, rfl, -, hread⟩ := h
      exact ⟨_, buff', rfl, hbody.symm, hread⟩
  · obtain ⟨req, hreq, hline⟩ := r.parsedBody_eq verify (r.body.take (search CRLF r.body))
    have hparsed : r.parsed verify r.body = .ok (true, req, Request.afterBody r.body) := by
      unfold Request.parsed
      rw [if_neg hbody, hreq]
      rfl
    rw [hparsed] at hparse
    refine iff_of_false ?_ hbody
    rintro ⟨req', buff', rfl, hreq', hread⟩
    cases hparse with
    | ok h =>
      obtain ⟨-, rfl, -, hafter⟩ := h
      rw [hread] at hafter
      by_cases hend : search CRLF r.body = r.body.length
      · -- the line is not ended, and stays in the buffer
        rw [Request.afterBody, if_pos hend] at hafter
        exact hbody hafter.symm
      · -- the line is ended before the body is
        have hlen := congrArg List.length (hline.symm.trans hreq')
        have hle := search_le CRLF r.body
        rw [List.length_take] at hlen
        omega

/-- `POST / HTTP/1.1` with a body that is announced as text. -/
def textPost (body : Bytes) : PostRequest where
  method := str "POST"
  path := str "/"
  version := str "1.1"
  headers := [(str "Content-Type", str " text/plain"), (str "Content-Length", SP :: toStr body.length)]
  body := body
  method_ok := post_plain
  path_ok := slash_plain
  version_ok := version_plain
  headers_ok := by
    have hcr := List.not_mem_cons_of_ne_of_not_mem (show CR ≠ SP by decide)
      (toStr_printable body.length).cr_not_mem
    have hlf := List.not_mem_cons_of_ne_of_not_mem (show LF ≠ SP by decide)
      (toStr_printable body.length).lf_not_mem
    have hname : COLON ∉ str "Content-Length" ∧ CR ∉ str "Content-Length" ∧
        LF ∉ str "Content-Length" := by decide
    rw [List.forall_mem_cons, List.forall_mem_singleton]
    exact ⟨by decide, hname, hcr, hlf⟩
  isPost := rfl
  announced := by simp
  otherType := by
    have htype : Assoc.lastWins [(str "Content-Type", str "text/plain"),
        (str "Content-Length", toStr body.length)] (str "Content-Type") = some (str "text/plain") := rfl
    exact fun h => absurd (htype.symm.trans h) (by decide)

theorem body_framing_sample :
    ∃ buff req buff', Buffer.readable buff = (textPost []).text ∧
      HttpRequest.init.parse (fun _ _ _ => false) buff = .ok (true, req, buff') ∧ req.body = [] ∧
      buff'.readable = [] := by
  obtain ⟨buff, hw, hr⟩ := Buffer.exists_readable (textPost []).text
  obtain ⟨req, buff', hparse, hbody, hread⟩ :=
    (body_framing_iff (fun _ _ _ => false) (textPost []) buff hw hr).2 rfl
  exact ⟨buff, req, buff', hr, hparse, hbody, hread⟩

/-- The body `hi` stays in the buffer. -/
theorem body_left_in_buffer :
    ∃ buff, Buffer.Wf buff ∧ buff.readable = (textPost (str "hi")).text ∧
      ¬∃ req buff', HttpRequest.init.parse (fun _ _ _ => false) buff = .ok (true, req, buff') ∧
        req.body = str "hi" ∧ buff'.readable = [] := by
  obtain ⟨buff, hw, hr⟩ := Buffer.exists_readable (textPost (str "hi")).text
  refine ⟨buff, hw, hr, ?_⟩
  rintro ⟨req, buff', hok, -, hread⟩
  have hparse := (textPost (str "hi")).parse_buffer (fun _ _ _ => false) hw hr
  have hrest : ((textPost (str "hi")).parsed (fun _ _ _ => false) (str "hi")).map (fun p => p.2.2) =
      .ok (str "hi") := by decide +kernel
  obtain ⟨result, hparsed, hresult⟩ := map_eq_ok.1 hrest
  rw [hok, show (textPost (str "hi")).body = str "hi" from rfl, hparsed] at hparse
  cases hparse with
  | ok h =>
    have hleft := h.readable.symm.trans hread
    rw [hresult] at hleft
    revert hleft
    decide

end PostRequest
