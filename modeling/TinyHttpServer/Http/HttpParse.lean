import TinyHttpServer.Base.BufferString
import TinyHttpServer.Http.HttpContext

/-!
# What the parser does with a well-formed request

`parseBytes` is the loop of `parse` on a byte string instead of a buffer; `parse_refines` says that
the loop on the buffer does the same, and that its assertions hold.

`Request` is a complete request with its text.  `parse_head` follows the parser through the request
line and the headers of a request, whatever bytes come behind the empty line; `parse_empty` and
`parse_more` say how it ends, and `parse_text` puts the parts together.
-/

set_option autoImplicit false

open Checked Lines

namespace HttpRequest

variable (verify : Bytes → Bytes → Bool → Bool)

/-- The loop of `parse` on the readable bytes. -/
def parseBytes : Nat → HttpRequest → Bytes → Checked (Bool × HttpRequest × Bytes)
  | 0, _, _ => .error .outOfFuel
  | fuel + 1, req, bytes =>
    if bytes ≠ [] ∧ req.state ≠ .finish then do
      match ← req.parseLine verify (bytes.take (search CRLF bytes)) bytes.length with
      | none => return (false, req, bytes)
      | some req =>
        if search CRLF bytes = bytes.length then return (true, req, bytes)
        else parseBytes fuel req (bytes.drop (search CRLF bytes + 2))
    else return (true, req, bytes)

/-- The results of the parser on a buffer and on its readable bytes. -/
structure SameParse (a : Bool × HttpRequest × Buffer) (b : Bool × HttpRequest × Bytes) : Prop where
  parsed : a.1 = b.1
  request : a.2.1 = b.2.1
  wf : a.2.2.Wf
  readable : a.2.2.readable = b.2.2

/-- A `CRLF` that was found lies inside the bytes. -/
theorem search_crlf_le {bytes : Bytes} (h : search CRLF bytes ≠ bytes.length) :
    search CRLF bytes + 2 ≤ bytes.length := by
  have hle := search_le CRLF bytes
  obtain ⟨rest, hrest⟩ := search_found (show search CRLF bytes < bytes.length by omega)
  have hlen := congrArg List.length hrest
  rw [List.length_append, List.length_append, List.length_take, show CRLF.length = 2 from rfl] at hlen
  omega

theorem parseLoop_refines (fuel : Nat) (req : HttpRequest) (buff : Buffer) (hw : buff.Wf) :
    Refines SameParse (parseLoop verify fuel req buff)
      (parseBytes verify fuel req buff.readable) := by
  induction fuel generalizing req buff with
  | zero => exact .error _
  | succ fuel ih =>
    have hlen := Buffer.length_readable hw
    have hreader := hw.reader_le
    have hne : buff.readAbleBytes ≠ 0 ↔ buff.readable ≠ [] := by
      rw [Ne, Ne, Buffer.readable_eq_nil hw]
    unfold parseLoop parseBytes
    simp only [hne, hlen]
    split
    · cases hline : req.parseLine verify (buff.readable.take (search CRLF buff.readable))
          buff.readAbleBytes with
      | error e => exact .error e
      | ok result =>
        cases result with
        | none => exact .ok ⟨rfl, rfl, hw, rfl⟩
        | some req' =>
          have hend : buff.readerIndex + search CRLF buff.readable = buff.writerIndex ↔
              search CRLF buff.readable = buff.readAbleBytes := by
            unfold Buffer.readAbleBytes
            omega
          simp only [ok_bind, hend]
          split
          · exact .ok ⟨rfl, rfl, hw, rfl⟩
          · rename_i hfound
            have hle := search_crlf_le (by rw [hlen]; exact hfound)
            obtain ⟨buff', he, hw', hr⟩ := Buffer.retrieveUnitil_spec hw (hlen ▸ hle)
            rw [Nat.add_assoc, he, ok_bind, ← hr]
            exact ih req' buff' hw'
    · exact .ok ⟨rfl, rfl, hw, rfl⟩

/-- **`parse` on a buffer with readable bytes.** -/
theorem parse_refines (req : HttpRequest) {buff : Buffer} (hw : buff.Wf) (hne : buff.readable ≠ []) :
    Refines SameParse (parse verify req buff)
      (parseBytes verify (buff.readable.length + 1) req buff.readable) := by
  unfold parse
  rw [if_neg (fun h => hne ((Buffer.readable_eq_nil hw).2 h)), Buffer.length_readable hw]
  exact parseLoop_refines verify _ req buff hw

end HttpRequest

/-! ## Complete requests -/

/-- A complete request.  Method, path and version have no space, `CR` or `LF`; header names have no
`':'`, `CR` or `LF`; what stands behind the colon has no `CR` or `LF`.  Nothing is asked of the
header that announces the length of the body: the parser does not look at it. -/
structure Request where
  method : Bytes
  path : Bytes
  version : Bytes
  headers : List (Bytes × Bytes)
  body : Bytes
  method_ok : SP ∉ method ∧ CR ∉ method ∧ LF ∉ method
  path_ok : SP ∉ path ∧ CR ∉ path ∧ LF ∉ path
  version_ok : SP ∉ version ∧ CR ∉ version ∧ LF ∉ version
  headers_ok : ∀ h ∈ headers, (COLON ∉ h.1 ∧ CR ∉ h.1 ∧ LF ∉ h.1) ∧ CR ∉ h.2 ∧ LF ∉ h.2

/-! The parts of the request lines that the samples have in common. -/

theorem post_plain : SP ∉ str "POST" ∧ CR ∉ str "POST" ∧ LF ∉ str "POST" := by decide

theorem slash_plain : SP ∉ str "/" ∧ CR ∉ str "/" ∧ LF ∉ str "/" := by decide

theorem version_plain : SP ∉ str "1.1" ∧ CR ∉ str "1.1" ∧ LF ∉ str "1.1" := by decide

namespace Request

open HttpRequest

variable (verify : Bytes → Bytes → Bool → Bool) (r : Request)

def requestLine : Bytes := r.method ++ SP :: (r.path ++ SP :: (str "HTTP/" ++ r.version))

def headerLine (h : Bytes × Bytes) : Bytes := h.1 ++ COLON :: h.2

/-- The request line and the headers, up to the empty line. -/
def head : Bytes := render CR LF (r.requestLine :: r.headers.map headerLine)

/-- The text of a request. -/
def text : Bytes := r.head ++ (CRLF ++ r.body)

/-- What the parser enters in the map of headers. -/
def enterHeader (m : Bytes → Option Bytes) (h : Bytes × Bytes) : Bytes → Option Bytes :=
  Function.update m h.1 (some (optionalSpace h.2))

/-- The request as the parser has it after the request line. -/
def parsedLine : HttpRequest :=
  parsePath
    { HttpRequest.init with
      state := .headers, method := r.method, path := r.path, version := r.version }

/-- The request as the parser has it when it reaches the empty line. -/
def parsedHead : HttpRequest :=
  { r.parsedLine with header := r.headers.foldl enterHeader r.parsedLine.header }

/-- The parser in the state `BODY`, at a first body line `line`. -/
def parsedBody (line : Bytes) : Checked HttpRequest :=
  parseBody verify { r.parsedHead with state := .body } line

/-! ## Lines -/

theorem matchRequestLine_requestLine :
    matchRequestLine r.requestLine = some (r.method, r.path, r.version) := by
  have hlast : (str "HTTP/").isPrefixOf (str "HTTP/" ++ r.version) = true :=
    List.isPrefixOf_iff_prefix.2 ⟨r.version, rfl⟩
  have hsp : SP ∉ str "HTTP/" ++ r.version := by
    rw [List.mem_append, not_or]
    exact ⟨by decide, r.version_ok.1⟩
  unfold matchRequestLine requestLine
  rw [cut_append r.method_ok.1]
  simp only
  rw [cut_append r.path_ok.1]
  simp only
  rw [if_pos ⟨hlast, hsp⟩]
  rfl

theorem mem_of_mem_optionalSpace {x : UInt8} {rest : Bytes} (h : x ∈ optionalSpace rest) :
    x ∈ rest := by
  unfold optionalSpace at h
  split at h
  · exact List.mem_of_mem_tail h
  · exact h

theorem matchHeader_headerLine {h : Bytes × Bytes} (hh : h ∈ r.headers) :
    matchHeader (headerLine h) = some (h.1, optionalSpace h.2) := by
  obtain ⟨⟨hname, -, -⟩, hcr, hlf⟩ := r.headers_ok h hh
  unfold matchHeader headerLine
  rw [cut_append hname]
  simp only
  rw [if_neg]
  rintro (hmem | hmem)
  · exact hcr (mem_of_mem_optionalSpace hmem)
  · exact hlf (mem_of_mem_optionalSpace hmem)

theorem cr_not_mem_requestLine : CR ∉ r.requestLine := by
  unfold requestLine
  simp only [List.mem_append, List.mem_cons, not_or]
  exact ⟨r.method_ok.2.1, by decide, r.path_ok.2.1, by decide, by decide, r.version_ok.2.1⟩

theorem cr_not_mem_headerLine {h : Bytes × Bytes} (hh : h ∈ r.headers) : CR ∉ headerLine h := by
  obtain ⟨⟨-, hcr, -⟩, hcr', -⟩ := r.headers_ok h hh
  unfold headerLine
  simp only [List.mem_append, List.mem_cons, not_or]
  exact ⟨hcr, by decide, hcr'⟩

/-! ## The parser on the lines of a request -/

/-- One round of the loop, on a line that is ended by `CRLF`. -/
theorem parseBytes_line {fuel : Nat} {req req' : HttpRequest} {line rest : Bytes}
    (hline : CR ∉ line) (hstate : req.state ≠ .finish)
    (hstep : req.parseLine verify line (line.length + (2 + rest.length)) = .ok (some req')) :
    parseBytes verify (fuel + 1) req (line ++ (CRLF ++ rest)) =
      parseBytes verify fuel req' rest := by
  have hsearch : search CRLF (line ++ (CRLF ++ rest)) = line.length := search_append hline rest
  have hlen : (line ++ (CRLF ++ rest)).length = line.length + (2 + rest.length) := by
    rw [List.length_append, List.length_append, show CRLF.length = 2 from rfl]
  have hne : line ++ (CRLF ++ rest) ≠ [] := by
    intro h
    rw [h, List.length_nil] at hlen
    omega
  have hdrop : (line ++ (CRLF ++ rest)).drop (line.length + 2) = rest := by
    rw [List.drop_append, List.drop_of_length_le (Nat.le_add_right _ _), Nat.add_sub_cancel_left]
    rfl
  rw [parseBytes, if_pos ⟨hne, hstate⟩, hsearch, List.take_left, hlen, hstep, ok_bind]
  simp only [hdrop]
  rw [if_neg (by omega)]

theorem parsePath_state (req : HttpRequest) : (parsePath req).state = req.state := by
  unfold parsePath
  split
  · rfl
  · split <;> rfl

theorem parsedLine_state : r.parsedLine.state = .headers := parsePath_state _

/-- The header lines, entered one after the other. -/
theorem parse_headers (fuel : Nat) (rest : Bytes) (hs : List (Bytes × Bytes))
    (hsub : ∀ h ∈ hs, h ∈ r.headers) (req : HttpRequest) (hreq : req.state = .headers) :
    parseBytes verify (fuel + hs.length) req
        (render CR LF (hs.map headerLine) ++ (CRLF ++ rest)) =
      parseBytes verify fuel { req with header := hs.foldl enterHeader req.header }
        (CRLF ++ rest) := by
  induction hs generalizing req with
  | nil => rfl
  | cons h hs ih =>
    have hh := hsub h List.mem_cons_self
    have hbytes : render CR LF ((h :: hs).map headerLine) ++ (CRLF ++ rest) =
        headerLine h ++ (CRLF ++ (render CR LF (hs.map headerLine) ++ (CRLF ++ rest))) := by
      simp [render, CRLF]
    have hmany : ¬ (headerLine h).length +
        (2 + (render CR LF (hs.map headerLine) ++ (CRLF ++ rest)).length) ≤ 2 := by
      rw [List.length_append, List.length_append, show CRLF.length = 2 from rfl]
      omega
    have hstep : req.parseLine verify (headerLine h) ((headerLine h).length +
        (2 + (render CR LF (hs.map headerLine) ++ (CRLF ++ rest)).length)) =
        .ok (some { req with header := enterHeader req.header h }) := by
      unfold parseLine parseHeader
      rw [hreq, r.matchHeader_headerLine hh]
      simp only [if_neg hmany]
      rfl
    rw [hbytes, List.length_cons, ← Nat.add_assoc, parseBytes_line verify
      (r.cr_not_mem_headerLine hh) (by rw [hreq]; decide) hstep]
    exact ih (fun k hk => hsub k (List.mem_cons_of_mem _ hk)) _ hreq

/-- **The head of a request.**  The parser reaches the empty line with the request line and all
headers entered, whatever follows. -/
theorem parse_head (fuel : Nat) (rest : Bytes) :
    parseBytes verify (fuel + r.headers.length + 1) HttpRequest.init (r.head ++ (CRLF ++ rest)) =
      parseBytes verify fuel r.parsedHead (CRLF ++ rest) := by
  have hbytes : r.head ++ (CRLF ++ rest) = r.requestLine ++
      (CRLF ++ (render CR LF (r.headers.map headerLine) ++ (CRLF ++ rest))) := by
    simp [head, render, CRLF]
  have hstep : ∀ n, HttpRequest.init.parseLine verify r.requestLine n =
      .ok (some r.parsedLine) := by
    intro n
    show Except.ok ((HttpRequest.init.parseRequestLine r.requestLine).map parsePath) = _
    unfold parseRequestLine
    rw [matchRequestLine_requestLine]
    rfl
  rw [hbytes, parseBytes_line verify r.cr_not_mem_requestLine (by decide) (hstep _)]
  exact r.parse_headers verify fuel rest r.headers (fun _ h => h) r.parsedLine r.parsedLine_state

theorem parsedHead_state : r.parsedHead.state = .headers := r.parsedLine_state

/-- The empty line, with nothing behind it: the parser is finished and has used up the bytes. -/
theorem parse_empty (fuel : Nat) :
    parseBytes verify (fuel + 2) r.parsedHead (CRLF ++ []) =
      .ok (true, { r.parsedHead with state := .finish }, []) := by
  have hstep : r.parsedHead.parseLine verify [] 2 =
      .ok (some { r.parsedHead with state := .finish }) := by
    unfold parseLine
    rw [parsedHead_state]
    rfl
  rw [← List.nil_append (CRLF ++ []), parseBytes_line verify (List.not_mem_nil)
    (by rw [parsedHead_state]; decide) hstep]
  rfl

/-- What the parser leaves of the bytes behind the empty line, when there are any: it consumes the
first line of them, and consumes nothing when that line is not ended. -/
def afterBody (rest : Bytes) : Bytes :=
  if search CRLF rest = rest.length then rest else rest.drop (search CRLF rest + 2)

/-- The empty line, with bytes behind it: the first line of them is taken for the body. -/
theorem parse_more (fuel : Nat) {rest : Bytes} (hrest : rest ≠ []) :
    parseBytes verify (fuel + 3) r.parsedHead (CRLF ++ rest) =
      (r.parsedBody verify (rest.take (search CRLF rest))).map
        fun req => (true, req, afterBody rest) := by
  have hlen : 0 < rest.length := List.length_pos_of_ne_nil hrest
  have hstep : r.parsedHead.parseLine verify [] (0 + (2 + rest.length)) =
      .ok (some { r.parsedHead with state := .body }) := by
    unfold parseLine
    rw [parsedHead_state]
    show Except.ok (some (if _ then _ else _)) = _
    rw [if_neg (by omega)]
    rfl
  rw [← List.nil_append (CRLF ++ rest), parseBytes_line verify (List.not_mem_nil)
    (by rw [parsedHead_state]; decide) hstep, parseBytes, if_pos ⟨hrest, nofun⟩]
  unfold parseLine parsedBody afterBody parseBody
  cases parsePost verify { r.parsedHead with state := .body, body := rest.take (search CRLF rest) }
    with
  | error e => rfl
  | ok req =>
    simp only [ok_bind, pure_eq_ok, Except.map]
    split
    · rfl
    · unfold parseBytes
      rw [if_neg (fun h => h.2 rfl)]
      rfl

/-- What `parse` returns for the head of a request, the empty line and `rest`. -/
def parsed (rest : Bytes) : Checked (Bool × HttpRequest × Bytes) :=
  if rest = [] then .ok (true, { r.parsedHead with state := .finish }, [])
  else (r.parsedBody verify (rest.take (search CRLF rest))).map fun req =>
    (true, req, afterBody rest)

/-- **The parser on a request.**  The fuel of `parse` is enough. -/
theorem parse_text (rest : Bytes) :
    parseBytes verify ((r.head ++ (CRLF ++ rest)).length + 1) HttpRequest.init
      (r.head ++ (CRLF ++ rest)) = r.parsed verify rest := by
  have hlines : r.headers.length + 1 ≤ r.head.length := by
    have h := length_le_render CR LF (r.requestLine :: r.headers.map headerLine)
    rw [List.length_cons, List.length_map] at h
    exact h
  have hlen : (r.head ++ (CRLF ++ rest)).length = r.head.length + (2 + rest.length) := by
    rw [List.length_append, List.length_append, show CRLF.length = 2 from rfl]
  obtain ⟨extra, hextra⟩ := Nat.exists_eq_add_of_le hlines
  have hfuel : (r.head ++ (CRLF ++ rest)).length + 1 =
      extra + rest.length + 3 + r.headers.length + 1 := by
    omega
  rw [hfuel, parse_head]
  unfold parsed
  split
  · rename_i hrest
    rw [hrest]
    exact r.parse_empty verify _
  · rename_i hrest
    exact r.parse_more verify _ hrest

end Request
