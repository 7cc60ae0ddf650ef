import TinyHttpServer.Http.HttpProcess
import TinyHttpServer.Http.HttpStream
import TinyHttpServer.Http.HttpTotal

/-!
# Requests that are refused

What a context does with bytes whose first line is no request line: `parse` answers `false`, changes
nothing, and `process` makes a response with the code `400` and the empty path.

* `malformed_status_iff` — `MakeResponse` looks at the document root then, so that the code stays
  `400` exactly where the document root is a file.
* `never_recovers` — the bytes stay in the read buffer, so that no later request is read on its own.
* `malformed_line_stays` — a line that is ended by `CRLF` stays in front of everything that is read
  after it.
-/

set_option autoImplicit false

open Checked Lines HttpRequest HttpResponse

namespace HttpRequest

variable (verify : Bytes → Bytes → Bool → Bool)

theorem parseLine_later {req : HttpRequest} {line : Bytes} {n : Nat} {result : Option HttpRequest}
    (hstate : req.state ≠ .requestLine) (h : req.parseLine verify line n = .ok result) :
    ∃ req', result = some req' ∧ req'.state ≠ .requestLine := by
  unfold parseLine at h
  cases hcase : req.state with
  | requestLine => exact absurd hcase hstate
  | headers =>
    rw [hcase] at h
    cases h
    refine ⟨_, rfl, ?_⟩
    split
    · nofun
    · unfold parseHeader
      split
      · exact hstate
      · nofun
  | body =>
    rw [hcase] at h
    obtain ⟨req', hbody, h⟩ := bind_eq_ok.1 h
    cases h
    refine ⟨req', rfl, ?_⟩
    rw [parseBody_state verify hbody]
    nofun
  | finish =>
    rw [hcase] at h
    cases h
    exact ⟨req, rfl, hstate⟩

/-- Behind the request line the parser does not answer `false`, and keeps what every line keeps. -/
theorem parseBytes_later {R : HttpRequest → Prop}
    (hkeep : ∀ {req req' line n}, req.state ≠ .requestLine → R req →
      req.parseLine verify line n = .ok (some req') → R req') (fuel : Nat) :
    ∀ {req req' : HttpRequest} {bytes rest : Bytes} {answer : Bool}, req.state ≠ .requestLine →
      R req → parseBytes verify fuel req bytes = .ok (answer, req', rest) →
        answer = true ∧ R req' := by
  induction fuel with
  | zero => intro req req' bytes rest answer _ _ h; cases h
  | succ fuel ih =>
    intro req req' bytes rest answer hstate hreq h
    unfold parseBytes at h
    split at h
    · obtain ⟨result, hline, h⟩ := bind_eq_ok.1 h
      obtain ⟨req₁, rfl, hstate₁⟩ := parseLine_later verify hstate hline
      have hreq₁ := hkeep hstate hreq hline
      simp only at h
      split at h
      · cases h
        exact ⟨rfl, hreq₁⟩
      · exact ih hstate₁ hreq₁ h
    · cases h
      exact ⟨rfl, hreq⟩

/-- A first line that is no request line: nothing changes. -/
theorem parseBytes_malformed {bytes : Bytes} (hne : bytes ≠ [])
    (hbad : ¬IsRequestLine (firstLine bytes)) (fuel : Nat) :
    parseBytes verify (fuel + 1) init bytes = .ok (false, init, bytes) := by
  rw [← matchRequestLine_isSome, Option.not_isSome_iff_eq_none] at hbad
  have hline : init.parseLine verify (bytes.take (search CRLF bytes)) bytes.length = .ok none := by
    show Except.ok ((init.parseRequestLine (firstLine bytes)).map parsePath) = _
    rw [parseRequestLine, hbad]
    rfl
  rw [parseBytes, if_pos ⟨hne, by simp [init]⟩, hline]
  rfl

/-- A request line: the parser does not answer `false`, and what holds of the request behind it and is
kept by every later line holds in the end. -/
theorem parseBytes_first {R : HttpRequest → Prop}
    (hkeep : ∀ {req req' line n}, req.state ≠ .requestLine → R req →
      req.parseLine verify line n = .ok (some req') → R req') {bytes rest : Bytes}
    {parts : Bytes × Bytes × Bytes} {req : HttpRequest} {answer : Bool} {fuel : Nat}
    (hmatch : matchRequestLine (firstLine bytes) = some parts)
    (hfirst : R (parsePath { init with
      method := parts.1, path := parts.2.1, version := parts.2.2, state := .headers }))
    (h : parseBytes verify fuel init bytes = .ok (answer, req, rest)) : answer = true ∧ R req := by
  have hne : bytes ≠ [] := by
    rintro rfl
    cases hmatch
  cases fuel with
  | zero => cases h
  | succ fuel =>
    have hline : init.parseLine verify (bytes.take (search CRLF bytes)) bytes.length =
        .ok ((init.parseRequestLine (firstLine bytes)).map parsePath) := rfl
    rw [parseRequestLine, hmatch] at hline
    rw [parseBytes, if_pos ⟨hne, by simp [init]⟩, hline] at h
    simp only [Option.map_some, ok_bind] at h
    split at h
    · cases h
      exact ⟨rfl, hfirst⟩
    · refine parseBytes_later verify hkeep fuel ?_ hfirst h
      simp [Request.parsePath_state]

theorem parseBytes_wellFormed {bytes rest : Bytes} {req : HttpRequest} {answer : Bool} {fuel : Nat}
    (hgood : IsRequestLine (firstLine bytes))
    (h : parseBytes verify fuel init bytes = .ok (answer, req, rest)) : answer = true := by
  obtain ⟨parts, hmatch⟩ := Option.isSome_iff_exists.1 ((matchRequestLine_isSome _).2 hgood)
  exact (parseBytes_first (R := fun _ => True) verify (fun _ _ _ => trivial) hmatch trivial h).1

/-- **When `parse` answers `false`.** -/
theorem parse_false_iff {buff : Buffer} (hw : buff.Wf) (hne : buff.readable ≠ []) :
    (∃ req buff', init.parse verify buff = .ok (false, req, buff')) ↔
      ¬IsRequestLine (firstLine buff.readable) := by
  have href := parse_refines verify init hw hne
  constructor
  · rintro ⟨req, buff', h⟩ hgood
    rw [h] at href
    generalize hbytes : parseBytes verify _ init buff.readable = result at href
    cases href with
    | ok hsame =>
      rename_i b
      obtain ⟨answer, req₁, rest⟩ := b
      exact absurd (hsame.parsed.trans (parseBytes_wellFormed verify hgood hbytes)) nofun
  · intro hbad
    rw [parseBytes_malformed verify hne hbad] at href
    generalize init.parse verify buff = result at href
    cases href with
    | ok hsame =>
      rename_i a
      obtain ⟨answer, req, buff'⟩ := a
      obtain rfl : answer = false := hsame.parsed
      exact ⟨req, buff', rfl⟩

end HttpRequest

/-- The answer to a malformed request: everything stays unread. -/
theorem serve_malformed (env : HttpEnv) {bytes : Bytes} (hne : bytes ≠ [])
    (hbad : ¬IsRequestLine (firstLine bytes)) :
    serve env bytes = (responseBytes env [] false 400).map fun out => (bytes, out) := by
  unfold serve
  rw [parseBytes_malformed env.verify hne hbad, ok_bind]
  show (responseBytes env [] false 400 >>= fun out => Except.ok (bytes, out)) = _
  cases responseBytes env [] false 400 <;> rfl

/-! ## The status code -/

/-- The document root is a file that everybody may read. -/
def RootReadable (env : HttpEnv) : Prop :=
  ∃ node, env.fs (cString env.srcDir) = some node ∧ node.isDir = false ∧ node.otherRead = true

/-- The page for the code `400` is not a directory and not empty, if the server can open it. -/
def ErrorPageMappable (env : HttpEnv) : Prop :=
  ∀ node, env.fs.openFile (env.srcDir ++ str "/400.html") = some node →
    node.isDir = false ∧ node.contents ≠ []

theorem refused_root_iff (env : HttpEnv) :
    refused env.fs (env.srcDir ++ []) = none ↔ RootReadable env := by
  unfold refused FileSystem.stat RootReadable
  rw [List.append_nil]
  cases env.fs (cString env.srcDir) with
  | none => simp
  | some node => cases hdir : node.isDir <;> cases hread : node.otherRead <;> simp [hdir, hread]

/-- The response that `process` begins for a malformed request. -/
theorem settle_malformed_readable {env : HttpEnv} (h : RootReadable env) :
    ((start env [] false 400).settle env.fs).code = 400 ∧
      ((start env [] false 400).settle env.fs).path = str "/400.html" := by
  obtain ⟨stat, -, hdecide⟩ := decideCode_accepted (r := start env [] false 400)
    (show (400 : Int) ≠ -1 by decide) ((refused_root_iff env).2 h)
  unfold settle
  rw [hdecide]
  exact ⟨rfl, rfl⟩

theorem settle_malformed_refused {env : HttpEnv} (h : ¬RootReadable env) :
    ((start env [] false 400).settle env.fs).code = 404 ∨
      ((start env [] false 400).settle env.fs).code = 403 := by
  rw [← refused_root_iff, ← ne_eq, Option.ne_none_iff_exists'] at h
  obtain ⟨code, hcode⟩ := h
  obtain ⟨stat, hdecide⟩ := decideCode_refused (r := start env [] false 400) hcode
  unfold settle
  rw [hdecide]
  obtain rfl | rfl := refused_code hcode
  · exact .inl rfl
  · exact .inr rfl

/-- A response begins with its status code. -/
theorem responseBytes_code {env : HttpEnv} {path out : Bytes} {isKeepAlive : Bool} {code : Int}
    (h : responseBytes env path isKeepAlive code = .ok out) :
    (str "HTTP/1.1 " ++ intStr ((start env path isKeepAlive code).settle env.fs).code ++ str " ") <+:
      out := by
  obtain ⟨file, -, rfl⟩ := map_eq_ok.1 h
  unfold frame headLines stateLine
  simp only [List.cons_append, render_cons, List.append_assoc]
  simp

/-- The answer to a malformed request begins with `400` exactly where the document root is a readable
file, and it is there when the page for this code can be mapped. -/
theorem responseBytes_malformed_iff (env : HttpEnv) :
    (∃ out, responseBytes env [] false 400 = .ok out ∧ str "HTTP/1.1 400 " <+: out) ↔
      RootReadable env ∧ ErrorPageMappable env := by
  by_cases hroot : RootReadable env
  · have hs : Settled env.fs (start env [] false 400) _ := settle_settled (.inr rfl)
    obtain ⟨hcode, hpath⟩ := settle_malformed_readable hroot
    have hmap := content_returns_iff hs
    rw [hs.srcDir, hpath] at hmap
    refine Iff.trans ?_ (hmap.trans (and_iff_right hroot).symm)
    constructor
    · rintro ⟨out, hout, -⟩
      obtain ⟨file, hfile, -⟩ := map_eq_ok.1 hout
      exact ⟨file, hfile⟩
    · rintro ⟨file, hfile⟩
      have hout : responseBytes env [] false 400 = .ok _ := map_eq_ok.2 ⟨file, hfile, rfl⟩
      have hbegins := responseBytes_code hout
      rw [hcode] at hbegins
      exact ⟨_, hout, hbegins⟩
  · refine iff_of_false ?_ fun h => hroot h.1
    rintro ⟨out, hout, hbegins⟩
    have hcode := responseBytes_code hout
    obtain h | h := settle_malformed_refused hroot
    · rw [h] at hcode
      exact absurd (List.prefix_of_prefix_length_le hbegins hcode (by decide)) (by decide)
    · rw [h] at hcode
      exact absurd (List.prefix_of_prefix_length_le hbegins hcode (by decide)) (by decide)

namespace HttpContext

/-- **The status of malformed requests.**  Where `parse` answers `false`, `process` appends a
response with the code `400` if and only if the document root is a file that everybody may read, and
the page `400.html` behind it can be mapped if it can be opened. -/
theorem malformed_status_iff (env : HttpEnv) (ctx : HttpContext) (hw : ctx.Wf)
    (hne : ctx.readBuff.readable ≠ [])
    (hbad : ∃ req buff', HttpRequest.init.parse env.verify ctx.readBuff = .ok (false, req, buff')) :
    (∃ ctx' result out, ctx.process env = .ok (ctx', result) ∧
        ctx'.writeBuff.readable = ctx.writeBuff.readable ++ out ∧ str "HTTP/1.1 400 " <+: out) ↔
      RootReadable env ∧ ErrorPageMappable env := by
  rw [parse_false_iff env.verify hw.readBuff hne] at hbad
  have href := process_refines env ctx hw hne
  rw [serve_malformed env hne hbad] at href
  rw [← responseBytes_malformed_iff]
  generalize ctx.process env = processed at href
  constructor
  · rintro ⟨ctx', result, out, rfl, hout, hbegins⟩
    cases hresp : responseBytes env [] false 400 with
    | error e =>
      rw [hresp] at href
      cases href
    | ok sent =>
      rw [hresp] at href
      cases href with
      | ok h =>
        have hsame : out = sent := List.append_cancel_left (hout.symm.trans h.written)
        exact ⟨out, congrArg Except.ok hsame.symm, hbegins⟩
  · rintro ⟨out, hresp, hbegins⟩
    rw [hresp] at href
    cases href with
    | ok h =>
      rename_i result
      exact ⟨result.1, result.2, out, rfl, h.written, hbegins⟩

/-- The document root is itself a file, and the server may open nothing. -/
def fileRoot : HttpEnv where
  srcDir := str "/srv"
  srcDir_ne := srv_ne_nil
  fs := fun path =>
    if path = str "/srv" then
      some { isDir := false, otherRead := true, openable := false, contents := [] }
    else none
  verify := fun _ _ _ => false

/-- The document root is a directory, and it is empty. -/
def directoryRoot : HttpEnv where
  srcDir := str "/srv"
  srcDir_ne := srv_ne_nil
  fs := fun path =>
    if path = str "/srv" then
      some { isDir := true, otherRead := true, openable := true, contents := [] }
    else none
  verify := fun _ _ _ => false

/-- A context that has read a line that is no request line. -/
theorem exists_malformed (verify : Bytes → Bytes → Bool → Bool) :
    ∃ ctx : HttpContext, ctx.Wf ∧ ctx.readBuff.readable = str "GET\r\n" ∧ ctx.writeBuff.readable = [] ∧
      ∃ req buff', HttpRequest.init.parse verify ctx.readBuff = .ok (false, req, buff') := by
  obtain ⟨ctx, hw, hread, hwrite⟩ := exists_context (str "GET\r\n")
  refine ⟨ctx, hw, hread, hwrite, ?_⟩
  rw [parse_false_iff verify hw.readBuff (by rw [hread]; decide), hread]
  decide

theorem malformed_status_sample :
    ∃ ctx ctx' result out, HttpContext.Wf ctx ∧ ctx.process fileRoot = .ok (ctx', result) ∧
      ctx'.writeBuff.readable = out ∧ str "HTTP/1.1 400 " <+: out := by
  obtain ⟨ctx, hw, hread, hwrite, hbad⟩ := exists_malformed fileRoot.verify
  have hroot : RootReadable fileRoot := ⟨_, rfl, rfl, rfl⟩
  have hpage : ErrorPageMappable fileRoot := by
    intro node h
    cases h
  obtain ⟨ctx', result, out, hprocess, hout, hbegins⟩ :=
    (malformed_status_iff fileRoot ctx hw (by rw [hread]; decide) hbad).2 ⟨hroot, hpage⟩
  rw [hwrite, List.nil_append] at hout
  exact ⟨ctx, ctx', result, out, hw, hprocess, hout, hbegins⟩

/-- Under a directory the line `GET` gets the code `404`: `MakeResponse` looks at the document
root. -/
theorem malformed_not_found :
    ∃ ctx ctx' result, HttpContext.Wf ctx ∧ ctx.readBuff.readable = str "GET\r\n" ∧
      (∃ req buff', HttpRequest.init.parse directoryRoot.verify ctx.readBuff =
        .ok (false, req, buff')) ∧
      ctx.process directoryRoot = .ok (ctx', result) ∧
      str "HTTP/1.1 404 Not Found" <+: ctx'.writeBuff.readable ∧
      ¬str "HTTP/1.1 400 " <+: ctx'.writeBuff.readable := by
  obtain ⟨ctx, hw, hread, hwrite, hbad⟩ := exists_malformed directoryRoot.verify
  have href := process_refines directoryRoot ctx hw (by rw [hread]; decide)
  obtain ⟨served, hserve, hbegins⟩ := map_eq_ok.1 (show (serve directoryRoot (str "GET\r\n")).map
    (fun p => (p.2.take 22)) = .ok (str "HTTP/1.1 404 Not Found") by decide +kernel)
  rw [hread, hserve] at href
  generalize hprocess : ctx.process directoryRoot = processed at href
  cases href with
  | ok h =>
    rename_i result
    have hwritten := h.written
    rw [hwrite, List.nil_append] at hwritten
    have hfound : str "HTTP/1.1 404 Not Found" <+: result.1.writeBuff.readable := by
      rw [hwritten, ← hbegins]
      exact ⟨_, List.take_append_drop 22 _⟩
    refine ⟨ctx, result.1, result.2, hw, hread, hbad, hprocess, hfound, ?_⟩
    intro h400
    exact absurd (List.prefix_of_prefix_length_le h400 hfound (by decide)) (by decide)

end HttpContext

/-! ## The next read -/

namespace HttpContext

/-- The bytes `m` in one read and the request `g` in the next: `g` gets the answer of a new context,
and nothing of `m` stays unread after its own answer. -/
def Recovers (env : HttpEnv) (ctx : HttpContext) (m : Bytes) (g : Request) : Prop :=
  ∃ out₁ out₂ rest, ctx.transcript env [m, g.text] = .ok [(out₁, []), (out₂, rest)] ∧
    output env [g.text] = .ok out₂

/-- **No recovery.**  After bytes whose first line is no request line, the next request is never read
on its own, on any context with nothing unread: where the first read returns, it leaves all of the
bytes in the buffer. -/
theorem never_recovers (env : HttpEnv) (ctx : HttpContext) (hw : ctx.Wf)
    (hread : ctx.readBuff.readable = []) (m : Bytes) (hne : m ≠ [])
    (hbad : ¬IsRequestLine (firstLine m)) (g : Request) :
    ¬Recovers env ctx m g ∧
      ∀ reads, ctx.transcript env [m, g.text] = .ok reads → ∃ out, reads.head? = some (out, m) := by
  have hchunks : ∀ c ∈ [m, g.text], c ≠ [] := by
    rw [List.forall_mem_cons, List.forall_mem_singleton]
    exact ⟨hne, g.text_ne_nil⟩
  have hleft : ∀ reads, ctx.transcript env [m, g.text] = .ok reads →
      ∃ out, reads.head? = some (out, m) := by
    intro reads h
    rw [transcript_eq env hchunks hw, hread] at h
    obtain ⟨⟨rest, out⟩, hserve, h⟩ := bind_eq_ok.1 h
    obtain ⟨tail, -, h⟩ := bind_eq_ok.1 h
    cases h
    rw [List.nil_append, serve_malformed env hne hbad] at hserve
    obtain ⟨sent, -, heq⟩ := map_eq_ok.1 hserve
    cases heq
    exact ⟨_, rfl⟩
  refine ⟨?_, hleft⟩
  rintro ⟨out₁, out₂, rest, h, -⟩
  obtain ⟨out, hhead⟩ := hleft _ h
  cases hhead
  exact hne rfl

theorem never_recovers_sample : ¬Recovers sampleEnv make (str "GET\r\n") getRequest :=
  (never_recovers sampleEnv make make_wf make_unread (str "GET\r\n") (by decide) (by decide)
    getRequest).1

/-- The line `GET` in front of a request: the request gets another answer, and both stay unread. -/
theorem line_spoils_request :
    ¬IsRequestLine (firstLine (str "GET\r\n")) ∧
      ∃ out₁ out₂ fresh, transcript sampleEnv make [str "GET\r\n", getRequest.text] =
          .ok [(out₁, str "GET\r\n"), (out₂, str "GET\r\n" ++ getRequest.text)] ∧
        output sampleEnv [getRequest.text] = .ok fresh ∧ out₂ ≠ fresh := by
  obtain ⟨⟨rest₁, out₁⟩, hfirst, hrest₁⟩ := map_eq_ok.1 (show (serve sampleEnv
    (str "GET\r\n")).map Prod.fst = .ok (str "GET\r\n") by decide +kernel)
  obtain ⟨⟨rest₂, out₂⟩, hsecond, hrest₂⟩ := map_eq_ok.1 (show (serve sampleEnv
    (str "GET\r\n" ++ getRequest.text)).map (fun p => (p.1, p.2.take 12)) =
      .ok (str "GET\r\n" ++ getRequest.text, str "HTTP/1.1 404") by decide +kernel)
  obtain ⟨⟨rest, fresh⟩, halone, hfresh⟩ := map_eq_ok.1 (show (serve sampleEnv
    getRequest.text).map (fun p => p.2.take 12) = .ok (str "HTTP/1.1 200") by decide +kernel)
  obtain rfl : rest₁ = str "GET\r\n" := hrest₁
  obtain ⟨rfl, hout₂⟩ := Prod.mk.inj hrest₂
  refine ⟨by decide, out₁, out₂, fresh, ?_, (output_eq_ok getRequest.text_ne_nil).2 ⟨_, halone⟩, ?_⟩
  · rw [transcript_eq sampleEnv (by decide) make_wf, make_unread]
    simp only [serveAll, List.nil_append, hfirst, hsecond, ok_bind, pure_eq_ok]
  · rintro rfl
    exact absurd (hout₂.symm.trans hfresh) (by decide)

end HttpContext

/-! ## A line that is ended -/

/-- Behind a first line that is ended, more bytes change nothing about it. -/
theorem firstLine_append {m : Bytes} (hend : search CRLF m < m.length) (rest : Bytes) :
    firstLine (m ++ rest) = firstLine m := by
  unfold firstLine
  rw [search_append_of_found hend, List.take_append_of_le_length (search_le CRLF m)]

/-- The bytes that stay unread, when everything does: those of every read so far. -/
def unreadAll (out : Bytes) (unread : Bytes) : List Bytes → List (Bytes × Bytes)
  | [] => []
  | data :: chunks => (out, unread ++ data) :: unreadAll out (unread ++ data) chunks

namespace HttpContext

/-- **A malformed line stays.**  Once a line is ended that is no request line, every later read gets
the same answer, whatever arrives, and the buffer keeps all that has arrived. -/
theorem malformed_line_stays (env : HttpEnv) {ctx : HttpContext} (hw : ctx.Wf)
    (hread : ctx.readBuff.readable = []) {m : Bytes} (hend : search CRLF m < m.length)
    (hbad : ¬IsRequestLine (firstLine m)) {out : Bytes} (hout : responseBytes env [] false 400 = .ok out)
    {chunks : List Bytes} (hchunks : ∀ c ∈ chunks, c ≠ []) :
    ctx.transcript env (m :: chunks) = .ok (unreadAll out [] (m :: chunks)) := by
  have hm : m ≠ [] := List.ne_nil_of_length_pos (by omega)
  -- the unread bytes begin with the malformed line at every read
  have hserve : ∀ rest, serve env (m ++ rest) = .ok (m ++ rest, out) := by
    intro rest
    rw [serve_malformed env (List.append_ne_nil_of_left_ne_nil hm _) (by rwa [firstLine_append hend]),
      hout]
    rfl
  have hlater : ∀ chunks rest, serveAll env (m ++ rest) chunks =
      .ok (unreadAll out (m ++ rest) chunks) := by
    intro chunks
    induction chunks with
    | nil => exact fun rest => rfl
    | cons c chunks ih =>
      intro rest
      rw [serveAll, List.append_assoc, hserve, ok_bind]
      simp only [ih, ok_bind, pure_eq_ok, unreadAll, List.append_assoc]
  rw [transcript_eq env (by simpa using ⟨hm, hchunks⟩) hw, hread, serveAll, List.nil_append]
  have hfirst := hserve []
  have hrest := hlater chunks []
  rw [List.append_nil] at hfirst hrest
  rw [hfirst, ok_bind]
  simp only [hrest, ok_bind, pure_eq_ok, unreadAll, List.nil_append]

end HttpContext
