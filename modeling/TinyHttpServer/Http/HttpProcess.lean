import TinyHttpServer.Http.HttpForm
import TinyHttpServer.Http.HttpRead

/-!
# One call of `process`

Whatever the request, the answer of `process` is a response in the sense of HTTP: a status line,
header lines, among them one with the length of the body, an empty line and the body.  Length and
body come from the same file, or from the same generated page, on every path.

* `process_framed_iff` — this holds exactly where the parser returns, that is, but for the body of a
  form that ends within an escape.
* `truncated_escape_overruns` — the shortest such body.
-/

set_option autoImplicit false

open Checked Lines HttpRequest HttpResponse

/-- A status line, header lines with one `Content-length`, an empty line, and a body of this length.
No line has a `CR` or `LF` in it. -/
def WellFramed (out : Bytes) : Prop :=
  ∃ status headers body, out = render CR LF (status :: headers) ++ (CRLF ++ body) ∧
    str "HTTP/1.1 " <+: status ∧
    headers.filter (fun l => (str "Content-length: ").isPrefixOf l) =
      [str "Content-length: " ++ toStr body.length] ∧
    ∀ l ∈ status :: headers, l ≠ [] ∧ CR ∉ l ∧ LF ∉ l

namespace HttpResponse

/-- None of the other header lines gives a length. -/
theorem filter_headers (r : HttpResponse) (n : Nat) :
    (r.connectionLines ++ [r.typeLine] ++ [lengthLine n]).filter
      (fun l => (str "Content-length: ").isPrefixOf l) = [lengthLine n] := by
  have hconn : r.connectionLines.filter (fun l => (str "Content-length: ").isPrefixOf l) = [] := by
    unfold connectionLines
    split <;> decide
  have htype : (str "Content-length: ").isPrefixOf r.typeLine = false := rfl
  have hlen : (str "Content-length: ").isPrefixOf (lengthLine n) = true :=
    List.isPrefixOf_iff_prefix.2 ⟨toStr n, rfl⟩
  rw [List.filter_append, List.filter_append, hconn, List.nil_append]
  simp [htype, hlen]

end HttpResponse

/-- **Every response is well framed.** -/
theorem responseBytes_wellFramed {env : HttpEnv} {path : Bytes} {isKeepAlive : Bool} {code : Int}
    {out : Bytes} (hcode : code = 200 ∨ code = 400)
    (h : responseBytes env path isKeepAlive code = .ok out) : WellFramed out := by
  obtain ⟨file, -, rfl⟩ := map_eq_ok.1 h
  have hs : Settled env.fs (start env path isKeepAlive code) _ := settle_settled hcode
  obtain ⟨status, hstatus⟩ := hs.status
  generalize hr : (start env path isKeepAlive code).settle env.fs = r at hs hstatus
  refine ⟨r.stateLine, r.connectionLines ++ [r.typeLine] ++ [lengthLine (r.bodyOf file).length],
    r.bodyOf file, rfl, ?_, r.filter_headers _, ?_⟩
  · unfold stateLine
    rw [List.append_assoc, List.append_assoc]
    exact List.prefix_append _ _
  · intro l hl
    have hcases : l ∈ r.headLines ∨ l = lengthLine (r.bodyOf file).length := by
      rw [List.mem_cons, List.mem_append, List.mem_singleton] at hl
      rcases hl with rfl | hl | rfl
      · exact .inl List.mem_cons_self
      · exact .inl (List.mem_cons_of_mem _ hl)
      · exact .inr rfl
    rcases hcases with hl | rfl
    · obtain ⟨hne, hprint⟩ := headLines_printable hstatus l hl
      exact ⟨hne, hprint.cr_not_mem, hprint.lf_not_mem⟩
    · exact ⟨(lengthLine_ok _).1, (lengthLine_printable _).cr_not_mem,
        (lengthLine_printable _).lf_not_mem⟩

/-- The response that `process` begins for a parsed request, with the file that it selects. -/
def selected (env : HttpEnv) (parsed : Bool) (request : HttpRequest) : HttpResponse :=
  if parsed then (start env request.path request.isKeepAlive 200).settle env.fs
  else (start env request.path false 400).settle env.fs

/-- The file that is selected in the end can be mapped, if it can be opened: it is not empty. -/
def SelectedMappable (env : HttpEnv) (bytes : Bytes) : Prop :=
  ∀ parsed request rest,
    parseBytes env.verify (bytes.length + 1) HttpRequest.init bytes = .ok (parsed, request, rest) →
    ∀ node, env.fs.openFile ((selected env parsed request).srcDir ++
        (selected env parsed request).path) = some node →
      node.isDir = false ∧ node.contents ≠ []

/-- The escapes in the body of a form are complete. -/
def FormComplete (bytes : Bytes) : Prop :=
  ∀ req line, bodyLine (bytes.length + 1) HttpRequest.init bytes = some (req, line) →
    req.isForm = true → escapesComplete line = true

theorem responseBytes_of_mappable {env : HttpEnv} {path : Bytes} {isKeepAlive : Bool} {code : Int}
    (hcode : code = 200 ∨ code = 400)
    (hmap : ∀ node, env.fs.openFile (((start env path isKeepAlive code).settle env.fs).srcDir ++
        ((start env path isKeepAlive code).settle env.fs).path) = some node →
      node.isDir = false ∧ node.contents ≠ []) :
    ∃ out, responseBytes env path isKeepAlive code = .ok out := by
  have hs : Settled env.fs (start env path isKeepAlive code) _ := settle_settled hcode
  obtain ⟨file, hfile⟩ := (content_returns_iff hs).2 hmap
  exact ⟨_, map_eq_ok.2 ⟨file, hfile, rfl⟩⟩

theorem serve_eq_ok_iff {env : HttpEnv} {bytes : Bytes} (hmap : SelectedMappable env bytes) :
    (∃ served, serve env bytes = .ok served) ↔ FormComplete bytes := by
  unfold FormComplete
  rw [← parseBytes_returns_iff env.verify (bytes.length + 1) HttpRequest.init bytes
    (Nat.lt_succ_self _)]
  unfold serve
  constructor
  · rintro ⟨served, h⟩
    obtain ⟨result, hresult, -⟩ := bind_eq_ok.1 h
    exact ⟨result, hresult⟩
  · rintro ⟨⟨parsed, request, rest⟩, hresult⟩
    have hnode := hmap parsed request rest hresult
    rw [hresult, ok_bind]
    cases parsed with
    | true =>
      obtain ⟨out, hout⟩ := responseBytes_of_mappable (.inl rfl) hnode
      exact ⟨(rest, out), by simp only [if_true, hout, ok_bind, pure_eq_ok]⟩
    | false =>
      obtain ⟨out, hout⟩ := responseBytes_of_mappable (.inr rfl) hnode
      exact ⟨(rest, out), by simp only [Bool.false_eq_true, if_false, hout, ok_bind, pure_eq_ok]⟩

theorem serve_wellFramed {env : HttpEnv} {bytes rest out : Bytes}
    (h : serve env bytes = .ok (rest, out)) : WellFramed out := by
  obtain ⟨⟨parsed, request, left⟩, -, h⟩ := bind_eq_ok.1 h
  obtain ⟨out', hout, h⟩ := bind_eq_ok.1 h
  cases h
  cases parsed with
  | true => exact responseBytes_wellFramed (.inl rfl) hout
  | false => exact responseBytes_wellFramed (.inr rfl) hout

namespace HttpContext

/-- **Response framing.**  For every input, document root and file system in which the selected file
is not empty or cannot be opened, `process` returns and appends one well-framed response if and only
if the body of a form does not end within an escape. -/
theorem process_framed_iff (env : HttpEnv) (ctx : HttpContext) (hw : ctx.Wf)
    (hne : ctx.readBuff.readable ≠ []) (hmap : SelectedMappable env ctx.readBuff.readable) :
    (∃ ctx' result out, ctx.process env = .ok (ctx', result) ∧
        ctx'.writeBuff.readable = ctx.writeBuff.readable ++ out ∧ WellFramed out) ↔
      FormComplete ctx.readBuff.readable := by
  have href := process_refines env ctx hw hne
  rw [← serve_eq_ok_iff hmap]
  generalize hserve : serve env ctx.readBuff.readable = served at href
  generalize ctx.process env = processed at href
  cases href with
  | ok h =>
    rename_i result served
    constructor
    · exact fun _ => ⟨served, rfl⟩
    · exact fun _ => ⟨result.1, result.2, served.2, rfl, h.written, serve_wellFramed hserve⟩
  | error e =>
    constructor
    · rintro ⟨ctx', result, out, h, -⟩
      cases h
    · rintro ⟨served, h⟩
      cases h

/-- A document root without files. -/
def emptyRoot : HttpEnv :=
  { srcDir := str "/srv", srcDir_ne := srv_ne_nil, fs := fun _ => none, verify := fun _ _ _ => false }

theorem emptyRoot_mappable (bytes : Bytes) : SelectedMappable emptyRoot bytes := by
  intro parsed request rest _ node hnode
  cases hnode

/-- A request for the start page of an empty root. -/
theorem process_framed_sample :
    ∃ ctx ctx' result out, ctx.readBuff.readable = str "GET / HTTP/1.1\r\n\r\n" ∧
      process emptyRoot ctx = .ok (ctx', result) ∧ ctx'.writeBuff.readable = out ∧
      WellFramed out := by
  obtain ⟨ctx, hw, hread, hwrite⟩ := exists_context (str "GET / HTTP/1.1\r\n\r\n")
  have hne : ctx.readBuff.readable ≠ [] := by rw [hread]; decide
  have hnone : bodyLine ((str "GET / HTTP/1.1\r\n\r\n").length + 1) HttpRequest.init
      (str "GET / HTTP/1.1\r\n\r\n") = none := Option.isNone_iff_eq_none.1 (by decide +kernel)
  have hcomplete : FormComplete ctx.readBuff.readable := by
    rw [hread]
    intro req line hline
    rw [hnone] at hline
    cases hline
  obtain ⟨ctx', result, out, hprocess, hout, hframed⟩ :=
    (process_framed_iff emptyRoot ctx hw hne (emptyRoot_mappable _)).2 hcomplete
  rw [hwrite, List.nil_append] at hout
  exact ⟨ctx, ctx', result, out, hread, hprocess, hout, hframed⟩

/-- The form `%`: `ParseFromUrlencoded_` looks for two bytes behind the `'%'` and leaves the body. -/
theorem truncated_escape_overruns :
    ∃ ctx : HttpContext, ctx.Wf ∧
      ctx.readBuff.readable =
        str "POST / HTTP/1.1\r\nContent-Type: application/x-www-form-urlencoded\r\n\r\n%" ∧
      SelectedMappable emptyRoot ctx.readBuff.readable ∧
      process emptyRoot ctx = .error .outOfRange := by
  obtain ⟨ctx, hw, hread, -⟩ := exists_context
    (str "POST / HTTP/1.1\r\nContent-Type: application/x-www-form-urlencoded\r\n\r\n%")
  have hne : ctx.readBuff.readable ≠ [] := by rw [hread]; decide
  have hserve : serve emptyRoot ctx.readBuff.readable = .error .outOfRange := by
    rw [hread]
    decide +kernel
  have href := process_refines emptyRoot ctx hw hne
  rw [hserve] at href
  refine ⟨ctx, hw, hread, emptyRoot_mappable _, ?_⟩
  generalize process emptyRoot ctx = processed at href
  cases href
  rfl

end HttpContext
