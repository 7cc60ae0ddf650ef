import TinyHttpServer.Http.HttpFraming
import TinyHttpServer.Http.HttpParse

/-!
# Reads of a context as functions of bytes

`serve` is `process` on byte strings: from the unread bytes it computes the bytes that stay unread
and the response.  `read_refines` says that `read` does the same on the two buffers of a context.
`serveAll` is a sequence of reads on bytes (`output_eq`, `transcript_eq`).  Every read with something
to read appends exactly one response, whatever the bytes are (`serveAll_framed`).

`Answered` collects what a complete request needs to get a response at all: the parser must get
through its body, and the file that answers it must be one that can be mapped.
-/

set_option autoImplicit false

open Checked Lines HttpRequest

/-- `process` on bytes: what it leaves unread, and the response. -/
def serve (env : HttpEnv) (bytes : Bytes) : Checked (Bytes × Bytes) := do
  let (parsed, request, rest) ← parseBytes env.verify (bytes.length + 1) HttpRequest.init bytes
  let out ← (if parsed then responseBytes env request.path request.isKeepAlive 200
    else responseBytes env request.path false 400)
  return (rest, out)

namespace HttpContext

variable (env : HttpEnv)

/-- Both buffers are well formed. -/
structure Wf (ctx : HttpContext) : Prop where
  readBuff : ctx.readBuff.Wf
  writeBuff : ctx.writeBuff.Wf

theorem make_wf : make.Wf :=
  ⟨Buffer.retrieveAll_wf (Buffer.make_wf _), Buffer.retrieveAll_wf (Buffer.make_wf _)⟩

theorem make_unread : make.readBuff.readable = [] := Buffer.retrieveAll_readable _

theorem make_unwritten : make.writeBuff.readable = [] := Buffer.retrieveAll_readable _

/-- A context that has read `bytes`. -/
theorem exists_context (bytes : Bytes) :
    ∃ ctx : HttpContext, ctx.Wf ∧ ctx.readBuff.readable = bytes ∧ ctx.writeBuff.readable = [] := by
  obtain ⟨readBuff, -, hw, hr⟩ := Buffer.append_spec make_wf.readBuff bytes
  refine ⟨{ make with readBuff }, ⟨hw, make_wf.writeBuff⟩, ?_, make_unwritten⟩
  rw [hr, make_unread, List.nil_append]

/-- The context `ctx'` has the bytes `served.1` unread and has appended `served.2`. -/
structure Served (ctx ctx' : HttpContext) (served : Bytes × Bytes) : Prop where
  wf : ctx'.Wf
  unread : ctx'.readBuff.readable = served.1
  written : ctx'.writeBuff.readable = ctx.writeBuff.readable ++ served.2

theorem process_refines (ctx : HttpContext) (hw : ctx.Wf) (hne : ctx.readBuff.readable ≠ []) :
    Refines (fun a => Served ctx a.1) (ctx.process env) (serve env ctx.readBuff.readable) := by
  have hzero : ¬ ctx.readBuff.readAbleBytes = 0 := fun h =>
    hne ((Buffer.readable_eq_nil hw.readBuff).2 h)
  unfold serve process
  simp only [if_neg hzero]
  refine (parse_refines env.verify HttpRequest.init hw.readBuff hne).bind ?_
  rintro ⟨parsed, request, readBuff⟩ ⟨-, -, rest⟩ ⟨rfl, rfl, hwr, rfl⟩
  -- the two calls of `response_.Init` differ in the code and in the connection header
  have hanswer : Refines (HttpContext.Answers { ctx with request, readBuff })
      (if parsed then answer env { ctx with request, readBuff } request.isKeepAlive 200
        else answer env { ctx with request, readBuff } false 400)
      (if parsed then responseBytes env request.path request.isKeepAlive 200
        else responseBytes env request.path false 400) := by
    split
    · exact answer_refines env { ctx with request, readBuff } hw.writeBuff _ (.inl rfl)
    · exact answer_refines env { ctx with request, readBuff } hw.writeBuff _ (.inr rfl)
  refine hanswer.bind fun ctx' out h => ?_
  exact .ok ⟨⟨h.readBuff ▸ hwr, h.wf⟩, congrArg Buffer.readable h.readBuff, h.written⟩

/-- **`read` on the two buffers of a context.** -/
theorem read_refines {ctx : HttpContext} (hw : ctx.Wf) {buff : Buffer} (hb : buff.Wf)
    (hne : buff.readable ≠ []) :
    Refines (fun a => Served ctx a.1) (ctx.read env buff)
      (serve env (ctx.readBuff.readable ++ buff.readable)) := by
  obtain ⟨buff', hdata, -, -⟩ := Buffer.retrieveAllString_spec hb
  obtain ⟨readBuff, happ, hwr, hr⟩ := Buffer.append_spec hw.readBuff buff.readable
  have hproc := process_refines env { ctx with readBuff } ⟨hwr, hw.writeBuff⟩
    (by rw [hr]; exact List.append_ne_nil_of_right_ne_nil _ hne)
  unfold HttpContext.read
  rw [hdata, ok_bind]
  simp only [happ, ok_bind]
  rw [← hr, ← bind_pure (serve env readBuff.readable)]
  refine hproc.bind fun a b hab => ?_
  exact .ok ⟨hab.wf, hab.unread, hab.written⟩

/-- A call of `read` when `data` has arrived in the buffer of the connection. -/
def readData (ctx : HttpContext) (data : Bytes) : Checked HttpContext := do
  let buff ← (Buffer.make Buffer.initialSizeDefault).append data
  let (ctx, _, _) ← ctx.read env buff
  return ctx

theorem readData_refines {ctx : HttpContext} (hw : ctx.Wf) {data : Bytes} (hne : data ≠ []) :
    Refines (Served ctx) (ctx.readData env data) (serve env (ctx.readBuff.readable ++ data)) := by
  obtain ⟨buff, happ, hwb, hr⟩ := Buffer.append_spec (Buffer.make_wf Buffer.initialSizeDefault) data
  rw [Buffer.make_readable, List.nil_append] at hr
  unfold readData
  rw [happ, ok_bind, ← hr, ← bind_pure (serve env _)]
  refine (read_refines env hw hwb (by rw [hr]; exact hne)).bind fun a b hab => ?_
  exact .ok hab

end HttpContext

/-! ## Every read answers once -/

theorem serve_framed {env : HttpEnv} {bytes rest out : Bytes} (h : serve env bytes = .ok (rest, out)) :
    Framed out := by
  obtain ⟨⟨parsed, request, left⟩, -, h⟩ := bind_eq_ok.1 h
  obtain ⟨out', hout, h⟩ := bind_eq_ok.1 h
  cases h
  split at hout
  · exact responseBytes_framed (.inl rfl) hout
  · exact responseBytes_framed (.inr rfl) hout

namespace HttpContext

variable (env : HttpEnv)

/-- The bytes that a new context has appended after reads of `chunks`. -/
def output (chunks : List Bytes) : Checked Bytes :=
  (chunks.foldlM (readData env) make).map fun ctx => ctx.writeBuff.readable

/-- Reads of `chunks`: for each of them the bytes that it appends and the bytes that it leaves
unread. -/
def transcript (ctx : HttpContext) : List Bytes → Checked (List (Bytes × Bytes))
  | [] => return []
  | data :: chunks => do
    let ctx' ← ctx.readData env data
    let tail ← ctx'.transcript chunks
    return (ctx'.writeBuff.readable.drop ctx.writeBuff.readable.length, ctx'.readBuff.readable) ::
      tail

end HttpContext

/-- The same on bytes, from the bytes that are unread at the start. -/
def serveAll (env : HttpEnv) (unread : Bytes) : List Bytes → Checked (List (Bytes × Bytes))
  | [] => return []
  | data :: chunks => do
    let (rest, out) ← serve env (unread ++ data)
    let tail ← serveAll env rest chunks
    return (out, rest) :: tail

/-- The bytes that a sequence of reads has appended. -/
def appended (reads : List (Bytes × Bytes)) : Bytes := (reads.map Prod.fst).flatten

/-- **Every read appends one response.**  This holds of any chunks of data, complete requests or
not. -/
theorem serveAll_framed {env : HttpEnv} {unread : Bytes} {chunks : List Bytes}
    {reads : List (Bytes × Bytes)} (h : serveAll env unread chunks = .ok reads) :
    reads.length = chunks.length ∧ ∀ p ∈ reads, Framed p.1 := by
  induction chunks generalizing unread reads with
  | nil =>
    cases h
    exact ⟨rfl, fun _ hp => absurd hp List.not_mem_nil⟩
  | cons data chunks ih =>
    obtain ⟨⟨rest, out⟩, hserve, h⟩ := bind_eq_ok.1 h
    obtain ⟨tail, htail, h⟩ := bind_eq_ok.1 h
    cases h
    obtain ⟨hlen, hframed⟩ := ih htail
    refine ⟨congrArg (· + 1) hlen, ?_⟩
    intro p hp
    obtain rfl | hp := List.mem_cons.1 hp
    · exact serve_framed hserve
    · exact hframed p hp

namespace HttpContext

variable (env : HttpEnv)

theorem reads_refine {chunks : List Bytes} (hne : ∀ c ∈ chunks, c ≠ []) {ctx : HttpContext}
    (hw : ctx.Wf) :
    Refines (fun ctx' reads => ctx'.writeBuff.readable = ctx.writeBuff.readable ++ appended reads)
      (chunks.foldlM (readData env) ctx) (serveAll env ctx.readBuff.readable chunks) := by
  induction chunks generalizing ctx with
  | nil => exact .ok (List.append_nil _).symm
  | cons c chunks ih =>
    rw [List.foldlM_cons]
    refine (readData_refines env hw (hne c List.mem_cons_self)).bind ?_
    rintro ctx₁ ⟨rest, out⟩ hs
    obtain rfl := hs.unread
    rw [← bind_pure (chunks.foldlM (readData env) ctx₁)]
    refine (ih (fun d hd => hne d (List.mem_cons_of_mem _ hd)) hs.wf).bind fun ctx' tail h => ?_
    refine .ok ?_
    rw [h, hs.written, List.append_assoc]
    rfl

theorem output_eq {chunks : List Bytes} (hne : ∀ c ∈ chunks, c ≠ []) :
    output env chunks = (serveAll env [] chunks).map appended := by
  have h := reads_refine env hne make_wf
  rw [make_unread, make_unwritten] at h
  unfold output
  generalize chunks.foldlM (readData env) make = x, serveAll env [] chunks = y at h
  cases h with
  | ok hab => exact congrArg Except.ok hab
  | error e => rfl

theorem transcript_eq {chunks : List Bytes} (hne : ∀ c ∈ chunks, c ≠ []) {ctx : HttpContext}
    (hw : ctx.Wf) : ctx.transcript env chunks = serveAll env ctx.readBuff.readable chunks := by
  induction chunks generalizing ctx with
  | nil => rfl
  | cons c chunks ih =>
    refine eq_of_refines ((readData_refines env hw (hne c List.mem_cons_self)).bind ?_)
    rintro ctx₁ ⟨rest, out⟩ hs
    obtain rfl := hs.unread
    rw [ih (fun d hd => hne d (List.mem_cons_of_mem _ hd)) hs.wf, hs.written, List.drop_left]
    exact Refines.refl _

end HttpContext

/-! ## Complete requests -/

namespace Request

variable (env : HttpEnv) (r : Request)

/-- The request gets a response: the file for its path can be mapped; for a request with a body,
the first line of the body is decoded without leaving the body, and the file for the path that this
selects can be mapped. -/
def Answered : Prop :=
  if r.body = [] then Mappable env r.parsedHead.path
  else ∃ req, r.parsedBody env.verify (r.body.take (search CRLF r.body)) = .ok req ∧
    Mappable env req.path

/-- What `process` does with the head of a request, the empty line and `rest`. -/
theorem serve_text (rest : Bytes) :
    serve env (r.head ++ (CRLF ++ rest)) = do
      let (_, req, left) ← r.parsed env.verify rest
      let out ← responseBytes env req.path req.isKeepAlive 200
      return (left, out) := by
  unfold serve
  rw [parse_text]
  unfold parsed
  split
  · rfl
  · cases r.parsedBody env.verify (rest.take (search CRLF rest)) <;> rfl

theorem serve_returns_iff : (∃ served, serve env r.text = .ok served) ↔ r.Answered env := by
  have hparsed : ∀ req left, (∃ served : Bytes × Bytes, (do
      let out ← responseBytes env (HttpRequest.path req) req.isKeepAlive 200
      return (left, out)) = Except.ok served) ↔ Mappable env req.path := by
    intro req left
    rw [← responseBytes_returns_iff env req.path req.isKeepAlive]
    constructor
    · rintro ⟨served, h⟩
      obtain ⟨out, hout, -⟩ := bind_eq_ok.1 h
      exact ⟨out, hout⟩
    · rintro ⟨out, hout⟩
      exact ⟨(left, out), by rw [hout]; rfl⟩
  unfold text Answered
  rw [serve_text]
  unfold parsed
  split
  · exact hparsed _ _
  · cases r.parsedBody env.verify (r.body.take (search CRLF r.body)) with
    | error e =>
      constructor
      · rintro ⟨served, h⟩
        cases h
      · rintro ⟨req, h, -⟩
        cases h
    | ok req =>
      refine (hparsed req (afterBody r.body)).trans ?_
      constructor
      · intro h
        exact ⟨req, rfl, h⟩
      · rintro ⟨req', heq, h⟩
        cases heq
        exact h

/-- What stays unread of a request and of the bytes behind it. -/
theorem serve_unread {rest : Bytes} {served : Bytes × Bytes}
    (h : serve env (r.head ++ (CRLF ++ rest)) = .ok served) :
    served.1 = if rest = [] then [] else afterBody rest := by
  rw [serve_text] at h
  obtain ⟨⟨parsed, req, left⟩, hparsed, h⟩ := bind_eq_ok.1 h
  obtain ⟨out, -, h⟩ := bind_eq_ok.1 h
  cases h
  unfold Request.parsed at hparsed
  split at hparsed
  · rename_i hrest
    cases hparsed
    rw [if_pos hrest]
  · rename_i hrest
    obtain ⟨req', -, heq⟩ := map_eq_ok.1 hparsed
    cases heq
    rw [if_neg hrest]

end Request
