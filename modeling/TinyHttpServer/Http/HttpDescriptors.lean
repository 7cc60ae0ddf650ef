import TinyHttpServer.Http.HttpRead

/-!
# The descriptors that a response opens

`AddContent_` opens the selected file and closes the descriptor after the file has been mapped.  Here
`MakeResponse` and `process` are given with the calls of `open` and `close`; without the calls they are
the functions of the context (`processCalls_fst`).

* `fdCalls` — the calls, by the response that has been settled.
* `processCalls_refines` — what `process` appends and the calls that it makes, as functions of the bytes
  that were read.
-/

set_option autoImplicit false

open Checked HttpResponse

/-- The calls that concern descriptors: a successful `open`, with the path that the kernel sees, and
`close`. -/
inductive FdCall where
  | opened (path : Bytes)
  | closed
  deriving DecidableEq, Repr

/-- Descriptors that are still open. -/
def FdCall.leaked (calls : List FdCall) : Int :=
  calls.foldl (fun n call => match call with | .opened _ => n + 1 | .closed => n - 1) 0

namespace HttpResponse

variable (fs : FileSystem)

/-- `AddContent_`, with its calls. -/
def addContentCalls (r : HttpResponse) (buff : Buffer) :
    Checked ((HttpResponse × Buffer) × List FdCall) :=
  match fs.openFile (r.srcDir ++ r.path) with
  | none => do return ((r, ← r.errorContent buff (str "File NotFound!")), [])
  | some node =>
    let opened := FdCall.opened (cString (r.srcDir ++ r.path))
    match mmap node r.mmFileStat.stSize with
    | none => .error .invalidAccess
    | some file =>
      -- this return leaves the descriptor open
      if looksFailed file then do
        return ((r, ← r.errorContent buff (str "File NotFound!")), [opened])
      else do
        let r := { r with mmFile := some file }
        let buff ← buff.append
          (str "Content-length: " ++ toStr r.mmFileStat.stSize ++ str "\r\n\r\n")
        return ((r, buff), [opened, .closed])

/-- `MakeResponse`, with its calls. -/
def makeResponseCalls (r : HttpResponse) (buff : Buffer) :
    Checked ((HttpResponse × Buffer) × List FdCall) := do
  let r := (r.decideCode fs).errorHtml fs
  let (r, buff) ← r.addStateLine buff
  let buff ← r.addHeader buff
  r.addContentCalls fs buff

/-- The calls of `AddContent_` for a settled response. -/
def fdCalls (r : HttpResponse) : List FdCall :=
  match fs.openFile (r.srcDir ++ r.path) with
  | none => []
  | some node =>
    let opened := FdCall.opened (cString (r.srcDir ++ r.path))
    match mmap node r.mmFileStat.stSize with
    | none => [opened]
    | some file => if looksFailed file then [opened] else [opened, .closed]

variable {fs} {r : HttpResponse} {buff : Buffer}

theorem addContentCalls_eq :
    r.addContentCalls fs buff = (r.addContent fs buff).map fun a => (a, r.fdCalls fs) := by
  unfold addContentCalls addContent fdCalls
  cases fs.openFile (r.srcDir ++ r.path) with
  | none => simp only; cases r.errorContent buff (str "File NotFound!") <;> rfl
  | some node =>
    simp only
    cases mmap node r.mmFileStat.stSize with
    | none => rfl
    | some file =>
      simp only
      split
      · cases r.errorContent buff (str "File NotFound!") <;> rfl
      · cases buff.append (str "Content-length: " ++ toStr r.mmFileStat.stSize ++ str "\r\n\r\n") <;> rfl

theorem makeResponseCalls_eq : r.makeResponseCalls fs buff =
    (r.makeResponse fs buff).map fun a => (a, (r.settle fs).fdCalls fs) := by
  have hcode : ∀ {s : HttpResponse} {b : Buffer}, (r.settle fs).addStateLine buff = .ok (s, b) →
      s.fdCalls fs = (r.settle fs).fdCalls fs := by
    intro s b h
    unfold addStateLine at h
    cases hstatus : CODE_STATUS (r.settle fs).code with
    | none =>
      simp only [hstatus, bind_eq_ok] at h
      obtain ⟨_, -, h⟩ := h
      cases h
      rfl
    | some status =>
      simp only [hstatus, bind_eq_ok] at h
      obtain ⟨_, -, h⟩ := h
      cases h
      rfl
  unfold makeResponseCalls makeResponse
  change ((r.settle fs).addStateLine buff >>= _) = ((r.settle fs).addStateLine buff >>= _).map _
  cases hline : (r.settle fs).addStateLine buff with
  | error e => rfl
  | ok a =>
    obtain ⟨s, b⟩ := a
    simp only [ok_bind]
    cases s.addHeader b with
    | error e => rfl
    | ok b' =>
      simp only [ok_bind]
      rw [addContentCalls_eq, hcode hline]

end HttpResponse

namespace HttpContext

variable (env : HttpEnv)

/-- The part of `process` that follows the parser, with its calls. -/
def answerCalls (ctx : HttpContext) (isKeepAlive : Bool) (code : Int) :
    Checked (HttpContext × List FdCall) := do
  let response ← HttpResponse.init env.srcDir ctx.request.path isKeepAlive code
  let ((response, writeBuff), calls) ← response.makeResponseCalls env.fs ctx.writeBuff
  let ctx := { ctx with response, writeBuff }
  match response.mmFile with
  | some file =>
    if 0 < response.mmFileStat.stSize then
      return ({ ctx with writeBuff := ← ctx.writeBuff.append file }, calls)
    else return (ctx, calls)
  | none => return (ctx, calls)

/-- `process`, with its calls. -/
def processCalls (ctx : HttpContext) : Checked ((HttpContext × Bool) × List FdCall) := do
  let ctx := { ctx with request := HttpRequest.init }
  if ctx.readBuff.readAbleBytes = 0 then return ((ctx, false), [])
  else
    let (parsed, request, readBuff) ← ctx.request.parse env.verify ctx.readBuff
    let ctx := { ctx with request, readBuff }
    let (ctx, calls) ← (if parsed then ctx.answerCalls env ctx.request.isKeepAlive 200
      else ctx.answerCalls env false 400)
    return ((ctx, true), calls)

variable {env}

theorem answerCalls_eq (ctx : HttpContext) (isKeepAlive : Bool) (code : Int) :
    ctx.answerCalls env isKeepAlive code = (ctx.answer env isKeepAlive code).map fun a =>
      (a, ((start env ctx.request.path isKeepAlive code).settle env.fs).fdCalls env.fs) := by
  unfold answerCalls answer
  rw [init_eq, ok_bind, ok_bind, makeResponseCalls_eq]
  cases (start env ctx.request.path isKeepAlive code).makeResponse env.fs ctx.writeBuff with
  | error e => rfl
  | ok a =>
    obtain ⟨response, writeBuff⟩ := a
    simp only [Except.map, ok_bind]
    cases response.mmFile with
    | none => rfl
    | some file =>
      simp only
      split
      · cases writeBuff.append file <;> rfl
      · rfl

/-- **Without the calls** this is `process`. -/
theorem processCalls_fst (env : HttpEnv) (ctx : HttpContext) :
    (ctx.processCalls env).map Prod.fst = ctx.process env := by
  unfold processCalls process
  simp only
  split
  · rfl
  · cases ({ ctx with request := HttpRequest.init } : HttpContext).request.parse env.verify
        ctx.readBuff with
    | error e => rfl
    | ok a =>
      obtain ⟨parsed, request, readBuff⟩ := a
      simp only [ok_bind]
      cases parsed with
      | true =>
        rw [if_pos rfl, if_pos rfl, answerCalls_eq]
        cases answer env { ctx with request, readBuff } request.isKeepAlive 200 <;> rfl
      | false =>
        rw [if_neg nofun, if_neg nofun, answerCalls_eq]
        cases answer env { ctx with request, readBuff } false 400 <;> rfl

end HttpContext

/-- `serve`, with the calls. -/
def serveCalls (env : HttpEnv) (bytes : Bytes) : Checked ((Bytes × Bytes) × List FdCall) := do
  let (parsed, request, rest) ← HttpRequest.parseBytes env.verify (bytes.length + 1) HttpRequest.init
    bytes
  let isKeepAlive := parsed && request.isKeepAlive
  let code := if parsed then 200 else 400
  let out ← responseBytes env request.path isKeepAlive code
  return ((rest, out), ((start env request.path isKeepAlive code).settle env.fs).fdCalls env.fs)

namespace HttpContext

/-- **What `process` appends, and its calls**, as functions of the bytes that were read. -/
theorem processCalls_refines (env : HttpEnv) (ctx : HttpContext) (hw : ctx.Wf)
    (hne : ctx.readBuff.readable ≠ []) :
    Refines (fun a b => Served ctx a.1.1 b.1 ∧ a.1.2 = true ∧ a.2 = b.2) (ctx.processCalls env)
      (serveCalls env ctx.readBuff.readable) := by
  have hzero : ¬ ctx.readBuff.readAbleBytes = 0 := fun h =>
    hne ((Buffer.readable_eq_nil hw.readBuff).2 h)
  unfold serveCalls processCalls
  simp only [if_neg hzero]
  refine (HttpRequest.parse_refines env.verify HttpRequest.init hw.readBuff hne).bind ?_
  rintro ⟨parsed, request, readBuff⟩ ⟨-, -, rest⟩ ⟨rfl, rfl, hwr, rfl⟩
  have hanswer : ∀ (isKeepAlive : Bool) (code : Int), code = 200 ∨ code = 400 →
      Refines (fun a out => Answers { ctx with request, readBuff } a.1 out ∧
          a.2 = ((start env request.path isKeepAlive code).settle env.fs).fdCalls env.fs)
        (answerCalls env { ctx with request, readBuff } isKeepAlive code)
        (responseBytes env request.path isKeepAlive code) := by
    intro isKeepAlive code hcode
    have h := answer_refines env { ctx with request, readBuff } hw.writeBuff isKeepAlive hcode
    rw [answerCalls_eq]
    generalize answer env { ctx with request, readBuff } isKeepAlive code = x,
      responseBytes env request.path isKeepAlive code = y at h ⊢
    cases h with
    | ok hab => exact .ok ⟨hab, rfl⟩
    | error e => exact .error e
  have hserved : ∀ {a : HttpContext × List FdCall} {out : Bytes} {calls : List FdCall},
      Answers { ctx with request, readBuff } a.1 out ∧ a.2 = calls →
        Served ctx a.1 (readBuff.readable, out) ∧ true = true ∧ a.2 = calls := by
    rintro a out calls ⟨h, hcalls⟩
    exact ⟨⟨⟨h.readBuff ▸ hwr, h.wf⟩, congrArg Buffer.readable h.readBuff, h.written⟩, rfl, hcalls⟩
  cases parsed with
  | true => exact (hanswer _ 200 (.inl rfl)).bind fun a out h => .ok (hserved h)
  | false => exact (hanswer _ 400 (.inr rfl)).bind fun a out h => .ok (hserved h)

end HttpContext
