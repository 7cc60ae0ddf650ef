import TinyHttpServer.Http.HttpResponse

/-!
# HTTP contexts (`src/http/httpcontext.h`, `src/http/httpcontext.cc`)

A context is the HTTP side of one connection: the bytes that have been read and not yet
consumed, and the bytes to be written.  `read` takes over everything in the connection's input
buffer and processes one request.
-/

set_option autoImplicit false

open Checked

/-- What a context depends on: the document root, the file system, and the answers of the
database. -/
structure HttpEnv where
  srcDir : Bytes
  srcDir_ne : srcDir ≠ []
  fs : FileSystem
  verify : Bytes → Bytes → Bool → Bool

/-- The samples have their documents in `/srv`. -/
theorem srv_ne_nil : str "/srv" ≠ [] := by decide

/-- `class HttpContext`. -/
structure HttpContext where
  readBuff : Buffer
  writeBuff : Buffer
  request : HttpRequest
  response : HttpResponse

namespace HttpContext

/-- A new context, after `init`. -/
def make : HttpContext :=
  { readBuff := (Buffer.make Buffer.initialSizeDefault).retrieveAll
    writeBuff := (Buffer.make Buffer.initialSizeDefault).retrieveAll
    request := HttpRequest.init
    response := HttpResponse.make }

variable (env : HttpEnv)

/-- The part of `process` that follows the parser: `code` and `isKeepAlive` are the arguments of
`response_.Init`. -/
def answer (ctx : HttpContext) (isKeepAlive : Bool) (code : Int) : Checked HttpContext := do
  let response ← HttpResponse.init env.srcDir ctx.request.path isKeepAlive code
  let (response, writeBuff) ← response.makeResponse env.fs ctx.writeBuff
  let ctx := { ctx with response, writeBuff }
  match response.mmFile with
  | some file =>
    if 0 < response.mmFileStat.stSize then
      return { ctx with writeBuff := ← ctx.writeBuff.append file }
    else return ctx
  | none => return ctx

/-- `process`. -/
def process (ctx : HttpContext) : Checked (HttpContext × Bool) := do
  let ctx := { ctx with request := HttpRequest.init }
  if ctx.readBuff.readAbleBytes = 0 then return (ctx, false)
  else
    let (parsed, request, readBuff) ← ctx.request.parse env.verify ctx.readBuff
    let ctx := { ctx with request, readBuff }
    let ctx ← (if parsed then ctx.answer env ctx.request.isKeepAlive 200
      else ctx.answer env false 400)
    return (ctx, true)

/-- `read`: the context, the connection's buffer and the result. -/
def read (ctx : HttpContext) (buff : Buffer) : Checked (HttpContext × Buffer × Nat) := do
  let (buff, data) ← buff.retrieveAllString
  let readBuff ← ctx.readBuff.append data
  let (ctx, _) ← process env { ctx with readBuff }
  return (ctx, buff, ctx.readBuff.readAbleBytes)

end HttpContext
