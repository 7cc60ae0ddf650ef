import TinyHttpServer.Http.HttpFile
import TinyHttpServer.Lib.Run
import Mathlib.Algebra.Ring.Int.Defs

/-!
# The mappings of a context (`src/http/httpresponse.cc`)

`AddContent_` maps the selected file, and `UnmapFile` gives the mapping back: in `Init`, for the response
before, and in the destructor.  Here the functions of the response and of the context are given with the
calls of `mmap` and `munmap`; without the calls they are the functions of the context (`readMaps_fst`).

* `mappings_unmapped` — over all `read`s of a context, every mapping is given back once, with the length
  of its `mmap` and before the next one, but for those that `AddContent_` takes for a failed `mmap`.
-/

set_option autoImplicit false

open Checked Machine HttpResponse

/-- The calls that concern mappings: a successful `mmap`, with its length and what is mapped, and
`munmap`. -/
inductive MapCall where
  | mapped (len : Nat) (file : Bytes)
  | unmapped (len : Nat)
  deriving DecidableEq, Repr

namespace MapCall

/-- Mappings that have not been given back. -/
def live (calls : List MapCall) : Int :=
  (calls.map fun call => match call with | .mapped .. => 1 | .unmapped _ => -1).sum

/-- The calls for one mapping. -/
def block (m : Nat × Bytes) : List MapCall :=
  if looksFailed m.2 then [.mapped m.1 m.2] else [.mapped m.1 m.2, .unmapped m.1]

end MapCall

namespace HttpResponse

variable (fs : FileSystem)

/-- `UnmapFile`. -/
def unmapFile (r : HttpResponse) : HttpResponse × List MapCall :=
  if r.mmFile.isSome then ({ r with mmFile := none }, [.unmapped r.mmFileStat.stSize]) else (r, [])

/-- `Init`, with its calls. -/
def initMaps (r : HttpResponse) (srcDir path : Bytes) (isKeepAlive : Bool) (code : Int) :
    Checked (HttpResponse × List MapCall) := do
  require (srcDir ≠ [])
  let (r, calls) := if r.mmFile.isSome then r.unmapFile else (r, [])
  return ({ r with
    code, isKeepAlive, path, srcDir, mmFile := none, mmFileStat := FileStat.zero }, calls)

/-- `AddContent_`, with its calls. -/
def addContentMaps (r : HttpResponse) (buff : Buffer) :
    Checked ((HttpResponse × Buffer) × List MapCall) :=
  match fs.openFile (r.srcDir ++ r.path) with
  | none => do return ((r, ← r.errorContent buff (str "File NotFound!")), [])
  | some node =>
    match mmap node r.mmFileStat.stSize with
    | none => .error .invalidAccess
    | some file =>
      let mapped := MapCall.mapped r.mmFileStat.stSize file
      -- this return does not record the mapping
      if looksFailed file then do
        return ((r, ← r.errorContent buff (str "File NotFound!")), [mapped])
      else do
        let r := { r with mmFile := some file }
        let buff ← buff.append
          (str "Content-length: " ++ toStr r.mmFileStat.stSize ++ str "\r\n\r\n")
        return ((r, buff), [mapped])

/-- `MakeResponse`, with its calls. -/
def makeResponseMaps (r : HttpResponse) (buff : Buffer) :
    Checked ((HttpResponse × Buffer) × List MapCall) := do
  let r := (r.decideCode fs).errorHtml fs
  let (r, buff) ← r.addStateLine buff
  let buff ← r.addHeader buff
  r.addContentMaps fs buff

/-- The mapping that a settled response makes: its length, and what is mapped. -/
def mapping (r : HttpResponse) : Option (Nat × Bytes) :=
  (fs.openFile (r.srcDir ++ r.path)).bind fun node =>
    (mmap node r.mmFileStat.stSize).map fun file => (r.mmFileStat.stSize, file)

/-- The calls of `AddContent_` for a settled response. -/
def mapCalls (r : HttpResponse) : List MapCall :=
  (r.mapping fs).toList.map fun m => .mapped m.1 m.2

/-- The calls of the destructor. -/
def unmapCalls (r : HttpResponse) : List MapCall := r.unmapFile.2

variable {fs} {r : HttpResponse} {buff : Buffer}

theorem initMaps_eq (r : HttpResponse) (srcDir path : Bytes) (isKeepAlive : Bool) (code : Int) :
    r.initMaps srcDir path isKeepAlive code =
      (HttpResponse.init srcDir path isKeepAlive code).map fun a => (a, r.unmapCalls) := by
  unfold initMaps HttpResponse.init unmapCalls unmapFile
  cases require (srcDir ≠ []) with
  | error e => rfl
  | ok _ => cases r.mmFile <;> rfl

theorem addContentMaps_eq :
    r.addContentMaps fs buff = (r.addContent fs buff).map fun a => (a, r.mapCalls fs) := by
  unfold addContentMaps addContent mapCalls mapping
  cases fs.openFile (r.srcDir ++ r.path) with
  | none => simp only; cases r.errorContent buff (str "File NotFound!") <;> rfl
  | some node =>
    simp only [Option.bind_some]
    cases mmap node r.mmFileStat.stSize with
    | none => rfl
    | some file =>
      simp only
      split
      · cases r.errorContent buff (str "File NotFound!") <;> rfl
      · cases buff.append (str "Content-length: " ++ toStr r.mmFileStat.stSize ++ str "\r\n\r\n") <;> rfl

/-- The status line changes the code only. -/
theorem addStateLine_frame {s : HttpResponse} {b : Buffer} (h : r.addStateLine buff = .ok (s, b)) :
    ∃ code, s = { r with code } := by
  unfold addStateLine at h
  cases hstatus : CODE_STATUS r.code with
  | none =>
    simp only [hstatus, bind_eq_ok] at h
    obtain ⟨_, -, h⟩ := h
    cases h
    exact ⟨400, rfl⟩
  | some status =>
    simp only [hstatus, bind_eq_ok] at h
    obtain ⟨_, -, h⟩ := h
    cases h
    exact ⟨r.code, rfl⟩

theorem makeResponseMaps_eq : r.makeResponseMaps fs buff =
    (r.makeResponse fs buff).map fun a => (a, (r.settle fs).mapCalls fs) := by
  unfold makeResponseMaps makeResponse
  change ((r.settle fs).addStateLine buff >>= _) = ((r.settle fs).addStateLine buff >>= _).map _
  cases hline : (r.settle fs).addStateLine buff with
  | error e => rfl
  | ok a =>
    obtain ⟨s, b⟩ := a
    obtain ⟨code, rfl⟩ := addStateLine_frame hline
    simp only [ok_bind]
    cases HttpResponse.addHeader { r.settle fs with code } b with
    | error e => rfl
    | ok b' =>
      simp only [ok_bind]
      rw [addContentMaps_eq]
      rfl

/-- What `AddContent_` maps it records, if it does not take the mapping for a failed one. -/
theorem addContent_block {r' : HttpResponse} {buff' : Buffer} (hnone : r.mmFile = none)
    (h : r.addContent fs buff = .ok (r', buff')) :
    r.mapCalls fs ++ r'.unmapCalls = (r.mapping fs).toList.flatMap MapCall.block := by
  have hkept : r.unmapCalls = [] := by
    unfold unmapCalls unmapFile
    rw [hnone]
    rfl
  unfold mapCalls mapping
  unfold addContent at h
  cases hopen : fs.openFile (r.srcDir ++ r.path) with
  | none =>
    rw [hopen] at h
    obtain ⟨b, -, h⟩ := bind_eq_ok.1 h
    cases h
    exact hkept
  | some node =>
    rw [hopen] at h
    simp only at h
    simp only [Option.bind_some]
    cases hmap : mmap node r.mmFileStat.stSize with
    | none =>
      rw [hmap] at h
      cases h
    | some file =>
      rw [hmap] at h
      simp only at h
      simp only [Option.map_some, Option.toList_some, List.map_cons, List.map_nil, List.flatMap_cons,
        List.flatMap_nil, List.append_nil, MapCall.block]
      split at h
      · rename_i hfailed
        obtain ⟨b, -, h⟩ := bind_eq_ok.1 h
        cases h
        rw [if_pos hfailed, hkept]
        rfl
      · rename_i hfailed
        obtain ⟨b, -, h⟩ := bind_eq_ok.1 h
        cases h
        rw [if_neg hfailed]
        rfl

theorem settle_mmFile (fs : FileSystem) (r : HttpResponse) : (r.settle fs).mmFile = r.mmFile := by
  have hdecide : (r.decideCode fs).mmFile = r.mmFile := by
    unfold decideCode
    cases fs.stat (r.srcDir ++ r.path) with
    | none => rfl
    | some mmFileStat =>
      simp only
      split
      · rfl
      · split
        · rfl
        · split
          · rfl
          · rfl
  unfold settle errorHtml
  split
  · exact hdecide
  · exact hdecide

theorem makeResponse_block {r' : HttpResponse} {buff' : Buffer} (hnone : r.mmFile = none)
    (h : r.makeResponse fs buff = .ok (r', buff')) :
    (r.settle fs).mapCalls fs ++ r'.unmapCalls =
      ((r.settle fs).mapping fs).toList.flatMap MapCall.block := by
  have hkept := (settle_mmFile fs r).trans hnone
  unfold makeResponse at h
  change ((r.settle fs).addStateLine buff >>= _) = _ at h
  generalize r.settle fs = settled at hkept h ⊢
  obtain ⟨⟨s, b⟩, hline, h⟩ := bind_eq_ok.1 h
  obtain ⟨code, rfl⟩ := addStateLine_frame hline
  obtain ⟨b', -, h⟩ := bind_eq_ok.1 h
  exact addContent_block (r := { settled with code }) hkept h

end HttpResponse

namespace HttpContext

variable (env : HttpEnv)

/-- The part of `process` that follows the parser, with its calls. -/
def answerMaps (ctx : HttpContext) (isKeepAlive : Bool) (code : Int) :
    Checked (HttpContext × List MapCall) := do
  let (response, unmapped) ← ctx.response.initMaps env.srcDir ctx.request.path isKeepAlive code
  let ((response, writeBuff), mapped) ← response.makeResponseMaps env.fs ctx.writeBuff
  let calls := unmapped ++ mapped
  let ctx := { ctx with response, writeBuff }
  match response.mmFile with
  | some file =>
    if 0 < response.mmFileStat.stSize then
      return ({ ctx with writeBuff := ← ctx.writeBuff.append file }, calls)
    else return (ctx, calls)
  | none => return (ctx, calls)

/-- `process`, with its calls. -/
def processMaps (ctx : HttpContext) : Checked ((HttpContext × Bool) × List MapCall) := do
  let ctx := { ctx with request := HttpRequest.init }
  if ctx.readBuff.readAbleBytes = 0 then return ((ctx, false), [])
  else
    let (parsed, request, readBuff) ← ctx.request.parse env.verify ctx.readBuff
    let ctx := { ctx with request, readBuff }
    let (ctx, calls) ← (if parsed then ctx.answerMaps env ctx.request.isKeepAlive 200
      else ctx.answerMaps env false 400)
    return ((ctx, true), calls)

/-- `read`, with its calls. -/
def readMaps (ctx : HttpContext) (buff : Buffer) :
    Checked ((HttpContext × Buffer × Nat) × List MapCall) := do
  let (buff, data) ← buff.retrieveAllString
  let readBuff ← ctx.readBuff.append data
  let ((ctx, _), calls) ← processMaps env { ctx with readBuff }
  return ((ctx, buff, ctx.readBuff.readAbleBytes), calls)

/-- A `read` after others, with the calls so far. -/
def mapStep (s : HttpContext × List MapCall) (buff : Buffer) :
    Checked (HttpContext × List MapCall) := do
  let ((ctx, _), calls) ← s.1.readMaps env buff
  return (ctx, s.2 ++ calls)

variable {env}

theorem answerMaps_eq (ctx : HttpContext) (isKeepAlive : Bool) (code : Int) :
    ctx.answerMaps env isKeepAlive code = (ctx.answer env isKeepAlive code).map fun a =>
      (a, ctx.response.unmapCalls ++
        ((start env ctx.request.path isKeepAlive code).settle env.fs).mapCalls env.fs) := by
  unfold answerMaps answer
  rw [initMaps_eq, init_eq]
  simp only [Except.map, ok_bind]
  rw [makeResponseMaps_eq]
  cases (start env ctx.request.path isKeepAlive code).makeResponse env.fs ctx.writeBuff with
  | error e => rfl
  | ok a =>
    obtain ⟨response, writeBuff⟩ := a
    simp only [Except.map, ok_bind]
    cases response.mmFile with
    | none => rfl
    | some file =>
      simp only
      split
      · cases writeBuff.append file <;> rfl
      · rfl

theorem processMaps_fst (env : HttpEnv) (ctx : HttpContext) :
    (ctx.processMaps env).map Prod.fst = ctx.process env := by
  unfold processMaps process
  simp only
  split
  · rfl
  · cases ({ ctx with request := HttpRequest.init } : HttpContext).request.parse env.verify
        ctx.readBuff with
    | error e => rfl
    | ok a =>
      obtain ⟨parsed, request, readBuff⟩ := a
      simp only [ok_bind]
      cases parsed with
      | true =>
        rw [if_pos rfl, if_pos rfl, answerMaps_eq]
        cases answer env { ctx with request, readBuff } request.isKeepAlive 200 <;> rfl
      | false =>
        rw [if_neg nofun, if_neg nofun, answerMaps_eq]
        cases answer env { ctx with request, readBuff } false 400 <;> rfl

/-- **Without the calls** this is `read`. -/
theorem readMaps_fst (env : HttpEnv) (ctx : HttpContext) (buff : Buffer) :
    (ctx.readMaps env buff).map Prod.fst = ctx.read env buff := by
  unfold readMaps read
  cases buff.retrieveAllString with
  | error e => rfl
  | ok a =>
    obtain ⟨buff, data⟩ := a
    simp only [ok_bind]
    cases ctx.readBuff.append data with
    | error e => rfl
    | ok readBuff =>
      simp only [ok_bind]
      rw [← processMaps_fst]
      cases processMaps env { ctx with readBuff } <;> rfl

/-! ## Every mapping is given back once -/

/-- What the calls have mapped is given back, if the context is destroyed now. -/
def Blocks (before : HttpResponse) (calls : List MapCall) (after : HttpResponse) : Prop :=
  ∃ mappings : List (Nat × Bytes),
    calls ++ after.unmapCalls = before.unmapCalls ++ mappings.flatMap MapCall.block

theorem answerMaps_blocks {ctx ctx' : HttpContext} {isKeepAlive : Bool} {code : Int}
    {calls : List MapCall} (h : ctx.answerMaps env isKeepAlive code = .ok (ctx', calls)) :
    Blocks ctx.response calls ctx'.response := by
  have hresponse : ∀ {a : HttpContext}, ctx.answer env isKeepAlive code = .ok a →
      ∃ writeBuff, (start env ctx.request.path isKeepAlive code).makeResponse env.fs ctx.writeBuff =
        .ok (a.response, writeBuff) := by
    intro a ha
    unfold answer at ha
    rw [init_eq, ok_bind, bind_eq_ok] at ha
    obtain ⟨⟨response, writeBuff⟩, hmake, ha⟩ := ha
    refine ⟨writeBuff, hmake.trans ?_⟩
    simp only at ha
    split at ha
    · split at ha
      · obtain ⟨_, -, ha⟩ := bind_eq_ok.1 ha
        cases ha
        rfl
      · cases ha
        rfl
    · cases ha
      rfl
  rw [answerMaps_eq] at h
  cases hanswer : ctx.answer env isKeepAlive code with
  | error e =>
    rw [hanswer] at h
    cases h
  | ok a =>
    rw [hanswer] at h
    cases h
    obtain ⟨writeBuff, hmake⟩ := hresponse hanswer
    let settled := (start env ctx.request.path isKeepAlive code).settle env.fs
    refine ⟨(settled.mapping env.fs).toList, ?_⟩
    rw [List.append_assoc, makeResponse_block rfl hmake]

theorem processMaps_blocks {ctx ctx' : HttpContext} {b : Bool} {calls : List MapCall}
    (h : ctx.processMaps env = .ok ((ctx', b), calls)) :
    Blocks ctx.response calls ctx'.response := by
  unfold processMaps at h
  simp only at h
  split at h
  · cases h
    exact ⟨[], (List.append_nil _).symm⟩
  · obtain ⟨⟨parsed, request, readBuff⟩, -, h⟩ := bind_eq_ok.1 h
    obtain ⟨⟨a, calls'⟩, hanswer, h⟩ := bind_eq_ok.1 h
    cases h
    split at hanswer
    · have hblocks := answerMaps_blocks hanswer
      exact hblocks
    · have hblocks := answerMaps_blocks hanswer
      exact hblocks

theorem mapStep_blocks {s t : HttpContext × List MapCall} {buff : Buffer}
    (h : mapStep env s buff = .ok t) :
    ∃ calls, t.2 = s.2 ++ calls ∧ Blocks s.1.response calls t.1.response := by
  obtain ⟨⟨⟨ctx, _⟩, calls⟩, hread, h⟩ := bind_eq_ok.1 h
  cases h
  refine ⟨calls, rfl, ?_⟩
  obtain ⟨⟨_, data⟩, -, hread⟩ := bind_eq_ok.1 hread
  obtain ⟨readBuff, -, hread⟩ := bind_eq_ok.1 hread
  obtain ⟨⟨⟨a, b⟩, calls'⟩, hprocess, hread⟩ := bind_eq_ok.1 hread
  cases hread
  have hblocks := processMaps_blocks hprocess
  exact hblocks

theorem live_flatMap_block (mappings : List (Nat × Bytes)) :
    MapCall.live (mappings.flatMap MapCall.block) = mappings.countP fun m => looksFailed m.2 := by
  induction mappings with
  | nil => rfl
  | cons m mappings ih =>
    rw [List.flatMap_cons, List.countP_cons]
    unfold MapCall.live at ih ⊢
    rw [List.map_append, List.sum_append, ih, MapCall.block]
    split
    · simp only [List.map_cons, List.map_nil, List.sum_cons, List.sum_nil]
      omega
    · simp only [List.map_cons, List.map_nil, List.sum_cons, List.sum_nil]
      omega

/-- **Every mapping is given back once.**  Let a new context read any bytes any number of times, and be
destroyed.  Then the calls of `mmap` and `munmap` come in blocks, one for each mapping: the `mmap` and,
before the next mapping, one `munmap` of the same length, but for the files whose first four bytes
are `255`, which stay mapped. -/
theorem mappings_unmapped (env : HttpEnv) (buffs : List Buffer) (ctx : HttpContext)
    (calls : List MapCall) (h : run (mapStep env) (make, []) buffs = .ok (ctx, calls)) :
    ∃ mappings : List (Nat × Bytes),
      calls ++ ctx.response.unmapCalls = mappings.flatMap MapCall.block ∧
        MapCall.live (calls ++ ctx.response.unmapCalls) =
          mappings.countP fun m => looksFailed m.2 := by
  have hstep : ∀ (s : HttpContext × List MapCall) (buff : Buffer) (t : HttpContext × List MapCall),
      (∃ mappings : List (Nat × Bytes), s.2 ++ s.1.response.unmapCalls =
        mappings.flatMap MapCall.block) → True → mapStep env s buff = .ok t →
      ∃ mappings : List (Nat × Bytes), t.2 ++ t.1.response.unmapCalls =
        mappings.flatMap MapCall.block := by
    rintro s buff t ⟨mappings, hs⟩ - ht
    obtain ⟨calls, hcalls, mappings', hblocks⟩ := mapStep_blocks ht
    refine ⟨mappings ++ mappings', ?_⟩
    rw [hcalls, List.append_assoc, hblocks, ← List.append_assoc, hs, List.flatMap_append]
  obtain ⟨mappings, hblocks⟩ := run_safe hstep buffs (make, []) (ctx, calls) ⟨[], rfl⟩
    (Allowed.of_forall (fun _ _ => trivial) buffs _) h
  exact ⟨mappings, hblocks, by rw [hblocks, live_flatMap_block]⟩

/-- A page, and a file that looks like a failed mapping. -/
def twoFiles : HttpEnv where
  srcDir := str "/srv"
  srcDir_ne := srv_ne_nil
  fs := fun path =>
    if path = str "/srv/index.html" then some (page (str "index"))
    else if path = str "/srv/login.html" then some (page [255, 255, 255, 255, 10])
    else none
  verify := fun _ _ _ => false

/-- What a connection holds after a `read` of the bytes. -/
def received (bytes : Bytes) : Buffer :=
  { buffer := bytes, readerIndex := 0, writerIndex := bytes.length }

def sampleReads : List Buffer :=
  [received (str "GET / HTTP/1.1\r\n\r\n"), received (str "GET /login HTTP/1.1\r\n\r\n"), received []]

theorem sampleReads_calls : (run (mapStep twoFiles) (make, []) sampleReads).map Prod.snd =
    .ok [.mapped 5 (str "index"), .unmapped 5, .mapped 5 [255, 255, 255, 255, 10]] := by
  decide +kernel

/-- The page is given back when the second request comes; the second file stays mapped. -/
theorem mappings_unmapped_sample : ∃ (ctx : HttpContext) (calls : List MapCall),
    run (mapStep twoFiles) (make, []) sampleReads = .ok (ctx, calls) ∧
      ∃ mappings : List (Nat × Bytes),
        calls ++ ctx.response.unmapCalls = mappings.flatMap MapCall.block ∧
          MapCall.live (calls ++ ctx.response.unmapCalls) =
            mappings.countP fun m => looksFailed m.2 := by
  obtain ⟨⟨ctx, calls⟩, h, -⟩ := map_eq_ok.1 sampleReads_calls
  exact ⟨ctx, calls, h, mappings_unmapped twoFiles sampleReads ctx calls h⟩

end HttpContext
