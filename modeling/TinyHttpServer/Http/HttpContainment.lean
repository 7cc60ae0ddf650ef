import TinyHttpServer.Http.HttpFile
import TinyHttpServer.Http.HttpMalformed
import TinyHttpServer.Lib.Paths

/-!
# Opened paths and the document root

The path that `AddContent_` opens is the document root with the path of the response behind it.  All
paths that the server itself puts there, for error pages, default pages and the two pages that follow a
login, are pages right below the root.  The path of a client is used as it is.

* `selectedPath_cases` — where the path of a response comes from.
* `processOpen_eq` — the path that `process` opens, as a function of the bytes that were read.
* `containment_iff` — it lies inside the document root exactly where the path of the client stays there.
-/

set_option autoImplicit false

open Checked Lines HttpRequest HttpResponse

def SLASH : UInt8 := 47
def DOT : UInt8 := 46

/-- `/` and one name. -/
def IsPage (path : Bytes) : Prop :=
  path.head? = some SLASH ∧ SLASH ∉ path.tail ∧ path.tail ≠ [DOT, DOT] ∧ 0 ∉ path

instance : DecidablePred IsPage := fun _ => inferInstanceAs (Decidable (_ ∧ _))

/-- The path is what it was, or one page has been put for another. -/
def Rewritten (path path' : Bytes) : Prop := path' = path ∨ IsPage path ∧ IsPage path'

theorem Rewritten.trans {path path' path'' : Bytes} (h : Rewritten path path')
    (h' : Rewritten path' path'') : Rewritten path path'' := by
  obtain rfl | ⟨hpage, hpage'⟩ := h
  · exact h'
  · obtain rfl | ⟨-, hpage''⟩ := h'
    · exact .inr ⟨hpage, hpage'⟩
    · exact .inr ⟨hpage, hpage''⟩

/-- The path in the request line. -/
def target (bytes : Bytes) : Option Bytes :=
  (matchRequestLine (firstLine bytes)).map fun parts => parts.2.1

/-! ## The paths of requests -/

namespace HttpRequest

variable (verify : Bytes → Bytes → Bool → Bool)

theorem parsePath_rewritten (req : HttpRequest) : Rewritten req.path req.parsePath.path := by
  have hdefault : ∀ path ∈ DEFAULT_HTML, IsPage path ∧ IsPage (path ++ str ".html") := by decide
  unfold parsePath
  split
  · rename_i hroot
    refine .inr ⟨?_, ?_⟩
    · rw [hroot]
      decide
    · show IsPage (str "/index.html")
      decide
  · split
    · rename_i hmem
      exact .inr (hdefault req.path hmem)
    · exact .inl rfl

theorem verifyForm_rewritten (req : HttpRequest) :
    Rewritten req.path (req.verifyForm verify).path := by
  have hwelcome : IsPage (str "/welcome.html") := by decide
  have herror : IsPage (str "/error.html") := by decide
  unfold verifyForm
  cases htag : DEFAULT_HTML_TAG req.path with
  | none => exact .inl rfl
  | some tag =>
    have hpage : IsPage req.path := by
      unfold DEFAULT_HTML_TAG at htag
      split at htag
      · rename_i hpath
        rw [hpath]
        decide
      · split at htag
        · rename_i hpath
          rw [hpath]
          decide
        · cases htag
    simp only
    split
    · split
      · exact .inr ⟨hpage, hwelcome⟩
      · exact .inr ⟨hpage, herror⟩
    · exact .inl rfl

theorem parseBody_rewritten {req req' : HttpRequest} {line : Bytes}
    (h : req.parseBody verify line = .ok req') : Rewritten req.path req'.path := by
  obtain ⟨req₁, hpost, h⟩ := bind_eq_ok.1 h
  cases h
  cases hform : ({ req with body := line } : HttpRequest).isForm with
  | false =>
    obtain ⟨header, hother⟩ := parsePost_other verify hform
    cases hpost.symm.trans hother
    exact .inl rfl
  | true =>
    rw [parsePost_form verify hform, map_eq_ok] at hpost
    obtain ⟨req₂, hdecode, rfl⟩ := hpost
    have heq := parseFromUrlencoded_eq { req with body := line }
    split at heq
    · obtain ⟨body, heq⟩ := heq
      cases hdecode.symm.trans heq
      exact verifyForm_rewritten verify _
    · cases hdecode.symm.trans heq

/-- One line behind the request line. -/
theorem parseLine_rewritten {req req' : HttpRequest} {line : Bytes} {n : Nat}
    (hstate : req.state ≠ .requestLine) (h : req.parseLine verify line n = .ok (some req')) :
    Rewritten req.path req'.path := by
  unfold parseLine at h
  cases hcase : req.state with
  | requestLine => exact absurd hcase hstate
  | headers =>
    rw [hcase] at h
    cases h
    have hheader : (req.parseHeader line).path = req.path := by
      unfold parseHeader
      split <;> rfl
    refine .inl ?_
    rw [← hheader]
    split <;> rfl
  | body =>
    rw [hcase] at h
    obtain ⟨req₁, hbody, h⟩ := bind_eq_ok.1 h
    cases h
    exact parseBody_rewritten verify hbody
  | finish =>
    rw [hcase] at h
    cases h
    exact .inl rfl

/-- **The path of a request** is the path in its request line, but for pages. -/
theorem parseBytes_target {fuel : Nat} {req : HttpRequest} {bytes rest path : Bytes} {answer : Bool}
    (htarget : target bytes = some path)
    (h : parseBytes verify fuel init bytes = .ok (answer, req, rest)) :
    answer = true ∧ Rewritten path req.path := by
  obtain ⟨parts, hmatch, rfl⟩ := Option.map_eq_some_iff.1 htarget
  have hkeep : ∀ {r r' : HttpRequest} {line : Bytes} {n : Nat}, r.state ≠ .requestLine →
      Rewritten parts.2.1 r.path → r.parseLine verify line n = .ok (some r') →
        Rewritten parts.2.1 r'.path :=
    fun hstate hpath hline => hpath.trans (parseLine_rewritten verify hstate hline)
  exact parseBytes_first verify hkeep hmatch (parsePath_rewritten _) h

end HttpRequest

/-! ## The paths of responses -/

namespace HttpResponse

variable {fs : FileSystem} {r : HttpResponse} {buff : Buffer}

/-- A response with an error code is a page. -/
theorem settle_isPage (hcode : r.code = 400) : IsPage (r.settle fs).path := by
  have hpages : IsPage (str "/400.html") ∧ IsPage (str "/403.html") ∧ IsPage (str "/404.html") := by
    decide
  unfold settle
  cases href : refused fs (r.srcDir ++ r.path) with
  | some code =>
    obtain ⟨stat, hdecide⟩ := decideCode_refused href
    rw [hdecide]
    obtain rfl | rfl := refused_code href
    · have hpath : CODE_PATH 404 = some (str "/404.html") := rfl
      rw [(errorHtml_settled fs hpath).2]
      exact hpages.2.2
    · have hpath : CODE_PATH 403 = some (str "/403.html") := rfl
      rw [(errorHtml_settled fs hpath).2]
      exact hpages.2.1
  | none =>
    obtain ⟨stat, -, hdecide⟩ := decideCode_accepted (by omega) href
    have hpath : CODE_PATH ({ r with mmFileStat := stat } : HttpResponse).code =
        some (str "/400.html") := by
      rw [hcode]
      rfl
    rw [hdecide, (errorHtml_settled fs hpath).2]
    exact hpages.1

/-- **The path of a response** is a page, or the path of the request. -/
theorem selectedPath_cases (env : HttpEnv) (path : Bytes) :
    IsPage (selectedPath env path) ∨
      refused env.fs (env.srcDir ++ path) = none ∧ selectedPath env path = path := by
  unfold selectedPath
  cases href : refused env.fs (env.srcDir ++ path) with
  | none => exact .inr ⟨rfl, rfl⟩
  | some code =>
    refine .inl ?_
    obtain rfl | rfl := refused_code href
    · show IsPage (str "/404.html")
      decide
    · show IsPage (str "/403.html")
      decide

/-- A file that is neither refused nor closed to the server. -/
theorem serves_of_openFile {env : HttpEnv} {path : Bytes} {node : FileNode}
    (href : refused env.fs (env.srcDir ++ path) = none)
    (hopen : env.fs.openFile (env.srcDir ++ path) = some node) : Serves env path node := by
  have hstat := stat_of_openFile hopen
  unfold refused at href
  simp only [hstat] at href
  unfold FileSystem.openFile at hopen
  split at hopen
  · rename_i found hfound
    split at hopen
    · rename_i hopenable
      cases hopen
      split at href
      · cases href
      · rename_i hdir
        split at href
        · cases href
        · rename_i hread
          exact ⟨hfound, Bool.eq_false_iff.2 hdir, not_not.1 hread, hopenable⟩
    · cases hopen
  · cases hopen

/-! ## The path that is opened -/

/-- The call of `open` in `AddContent_`: the path that the kernel sees, where it opens a file. -/
def opens (fs : FileSystem) (r : HttpResponse) : Option Bytes :=
  (fs.openFile (r.srcDir ++ r.path)).map fun _ => cString (r.srcDir ++ r.path)

/-- `MakeResponse` up to the call of `open`. -/
def makeResponseOpen (fs : FileSystem) (r : HttpResponse) (buff : Buffer) :
    Checked (Option Bytes) := do
  let r := (r.decideCode fs).errorHtml fs
  let (r, buff) ← r.addStateLine buff
  let _ ← r.addHeader buff
  return r.opens fs

theorem makeResponseOpen_eq (hw : buff.Wf) (hcode : r.code = 200 ∨ r.code = 400) :
    r.makeResponseOpen fs buff = .ok ((r.settle fs).opens fs) := by
  obtain ⟨b₁, b₂, h₁, h₂, -, -⟩ := settle_head fs hw hcode
  show (do
    let (r, buff) ← (r.settle fs).addStateLine buff
    let _ ← r.addHeader buff
    return r.opens fs : Checked (Option Bytes)) = _
  rw [h₁, ok_bind]
  simp only [h₂, ok_bind, pure_eq_ok]

/-- The calls of a response that has been settled. -/
theorem mem_fdCalls_iff {path : Bytes} :
    FdCall.opened path ∈ r.fdCalls fs ↔ r.opens fs = some path := by
  unfold fdCalls opens
  cases fs.openFile (r.srcDir ++ r.path) with
  | none => simp
  | some node =>
    simp only [Option.map_some, Option.some.injEq]
    split
    · simp [eq_comm]
    · split <;> simp [eq_comm]

end HttpResponse

namespace HttpContext

variable (env : HttpEnv)

/-- `process` up to the call of `open`. -/
def processOpen (ctx : HttpContext) : Checked (Option Bytes) := do
  let ctx := { ctx with request := HttpRequest.init }
  if ctx.readBuff.readAbleBytes = 0 then return none
  else
    let (parsed, request, _) ← ctx.request.parse env.verify ctx.readBuff
    let response ← (if parsed then
        HttpResponse.init env.srcDir request.path request.isKeepAlive 200
      else HttpResponse.init env.srcDir request.path false 400)
    response.makeResponseOpen env.fs ctx.writeBuff

variable {env} {ctx : HttpContext}

theorem processOpen_nil (hw : ctx.Wf) (hnil : ctx.readBuff.readable = []) :
    ctx.processOpen env = .ok none :=
  if_pos ((Buffer.readable_eq_nil hw.readBuff).1 hnil)

/-- **The path that is opened**, as a function of the bytes that were read. -/
theorem processOpen_eq (hw : ctx.Wf) (hne : ctx.readBuff.readable ≠ []) :
    ctx.processOpen env = do
      let (parsed, request, _) ← parseBytes env.verify (ctx.readBuff.readable.length + 1)
        HttpRequest.init ctx.readBuff.readable
      return (selected env parsed request).opens env.fs := by
  have hzero : ¬ ctx.readBuff.readAbleBytes = 0 := fun h =>
    hne ((Buffer.readable_eq_nil hw.readBuff).2 h)
  refine eq_of_refines ?_
  unfold processOpen
  simp only [if_neg hzero]
  refine (parse_refines env.verify HttpRequest.init hw.readBuff hne).bind ?_
  rintro ⟨parsed, request, readBuff⟩ ⟨-, -, rest⟩ ⟨rfl, rfl, -, rfl⟩
  cases parsed with
  | true =>
    simp only [if_true, init_eq, ok_bind, selected]
    rw [makeResponseOpen_eq hw.writeBuff (.inl rfl)]
    exact .ok rfl
  | false =>
    simp only [Bool.false_eq_true, if_false, init_eq, ok_bind, selected]
    rw [makeResponseOpen_eq hw.writeBuff (.inr rfl)]
    exact .ok rfl

/-- Where `process` returns, this is the `open` among its calls. -/
theorem mem_processCalls_iff (hw : ctx.Wf) {a : HttpContext × Bool} {calls : List FdCall}
    (h : ctx.processCalls env = .ok (a, calls)) (path : Bytes) :
    FdCall.opened path ∈ calls ↔ ctx.processOpen env = .ok (some path) := by
  by_cases hne : ctx.readBuff.readable = []
  · unfold processCalls at h
    rw [if_pos ((Buffer.readable_eq_nil hw.readBuff).1 hne)] at h
    cases h
    rw [processOpen_nil hw hne]
    exact iff_of_false List.not_mem_nil nofun
  · have href := processCalls_refines env ctx hw hne
    rw [h] at href
    generalize hserve : serveCalls env ctx.readBuff.readable = served at href
    cases href with
    | @ok _ b hsame =>
      obtain ⟨⟨parsed, request, rest⟩, hparse, hserve⟩ := bind_eq_ok.1 hserve
      obtain ⟨out, -, hserve⟩ := bind_eq_ok.1 hserve
      cases hserve
      have hcalls := hsame.2.2
      rw [processOpen_eq hw hne, hparse]
      simp only at hcalls
      rw [hcalls, mem_fdCalls_iff]
      cases parsed with
      | true => exact ⟨congrArg Except.ok, Except.ok.inj⟩
      | false => exact ⟨congrArg Except.ok, Except.ok.inj⟩

end HttpContext

/-! ## Containment -/

/-- The place of `path` lies inside the place of the document root; both are resolved lexically.  The
document root is an absolute path: it begins with the working directory. -/
def Inside (srcDir path : Bytes) : Prop :=
  Paths.resolve SLASH DOT srcDir <+: Paths.resolve SLASH DOT path

/-- What is left of the last component of the document root and the path when every `..` is cancelled:
the names make up for the `..` in front of them. -/
def StaysInside (srcDir path : Bytes) : Prop := Paths.Stays SLASH DOT srcDir (cString path)

instance (srcDir path : Bytes) : Decidable (Inside srcDir path) :=
  inferInstanceAs (Decidable (_ <+: _))

instance (srcDir path : Bytes) : Decidable (StaysInside srcDir path) :=
  inferInstanceAs (Decidable (Paths.Stays _ _ _ _))

theorem cString_append {s : Bytes} (h : 0 ∉ s) (t : Bytes) : cString (s ++ t) = s ++ cString t :=
  List.takeWhile_append_of_pos fun _ hb => decide_eq_true fun hzero => h (hzero ▸ hb)

theorem inside_iff {srcDir : Bytes} (h : 0 ∉ srcDir) (path : Bytes) :
    Inside srcDir (cString (srcDir ++ path)) ↔ StaysInside srcDir path := by
  unfold Inside StaysInside
  rw [cString_append h, Paths.resolve_inside_iff]

theorem staysInside_page {path : Bytes} (h : IsPage path) (srcDir : Bytes) :
    StaysInside srcDir path := by
  obtain ⟨hslash, hname, hdots, hzero⟩ := h
  cases path with
  | nil => cases hslash
  | cons slash name =>
    obtain rfl : slash = SLASH := Option.some.inj hslash
    rw [List.tail_cons] at hname hdots
    have hstring : cString (SLASH :: name) = SLASH :: name := by
      have happ := cString_append hzero []
      rwa [List.append_nil, show cString [] = [] from rfl, List.append_nil] at happ
    unfold StaysInside
    rw [hstring]
    refine Paths.stays_of_ups_eq_zero SLASH DOT ?_
    have hone : Paths.components SLASH DOT name = [Paths.component DOT name] := by
      unfold Paths.components
      rw [List.splitOn_eq_singleton hname]
      rfl
    rw [hone, Paths.component, if_neg hdots]
    split <;> rfl

namespace HttpContext

variable {env : HttpEnv} {ctx : HttpContext}

/-- Every path that `process` opens lies inside the document root. -/
def Contained (env : HttpEnv) (ctx : HttpContext) : Prop :=
  ∀ path, ctx.processOpen env = .ok (some path) → Inside env.srcDir path

/-- The path in the request line names a file that everybody may read, and the parser returns: the
body of a form does not end within an escape. -/
def Sends (env : HttpEnv) (bytes path : Bytes) : Prop :=
  target bytes = some path ∧ FormComplete bytes ∧ ∃ node, Serves env path node

/-- A request whose path is no page: `process` opens the file that the path names. -/
theorem processOpen_target (hw : ctx.Wf) {path : Bytes} (hsends : Sends env ctx.readBuff.readable path)
    (hpage : ¬ IsPage path) :
    ctx.processOpen env = .ok (some (cString (env.srcDir ++ path))) := by
  obtain ⟨htarget, hform, node, hserves⟩ := hsends
  have hne : ctx.readBuff.readable ≠ [] := by
    intro hnil
    rw [hnil] at htarget
    cases htarget
  obtain ⟨⟨parsed, request, rest⟩, hparse⟩ :=
    (parseBytes_returns_iff env.verify _ HttpRequest.init _ (Nat.lt_succ_self _)).2 hform
  obtain ⟨rfl, hpath | ⟨h, -⟩⟩ := parseBytes_target env.verify htarget hparse
  · rw [processOpen_eq hw hne, hparse, ok_bind]
    simp only [selected, if_true, hpath]
    rw [settle_served hserves]
    unfold opens
    rw [show env.fs.openFile ((start env path request.isKeepAlive 200).srcDir ++
      (start env path request.isKeepAlive 200).path) = some node from openFile_served hserves]
    rfl
  · exact absurd h hpage

/-- **The path that is opened** is a page, or the path in the request line. -/
theorem processOpen_cases (hw : ctx.Wf) {opened : Bytes}
    (h : ctx.processOpen env = .ok (some opened)) :
    ∃ path, opened = cString (env.srcDir ++ path) ∧
      (IsPage path ∨ Sends env ctx.readBuff.readable path) := by
  by_cases hne : ctx.readBuff.readable = []
  · rw [processOpen_nil hw hne] at h
    cases h
  rw [processOpen_eq hw hne] at h
  obtain ⟨⟨parsed, request, rest⟩, hparse, h⟩ := bind_eq_ok.1 h
  obtain ⟨node, hopen, rfl⟩ := Option.map_eq_some_iff.1 (Except.ok.inj h)
  cases parsed with
  | false =>
    have hs : Settled env.fs (start env request.path false 400) _ := settle_settled (.inr rfl)
    refine ⟨((start env request.path false 400).settle env.fs).path, ?_, .inl (settle_isPage rfl)⟩
    show cString (((start env request.path false 400).settle env.fs).srcDir ++ _) = _
    rw [hs.srcDir]
    rfl
  | true =>
    have hfile : (selected env true request).srcDir ++ (selected env true request).path =
        env.srcDir ++ selectedPath env request.path := settle_file env request.path _
    rw [hfile] at hopen ⊢
    refine ⟨selectedPath env request.path, rfl, ?_⟩
    obtain hpage | ⟨href, hsame⟩ := selectedPath_cases env request.path
    · exact .inl hpage
    rw [hsame] at hopen ⊢
    -- the path of the request is its target, or a page
    cases htarget : target ctx.readBuff.readable with
    | none =>
      have hbad : ¬IsRequestLine (firstLine ctx.readBuff.readable) := by
        rw [← matchRequestLine_isSome, Option.not_isSome_iff_eq_none]
        exact Option.map_eq_none_iff.1 htarget
      rw [parseBytes_malformed env.verify hne hbad] at hparse
      cases hparse
    | some path =>
      obtain ⟨-, hpath | ⟨-, hpage⟩⟩ := parseBytes_target env.verify htarget hparse
      · rw [hpath] at href hopen ⊢
        have hform : FormComplete ctx.readBuff.readable :=
          (parseBytes_returns_iff env.verify _ HttpRequest.init _ (Nat.lt_succ_self _)).1 ⟨_, hparse⟩
        exact .inr ⟨htarget, hform, node, serves_of_openFile href hopen⟩
      · exact .inl hpage

/-- **Containment.**  The path that `process` opens lies inside the document root if and only if the path
in the request line stays inside, where it names a file that can be sent. -/
theorem containment_iff (hw : ctx.Wf) (hsrc : 0 ∉ env.srcDir) :
    Contained env ctx ↔
      ∀ path, Sends env ctx.readBuff.readable path → StaysInside env.srcDir path := by
  constructor
  · intro hcontained path hsends
    by_cases hpage : IsPage path
    · exact staysInside_page hpage _
    · rw [← inside_iff hsrc]
      exact hcontained _ (processOpen_target hw hsends hpage)
  · intro hstays opened hopened
    obtain ⟨path, rfl, hpage | hsends⟩ := processOpen_cases hw hopened
    · exact (inside_iff hsrc path).2 (staysInside_page hpage _)
    · exact (inside_iff hsrc path).2 (hstays path hsends)

/-- A document root `/srv`, and one file that everybody may read. -/
def fileAt (place : List Bytes) : HttpEnv where
  srcDir := str "/srv"
  srcDir_ne := srv_ne_nil
  fs := fun path => if Paths.resolve SLASH DOT path = place then some (page (str "text")) else none
  verify := fun _ _ _ => false

theorem containment_iff_sample :
    ∃ ctx : HttpContext, ctx.Wf ∧
      ctx.readBuff.readable = str "GET /docs/../index.html HTTP/1.1\r\n\r\n" ∧
      ctx.processOpen (fileAt [str "srv", str "index.html"]) =
        .ok (some (str "/srv/docs/../index.html")) ∧
      Contained (fileAt [str "srv", str "index.html"]) ctx := by
  obtain ⟨ctx, hw, hread, -⟩ := exists_context (str "GET /docs/../index.html HTTP/1.1\r\n\r\n")
  refine ⟨ctx, hw, hread, ?_, (containment_iff hw (by decide)).2 ?_⟩
  · rw [processOpen_eq hw (by rw [hread]; decide), hread]
    decide +kernel
  · rintro path ⟨htarget, -⟩
    rw [hread, show target (str "GET /docs/../index.html HTTP/1.1\r\n\r\n") =
      some (str "/docs/../index.html") by decide] at htarget
    cases htarget
    decide

/-- **A file outside of the document root** is opened for `GET /../etc/passwd`. -/
theorem passwd_opened :
    ∃ ctx : HttpContext, ctx.Wf ∧
      ctx.readBuff.readable = str "GET /../etc/passwd HTTP/1.1\r\n\r\n" ∧
      ctx.processOpen (fileAt [str "etc", str "passwd"]) = .ok (some (str "/srv/../etc/passwd")) ∧
      ¬ Inside (str "/srv") (str "/srv/../etc/passwd") ∧
      ¬ Contained (fileAt [str "etc", str "passwd"]) ctx := by
  obtain ⟨ctx, hw, hread, -⟩ := exists_context (str "GET /../etc/passwd HTTP/1.1\r\n\r\n")
  have hopened : ctx.processOpen (fileAt [str "etc", str "passwd"]) =
      .ok (some (str "/srv/../etc/passwd")) := by
    rw [processOpen_eq hw (by rw [hread]; decide), hread]
    decide +kernel
  have houtside : ¬ Inside (str "/srv") (str "/srv/../etc/passwd") := by decide
  exact ⟨ctx, hw, hread, hopened, houtside, fun h => houtside (h _ hopened)⟩

end HttpContext
