import TinyHttpServer.Http.HttpDescriptors
import TinyHttpServer.Http.HttpStream

/-!
# Files as bodies

A request for a regular file that others may read is answered with the status `200`.  Whether the body is
the file depends on the mapping: `AddContent_` reads an `int` through the pointer that `mmap` has
returned.  For an empty file the pointer is invalid; and a file that begins with four bytes `0xff` looks
like a failed mapping, and its descriptor is not closed.

* `settle_served` — the response that is settled for such a file.
* `file_fidelity_iff` — the answer is the file exactly where it is not empty and does not begin so.
-/

set_option autoImplicit false

open Checked HttpResponse

/-- A regular file that everybody may read, behind the path of a request. -/
structure Serves (env : HttpEnv) (path : Bytes) (node : FileNode) : Prop where
  found : env.fs (cString (env.srcDir ++ path)) = some node
  regular : node.isDir = false
  otherRead : node.otherRead = true
  openable : node.openable = true

namespace HttpResponse

variable {env : HttpEnv} {path : Bytes} {node : FileNode}

theorem openFile_served (h : Serves env path node) :
    env.fs.openFile (env.srcDir ++ path) = some node := by
  unfold FileSystem.openFile
  rw [h.found]
  exact if_pos h.openable

/-- **The settled response**: the file and its record, with the status `200`. -/
theorem settle_served (h : Serves env path node) (isKeepAlive : Bool) :
    (start env path isKeepAlive 200).settle env.fs =
      { start env path isKeepAlive 200 with mmFileStat := statOf node } := by
  have hstat : env.fs.stat (env.srcDir ++ path) = some (statOf node) :=
    stat_of_openFile (openFile_served h)
  have hdecide : (start env path isKeepAlive 200).decideCode env.fs =
      { start env path isKeepAlive 200 with mmFileStat := statOf node } := by
    unfold decideCode
    rw [show env.fs.stat ((start env path isKeepAlive 200).srcDir ++
      (start env path isKeepAlive 200).path) = some (statOf node) from hstat]
    simp only [statOf, h.regular, h.otherRead]
    rfl
  unfold settle
  rw [hdecide]
  rfl

/-- The body and the calls for an empty file, for a file that looks like a failed mapping, and for any
other file. -/
theorem content_served (h : Serves env path node) (isKeepAlive : Bool) :
    let r := (start env path isKeepAlive 200).settle env.fs
    let opened := FdCall.opened (cString (env.srcDir ++ path))
    if node.contents = [] then r.content env.fs = .error .invalidAccess
    else if looksFailed node.contents then r.content env.fs = .ok none ∧ r.fdCalls env.fs = [opened]
    else r.content env.fs = .ok (some node.contents) ∧ r.fdCalls env.fs = [opened, .closed] := by
  have hopen : env.fs.openFile ((start env path isKeepAlive 200).srcDir ++
      (start env path isKeepAlive 200).path) = some node := openFile_served h
  have hmap : mmap node (statOf node).stSize =
      if node.contents = [] then none else some node.contents := by
    unfold mmap statOf
    simp only [h.regular, List.length_eq_zero_iff, Bool.false_eq_true, or_false, List.take_length]
  rw [settle_served h]
  simp only [content, fdCalls, hopen, hmap]
  split
  · rfl
  · simp only
    split
    · exact ⟨rfl, rfl⟩
    · exact ⟨rfl, rfl⟩

end HttpResponse

/-- `out` is a response with the status `200` and the body `body`. -/
def OkResponse (out body : Bytes) : Prop := ∃ r : HttpResponse, r.code = 200 ∧ out = r.frame body

namespace HttpContext

variable {env : HttpEnv} {ctx : HttpContext} {node : FileNode}

/-- `process` appends a response with the contents of the file, and closes what it has opened. -/
def AnswersFile (env : HttpEnv) (ctx : HttpContext) (node : FileNode) : Prop :=
  ∃ ctx' calls out, ctx.processCalls env = .ok ((ctx', true), calls) ∧
    ctx'.writeBuff.readable = ctx.writeBuff.readable ++ out ∧ OkResponse out node.contents ∧
    FdCall.leaked calls = 0

/-- The answer to a request without a body. -/
theorem serveCalls_text (env : HttpEnv) (r : Request) (hbody : r.body = []) :
    serveCalls env r.text = (responseBytes env r.parsedHead.path r.parsedHead.isKeepAlive 200).map
      fun out => (([], out), ((start env r.parsedHead.path r.parsedHead.isKeepAlive 200).settle
        env.fs).fdCalls env.fs) := by
  unfold serveCalls Request.text
  rw [r.parse_text env.verify r.body, Request.parsed, if_pos hbody]
  simp only [ok_bind, if_true, Bool.true_and]
  show (responseBytes env r.parsedHead.path r.parsedHead.isKeepAlive 200 >>= _) = _
  cases responseBytes env r.parsedHead.path r.parsedHead.isKeepAlive 200 <;> rfl

/-- **File fidelity.**  Take any request without a body for a regular file that everybody may read.
`process` answers it with `200` and exactly the bytes of the file, and releases the descriptor, if and
only if the file is not empty and does not begin with four bytes `0xff`. -/
theorem file_fidelity_iff (hw : ctx.Wf) (r : Request) (hbody : r.body = [])
    (hread : ctx.readBuff.readable = r.text) (hfile : Serves env r.parsedHead.path node) :
    AnswersFile env ctx node ↔
      node.contents ≠ [] ∧ node.contents.take 4 ≠ [255, 255, 255, 255] := by
  have hne : ctx.readBuff.readable ≠ [] := by
    rw [hread]
    exact r.text_ne_nil
  have hproc := processCalls_refines env ctx hw hne
  have hcontent := content_served hfile r.parsedHead.isKeepAlive
  rw [hread, serveCalls_text env r hbody, responseBytes] at hproc
  unfold AnswersFile
  by_cases hempty : node.contents = []
  · simp only [if_pos hempty] at hcontent
    simp only [hcontent, Except.map] at hproc
    generalize ctx.processCalls env = x at hproc ⊢
    cases hproc with
    | error e =>
      refine iff_of_false ?_ fun h => h.1 hempty
      rintro ⟨_, _, _, h, -⟩
      cases h
  by_cases hfailed : looksFailed node.contents = true
  · simp only [if_neg hempty, if_pos hfailed] at hcontent
    obtain ⟨hnone, hcalls⟩ := hcontent
    simp only [hnone, Except.map, hcalls] at hproc
    generalize ctx.processCalls env = x at hproc ⊢
    cases hproc with
    | @ok a _ h =>
      refine iff_of_false ?_ fun h => h.2 (of_decide_eq_true hfailed)
      rintro ⟨_, calls, _, heq, -, -, hleak⟩
      cases heq
      rw [show calls = _ from h.2.2] at hleak
      cases hleak
  · simp only [if_neg hempty, if_neg hfailed] at hcontent
    obtain ⟨hsome, hcalls⟩ := hcontent
    simp only [hsome, Except.map, hcalls] at hproc
    generalize ctx.processCalls env = x at hproc ⊢
    cases hproc with
    | @ok a _ h =>
      obtain ⟨⟨ctx', answered⟩, calls⟩ := a
      obtain ⟨hserved, rfl, rfl⟩ := h
      refine iff_of_true ⟨ctx', _, _, rfl, hserved.written, ⟨_, ?_, rfl⟩, rfl⟩
        ⟨hempty, fun h => hfailed (decide_eq_true h)⟩
      rw [settle_served hfile]
      rfl

/-- A file that everybody may read. -/
def page (contents : Bytes) : FileNode :=
  { isDir := false, otherRead := true, openable := true, contents }

/-- A root with one file, the start page. -/
def oneFile (contents : Bytes) : HttpEnv where
  srcDir := str "/srv"
  srcDir_ne := srv_ne_nil
  fs := fun path => if path = str "/srv/index.html" then some (page contents) else none
  verify := fun _ _ _ => false

theorem oneFile_serves (contents : Bytes) :
    Serves (oneFile contents) getRequest.parsedHead.path (page contents) := ⟨rfl, rfl, rfl, rfl⟩

/-- Three bytes `0xff`: the mapping is padded with zeros. -/
theorem file_fidelity_iff_sample :
    ∃ ctx : HttpContext, ctx.Wf ∧ ctx.readBuff.readable = getRequest.text ∧
      AnswersFile (oneFile [255, 255, 255]) ctx (page [255, 255, 255]) := by
  obtain ⟨ctx, hw, hread, -⟩ := exists_context getRequest.text
  exact ⟨ctx, hw, hread,
    (file_fidelity_iff hw getRequest rfl hread (oneFile_serves [255, 255, 255])).2
      ⟨nofun, by decide⟩⟩

/-- **Two files that are not sent.**  For the start page `ff ff ff ff` the response is the built-in error
page and the descriptor stays open; for an empty start page `process` reads through `MAP_FAILED`. -/
theorem file_not_sent :
    ∃ ctx : HttpContext, ctx.Wf ∧ ctx.readBuff.readable = getRequest.text ∧
      (∃ a, ctx.processCalls (oneFile [255, 255, 255, 255]) = .ok a ∧ FdCall.leaked a.2 = 1 ∧
        ¬ AnswersFile (oneFile [255, 255, 255, 255]) ctx (page [255, 255, 255, 255])) ∧
      ctx.process (oneFile []) = .error .invalidAccess ∧ ¬ AnswersFile (oneFile []) ctx (page []) := by
  obtain ⟨ctx, hw, hread, -⟩ := exists_context getRequest.text
  have hne : ctx.readBuff.readable ≠ [] := by
    rw [hread]
    exact getRequest.text_ne_nil
  refine ⟨ctx, hw, hread, ?_, ?_⟩
  · have hproc := processCalls_refines (oneFile [255, 255, 255, 255]) ctx hw hne
    have hcalls : (serveCalls (oneFile [255, 255, 255, 255]) ctx.readBuff.readable).map
        (fun a => FdCall.leaked a.2) = .ok 1 := by
      rw [hread]
      decide +kernel
    unfold AnswersFile
    generalize ctx.processCalls (oneFile [255, 255, 255, 255]) = x at hproc ⊢
    generalize serveCalls (oneFile [255, 255, 255, 255]) ctx.readBuff.readable = y at hproc hcalls
    cases hproc with
    | error e => cases hcalls
    | @ok a b h =>
      have hleak : FdCall.leaked b.2 = 1 := Except.ok.inj hcalls
      rw [← h.2.2] at hleak
      refine ⟨a, rfl, hleak, ?_⟩
      rintro ⟨_, calls, _, heq, -, -, hnone⟩
      cases heq
      rw [hleak] at hnone
      cases hnone
  · have hproc := processCalls_refines (oneFile []) ctx hw hne
    have hstop : serveCalls (oneFile []) ctx.readBuff.readable = .error .invalidAccess := by
      rw [hread]
      decide +kernel
    rw [hstop] at hproc
    unfold AnswersFile
    rw [← processCalls_fst]
    generalize ctx.processCalls (oneFile []) = x at hproc ⊢
    cases hproc with
    | error e =>
      refine ⟨rfl, ?_⟩
      rintro ⟨_, _, _, h, -⟩
      cases h

end HttpContext
