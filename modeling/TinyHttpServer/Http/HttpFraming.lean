import TinyHttpServer.Base.BufferString
import TinyHttpServer.Http.HttpContext

/-!
# The bytes of a response

`responseBytes` is the byte string that answers a request, as a function of the path and of the
arguments of `response_.Init`; `answer_refines` says that the context appends exactly these bytes,
and stops where `responseBytes` has no value.

A response is self-delimiting: its last header line holds the length of its body.  So no response
is a proper beginning of another (`Framed.eq_nil_of_append`).  `responseBytes_returns_iff` names the
requests for which there is a response at all: the selected file must be one that can be mapped.
-/

set_option autoImplicit false

open Checked Lines

/-! ## Decimal numbers -/

theorem digit_toNat {n : Nat} {c : Char} (h : c ∈ Nat.toDigits 10 n) :
    48 ≤ c.toNat ∧ c.toNat ≤ 57 := by
  have hd := Nat.isDigit_of_mem_toDigits (by decide) (by decide) h
  simp only [Char.isDigit, ge_iff_le, Bool.and_eq_true, decide_eq_true_eq] at hd
  exact hd

theorem digit_toUInt8 {n : Nat} {c : Char} (h : c ∈ Nat.toDigits 10 n) :
    c.toNat.toUInt8.toNat = c.toNat :=
  Nat.mod_eq_of_lt (Nat.lt_of_le_of_lt (digit_toNat h).2 (by decide))

/-- A line of visible characters and blanks. -/
def Printable (l : Bytes) : Prop := ∀ b ∈ l, 32 ≤ b.toNat

instance (l : Bytes) : Decidable (Printable l) :=
  List.decidableBAll (fun b : UInt8 => 32 ≤ b.toNat) l

theorem Printable.append {l m : Bytes} (hl : Printable l) (hm : Printable m) :
    Printable (l ++ m) := by
  intro b hb
  obtain hb | hb := List.mem_append.1 hb
  · exact hl b hb
  · exact hm b hb

theorem Printable.cr_not_mem {l : Bytes} (h : Printable l) : CR ∉ l := fun hmem =>
  absurd (h CR hmem) (by decide)

theorem Printable.lf_not_mem {l : Bytes} (h : Printable l) : LF ∉ l := fun hmem =>
  absurd (h LF hmem) (by decide)

theorem toStr_printable (n : Nat) : Printable (toStr n) := by
  intro b hb
  obtain ⟨c, hc, rfl⟩ := List.mem_map.1 hb
  rw [digit_toUInt8 hc]
  have hd := digit_toNat hc
  omega

theorem toStr_inj {m n : Nat} (h : toStr m = toStr n) : m = n := by
  -- the digits can be read back from the bytes
  have hback : ∀ k, (toStr k).map (fun b => Char.ofNat b.toNat) = Nat.toDigits 10 k := by
    intro k
    unfold toStr
    rw [List.map_map]
    refine (List.map_congr_left ?_).trans (List.map_id _)
    intro c hc
    show Char.ofNat c.toNat.toUInt8.toNat = c
    rw [digit_toUInt8 hc, Char.ofNat_toNat]
  rw [← Nat.ofDigitChars_ten_toDigits (n := m), ← Nat.ofDigitChars_ten_toDigits (n := n), ← hback,
    ← hback, h]

namespace HttpResponse

/-! ## The parts of a response -/

def stateLine (r : HttpResponse) : Bytes :=
  str "HTTP/1.1 " ++ intStr r.code ++ str " " ++ (CODE_STATUS r.code).getD (str "Bad Request")

def connectionLines (r : HttpResponse) : List Bytes :=
  if r.isKeepAlive then [str "Connection: keep-alive", str "keep-alive: max=6, timeout=120"]
  else [str "Connection: close"]

def typeLine (r : HttpResponse) : Bytes := str "Content-type: " ++ r.getFileType

def lengthLine (n : Nat) : Bytes := str "Content-length: " ++ toStr n

/-- The lines before the one with the length. -/
def headLines (r : HttpResponse) : List Bytes := r.stateLine :: (r.connectionLines ++ [r.typeLine])

/-- A response with the body `body`. -/
def frame (r : HttpResponse) (body : Bytes) : Bytes :=
  render CR LF (r.headLines ++ [lengthLine body.length]) ++ (CRLF ++ body)

/-- The file that is sent, or `none` for the built-in error page. -/
def content (fs : FileSystem) (r : HttpResponse) : Checked (Option Bytes) :=
  match fs.openFile (r.srcDir ++ r.path) with
  | none => .ok none
  | some node =>
    match mmap node r.mmFileStat.stSize with
    | none => .error .invalidAccess
    | some file => .ok (if looksFailed file then none else some file)

def bodyOf (r : HttpResponse) (file : Option Bytes) : Bytes :=
  file.getD (r.errorBody (str "File NotFound!"))

/-- The response of `MakeResponse` when it begins to append. -/
def settle (fs : FileSystem) (r : HttpResponse) : HttpResponse := (r.decideCode fs).errorHtml fs

/-- What `Init` makes of its arguments. -/
def start (env : HttpEnv) (path : Bytes) (isKeepAlive : Bool) (code : Int) : HttpResponse :=
  { code, isKeepAlive, path, srcDir := env.srcDir, mmFile := none, mmFileStat := FileStat.zero }

theorem init_eq (env : HttpEnv) (path : Bytes) (isKeepAlive : Bool) (code : Int) :
    HttpResponse.init env.srcDir path isKeepAlive code = .ok (start env path isKeepAlive code) := by
  unfold HttpResponse.init
  rw [require_of env.srcDir_ne]
  rfl

end HttpResponse

open HttpResponse

/-- The bytes that answer a request. -/
def responseBytes (env : HttpEnv) (path : Bytes) (isKeepAlive : Bool) (code : Int) : Checked Bytes :=
  let r := (start env path isKeepAlive code).settle env.fs
  (r.content env.fs).map fun file => r.frame (r.bodyOf file)

namespace HttpResponse

variable {fs : FileSystem} {r : HttpResponse} {buff : Buffer}

/-! ## What the code appends -/

/-- The computation appends `data` to the buffer. -/
def Appends (x : Checked Buffer) (buff : Buffer) (data : Bytes) : Prop :=
  ∃ buff', x = .ok buff' ∧ buff'.Wf ∧ buff'.readable = buff.readable ++ data

theorem append_appends (hw : buff.Wf) (data : Bytes) : Appends (buff.append data) buff data :=
  Buffer.append_spec hw data

theorem Appends.bind {x : Checked Buffer} {f : Buffer → Checked Buffer} {data more : Bytes}
    (hx : Appends x buff data) (hf : ∀ b, b.Wf → Appends (f b) b more) :
    Appends (x >>= f) buff (data ++ more) := by
  obtain ⟨b, rfl, hw, hb⟩ := hx
  obtain ⟨b', hf, hw', hb'⟩ := hf b hw
  exact ⟨b', hf, hw', by rw [hb', hb, List.append_assoc]⟩

theorem addStateLine_spec (hw : buff.Wf) {status : Bytes} (hcode : CODE_STATUS r.code = some status) :
    ∃ buff', r.addStateLine buff = .ok (r, buff') ∧ buff'.Wf ∧
      buff'.readable = buff.readable ++ (r.stateLine ++ CRLF) := by
  obtain ⟨b, hb, hwb, hrb⟩ := append_appends hw
    (str "HTTP/1.1 " ++ intStr r.code ++ str " " ++ status ++ str "\r\n")
  refine ⟨b, ?_, hwb, ?_⟩
  · unfold addStateLine
    rw [hcode]
    simp only [hb, ok_bind, pure_eq_ok]
  · unfold stateLine
    rw [hrb, hcode]
    rfl

theorem addHeader_spec (hw : buff.Wf) :
    Appends (r.addHeader buff) buff (render CR LF (r.connectionLines ++ [r.typeLine])) := by
  have hconn : render CR LF r.connectionLines = str "Connection: " ++
      (if r.isKeepAlive then str "keep-alive\r\n" ++ str "keep-alive: max=6, timeout=120\r\n"
        else str "close\r\n") := by
    unfold connectionLines
    split <;> rfl
  have htype : render CR LF [r.typeLine] = str "Content-type: " ++ r.getFileType ++ str "\r\n" := by
    rw [render_cons]
    rfl
  rw [render_append, hconn, htype, List.append_assoc]
  refine (append_appends hw _).bind fun b hb => Appends.bind ?_ fun b' hb' => append_appends hb' _
  split
  · exact (append_appends hb _).bind fun b' hb' => append_appends hb' _
  · exact append_appends hb _

theorem errorContent_spec (hw : buff.Wf) (message : Bytes) :
    Appends (r.errorContent buff message) buff
      (lengthLine (r.errorBody message).length ++ CRLF ++ (CRLF ++ r.errorBody message)) := by
  have hbytes : lengthLine (r.errorBody message).length ++ CRLF ++ (CRLF ++ r.errorBody message) =
      str "Content-length: " ++ toStr (r.errorBody message).length ++ str "\r\n\r\n" ++
        r.errorBody message := by
    rw [← List.append_assoc]
    unfold lengthLine
    rw [List.append_assoc _ CRLF CRLF]
    rfl
  rw [hbytes]
  exact (append_appends hw _).bind fun b hb => append_appends hb _

/-- `AddContent_` writes the error page, or the header of a file that is appended later. -/
theorem addContent_spec (hw : buff.Wf) (hnone : r.mmFile = none)
    (hsize : ∀ file, r.content fs = .ok (some file) → file.length = r.mmFileStat.stSize)
    {file : Option Bytes} (hc : r.content fs = .ok file) :
    ∃ buff', r.addContent fs buff = .ok ({ r with mmFile := file }, buff') ∧ buff'.Wf ∧
      buff'.readable ++ file.getD [] =
        buff.readable ++ (lengthLine (r.bodyOf file).length ++ CRLF ++ (CRLF ++ r.bodyOf file)) := by
  have herror : ∃ buff', (do return (r, ← r.errorContent buff (str "File NotFound!")) :
        Checked (HttpResponse × Buffer)) = .ok ({ r with mmFile := none }, buff') ∧ buff'.Wf ∧
      buff'.readable ++ [] = buff.readable ++
        (lengthLine (r.bodyOf none).length ++ CRLF ++ (CRLF ++ r.bodyOf none)) := by
    obtain ⟨b, hb, hwb, hrb⟩ := errorContent_spec (r := r) hw (str "File NotFound!")
    refine ⟨b, ?_, hwb, by rw [List.append_nil]; exact hrb⟩
    rw [hb, ← hnone]
    rfl
  unfold content at hc hsize
  unfold addContent
  cases hopen : fs.openFile (r.srcDir ++ r.path) with
  | none =>
    rw [hopen] at hc
    obtain rfl : none = file := Except.ok.inj hc
    exact herror
  | some node =>
    rw [hopen] at hc hsize
    simp only at hc hsize ⊢
    cases hmap : mmap node r.mmFileStat.stSize with
    | none => rw [hmap] at hc; cases hc
    | some contents =>
      rw [hmap] at hc hsize
      simp only at hc hsize ⊢
      split
      · rename_i hfailed
        rw [if_pos hfailed] at hc
        obtain rfl := Except.ok.inj hc
        exact herror
      · rename_i hfailed
        rw [if_neg hfailed] at hc hsize
        obtain rfl := Except.ok.inj hc
        have hlen := hsize contents rfl
        obtain ⟨b, hb, hwb, hrb⟩ := append_appends hw
          (str "Content-length: " ++ toStr r.mmFileStat.stSize ++ str "\r\n\r\n")
        refine ⟨b, by simp only [hb, ok_bind, pure_eq_ok], hwb, ?_⟩
        rw [hrb, ← hlen]
        simp only [bodyOf, Option.getD_some, lengthLine, List.append_assoc]
        rfl

theorem addContent_error {e : Fault} (hc : r.content fs = .error e) :
    r.addContent fs buff = .error e := by
  unfold content at hc
  unfold addContent
  cases hopen : fs.openFile (r.srcDir ++ r.path) with
  | none => rw [hopen] at hc; cases hc
  | some node =>
    simp only [hopen] at hc ⊢
    cases hmap : mmap node r.mmFileStat.stSize with
    | none =>
      rw [hmap] at hc
      cases hc
      rfl
    | some file => rw [hmap] at hc; cases hc

/-! ## The selected file -/

/-- The record that `stat` fills in for a file. -/
def statOf (node : FileNode) : FileStat :=
  { isDir := node.isDir, otherRead := node.otherRead, stSize := node.contents.length }

theorem stat_of_openFile {path : Bytes} {node : FileNode} (h : fs.openFile path = some node) :
    fs.stat path = some (statOf node) := by
  unfold FileSystem.openFile at h
  unfold FileSystem.stat
  split at h
  · rename_i found hfound
    split at h
    · cases h
      rw [hfound]
      rfl
    · cases h
  · cases h

/-- The code with which `MakeResponse` refuses a path, if it does. -/
def refused (fs : FileSystem) (path : Bytes) : Option Int :=
  match fs.stat path with
  | none => some 404
  | some stat => if stat.isDir then some 404 else if ¬ stat.otherRead then some 403 else none

theorem decideCode_refused {code : Int} (h : refused fs (r.srcDir ++ r.path) = some code) :
    ∃ mmFileStat, r.decideCode fs = { r with code, mmFileStat } := by
  unfold refused at h
  unfold decideCode
  cases hstat : fs.stat (r.srcDir ++ r.path) with
  | none =>
    rw [hstat] at h
    cases h
    exact ⟨r.mmFileStat, rfl⟩
  | some stat =>
    refine ⟨stat, ?_⟩
    simp only [hstat] at h ⊢
    split at h
    · rename_i hdir
      cases h
      rw [if_pos hdir]
    · rename_i hdir
      split at h
      · rename_i hread
        cases h
        rw [if_neg hdir, if_pos hread]
      · cases h

theorem decideCode_accepted (hcode : r.code ≠ -1) (h : refused fs (r.srcDir ++ r.path) = none) :
    ∃ mmFileStat, fs.stat (r.srcDir ++ r.path) = some mmFileStat ∧
      r.decideCode fs = { r with mmFileStat } := by
  unfold refused at h
  unfold decideCode
  cases hstat : fs.stat (r.srcDir ++ r.path) with
  | none => rw [hstat] at h; cases h
  | some stat =>
    refine ⟨stat, rfl, ?_⟩
    simp only [hstat] at h ⊢
    split at h
    · cases h
    · rename_i hdir
      split at h
      · cases h
      · rename_i hread
        rw [if_neg hdir, if_neg hread, if_neg hcode]

theorem refused_code {path : Bytes} {code : Int} (h : refused fs path = some code) :
    code = 404 ∨ code = 403 := by
  unfold refused at h
  split at h
  · exact .inl (Option.some.inj h).symm
  · split at h
    · exact .inl (Option.some.inj h).symm
    · split at h
      · exact .inr (Option.some.inj h).symm
      · cases h

/-- What `MakeResponse` has fixed when it begins to append: a code with a status, no mapped file,
and the record of the selected file if there is one. -/
structure Settled (fs : FileSystem) (r s : HttpResponse) : Prop where
  status : ∃ status, CODE_STATUS s.code = some status
  srcDir : s.srcDir = r.srcDir
  mmFile : s.mmFile = r.mmFile
  stat : ∀ node, fs.openFile (s.srcDir ++ s.path) = some node → s.mmFileStat = statOf node

theorem code_of_path {code : Int} {path : Bytes} (h : CODE_PATH code = some path) :
    code = 400 ∨ code = 403 ∨ code = 404 := by
  unfold CODE_PATH at h
  split at h
  · exact .inl ‹_›
  · split at h
    · exact .inr (.inl ‹_›)
    · split at h
      · exact .inr (.inr ‹_›)
      · cases h

theorem code_of_status {code : Int} {status : Bytes} (h : CODE_STATUS code = some status) :
    code = 200 ∨ code = 400 ∨ code = 403 ∨ code = 404 := by
  unfold CODE_STATUS at h
  split at h
  · exact .inl ‹_›
  · split at h
    · exact .inr (.inl ‹_›)
    · split at h
      · exact .inr (.inr (.inl ‹_›))
      · split at h
        · exact .inr (.inr (.inr ‹_›))
        · cases h

/-- An error page is selected. -/
theorem errorHtml_settled (fs : FileSystem) {path : Bytes} (hpath : CODE_PATH r.code = some path) :
    Settled fs r (r.errorHtml fs) ∧ (r.errorHtml fs).path = path := by
  have hstatus : ∃ status, CODE_STATUS r.code = some status := by
    obtain hc | hc | hc := code_of_path hpath
    · exact ⟨_, by rw [hc]; rfl⟩
    · exact ⟨_, by rw [hc]; rfl⟩
    · exact ⟨_, by rw [hc]; rfl⟩
  unfold errorHtml
  rw [hpath]
  refine ⟨⟨hstatus, rfl, rfl, ?_⟩, rfl⟩
  intro node hopen
  show (fs.stat (r.srcDir ++ path)).getD r.mmFileStat = statOf node
  rw [stat_of_openFile hopen]
  rfl

theorem settle_settled (hcode : r.code = 200 ∨ r.code = 400) : Settled fs r (r.settle fs) := by
  unfold settle
  cases href : refused fs (r.srcDir ++ r.path) with
  | some code =>
    obtain ⟨stat, hd⟩ := decideCode_refused href
    obtain ⟨path, hpath⟩ : ∃ path, CODE_PATH code = some path := by
      obtain rfl | rfl := refused_code href
      · exact ⟨_, rfl⟩
      · exact ⟨_, rfl⟩
    rw [hd]
    obtain ⟨hs, -⟩ := errorHtml_settled fs (r := { r with code, mmFileStat := stat }) hpath
    exact ⟨hs.status, hs.srcDir, hs.mmFile, hs.stat⟩
  | none =>
    obtain ⟨stat, hstat, hd⟩ := decideCode_accepted (by omega) href
    rw [hd]
    obtain hok | hbad := hcode
    · have hpath : CODE_PATH r.code = none := by rw [hok]; rfl
      unfold errorHtml
      simp only [hpath]
      refine ⟨⟨str "OK", by rw [hok]; rfl⟩, rfl, rfl, ?_⟩
      intro node hopen
      rw [stat_of_openFile hopen] at hstat
      exact (Option.some.inj hstat).symm
    · obtain ⟨hs, -⟩ := errorHtml_settled fs (r := { r with mmFileStat := stat })
        (show CODE_PATH r.code = some (str "/400.html") by rw [hbad]; rfl)
      exact ⟨hs.status, hs.srcDir, hs.mmFile, hs.stat⟩

theorem content_size {r₀ : HttpResponse} (hs : Settled fs r₀ r) {file : Bytes}
    (hc : r.content fs = .ok (some file)) : file.length = r.mmFileStat.stSize := by
  unfold content at hc
  split at hc
  · cases hc
  · rename_i node hopen
    rw [hs.stat node hopen] at hc ⊢
    split at hc
    · cases hc
    · rename_i contents hmap
      unfold mmap at hmap
      split at hmap
      · cases hmap
      · split at hc
        · cases hc
        · cases hc
          cases hmap
          rw [List.length_take]
          exact Nat.min_eq_left (Nat.le_refl _)

theorem content_pos {file : Bytes} (hc : r.content fs = .ok (some file)) :
    0 < r.mmFileStat.stSize := by
  unfold content mmap at hc
  split at hc
  · cases hc
  · split at hc
    · cases hc
    · rename_i hmap
      split at hmap
      · cases hmap
      · rename_i hzero
        exact Nat.pos_of_ne_zero fun h => hzero (.inl h)

/-- The status line and the header lines that do not depend on the file. -/
theorem settle_head (fs : FileSystem) (hw : buff.Wf) (hcode : r.code = 200 ∨ r.code = 400) :
    ∃ b₁ b₂, (r.settle fs).addStateLine buff = .ok (r.settle fs, b₁) ∧
      (r.settle fs).addHeader b₁ = .ok b₂ ∧ b₂.Wf ∧
      b₂.readable = buff.readable ++ ((r.settle fs).stateLine ++ CRLF) ++
        render CR LF ((r.settle fs).connectionLines ++ [(r.settle fs).typeLine]) := by
  have hs : Settled fs r (r.settle fs) := settle_settled hcode
  obtain ⟨status, hstatus⟩ := hs.status
  obtain ⟨b₁, h₁, hw₁, hr₁⟩ := addStateLine_spec hw hstatus
  obtain ⟨b₂, h₂, hw₂, hr₂⟩ := addHeader_spec (r := r.settle fs) hw₁
  exact ⟨b₁, b₂, h₁, h₂, hw₂, by rw [hr₂, hr₁]⟩

/-- `MakeResponse` appends the response, less the file. -/
theorem makeResponse_spec (hw : buff.Wf) (hcode : r.code = 200 ∨ r.code = 400)
    (hnone : r.mmFile = none) {file : Option Bytes} (hc : (r.settle fs).content fs = .ok file) :
    ∃ buff', r.makeResponse fs buff = .ok ({ r.settle fs with mmFile := file }, buff') ∧ buff'.Wf ∧
      buff'.readable ++ file.getD [] =
        buff.readable ++ (r.settle fs).frame ((r.settle fs).bodyOf file) := by
  have hs : Settled fs r (r.settle fs) := settle_settled hcode
  obtain ⟨b₁, b₂, h₁, h₂, hw₂, hr₂⟩ := settle_head fs hw hcode
  obtain ⟨b₃, h₃, hw₃, hr₃⟩ := addContent_spec hw₂ (hs.mmFile.trans hnone)
    (fun _ hf => content_size hs hf) hc
  refine ⟨b₃, ?_, hw₃, ?_⟩
  · simp only [makeResponse]
    rw [← settle, h₁, ok_bind]
    simp only [h₂, ok_bind, h₃]
  · rw [hr₃, hr₂]
    unfold frame headLines
    simp only [render_append, render_cons, CRLF, List.append_assoc, List.cons_append,
      List.nil_append]
    rfl

theorem makeResponse_error (hw : buff.Wf) (hcode : r.code = 200 ∨ r.code = 400) {e : Fault}
    (hc : (r.settle fs).content fs = .error e) : r.makeResponse fs buff = .error e := by
  obtain ⟨b₁, b₂, h₁, h₂, -, -⟩ := settle_head fs hw hcode
  simp only [makeResponse]
  rw [← settle, h₁, ok_bind]
  simp only [h₂, ok_bind, addContent_error hc]

end HttpResponse

namespace HttpContext

/-- The context `ctx'` is `ctx` with `out` appended to its write buffer, as far as its buffers are
concerned. -/
structure Answers (ctx ctx' : HttpContext) (out : Bytes) : Prop where
  readBuff : ctx'.readBuff = ctx.readBuff
  wf : ctx'.writeBuff.Wf
  written : ctx'.writeBuff.readable = ctx.writeBuff.readable ++ out

/-- **What `process` appends.**  The context appends the response and leaves the read buffer alone,
and stops where there is no response. -/
theorem answer_refines (env : HttpEnv) (ctx : HttpContext) (hw : ctx.writeBuff.Wf)
    (isKeepAlive : Bool) {code : Int} (hcode : code = 200 ∨ code = 400) :
    Refines ctx.Answers (ctx.answer env isKeepAlive code)
      (responseBytes env ctx.request.path isKeepAlive code) := by
  unfold responseBytes answer
  rw [init_eq, ok_bind]
  cases hc : ((start env ctx.request.path isKeepAlive code).settle env.fs).content env.fs with
  | error e =>
    simp only [hc, Except.map]
    rw [makeResponse_error hw hcode hc]
    exact .error e
  | ok file =>
    simp only [hc, Except.map]
    obtain ⟨b, hb, hwb, hrb⟩ := makeResponse_spec hw hcode rfl hc
    rw [hb, ok_bind]
    cases file with
    | none => exact .ok ⟨rfl, hwb, by rw [← hrb]; exact (List.append_nil _).symm⟩
    | some file =>
      obtain ⟨b', hb', hwb', hrb'⟩ := append_appends hwb file
      simp only [if_pos (content_pos hc), hb', ok_bind, pure_eq_ok]
      exact .ok ⟨rfl, hwb', hrb'.trans hrb⟩

end HttpContext

/-! ## Responses delimit themselves -/

/-- A byte string with the shape of a response. -/
def Framed (out : Bytes) : Prop :=
  ∃ ls body, (∀ l ∈ ls, l ≠ [] ∧ CR ∉ l) ∧
    out = render CR LF (ls ++ [lengthLine body.length]) ++ (CRLF ++ body)

theorem lengthLine_printable (n : Nat) : Printable (lengthLine n) :=
  Printable.append (by decide) (toStr_printable n)

theorem lengthLine_ok (n : Nat) : lengthLine n ≠ [] ∧ CR ∉ lengthLine n :=
  ⟨List.append_ne_nil_of_left_ne_nil (by decide) _, (lengthLine_printable n).cr_not_mem⟩

theorem Framed.ne_nil {out : Bytes} (h : Framed out) : out ≠ [] := by
  obtain ⟨ls, body, -, rfl⟩ := h
  exact List.append_ne_nil_of_right_ne_nil _ (List.cons_ne_nil _ _)

/-- **A response is not a proper beginning of another.** -/
theorem Framed.eq_nil_of_append {f g x : Bytes} (hf : Framed f) (hg : Framed g) (h : f ++ x = g) :
    x = [] := by
  obtain ⟨ls, body, hls, rfl⟩ := hf
  obtain ⟨ms, body', hms, rfl⟩ := hg
  have hlines : ∀ {ks : List Bytes} {n : Nat}, (∀ l ∈ ks, l ≠ [] ∧ CR ∉ l) →
      ∀ l ∈ ks ++ [lengthLine n], l ≠ [] ∧ CR ∉ l := by
    intro ks n hks l hl
    obtain hl | hl := List.mem_append.1 hl
    · exact hks l hl
    · rw [List.mem_singleton.1 hl]
      exact lengthLine_ok n
  have heq : render CR LF (ls ++ [lengthLine body.length]) ++ CR :: LF :: (body ++ x) =
      render CR LF (ms ++ [lengthLine body'.length]) ++ CR :: LF :: body' := by
    rw [List.append_assoc] at h
    exact h
  obtain ⟨hhead, hbody⟩ := render_cancel (hlines hls) (hlines hms) heq
  -- the last lines hold the lengths of the bodies
  obtain ⟨-, hlast⟩ := List.append_inj' hhead rfl
  have hlen : body.length = body'.length :=
    toStr_inj (List.append_cancel_left (List.singleton_inj.1 hlast))
  rw [← hbody, List.length_append] at hlen
  exact List.eq_nil_of_length_eq_zero (by omega)

namespace HttpResponse

theorem getFileType_printable (r : HttpResponse) : Printable r.getFileType := by
  have htypes : ∀ p ∈ SUFFIX_TYPE, Printable p.2 := by decide
  unfold getFileType
  split
  · decide
  · split
    · rename_i type htype
      obtain ⟨l₁, l₂, hl, -⟩ := List.lookup_eq_some_iff.1 htype
      exact htypes (_, type) (by rw [hl]; exact List.mem_append_right l₁ List.mem_cons_self)
    · decide

theorem headLines_printable {r : HttpResponse} {status : Bytes}
    (hcode : CODE_STATUS r.code = some status) :
    ∀ l ∈ r.headLines, l ≠ [] ∧ Printable l := by
  have hstate : r.stateLine ≠ [] ∧ Printable r.stateLine := by
    unfold stateLine
    obtain hc | hc | hc | hc := code_of_status hcode <;> rw [hc] <;> decide
  have hconn : ∀ l ∈ r.connectionLines, l ≠ [] ∧ Printable l := by
    unfold connectionLines
    split <;> decide
  have htype : r.typeLine ≠ [] ∧ Printable r.typeLine :=
    ⟨List.append_ne_nil_of_left_ne_nil (by decide) _,
      Printable.append (by decide) r.getFileType_printable⟩
  intro l hl
  obtain rfl | hl := List.mem_cons.1 hl
  · exact hstate
  · obtain hl | hl := List.mem_append.1 hl
    · exact hconn l hl
    · rw [List.mem_singleton.1 hl]
      exact htype

theorem headLines_ok {r : HttpResponse} {status : Bytes} (hcode : CODE_STATUS r.code = some status) :
    ∀ l ∈ r.headLines, l ≠ [] ∧ CR ∉ l := fun l hl =>
  ⟨(headLines_printable hcode l hl).1, (headLines_printable hcode l hl).2.cr_not_mem⟩

end HttpResponse

theorem responseBytes_framed {env : HttpEnv} {path : Bytes} {isKeepAlive : Bool} {code : Int}
    {out : Bytes} (hcode : code = 200 ∨ code = 400)
    (h : responseBytes env path isKeepAlive code = .ok out) : Framed out := by
  obtain ⟨file, -, rfl⟩ := map_eq_ok.1 h
  have hs : Settled env.fs (start env path isKeepAlive code) _ := settle_settled hcode
  obtain ⟨status, hstatus⟩ := hs.status
  exact ⟨_, _, headLines_ok hstatus, rfl⟩

/-! ## Which requests have a response -/

/-- The path of the file that answers a request for `path`: the file itself, or an error page. -/
def selectedPath (env : HttpEnv) (path : Bytes) : Bytes :=
  match refused env.fs (env.srcDir ++ path) with
  | some code => (CODE_PATH code).getD path
  | none => path

/-- The file that answers a request for `path` is not a directory and not empty, if the server can
open it. -/
def Mappable (env : HttpEnv) (path : Bytes) : Prop :=
  ∀ node, env.fs.openFile (env.srcDir ++ selectedPath env path) = some node →
    node.isDir = false ∧ node.contents ≠ []

theorem settle_path (env : HttpEnv) (path : Bytes) (isKeepAlive : Bool) :
    ((start env path isKeepAlive 200).settle env.fs).path = selectedPath env path := by
  unfold settle selectedPath
  cases href : refused env.fs (env.srcDir ++ path) with
  | some code =>
    obtain ⟨stat, hd⟩ := decideCode_refused (r := start env path isKeepAlive 200) href
    rw [hd]
    obtain rfl | rfl := refused_code href
    · exact (errorHtml_settled env.fs rfl).2
    · exact (errorHtml_settled env.fs rfl).2
  | none =>
    obtain ⟨stat, -, hd⟩ := decideCode_accepted (r := start env path isKeepAlive 200)
      (show (200 : Int) ≠ -1 by decide) href
    rw [hd]
    rfl

/-- The file that is looked for. -/
theorem settle_file (env : HttpEnv) (path : Bytes) (isKeepAlive : Bool) :
    ((start env path isKeepAlive 200).settle env.fs).srcDir ++
      ((start env path isKeepAlive 200).settle env.fs).path = env.srcDir ++ selectedPath env path := by
  have hs : Settled env.fs (start env path isKeepAlive 200) _ := settle_settled (.inl rfl)
  rw [hs.srcDir, settle_path]
  rfl

theorem content_returns_iff {fs : FileSystem} {r₀ r : HttpResponse} (hs : Settled fs r₀ r) :
    (∃ file, r.content fs = .ok file) ↔ ∀ node, fs.openFile (r.srcDir ++ r.path) = some node →
      node.isDir = false ∧ node.contents ≠ [] := by
  unfold content
  cases hopen : fs.openFile (r.srcDir ++ r.path) with
  | none =>
    constructor
    · intro _ node h
      cases h
    · intro _
      exact ⟨none, rfl⟩
  | some node =>
    have hsize : r.mmFileStat.stSize = 0 ↔ node.contents = [] := by
      rw [hs.stat node hopen]
      exact List.length_eq_zero_iff
    simp only [mmap, hsize]
    constructor
    · rintro ⟨file, hfile⟩ node' heq
      cases heq
      split at hfile
      · cases hfile
      · rename_i hmap
        split at hmap
        · cases hmap
        · rename_i hok
          rw [not_or] at hok
          exact ⟨Bool.eq_false_iff.2 hok.2, hok.1⟩
    · intro hall
      obtain ⟨hdir, hne⟩ := hall node rfl
      rw [if_neg (by rw [hdir]; simpa using hne)]
      exact ⟨_, rfl⟩

/-- **There is a response exactly when the selected file can be mapped.** -/
theorem responseBytes_returns_iff (env : HttpEnv) (path : Bytes) (isKeepAlive : Bool) :
    (∃ out, responseBytes env path isKeepAlive 200 = .ok out) ↔ Mappable env path := by
  have hs : Settled env.fs (start env path isKeepAlive 200) _ := settle_settled (.inl rfl)
  unfold Mappable
  rw [← settle_file env path isKeepAlive, ← content_returns_iff hs]
  unfold responseBytes
  constructor
  · rintro ⟨out, hout⟩
    obtain ⟨file, hc, -⟩ := map_eq_ok.1 hout
    exact ⟨file, hc⟩
  · rintro ⟨file, hc⟩
    exact ⟨_, map_eq_ok.2 ⟨file, hc, rfl⟩⟩
