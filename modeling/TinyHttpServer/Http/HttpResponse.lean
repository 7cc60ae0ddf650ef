import TinyHttpServer.Http.HttpRequest

/-!
# HTTP responses (`src/http/httpresponse.h`, `src/http/httpresponse.cc`)

A response is appended to a buffer piece by piece.  The file system is a parameter: a function
from paths to files.  A path is passed to the kernel as a C string, so it ends at its first zero
byte.

`AddContent_` maps the selected file and looks at the first four bytes of the mapping as an `int`.
`mmap` fails for length `0` and for a directory; the code then reads through the invalid pointer.
-/

set_option autoImplicit false

open Checked

/-- A file, as far as `stat`, `open` and `mmap` show it: `otherRead` is the bit `S_IROTH` of its
mode, `openable` says whether the server may open it for reading, and the length of `contents` is
`st_size` (for a directory nothing else of `contents` is used). -/
structure FileNode where
  isDir : Bool
  otherRead : Bool
  openable : Bool
  contents : Bytes
  deriving DecidableEq, Repr

/-- `struct stat`; the initial value `{0}` is neither a directory nor readable by others. -/
structure FileStat where
  isDir : Bool
  otherRead : Bool
  stSize : Nat
  deriving DecidableEq, Repr

def FileStat.zero : FileStat := { isDir := false, otherRead := false, stSize := 0 }

/-- A file system. -/
abbrev FileSystem := Bytes → Option FileNode

/-- The C string in a byte string. -/
def cString (s : Bytes) : Bytes := s.takeWhile fun b => b ≠ 0

/-- `stat`: `none` stands for a negative result, which leaves the record alone. -/
def FileSystem.stat (fs : FileSystem) (path : Bytes) : Option FileStat :=
  (fs (cString path)).map fun node =>
    { isDir := node.isDir, otherRead := node.otherRead, stSize := node.contents.length }

/-- `open` with `O_RDONLY`: `none` stands for a negative result. -/
def FileSystem.openFile (fs : FileSystem) (path : Bytes) : Option FileNode :=
  match fs (cString path) with
  | some node => if node.openable then some node else none
  | none => none

/-- `mmap` of the first `len` bytes of an open file: `none` stands for `MAP_FAILED`. -/
def mmap (node : FileNode) (len : Nat) : Option Bytes :=
  if len = 0 ∨ node.isDir then none else some (node.contents.take len)

/-- `to_string` of an unsigned number. -/
def toStr (n : Nat) : Bytes := (Nat.toDigits 10 n).map fun c => c.toNat.toUInt8

/-- `to_string` of an `int`. -/
def intStr (x : Int) : Bytes := if x < 0 then 45 :: toStr x.natAbs else toStr x.natAbs

/-- `class HttpResponse`.  `mmFile` is the mapped file. -/
structure HttpResponse where
  code : Int
  isKeepAlive : Bool
  path : Bytes
  srcDir : Bytes
  mmFile : Option Bytes
  mmFileStat : FileStat
  deriving DecidableEq, Repr

namespace HttpResponse

/-- `SUFFIX_TYPE`. -/
def SUFFIX_TYPE : List (Bytes × Bytes) :=
  [(str ".html", str "text/html"),
    (str ".xml", str "text/xml"),
    (str ".xhtml", str "application/xhtml+xml"),
    (str ".txt", str "text/plain"),
    (str ".rtf", str "application/rtf"),
    (str ".pdf", str "application/pdf"),
    (str ".word", str "application/nsword"),
    (str ".png", str "image/png"),
    (str ".gif", str "image/gif"),
    (str ".jpg", str "image/jpeg"),
    (str ".jpeg", str "image/jpeg"),
    (str ".au", str "audio/basic"),
    (str ".mpeg", str "video/mpeg"),
    (str ".mpg", str "video/mpeg"),
    (str ".avi", str "video/x-msvideo"),
    (str ".gz", str "application/x-gzip"),
    (str ".tar", str "application/x-tar"),
    (str ".css", str "text/css "),
    (str ".js", str "text/javascript ")]

/-- `CODE_STATUS`. -/
def CODE_STATUS (code : Int) : Option Bytes :=
  if code = 200 then some (str "OK")
  else if code = 400 then some (str "Bad Request")
  else if code = 403 then some (str "Forbidden")
  else if code = 404 then some (str "Not Found")
  else none

/-- `CODE_PATH`. -/
def CODE_PATH (code : Int) : Option Bytes :=
  if code = 400 then some (str "/400.html")
  else if code = 403 then some (str "/403.html")
  else if code = 404 then some (str "/404.html")
  else none

/-- The constructor. -/
def make : HttpResponse :=
  { code := -1, isKeepAlive := false, path := [], srcDir := [], mmFile := none,
    mmFileStat := FileStat.zero }

/-- `Init`. -/
def init (srcDir path : Bytes) (isKeepAlive : Bool) (code : Int) : Checked HttpResponse := do
  require (srcDir ≠ [])
  return { code, isKeepAlive, path, srcDir, mmFile := none, mmFileStat := FileStat.zero }

/-- The part of a path from its last `'.'` on. -/
def suffixOf (path : Bytes) : Option Bytes :=
  if (46 : UInt8) ∈ path then some (46 :: (path.reverse.takeWhile (· ≠ 46)).reverse) else none

/-- `GetFileType_`. -/
def getFileType (r : HttpResponse) : Bytes :=
  match suffixOf r.path with
  | none => str "text/plain"
  | some suffix =>
    match SUFFIX_TYPE.lookup suffix with
    | some type => type
    | none => str "text/plain"

/-- The body of the built-in error page. -/
def errorBody (r : HttpResponse) (message : Bytes) : Bytes :=
  str "<html><title>Error</title>" ++ str "<body bgcolor=\"ffffff\">" ++
    (intStr r.code ++ str " : " ++ (CODE_STATUS r.code).getD (str "Bad Request") ++ str "\n") ++
    (str "<p>" ++ message ++ str "</p>") ++ str "<hr><em>TinyWebServer</em></body></html>"

/-- `ErrorContent`. -/
def errorContent (r : HttpResponse) (buff : Buffer) (message : Bytes) : Checked Buffer := do
  let body := r.errorBody message
  let buff ← buff.append (str "Content-length: " ++ toStr body.length ++ str "\r\n\r\n")
  buff.append body

/-- `AddStateLine_`. -/
def addStateLine (r : HttpResponse) (buff : Buffer) : Checked (HttpResponse × Buffer) := do
  let (r, status) := match CODE_STATUS r.code with
    | some status => (r, status)
    | none => ({ r with code := 400 }, str "Bad Request")
  let buff ← buff.append (str "HTTP/1.1 " ++ intStr r.code ++ str " " ++ status ++ str "\r\n")
  return (r, buff)

/-- `AddHeader_`. -/
def addHeader (r : HttpResponse) (buff : Buffer) : Checked Buffer := do
  let buff ← buff.append (str "Connection: ")
  let buff ← (if r.isKeepAlive then do
      let buff ← buff.append (str "keep-alive\r\n")
      buff.append (str "keep-alive: max=6, timeout=120\r\n")
    else buff.append (str "close\r\n"))
  buff.append (str "Content-type: " ++ r.getFileType ++ str "\r\n")

section FileSystem

variable (fs : FileSystem)

/-- The first four bytes of the mapping, read as an `int`, are `-1`.  The mapping is padded with
zeros, so this asks for four bytes. -/
def looksFailed (file : Bytes) : Bool := file.take 4 = [255, 255, 255, 255]

/-- `AddContent_`. -/
def addContent (r : HttpResponse) (buff : Buffer) : Checked (HttpResponse × Buffer) :=
  match fs.openFile (r.srcDir ++ r.path) with
  | none => do return (r, ← r.errorContent buff (str "File NotFound!"))
  | some node =>
    match mmap node r.mmFileStat.stSize with
    | none => .error .invalidAccess
    | some file =>
      if looksFailed file then do return (r, ← r.errorContent buff (str "File NotFound!"))
      else do
        let r := { r with mmFile := some file }
        let buff ← buff.append
          (str "Content-length: " ++ toStr r.mmFileStat.stSize ++ str "\r\n\r\n")
        return (r, buff)

/-- `ErrorHtml_`. -/
def errorHtml (r : HttpResponse) : HttpResponse :=
  match CODE_PATH r.code with
  | none => r
  | some path =>
    { r with path, mmFileStat := (fs.stat (r.srcDir ++ path)).getD r.mmFileStat }

/-- The choice of the status code in `MakeResponse`. -/
def decideCode (r : HttpResponse) : HttpResponse :=
  match fs.stat (r.srcDir ++ r.path) with
  | none => { r with code := 404 }
  | some mmFileStat =>
    let r := { r with mmFileStat }
    if mmFileStat.isDir then { r with code := 404 }
    else if ¬ mmFileStat.otherRead then { r with code := 403 }
    else if r.code = -1 then { r with code := 200 }
    else r

/-- `MakeResponse`. -/
def makeResponse (r : HttpResponse) (buff : Buffer) : Checked (HttpResponse × Buffer) := do
  let r := (r.decideCode fs).errorHtml fs
  let (r, buff) ← r.addStateLine buff
  let buff ← r.addHeader buff
  r.addContent fs buff

end FileSystem

end HttpResponse
