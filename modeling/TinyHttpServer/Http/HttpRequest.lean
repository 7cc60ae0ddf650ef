import TinyHttpServer.Base.Buffer
import TinyHttpServer.Lib.Lines
import Mathlib.Logic.Function.Basic

/-!
# HTTP requests (`src/http/httprequest.h`, `src/http/httprequest.cc`)

The parser is a state machine over the lines of a buffer: request line, headers, body.  A line
ends at the first `CRLF`, or at the end of the readable bytes when there is none; in that case the
loop is left and the line is not retrieved.

* The two regular expressions are matched against a whole line, so they are given as the splits
  that they describe: `^([^ ]*) ([^ ]*) HTTP/([^ ]*)$` and `^([^:]*): ?(.*)$`, where `.` stands for
  every byte but `CR` and `LF`.
* A map is the function that looks up a key.
* The part of `UserVerify` that talks to the database is the parameter `verify`.
* The `int`s of `ParseFromUrlencoded_` are numbers: a body has fewer than `2 ^ 31` bytes.
-/

set_option autoImplicit false

open Checked Lines

/-- The bytes of a string literal. -/
def str (s : String) : Bytes := s.toList.map fun c => c.toNat.toUInt8

def CR : UInt8 := 13
def LF : UInt8 := 10
def SP : UInt8 := 32
def COLON : UInt8 := 58
def CRLF : Bytes := [CR, LF]

/-- `PARSE_STATE`. -/
inductive ParseState where
  | requestLine
  | headers
  | body
  | finish
  deriving DecidableEq, Repr

/-- `class HttpRequest`. -/
structure HttpRequest where
  state : ParseState
  method : Bytes
  path : Bytes
  version : Bytes
  body : Bytes
  header : Bytes → Option Bytes
  post : Bytes → Option Bytes

namespace HttpRequest

/-- `DEFAULT_HTML`. -/
def DEFAULT_HTML : List Bytes :=
  [str "/index", str "/register", str "/login", str "/welcome", str "/video", str "/picture"]

/-- `DEFAULT_HTML_TAG`. -/
def DEFAULT_HTML_TAG (path : Bytes) : Option Nat :=
  if path = str "/register.html" then some 0
  else if path = str "/login.html" then some 1
  else none

/-- `Init`. -/
def init : HttpRequest :=
  { state := .requestLine, method := [], path := [], version := [], body := [],
    header := fun _ => none, post := fun _ => none }

/-- `IsKeepAlive`. -/
def isKeepAlive (req : HttpRequest) : Bool :=
  match req.header (str "Connection") with
  | some value => value = str "keep-alive" ∧ req.version = str "1.1"
  | none => false

/-! ## Request line and headers -/

/-- `^([^ ]*) ([^ ]*) HTTP/([^ ]*)$`. -/
def matchRequestLine (line : Bytes) : Option (Bytes × Bytes × Bytes) :=
  match cut SP line with
  | none => none
  | some (method, rest) =>
    match cut SP rest with
    | none => none
    | some (path, last) =>
      if (str "HTTP/").isPrefixOf last ∧ SP ∉ last then some (method, path, last.drop 5) else none

/-- What ` ?` leaves of the bytes behind a colon. -/
def optionalSpace (rest : Bytes) : Bytes := if rest.head? = some SP then rest.tail else rest

/-- `^([^:]*): ?(.*)$`. -/
def matchHeader (line : Bytes) : Option (Bytes × Bytes) :=
  match cut COLON line with
  | none => none
  | some (name, rest) =>
    let value := optionalSpace rest
    if CR ∈ value ∨ LF ∈ value then none else some (name, value)

/-- `ParseRequestLine_`: `none` stands for `false`. -/
def parseRequestLine (req : HttpRequest) (line : Bytes) : Option HttpRequest :=
  (matchRequestLine line).map fun (method, path, version) =>
    { req with method, path, version, state := .headers }

/-- `ParsePath_`. -/
def parsePath (req : HttpRequest) : HttpRequest :=
  if req.path = str "/" then { req with path := str "/index.html" }
  else if req.path ∈ DEFAULT_HTML then { req with path := req.path ++ str ".html" }
  else req

/-- `ParseHeader_`. -/
def parseHeader (req : HttpRequest) (line : Bytes) : HttpRequest :=
  match matchHeader line with
  | some (name, value) => { req with header := Function.update req.header name (some value) }
  | none => { req with state := .body }

/-! ## Form bodies -/

/-- A `char` as an `int`: the type is signed. -/
def charInt (b : UInt8) : Int := if b.toNat < 128 then b.toNat else (b.toNat : Int) - 256

/-- An `int` stored in a `char`. -/
def intChar (x : Int) : UInt8 := (x % 256).toNat.toUInt8

/-- `ConverHex`. -/
def converHex (ch : UInt8) : Int :=
  if 65 ≤ charInt ch ∧ charInt ch ≤ 70 then charInt ch - 65 + 10
  else if 97 ≤ charInt ch ∧ charInt ch ≤ 102 then charInt ch - 97 + 10
  else charInt ch

/-- `body_[k]` as a value: at the end of the string it is the terminating `0`. -/
def charAt (body : Bytes) (k : Nat) : Checked UInt8 :=
  if k = body.length then return 0 else nth body k

/-- `body_[k] = x`. -/
def setChar (body : Bytes) (k : Nat) (x : UInt8) : Checked Bytes :=
  if k < body.length then return body.set k x else .error .outOfRange

/-- `body_.substr(j, n)`. -/
def substr (body : Bytes) (j n : Nat) : Checked Bytes :=
  if j ≤ body.length then return (body.drop j).take n else .error .outOfRange

/-- The variables of the loop of `ParseFromUrlencoded_`. -/
structure FormState where
  body : Bytes
  post : Bytes → Option Bytes
  key : Bytes
  i : Nat
  j : Nat

/-- The case `'%'`. -/
def decodeEscape (s : FormState) : Checked FormState := do
  let high ← charAt s.body (s.i + 1)
  let low ← charAt s.body (s.i + 2)
  let num := converHex high * 16 + converHex low
  let body ← setChar s.body (s.i + 2) (intChar (num.tmod 10 + 48))
  let body ← setChar body (s.i + 1) (intChar (num.tdiv 10 + 48))
  return { s with body, i := s.i + 2 }

/-- The `switch` in the loop of `ParseFromUrlencoded_`. -/
def formSwitch (s : FormState) (ch : UInt8) : Checked FormState :=
  if ch = 61 then do  -- '='
    return { s with key := ← substr s.body s.j (s.i - s.j), j := s.i + 1 }
  else if ch = 43 then do  -- '+'
    return { s with body := ← setChar s.body s.i SP }
  else if ch = 37 then  -- '%'
    decodeEscape s
  else if ch = 38 then do  -- '&'
    let value ← substr s.body s.j (s.i - s.j)
    return { s with post := Function.update s.post s.key (some value), j := s.i + 1 }
  else return s

/-- The loop of `ParseFromUrlencoded_`, up to the length `n` that `body_` had at its start. -/
def formLoop (n : Nat) : Nat → FormState → Checked FormState
  | 0, _ => .error .outOfFuel
  | fuel + 1, s =>
    if s.i < n then do
      let ch ← charAt s.body s.i
      let s ← formSwitch s ch
      formLoop n fuel { s with i := s.i + 1 }
    else return s

/-- `ParseFromUrlencoded_`. -/
def parseFromUrlencoded (req : HttpRequest) : Checked HttpRequest :=
  if req.body.length = 0 then return req
  else do
    let s ← formLoop req.body.length (req.body.length + 1)
      { body := req.body, post := req.post, key := [], i := 0, j := 0 }
    require (s.j ≤ s.i)
    let req := { req with body := s.body, post := s.post }
    if (s.post s.key).isNone ∧ s.j < s.i then do
      let value ← substr s.body s.j (s.i - s.j)
      return { req with post := Function.update s.post s.key (some value) }
    else return req

section Verify

variable (verify : Bytes → Bytes → Bool → Bool)

/-- `UserVerify`; `verify` is the answer of the database. -/
def userVerify (name pwd : Bytes) (isLogin : Bool) : Bool :=
  if name = [] ∨ pwd = [] then false else verify name pwd isLogin

/-- `m[key]` on a map of strings: an absent key is inserted with the empty string. -/
def subscript (m : Bytes → Option Bytes) (key : Bytes) : Bytes × (Bytes → Option Bytes) :=
  match m key with
  | some value => (value, m)
  | none => ([], Function.update m key (some []))

/-- The part of `ParsePost_` that follows the decoding of a form. -/
def verifyForm (req : HttpRequest) : HttpRequest :=
  match DEFAULT_HTML_TAG req.path with
  | none => req
  | some tag =>
    if tag = 0 ∨ tag = 1 then
      let isLogin := tag = 1
      let (pwd, post) := subscript req.post (str "password")
      let (name, post) := subscript post (str "username")
      let req := { req with post }
      if userVerify verify name pwd isLogin then { req with path := str "/welcome.html" }
      else { req with path := str "/error.html" }
    else req

/-- `ParsePost_`. -/
def parsePost (req : HttpRequest) : Checked HttpRequest :=
  if req.method = str "POST" then
    let (type, header) := subscript req.header (str "Content-Type")
    let req := { req with header }
    if type = str "application/x-www-form-urlencoded" then do
      let req ← req.parseFromUrlencoded
      return req.verifyForm verify
    else return req
  else return req

/-- `ParseBody_`. -/
def parseBody (req : HttpRequest) (line : Bytes) : Checked HttpRequest := do
  let req ← parsePost verify { req with body := line }
  return { req with state := .finish }

/-! ## The parser -/

/-- The `switch` of `parse`, for a line and the number of readable bytes; `none` stands for
`return false`. -/
def parseLine (req : HttpRequest) (line : Bytes) (readAbleBytes : Nat) :
    Checked (Option HttpRequest) :=
  match req.state with
  | .requestLine => return (req.parseRequestLine line).map parsePath
  | .headers =>
    let req := req.parseHeader line
    return some (if readAbleBytes ≤ 2 then { req with state := .finish } else req)
  | .body => do return some (← req.parseBody verify line)
  | .finish => return some req

/-- The loop of `parse`. -/
def parseLoop : Nat → HttpRequest → Buffer → Checked (Bool × HttpRequest × Buffer)
  | 0, _, _ => .error .outOfFuel
  | fuel + 1, req, buff =>
    if buff.readAbleBytes ≠ 0 ∧ req.state ≠ .finish then do
      let lineEnd := search CRLF buff.readable
      match ← req.parseLine verify (buff.readable.take lineEnd) buff.readAbleBytes with
      | none => return (false, req, buff)
      | some req =>
        if buff.readerIndex + lineEnd = buff.writerIndex then return (true, req, buff)
        else do
          let buff ← buff.retrieveUnitil (buff.readerIndex + lineEnd + 2)
          parseLoop fuel req buff
    else return (true, req, buff)

/-- `parse`: the answer, the request and the buffer after the call. -/
def parse (req : HttpRequest) (buff : Buffer) : Checked (Bool × HttpRequest × Buffer) :=
  if buff.readAbleBytes = 0 then return (false, req, buff)
  else parseLoop verify (buff.readAbleBytes + 1) req buff

end Verify

end HttpRequest
