import TinyHttpServer.Lib.Storage

/-!
# The byte buffer (`src/base/buffer.h`, `src/base/buffer.cc`)

`Buffer` is a vector of bytes with a reader index and a writer index; the readable bytes lie
between them.  The first `cheap_prepend` bytes are kept free so that a header can be put in
front.  Every `assert` and every access through a pointer or an iterator is checked.

A pointer into the vector is the index it points at.  The kernel's side of `readv` and `write`
is an argument: the bytes that were read, or the number of bytes that were accepted, or the
error.
-/

set_option autoImplicit false

open Checked Storage

/-- Byte strings. -/
abbrev Bytes := List UInt8

/-- The test of byte strings for equality decides it. -/
instance : LawfulBEq Bytes := inferInstance

/-- The result of a system call that reads: the bytes, or `errno`. -/
inductive ReadResult where
  | data (bytes : Bytes)
  | error (errno : Int)
  deriving DecidableEq, Repr

/-- The result of a system call that writes: the number of bytes accepted, or `errno`. -/
inductive WriteResult where
  | wrote (n : Nat)
  | error (errno : Int)
  deriving DecidableEq, Repr

/-- `class Buffer`. -/
structure Buffer where
  buffer : List UInt8
  readerIndex : Nat
  writerIndex : Nat
  deriving DecidableEq, Repr

namespace Buffer

def cheapPrepend : Nat := 8
def initialSizeDefault : Nat := 1024

/-- The size of the stack buffer of `read_fd`. -/
def extrabufSize : Nat := 65535

/-- The constructor. -/
def make (initialSize : Nat) : Buffer :=
  { buffer := List.replicate (cheapPrepend + initialSize) 0
    readerIndex := cheapPrepend
    writerIndex := cheapPrepend }

def readAbleBytes (b : Buffer) : Nat := b.writerIndex - b.readerIndex
def writeAbleBytes (b : Buffer) : Nat := b.buffer.length - b.writerIndex
def prependAbleBytes (b : Buffer) : Nat := b.readerIndex

/-- The bytes between `peek()` and `begin_write()`. -/
def readable (b : Buffer) : Bytes := slice b.buffer b.readerIndex b.writerIndex

/-- `retrieve_all`. -/
def retrieveAll (b : Buffer) : Buffer :=
  { b with readerIndex := cheapPrepend, writerIndex := cheapPrepend }

/-- `retrieve`. -/
def retrieve (b : Buffer) (len : Nat) : Checked Buffer := do
  require (len ≤ b.readAbleBytes)
  if len < b.readAbleBytes then return { b with readerIndex := b.readerIndex + len }
  else return b.retrieveAll

/-- `retrieve_unitil`. -/
def retrieveUnitil (b : Buffer) (end_ : Nat) : Checked Buffer := do
  require (b.readerIndex ≤ end_)
  require (end_ ≤ b.writerIndex)
  b.retrieve (end_ - b.readerIndex)

/-- `retrieve_string`: the string is built from `len` bytes at `peek()`. -/
def retrieveString (b : Buffer) (len : Nat) : Checked (Buffer × Bytes) := do
  require (len ≤ b.readAbleBytes)
  let res := slice b.buffer b.readerIndex (b.readerIndex + len)
  let b ← b.retrieve len
  return (b, res)

/-- `retrieve_all_string`. -/
def retrieveAllString (b : Buffer) : Checked (Buffer × Bytes) := b.retrieveString b.readAbleBytes

/-- `buffer_.resize(n)`; new bytes are `0`. -/
def resize (b : Buffer) (n : Nat) : Buffer :=
  { b with buffer := b.buffer.take n ++ List.replicate (n - b.buffer.length) 0 }

/-- `makespace`. -/
def makespace (b : Buffer) (len : Nat) : Checked Buffer :=
  if b.writeAbleBytes + b.prependAbleBytes < len + cheapPrepend then
    return b.resize (b.writerIndex + len)
  else do
    require (cheapPrepend < b.readerIndex)
    let readable := b.readAbleBytes
    let buffer ← moveDown b.buffer b.readerIndex cheapPrepend (b.writerIndex - b.readerIndex)
    let b : Buffer :=
      { buffer, readerIndex := cheapPrepend, writerIndex := cheapPrepend + readable }
    require (readable = b.readAbleBytes)
    return b

/-- `ensure`. -/
def ensure (b : Buffer) (len : Nat) : Checked Buffer :=
  if b.writeAbleBytes < len then b.makespace len else return b

/-- `has_written`. -/
def hasWritten (b : Buffer) (len : Nat) : Buffer := { b with writerIndex := b.writerIndex + len }

/-- `append`. -/
def append (b : Buffer) (data : Bytes) : Checked Buffer := do
  let b ← b.ensure data.length
  let buffer ← store b.buffer b.writerIndex data
  return hasWritten { b with buffer } data.length

/-- `prepend`: the first `len` bytes of `data` are put in front. -/
def prepend (b : Buffer) (data : Bytes) (len : Nat) : Checked Buffer := do
  require (len ≤ b.prependAbleBytes)
  let b : Buffer := { b with readerIndex := b.readerIndex - len }
  if data.length < len then .error .outOfRange
  else
    let buffer ← store b.buffer b.readerIndex (data.take len)
    return { b with buffer }

/-- `shrink`: the vector is replaced by a copy of itself. -/
def shrink (b : Buffer) : Buffer := { b with buffer := b.buffer }

/-- `swap`: the two buffers after the call. -/
def swap (b rhs : Buffer) : Buffer × Buffer := (rhs, b)

/-- `read_fd`.  `readv` fills the writable part and then `extrabuf`, before any index moves. -/
def readFd (b : Buffer) (res : ReadResult) : Checked Buffer :=
  match res with
  | .error _ => return b
  | .data bytes => do
    let writeSize := b.writeAbleBytes
    let buffer ← store b.buffer b.writerIndex (bytes.take writeSize)
    let extrabuf := bytes.drop writeSize
    let b : Buffer := { b with buffer }
    if bytes.length ≤ writeSize then return b.hasWritten bytes.length
    else append { b with writerIndex := b.buffer.length } extrabuf

/-- `write_fd`. -/
def writeFd (b : Buffer) (res : WriteResult) : Buffer :=
  match res with
  | .error _ => b
  | .wrote n => { b with readerIndex := b.readerIndex + n }

end Buffer
