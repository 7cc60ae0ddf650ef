import TinyHttpServer.Lib.Run
import TinyHttpServer.Base.BufferString

/-!
# `TcpConnection::send(Buffer &)` from another thread

In the loop thread `send` hands the readable bytes to `send_in_loop_` and empties the buffer.  In
another thread it queues a functor that holds `peek()` and the number of readable bytes, and leaves the
buffer as it is.  Until the functor is executed the caller may append to the buffer, which moves its
bytes or gives the vector a new block.

* `SharedBuffer` — a buffer and the block that its vector lives in; `View` is what a functor holds.
* `toSend` — the bytes that a sequence of calls asks for.
* `send_agrees_iff` — the two ways to send agree exactly where no bytes are asked for: the buffer is never
  emptied in the second.
-/

set_option autoImplicit false

open Checked Machine Storage

/-- A `Buffer` of the caller, with the number of the block that its vector has allocated and the size of
the block. -/
structure SharedBuffer where
  buffer : Buffer
  block : Nat
  capacity : Nat
  deriving DecidableEq, Repr

/-- A pointer into a block, and a number of bytes. -/
structure View where
  block : Nat
  start : Nat
  len : Nat
  deriving DecidableEq, Repr

namespace SharedBuffer

/-- `peek()` and `read_able_bytes()`. -/
def view (m : SharedBuffer) : View :=
  { block := m.block, start := m.buffer.readerIndex, len := m.buffer.readAbleBytes }

/-- `append`.  A `resize` beyond the capacity allocates a new block; `grow` is its size, by the old and
the new size of the vector. -/
def append (grow : Nat → Nat → Nat) (m : SharedBuffer) (data : Bytes) : Checked SharedBuffer := do
  let buffer ← m.buffer.append data
  if m.capacity < buffer.buffer.length then
    return { buffer, block := m.block + 1,
             capacity := grow m.buffer.buffer.length buffer.buffer.length }
  else return { m with buffer }

/-- The bytes behind a pointer.  A block that has been given up must not be read. -/
def read (m : SharedBuffer) (v : View) : Checked Bytes :=
  if v.len = 0 then return []
  else do
    if v.block = m.block ∧ v.start + v.len ≤ m.buffer.buffer.length then
      return slice m.buffer.buffer v.start (v.start + v.len)
    else .error .invalidAccess

end SharedBuffer

namespace TcpConnection

/-- A thread that sends, and the loop: the buffer, the queued functors of `send_in_loop_`, and the
bytes that have been handed to `send_in_loop_`. -/
structure Sender where
  buff : SharedBuffer
  pending : List View
  handed : Bytes
  deriving DecidableEq, Repr

/-- What happens: the thread calls `append` or `send`, and the loop executes the next functor. -/
inductive SenderStep where
  | append (data : Bytes)
  | send
  | exec
  deriving DecidableEq, Repr

namespace Sender

/-- A thread with a buffer, in a block of the given size. -/
def start (buffer : Buffer) (capacity : Nat) : Sender :=
  { buff := { buffer, block := 0, capacity }, pending := [], handed := [] }

/-- `send(Buffer &)`.  The status is `CONNECTED`, and the functor goes through `run_in_loop`. -/
def send (inLoop : Bool) (s : Sender) : Sender :=
  if inLoop then
    { s with
      buff := { s.buff with buffer := s.buff.buffer.retrieveAll }
      handed := s.handed ++ s.buff.buffer.readable }
  else { s with pending := s.pending ++ [s.buff.view] }

/-- The loop executes the next functor of its queue. -/
def exec (s : Sender) : Checked Sender :=
  match s.pending with
  | [] => return s
  | v :: pending => do
    let data ← s.buff.read v
    return { s with pending, handed := s.handed ++ data }

/-- A step, of a thread that is the loop thread or another one. -/
def step (grow : Nat → Nat → Nat) (inLoop : Bool) (s : Sender) : SenderStep → Checked Sender
  | .append data => do return { s with buff := ← s.buff.append grow data }
  | .send => return s.send inLoop
  | .exec => s.exec

/-! ## What is asked for -/

/-- The bytes that the calls ask to send, where `readable` is what the buffer holds. -/
def toSend (readable : Bytes) : List SenderStep → Bytes
  | [] => []
  | .append data :: steps => toSend (readable ++ data) steps
  | .send :: steps => readable ++ toSend [] steps
  | .exec :: steps => toSend readable steps

/-- The bytes that the calls leave in the buffer. -/
def leftOver (readable : Bytes) : List SenderStep → Bytes
  | [] => readable
  | .append data :: steps => leftOver (readable ++ data) steps
  | .send :: steps => leftOver [] steps
  | .exec :: steps => leftOver readable steps

/-- All bytes that are appended. -/
def appended : List SenderStep → Bytes
  | [] => []
  | .append data :: steps => data ++ appended steps
  | .send :: steps => appended steps
  | .exec :: steps => appended steps

/-- Every byte is sent or left over, in order. -/
theorem toSend_leftOver (steps : List SenderStep) : ∀ readable : Bytes,
    toSend readable steps ++ leftOver readable steps = readable ++ appended steps := by
  induction steps with
  | nil => intro readable; simp [toSend, leftOver, appended]
  | cons s steps ih =>
    intro readable
    cases s with
    | append data => rw [toSend, leftOver, appended, ih, List.append_assoc]
    | send => rw [toSend, leftOver, appended, List.append_assoc, ih, List.nil_append]
    | exec => exact ih readable

/-! ## The two threads -/

variable {grow : Nat → Nat → Nat} {s t : Sender}

def readable (s : Sender) : Bytes := s.buff.buffer.readable

theorem append_spec (grow : Nat → Nat → Nat) (hwf : s.buff.buffer.Wf) (data : Bytes) :
    ∃ m, s.buff.append grow data = .ok m ∧ m.buffer.Wf ∧ m.buffer.readable = s.readable ++ data := by
  obtain ⟨b, hb, hw, hr⟩ := Buffer.append_spec hwf data
  unfold SharedBuffer.append
  rw [hb, ok_bind]
  split
  · exact ⟨_, rfl, hw, hr⟩
  · exact ⟨_, rfl, hw, hr⟩

/-- **The loop thread** hands over what is asked for, and keeps what is left over. -/
theorem run_inLoop (grow : Nat → Nat → Nat) (steps : List SenderStep) : ∀ {s : Sender},
    s.buff.buffer.Wf → s.pending = [] → ∃ t, run (step grow true) s steps = .ok t ∧
      t.handed = s.handed ++ toSend s.readable steps ∧ t.readable = leftOver s.readable steps := by
  induction steps with
  | nil =>
    intro s _ _
    exact ⟨s, rfl, by simp [toSend], rfl⟩
  | cons a steps ih =>
    intro s hwf hpending
    rw [run_cons]
    cases a with
    | append data =>
      obtain ⟨m, hm, hw, hr⟩ := append_spec grow hwf data
      obtain ⟨t, ht, hhanded, hread⟩ := ih (s := { s with buff := m }) hw hpending
      refine ⟨t, ?_, ?_, ?_⟩
      · simp only [step, hm, ok_bind, pure_eq_ok]
        exact ht
      · rw [hhanded, readable, hr]
        rfl
      · rw [hread, readable, hr]
        rfl
    | send =>
      obtain ⟨t, ht, hhanded, hread⟩ := ih (s := s.send true)
        (Buffer.retrieveAll_wf hwf) hpending
      have hnil : (s.send true).readable = [] := Buffer.retrieveAll_readable _
      refine ⟨t, ht, ?_, ?_⟩
      · rw [hhanded, hnil, toSend, ← List.append_assoc]
        rfl
      · rw [hread, hnil]
        rfl
    | exec =>
      have hexec : s.exec = .ok s := by
        unfold exec
        rw [hpending]
        rfl
      rw [step, hexec, ok_bind]
      exact ih hwf hpending

/-- **Another thread** never takes anything out of its buffer. -/
theorem run_cross_readable (steps : List SenderStep) : ∀ {s t : Sender}, s.buff.buffer.Wf →
    run (step grow false) s steps = .ok t → t.readable = s.readable ++ appended steps := by
  induction steps with
  | nil =>
    intro s t _ h
    cases h
    rw [appended, List.append_nil]
  | cons a steps ih =>
    intro s t hwf h
    rw [run_cons, bind_eq_ok] at h
    obtain ⟨u, hu, h⟩ := h
    cases a with
    | append data =>
      obtain ⟨m, hm, hw, hr⟩ := append_spec grow hwf data
      simp only [step, hm, ok_bind, pure_eq_ok] at hu
      cases hu
      rw [ih hw h, readable, hr, appended, List.append_assoc]
    | send =>
      cases hu
      exact ih (s := s.send false) hwf h
    | exec =>
      simp only [step, exec] at hu
      split at hu
      · cases hu
        exact ih hwf h
      · rw [bind_eq_ok] at hu
        obtain ⟨data, -, hu⟩ := hu
        cases hu
        have hrest := fun hw => ih hw h
        exact hrest hwf

/-- Where nothing is asked for, the functors read nothing. -/
theorem run_cross_nothing (grow : Nat → Nat → Nat) (steps : List SenderStep) : ∀ {s : Sender},
    s.buff.buffer.Wf → (∀ v ∈ s.pending, v.len = 0) → toSend s.readable steps = [] →
      ∃ t, run (step grow false) s steps = .ok t ∧ t.handed = s.handed := by
  induction steps with
  | nil =>
    intro s _ _ _
    exact ⟨s, rfl, rfl⟩
  | cons a steps ih =>
    intro s hwf hpending hnone
    rw [run_cons]
    cases a with
    | append data =>
      obtain ⟨m, hm, hw, hr⟩ := append_spec grow hwf data
      simp only [step, hm, ok_bind, pure_eq_ok]
      refine ih (s := { s with buff := m }) hw hpending ?_
      rw [readable, hr]
      exact hnone
    | send =>
      rw [toSend, List.append_eq_nil_iff] at hnone
      obtain ⟨hempty, hnone⟩ := hnone
      refine ih (s := s.send false) hwf (fun v hv => ?_) ?_
      · rcases List.mem_append.1 hv with hv | hv
        · exact hpending v hv
        · rw [List.mem_singleton] at hv
          rw [hv]
          exact (Buffer.readable_eq_nil hwf).1 hempty
      · rw [show (s.send false).readable = [] from hempty]
        exact hnone
    | exec =>
      simp only [step, exec]
      cases hp : s.pending with
      | nil =>
        exact ih hwf hpending hnone
      | cons v pending =>
        have hv : v.len = 0 := hpending v (hp ▸ List.mem_cons_self)
        simp only [SharedBuffer.read, hv, if_true, pure_eq_ok, ok_bind, List.append_nil]
        exact ih (s := { s with pending }) hwf
          (fun w hw => hpending w (hp ▸ List.mem_cons_of_mem _ hw)) hnone

/-- **Sending from another thread.**  Take any buffer and any calls of `append` and `send` on it, with the
functors executed at any times.  The other thread hands over the same bytes and is left with the same
readable bytes as the loop thread if and only if the calls ask for no bytes at all. -/
theorem send_agrees_iff (grow : Nat → Nat → Nat) {buffer : Buffer} (hwf : buffer.Wf)
    (capacity : Nat) (steps : List SenderStep) :
    (∃ l c, run (step grow true) (start buffer capacity) steps = .ok l ∧
        run (step grow false) (start buffer capacity) steps = .ok c ∧
        c.handed = l.handed ∧ c.readable = l.readable) ↔ toSend buffer.readable steps = [] := by
  obtain ⟨l, hl, hhanded, hread⟩ := run_inLoop grow steps (s := start buffer capacity) hwf rfl
  constructor
  · rintro ⟨l', c, hl', hc, -, hsame⟩
    obtain rfl := Except.ok.inj (hl.symm.trans hl')
    have hall := run_cross_readable steps (s := start buffer capacity) hwf hc
    rw [hsame, hread, ← toSend_leftOver] at hall
    exact List.append_left_eq_self.1 hall.symm
  · intro hnone
    obtain ⟨c, hc, hquiet⟩ := run_cross_nothing grow steps (s := start buffer capacity) hwf
      (fun v hv => absurd hv List.not_mem_nil) hnone
    refine ⟨l, c, hl, hc, ?_, ?_⟩
    · rw [hquiet, hhanded, show toSend (start buffer capacity).readable steps = [] from hnone,
        List.append_nil]
    · rw [hread, run_cross_readable steps (s := start buffer capacity) hwf hc, ← toSend_leftOver,
        show toSend (start buffer capacity).readable steps = [] from hnone, List.nil_append]

/-- A send of an empty buffer, whose functor is executed after the buffer has been filled. -/
theorem send_agrees_iff_sample :
    ∃ l c, run (step (fun _ n => n) true) (start (Buffer.make 1) 9)
        [.send, .append [1, 2], .exec] = .ok l ∧
      run (step (fun _ n => n) false) (start (Buffer.make 1) 9)
        [.send, .append [1, 2], .exec] = .ok c ∧
      c.handed = l.handed ∧ c.readable = l.readable :=
  (send_agrees_iff (fun _ n => n) (Buffer.make_wf 1) 9 [.send, .append [1, 2], .exec]).2
    (by decide)

/-- **The same bytes twice, and bytes from a block that is gone.**  Two messages are appended and sent
one after the other: the second functor hands over the first message again.  Where the second message
does not fit into the vector, the functor of the first is left with a pointer into the old block. -/
theorem sent_twice_or_dangling :
    ¬ (∃ l c, run (step (fun _ n => n) true) (start (Buffer.make 8) 16)
          [.append [1], .send, .exec, .append [2], .send, .exec] = .ok l ∧
        run (step (fun _ n => n) false) (start (Buffer.make 8) 16)
          [.append [1], .send, .exec, .append [2], .send, .exec] = .ok c ∧
        c.handed = l.handed ∧ c.readable = l.readable) ∧
      (run (step (fun _ n => n) false) (start (Buffer.make 8) 16)
        [.append [1], .send, .exec, .append [2], .send, .exec]).map
          (fun c => (c.handed, c.readable)) = .ok ([1, 1, 2], [1, 2]) ∧
      run (step (fun _ n => n) false) (start (Buffer.make 1) 9)
        [.append [1], .send, .append [2], .exec] = .error .invalidAccess := by
  have hloop : (run (step (fun _ n => n) true) (start (Buffer.make 8) 16)
      [.append [1], .send, .exec, .append [2], .send, .exec]).map
        (fun l => l.handed) = .ok [1, 2] := by decide +kernel
  have hcross : (run (step (fun _ n => n) false) (start (Buffer.make 8) 16)
      [.append [1], .send, .exec, .append [2], .send, .exec]).map
        (fun c => (c.handed, c.readable)) = .ok ([1, 1, 2], [1, 2]) := by decide +kernel
  refine ⟨?_, hcross, by decide +kernel⟩
  rintro ⟨l, c, hl, hc, hhanded, -⟩
  rw [hl] at hloop
  rw [hc] at hcross
  have hl' : l.handed = [1, 2] := Except.ok.inj hloop
  have hc' : (c.handed, c.readable) = ([1, 1, 2], [1, 2]) := Except.ok.inj hcross
  rw [hl', (Prod.mk.inj hc').1] at hhanded
  cases hhanded

end Sender

end TcpConnection
