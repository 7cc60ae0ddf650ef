import TinyHttpServer.Lib.Run
import TinyHttpServer.Base.Buffer
import Mathlib.Logic.Function.Basic

/-!
# The byte buffer refines a byte string

`Wf` is the layout invariant of `Buffer`.  For each operation there is one lemma: inside the
ranges that the assertions demand, it returns (so every assertion holds and every access is in
range), keeps `Wf`, and changes the readable bytes as the operation on strings would.

`BufferOp.exec` and `BufferOp.spec` collect them over a family of buffers, so that `swap` has a
partner; `buffers_refine_strings` is the statement about whole runs.
-/

set_option autoImplicit false

open Checked Storage Machine

namespace Buffer

variable {b b' : Buffer}

/-- The layout invariant. -/
structure Wf (b : Buffer) : Prop where
  reader_le : b.readerIndex ≤ b.writerIndex
  writer_le : b.writerIndex ≤ b.buffer.length
  prefix_le : cheapPrepend ≤ b.buffer.length

theorem make_wf (initialSize : Nat) : (make initialSize).Wf :=
  ⟨Nat.le_refl _, by simp [make], by simp [make]⟩

theorem make_readable (initialSize : Nat) : (make initialSize).readable = [] := by
  simp [make, readable, slice]

theorem length_readable (hw : b.Wf) : b.readable.length = b.readAbleBytes :=
  length_slice hw.writer_le

theorem readable_eq_nil (hw : b.Wf) : b.readable = [] ↔ b.readAbleBytes = 0 := by
  rw [← List.length_eq_zero_iff, length_readable hw]

theorem getElem?_readable (b : Buffer) (k : Nat) :
    b.readable[k]? =
      if k < b.writerIndex - b.readerIndex then b.buffer[b.readerIndex + k]? else none :=
  getElem?_slice _ _ _ _

/-- Slots of the readable part followed by another string. -/
theorem getElem?_readable_append (hw : b.Wf) (data : Bytes) (k : Nat) :
    (b.readable ++ data)[k]? =
      if k < b.writerIndex - b.readerIndex then b.buffer[b.readerIndex + k]?
      else data[k - (b.writerIndex - b.readerIndex)]? := by
  have hl : b.readable.length = b.writerIndex - b.readerIndex := length_readable hw
  rw [List.getElem?_append, hl, getElem?_readable]
  split <;> rfl

/-! ## Retrieving -/

theorem retrieveAll_wf (hw : b.Wf) : b.retrieveAll.Wf := ⟨Nat.le_refl _, hw.prefix_le, hw.prefix_le⟩

@[simp] theorem retrieveAll_readable (b : Buffer) : b.retrieveAll.readable = [] := by
  simp [retrieveAll, readable, slice]

theorem retrieve_spec (hw : b.Wf) {len : Nat} (hlen : len ≤ b.readAbleBytes) :
    ∃ b', b.retrieve len = .ok b' ∧ b'.Wf ∧ b'.readable = b.readable.drop len := by
  unfold retrieve
  rw [require_of hlen, ok_bind]
  split
  · rename_i hlt
    have hr := hw.reader_le
    unfold readAbleBytes at hlt
    refine ⟨_, rfl, ⟨?_, hw.writer_le, hw.prefix_le⟩, ?_⟩
    · show b.readerIndex + len ≤ b.writerIndex
      omega
    · unfold readable slice
      simp only
      rw [List.drop_take, List.drop_drop, Nat.sub_sub]
  · refine ⟨_, rfl, retrieveAll_wf hw, ?_⟩
    rw [retrieveAll_readable, List.drop_eq_nil_of_le (by rw [length_readable hw]; omega)]

theorem retrieveUnitil_spec (hw : b.Wf) {n : Nat} (hn : n ≤ b.readAbleBytes) :
    ∃ b', b.retrieveUnitil (b.readerIndex + n) = .ok b' ∧ b'.Wf ∧
      b'.readable = b.readable.drop n := by
  have hr := hw.reader_le
  unfold retrieveUnitil
  rw [require_of (by omega), ok_bind, require_of (by unfold readAbleBytes at hn; omega), ok_bind,
    Nat.add_sub_cancel_left]
  exact retrieve_spec hw hn

theorem retrieveString_spec (hw : b.Wf) {len : Nat} (hlen : len ≤ b.readAbleBytes) :
    ∃ b', b.retrieveString len = .ok (b', b.readable.take len) ∧ b'.Wf ∧
      b'.readable = b.readable.drop len := by
  obtain ⟨b', he, hw', hr⟩ := retrieve_spec hw hlen
  refine ⟨b', ?_, hw', hr⟩
  unfold retrieveString
  simp only [require_of hlen, ok_bind, he]
  unfold readable slice readAbleBytes at *
  rw [List.take_take, Nat.min_eq_left hlen, Nat.add_sub_cancel_left]
  rfl

theorem retrieveAllString_spec (hw : b.Wf) :
    ∃ b', b.retrieveAllString = .ok (b', b.readable) ∧ b'.Wf ∧ b'.readable = [] := by
  obtain ⟨b', he, hw', hr⟩ := retrieveString_spec hw (Nat.le_refl b.readAbleBytes)
  refine ⟨b', ?_, hw', ?_⟩
  · rw [retrieveAllString, he, List.take_of_length_le (Nat.le_of_eq (length_readable hw))]
  · rw [hr, List.drop_eq_nil_of_le (Nat.le_of_eq (length_readable hw))]

/-! ## Making room -/

theorem resize_spec (hw : b.Wf) {n : Nat} (hn : b.buffer.length ≤ n) :
    (b.resize n).Wf ∧ (b.resize n).buffer.length = n ∧ (b.resize n).readable = b.readable := by
  have hlen : (b.resize n).buffer.length = n := by
    simp only [resize, List.length_append, List.length_take, List.length_replicate]
    omega
  have h1 := hw.writer_le
  have h2 := hw.prefix_le
  have h3 := hw.reader_le
  refine ⟨⟨hw.reader_le, by rw [hlen]; show b.writerIndex ≤ n; omega, by rw [hlen]; omega⟩,
    hlen, ?_⟩
  apply List.ext_getElem?
  intro k
  rw [getElem?_readable, getElem?_readable]
  show (if k < b.writerIndex - b.readerIndex then
    (b.buffer.take n ++ List.replicate (n - b.buffer.length) 0)[b.readerIndex + k]? else none) = _
  by_cases hk : k < b.writerIndex - b.readerIndex
  · rw [if_pos hk, if_pos hk, List.take_of_length_le hn, List.getElem?_append_left (by omega)]
  · rw [if_neg hk, if_neg hk]

/-- Both branches of `makespace` leave room for `len` bytes; the assertion on the reader index
holds because the space that is missing behind the writer is there in front of the reader. -/
theorem makespace_spec (hw : b.Wf) {len : Nat} (hlen : b.writeAbleBytes < len) :
    ∃ b', b.makespace len = .ok b' ∧ b'.Wf ∧ b'.readable = b.readable ∧
      len ≤ b'.writeAbleBytes := by
  have h1 := hw.reader_le
  have h2 := hw.writer_le
  have h3 := hw.prefix_le
  unfold makespace
  split
  · -- growth
    unfold writeAbleBytes at hlen
    obtain ⟨hw', hl, hr⟩ := resize_spec hw (n := b.writerIndex + len) (by omega)
    refine ⟨_, rfl, hw', hr, ?_⟩
    show len ≤ (b.resize (b.writerIndex + len)).buffer.length - b.writerIndex
    omega
  · -- compaction
    rename_i hge
    unfold writeAbleBytes prependAbleBytes at *
    have hres : cheapPrepend < b.readerIndex := by omega
    obtain ⟨ys, he, hl, hget⟩ := getElem?_moveDown (b.writerIndex - b.readerIndex) b.buffer
      b.readerIndex cheapPrepend (by omega) (by omega)
    refine ⟨⟨ys, cheapPrepend, cheapPrepend + b.readAbleBytes⟩, ?_, ?_, ?_, ?_⟩
    · rw [require_of hres, ok_bind, he, ok_bind]
      simp only
      rw [require_of (by simp [readAbleBytes])]
      rfl
    · refine ⟨?_, ?_, ?_⟩ <;> simp only [hl, readAbleBytes] <;> omega
    · apply List.ext_getElem?
      intro k
      rw [getElem?_readable, getElem?_readable]
      simp only [readAbleBytes, Nat.add_sub_cancel_left, hget]
      by_cases hk : k < b.writerIndex - b.readerIndex
      · rw [if_pos hk, if_pos hk, if_pos (by omega)]
        congr 1
        omega
      · rw [if_neg hk, if_neg hk]
    · simp only [hl, readAbleBytes]
      omega

theorem ensure_spec (hw : b.Wf) (len : Nat) :
    ∃ b', b.ensure len = .ok b' ∧ b'.Wf ∧ b'.readable = b.readable ∧
      len ≤ b'.writeAbleBytes := by
  unfold ensure
  split
  · rename_i hlt; exact makespace_spec hw hlt
  · rename_i hge; exact ⟨b, rfl, hw, rfl, by omega⟩

/-! ## Adding bytes -/

/-- Storing `data` behind the writer and moving the writer over it. -/
theorem written_spec (hw : b.Wf) {data : Bytes} (hlen : data.length ≤ b.writeAbleBytes) :
    (hasWritten { b with buffer := writeAt b.buffer b.writerIndex data } data.length).Wf ∧
      (hasWritten { b with buffer := writeAt b.buffer b.writerIndex data } data.length).readable =
        b.readable ++ data := by
  have h1 := hw.reader_le
  have h2 := hw.writer_le
  have h3 := hw.prefix_le
  unfold writeAbleBytes at hlen
  refine ⟨⟨?_, ?_, ?_⟩, ?_⟩
  · simp only [hasWritten]; omega
  · simp only [hasWritten, length_writeAt]; omega
  · simpa only [hasWritten, length_writeAt] using h3
  · apply List.ext_getElem?
    intro k
    rw [getElem?_readable_append hw, getElem?_readable]
    simp only [hasWritten, getElem?_writeAt (show
      b.writerIndex + data.length ≤ b.buffer.length by omega)]
    by_cases hk : k < b.writerIndex - b.readerIndex
    · rw [if_pos (by omega), if_neg (by omega), if_pos hk]
    · rw [if_neg hk]
      by_cases hk2 : k < b.writerIndex + data.length - b.readerIndex
      · rw [if_pos hk2, if_pos (by omega)]
        congr 1
        omega
      · rw [if_neg hk2, List.getElem?_eq_none (by omega)]

theorem append_spec (hw : b.Wf) (data : Bytes) :
    ∃ b', b.append data = .ok b' ∧ b'.Wf ∧ b'.readable = b.readable ++ data := by
  obtain ⟨b₁, he, hw₁, hr, hroom⟩ := ensure_spec hw data.length
  obtain ⟨hw', hr'⟩ := written_spec hw₁ hroom
  have h2 := hw₁.writer_le
  refine ⟨_, ?_, hw', by rw [hr', hr]⟩
  unfold append
  rw [he, ok_bind, store_of_le (by unfold writeAbleBytes at hroom; omega)]
  rfl

/-- Every byte string is what some buffer holds. -/
theorem exists_readable (bytes : Bytes) : ∃ b : Buffer, b.Wf ∧ b.readable = bytes := by
  obtain ⟨b, -, hw, hr⟩ := append_spec (make_wf initialSizeDefault) bytes
  exact ⟨b, hw, by rw [hr, make_readable, List.nil_append]⟩

theorem prepend_spec (hw : b.Wf) {data : Bytes} {len : Nat} (hd : len ≤ data.length)
    (hp : len ≤ b.prependAbleBytes) :
    ∃ b', b.prepend data len = .ok b' ∧ b'.Wf ∧ b'.readable = data.take len ++ b.readable := by
  have h1 := hw.reader_le
  have h2 := hw.writer_le
  have hl : (data.take len).length = len := by rw [List.length_take]; omega
  have hroom : b.readerIndex - len + (data.take len).length ≤ b.buffer.length := by
    unfold prependAbleBytes at hp; omega
  unfold prepend
  rw [require_of hp, ok_bind]
  simp only
  rw [if_neg (by omega), store_of_le hroom]
  unfold prependAbleBytes at hp
  refine ⟨_, rfl, ⟨?_, ?_, ?_⟩, ?_⟩
  · simp only; omega
  · simpa only [length_writeAt] using h2
  · simpa only [length_writeAt] using hw.prefix_le
  · apply List.ext_getElem?
    intro k
    rw [List.getElem?_append, hl, getElem?_readable, getElem?_readable]
    simp only [getElem?_writeAt hroom, hl]
    by_cases hk : k < len
    · rw [if_pos (by omega), if_pos (by omega), if_pos hk]
      congr 1
      omega
    · rw [if_neg hk]
      by_cases hk2 : k - len < b.writerIndex - b.readerIndex
      · rw [if_pos (by omega), if_neg (by omega), if_pos hk2]
        congr 1
        omega
      · rw [if_neg (by omega), if_neg hk2]

/-- `read_fd` appends the bytes read, also those that went through `extrabuf`. -/
theorem readFd_spec (hw : b.Wf) (res : ReadResult) :
    ∃ b', b.readFd res = .ok b' ∧ b'.Wf ∧
      b'.readable = b.readable ++ (match res with | .data bytes => bytes | .error _ => []) := by
  cases res with
  | error errno => exact ⟨b, rfl, hw, by simp⟩
  | data bytes =>
    have h2 := hw.writer_le
    have hroom : (bytes.take b.writeAbleBytes).length ≤ b.writeAbleBytes := by
      rw [List.length_take]; omega
    obtain ⟨hw', hr'⟩ := written_spec hw hroom
    unfold readFd
    simp only
    rw [store_of_le (by unfold writeAbleBytes at hroom ⊢; omega), ok_bind]
    split
    · rename_i hle
      rw [List.take_of_length_le hle] at hw' hr' ⊢
      exact ⟨_, rfl, hw', hr'⟩
    · rename_i hgt
      have hfull : (bytes.take b.writeAbleBytes).length = b.writeAbleBytes := by
        rw [List.length_take]; omega
      have hend : b.writerIndex + b.writeAbleBytes = b.buffer.length := by
        unfold writeAbleBytes; omega
      simp only [hasWritten, hfull, hend] at hw' hr'
      obtain ⟨b', he, hw'', hr''⟩ := append_spec hw' (bytes.drop b.writeAbleBytes)
      refine ⟨b', ?_, hw'', ?_⟩
      · rw [← he]
        simp only [length_writeAt]
      · rw [hr'', hr', List.append_assoc, List.take_append_drop]

theorem writeFd_spec (hw : b.Wf) (res : WriteResult)
    (hres : ∀ n, res = .wrote n → n ≤ b.readAbleBytes) :
    (b.writeFd res).Wf ∧ (b.writeFd res).readable =
      b.readable.drop (match res with | .wrote n => n | .error _ => 0) := by
  cases res with
  | error errno => exact ⟨hw, by simp [writeFd]⟩
  | wrote n =>
    have hn := hres n rfl
    have h1 := hw.reader_le
    unfold readAbleBytes at hn
    refine ⟨⟨?_, hw.writer_le, hw.prefix_le⟩, ?_⟩
    · show b.readerIndex + n ≤ b.writerIndex
      omega
    · unfold readable slice writeFd
      simp only
      rw [List.drop_take, List.drop_drop, Nat.sub_sub]

/-! ## Operations and their meaning -/

/-- The operations on one buffer.  The argument of `retrieveUnitil` is the distance of the
pointer from `peek()`. -/
inductive BufferOp where
  | append (data : Bytes)
  | prepend (data : Bytes) (len : Nat)
  | retrieve (len : Nat)
  | retrieveUnitil (n : Nat)
  | retrieveString (len : Nat)
  | retrieveAllString
  | retrieveAll
  | ensure (len : Nat)
  | shrink
  | readFd (res : ReadResult)
  | writeFd (res : WriteResult)

namespace BufferOp

/-- Execution; the second component is the string returned, if any. -/
def exec (b : Buffer) : BufferOp → Checked (Buffer × Bytes)
  | .append data => do return (← b.append data, [])
  | .prepend data len => do return (← b.prepend data len, [])
  | .retrieve len => do return (← b.retrieve len, [])
  | .retrieveUnitil n => do return (← b.retrieveUnitil (b.readerIndex + n), [])
  | .retrieveString len => b.retrieveString len
  | .retrieveAllString => b.retrieveAllString
  | .retrieveAll => return (b.retrieveAll, [])
  | .ensure len => do return (← b.ensure len, [])
  | .shrink => return (b.shrink, [])
  | .readFd res => do return (← b.readFd res, [])
  | .writeFd res => return (b.writeFd res, [])

/-- The ranges demanded by the assertions, and the results the kernel can give. -/
def Admissible (b : Buffer) : BufferOp → Prop
  | .append _ => True
  | .prepend data len => len ≤ data.length ∧ len ≤ b.prependAbleBytes
  | .retrieve len => len ≤ b.readAbleBytes
  | .retrieveUnitil n => n ≤ b.readAbleBytes
  | .retrieveString len => len ≤ b.readAbleBytes
  | .retrieveAllString => True
  | .retrieveAll => True
  | .ensure _ => True
  | .shrink => True
  | .readFd (.data bytes) => bytes.length ≤ b.writeAbleBytes + extrabufSize
  | .readFd (.error _) => True
  | .writeFd (.wrote n) => n ≤ b.readAbleBytes
  | .writeFd (.error _) => True

instance (b : Buffer) (op : BufferOp) : Decidable (op.Admissible b) := by
  unfold Admissible; split <;> infer_instance

/-- The meaning of an operation on the byte string. -/
def spec (str : Bytes) : BufferOp → Bytes × Bytes
  | .append data => (str ++ data, [])
  | .prepend data len => (data.take len ++ str, [])
  | .retrieve len => (str.drop len, [])
  | .retrieveUnitil n => (str.drop n, [])
  | .retrieveString len => (str.drop len, str.take len)
  | .retrieveAllString => ([], str)
  | .retrieveAll => ([], [])
  | .ensure _ => (str, [])
  | .shrink => (str, [])
  | .readFd (.data bytes) => (str ++ bytes, [])
  | .readFd (.error _) => (str, [])
  | .writeFd (.wrote n) => (str.drop n, [])
  | .writeFd (.error _) => (str, [])

/-- **One operation on one buffer.** -/
theorem exec_refines (hw : b.Wf) (op : BufferOp) (hadm : op.Admissible b) :
    ∃ b' out, op.exec b = .ok (b', out) ∧ b'.Wf ∧ (b'.readable, out) = op.spec b.readable := by
  cases op with
  | append data =>
    obtain ⟨b', he, hw', hr⟩ := append_spec hw data
    exact ⟨b', [], by simp [exec, he], hw', by rw [hr]; rfl⟩
  | prepend data len =>
    obtain ⟨b', he, hw', hr⟩ := prepend_spec hw hadm.1 hadm.2
    exact ⟨b', [], by simp [exec, he], hw', by rw [hr]; rfl⟩
  | retrieve len =>
    obtain ⟨b', he, hw', hr⟩ := retrieve_spec hw hadm
    exact ⟨b', [], by simp [exec, he], hw', by rw [hr]; rfl⟩
  | retrieveUnitil n =>
    obtain ⟨b', he, hw', hr⟩ := retrieveUnitil_spec hw hadm
    exact ⟨b', [], by simp [exec, he], hw', by rw [hr]; rfl⟩
  | retrieveString len =>
    obtain ⟨b', he, hw', hr⟩ := retrieveString_spec hw hadm
    exact ⟨b', _, he, hw', by rw [hr]; rfl⟩
  | retrieveAllString =>
    obtain ⟨b', he, hw', hr⟩ := retrieveAllString_spec hw
    exact ⟨b', _, he, hw', by rw [hr]; rfl⟩
  | retrieveAll =>
    exact ⟨b.retrieveAll, [], rfl, retrieveAll_wf hw, by rw [retrieveAll_readable]; rfl⟩
  | ensure len =>
    obtain ⟨b', he, hw', hr, _⟩ := ensure_spec hw len
    exact ⟨b', [], by simp [exec, he], hw', by rw [hr]; rfl⟩
  | shrink => exact ⟨b, [], rfl, hw, rfl⟩
  | readFd res =>
    obtain ⟨b', he, hw', hr⟩ := readFd_spec hw res
    refine ⟨b', [], by simp [exec, he], hw', ?_⟩
    rw [hr]
    cases res <;> simp [spec]
  | writeFd res =>
    obtain ⟨hw', hr⟩ := writeFd_spec hw res (by rintro n rfl; exact hadm)
    refine ⟨b.writeFd res, [], rfl, hw', ?_⟩
    rw [hr]
    cases res <;> simp [spec]

end BufferOp

/-- Operations on a family of buffers. -/
inductive FamilyOp where
  | on (i : Nat) (op : BufferOp)
  | swap (i j : Nat)

namespace FamilyOp

def exec (bs : Nat → Buffer) : FamilyOp → Checked ((Nat → Buffer) × Bytes)
  | .on i op => do
    let (b, out) ← op.exec (bs i)
    return (Function.update bs i b, out)
  | .swap i j =>
    let (b, rhs) := (bs i).swap (bs j)
    return (Function.update (Function.update bs i b) j rhs, [])

def step (bs : Nat → Buffer) (op : FamilyOp) : Checked (Nat → Buffer) := do
  let (bs, _) ← op.exec bs
  return bs

def Admissible (bs : Nat → Buffer) : FamilyOp → Prop
  | .on i op => op.Admissible (bs i)
  | .swap _ _ => True

instance (bs : Nat → Buffer) (op : FamilyOp) : Decidable (op.Admissible bs) := by
  cases op <;> unfold Admissible <;> infer_instance

def spec (strs : Nat → Bytes) : FamilyOp → (Nat → Bytes) × Bytes
  | .on i op => (Function.update strs i (op.spec (strs i)).1, (op.spec (strs i)).2)
  | .swap i j => (Function.update (Function.update strs i (strs j)) j (strs i), [])

/-- **One operation on the family.** -/
theorem exec_refines {bs : Nat → Buffer} (hw : ∀ i, (bs i).Wf) (op : FamilyOp)
    (hadm : op.Admissible bs) :
    ∃ bs' out, op.exec bs = .ok (bs', out) ∧ (∀ i, (bs' i).Wf) ∧
      ((fun i => (bs' i).readable), out) = op.spec fun i => (bs i).readable := by
  have hupd : ∀ (cs : Nat → Buffer) (i : Nat) (c : Buffer),
      (fun k => (Function.update cs i c k).readable) =
        Function.update (fun k => (cs k).readable) i c.readable := by
    intro cs i c
    funext k
    by_cases hk : k = i
    · subst hk; simp
    · simp [hk]
  have hwf : ∀ (cs : Nat → Buffer) (i : Nat) (c : Buffer), (∀ k, (cs k).Wf) → c.Wf →
      ∀ k, (Function.update cs i c k).Wf := by
    intro cs i c hcs hc k
    by_cases hk : k = i
    · subst hk; simpa using hc
    · simpa [hk] using hcs k
  cases op with
  | on i op =>
    obtain ⟨b', out, he, hw', hspec⟩ := BufferOp.exec_refines (hw i) op hadm
    refine ⟨Function.update bs i b', out, by simp [exec, he], hwf bs i b' hw hw', ?_⟩
    rw [hupd, spec, ← hspec]
  | swap i j =>
    refine ⟨_, [], rfl, hwf _ _ _ (hwf bs i _ hw (hw j)) (hw i), ?_⟩
    rw [hupd, hupd]
    rfl

end FamilyOp

/-- **Every run.**  From freshly constructed buffers, every admissible sequence of operations
returns, so that no assertion fails; the indices stay ordered, the readable bytes are those of
the specification strings, and so is the string that the next operation returns. -/
theorem buffers_refine_strings (sizes : Nat → Nat) (ops : List FamilyOp)
    (hops : Allowed (fun bs op => FamilyOp.step bs op) (fun bs op => op.Admissible bs)
      (fun i => make (sizes i)) ops) :
    ∃ bs, run (fun bs op => FamilyOp.step bs op) (fun i => make (sizes i)) ops = .ok bs ∧
      (∀ i, (bs i).readerIndex ≤ (bs i).writerIndex ∧
        (bs i).writerIndex ≤ (bs i).buffer.length) ∧
      (fun i => (bs i).readable) = ops.foldl (fun strs op => (op.spec strs).1) (fun _ => []) ∧
      ∀ op : FamilyOp, op.Admissible bs →
        ∃ bs' out, op.exec bs = .ok (bs', out) ∧
          out = (op.spec fun i => (bs i).readable).2 := by
  obtain ⟨bs, he, hw, hr⟩ := run_refines (fun bs : Nat → Buffer => ∀ i, (bs i).Wf)
    (fun bs i => (bs i).readable) (fun strs op => (FamilyOp.spec strs op).1)
    (fun bs op hw hadm => by
      obtain ⟨bs', out, he, hw', hspec⟩ := FamilyOp.exec_refines hw op hadm
      exact ⟨bs', by simp [FamilyOp.step, he], hw', by rw [← hspec]⟩)
    ops (fun i => make (sizes i)) (fun i => make_wf (sizes i)) hops
  refine ⟨bs, he, fun i => ⟨(hw i).reader_le, (hw i).writer_le⟩, ?_, fun op hadm => ?_⟩
  · rw [hr, show (fun i => (make (sizes i)).readable) = fun _ => [] from
      funext fun i => make_readable (sizes i)]
  · obtain ⟨bs', out, he', _, hspec⟩ := FamilyOp.exec_refines hw op hadm
    exact ⟨bs', out, he', by rw [← hspec]⟩

/-- A run on two small buffers that grows, compacts, prepends, spills and swaps. -/
def sampleOps : List FamilyOp :=
  [.on 0 (.append [1, 2, 3]), .on 0 (.retrieve 2), .on 0 (.append [4, 5]),
    .on 0 (.prepend [9, 9] 2), .on 0 (.readFd (.data [6, 7, 8])), .on 1 (.append [10]),
    .swap 0 1, .on 1 (.writeFd (.wrote 3)), .on 1 (.retrieveString 2), .on 1 .retrieveAllString]

theorem buffers_refine_strings_sample :
    Allowed (fun bs op => FamilyOp.step bs op) (fun bs op => op.Admissible bs)
        (fun _ => make 4) sampleOps ∧
      ∃ bs, run (fun bs op => FamilyOp.step bs op) (fun _ => make 4) sampleOps = .ok bs ∧
        (fun i => (bs i).readable) =
          sampleOps.foldl (fun strs op => (op.spec strs).1) (fun _ => []) := by
  have hops : Allowed (fun bs op => FamilyOp.step bs op) (fun bs op => op.Admissible bs)
      (fun _ => make 4) sampleOps := by decide +kernel
  obtain ⟨bs, he, _, hr, _⟩ := buffers_refine_strings (fun _ => 4) sampleOps hops
  exact ⟨hops, bs, he, hr⟩

end Buffer
