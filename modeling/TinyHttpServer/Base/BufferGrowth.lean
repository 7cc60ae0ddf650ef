import TinyHttpServer.Base.BufferString
import Mathlib.Data.List.MinMax
import Mathlib.Order.Nat

/-!
# How far the byte buffer grows

`makespace` slides the readable bytes to the front if that makes enough room, and enlarges the
vector otherwise.  It is called when the tail is too short, and enlarges the vector only when the
tail and the consumed prefix together are too short for `len` bytes behind `cheap_prepend`.  The
consumed prefix, which the enlarged vector keeps, is therefore at most `len + 7` bytes long.

* `ensure_growth` — the two guards, put together.
* `run_growth` — the size along a run of all operations.
* `growth_bounded` — the statement about `ensure` and about runs of `append` and of the `retrieve`
  operations.

The sums are sums of natural numbers, which is what the code computes as long as no `size_t`
overflows.
-/

set_option autoImplicit false

open Checked Storage Machine

namespace Buffer

variable {b b' : Buffer}

/-- The size up to which a request for `len` bytes can enlarge the vector. -/
def growthBound (b : Buffer) (len : Nat) : Nat := b.readAbleBytes + 2 * len + 7

/-! ## One request -/

theorem length_resize (b : Buffer) {n : Nat} (hn : b.buffer.length ≤ n) :
    (b.resize n).buffer.length = n := by
  simp only [resize, List.length_append, List.length_take, List.length_replicate]
  omega

/-- `makespace` slides and leaves the size as it is, or enlarges the vector to `writer_index_ + len`
bytes, when the free bytes do not suffice. -/
theorem makespace_length (hw : b.Wf) {len : Nat} (hlen : b.writeAbleBytes < len)
    (he : b.makespace len = .ok b') :
    b'.buffer.length = b.buffer.length ∨
      (b.writeAbleBytes + b.prependAbleBytes < len + cheapPrepend ∧
        b'.buffer.length = b.writerIndex + len) := by
  have h2 := hw.writer_le
  unfold makespace at he
  split at he
  · rename_i hlt
    cases he
    right
    refine ⟨hlt, length_resize b ?_⟩
    unfold writeAbleBytes at hlen
    omega
  · left
    obtain ⟨-, -, he⟩ := bind_eq_ok.1 he
    obtain ⟨ys, hmove, he⟩ := bind_eq_ok.1 he
    obtain ⟨-, -, he⟩ := bind_eq_ok.1 he
    cases he
    exact length_moveDown _ hmove

/-- **One request.**  The vector is enlarged only if the readable bytes, the request and the prefix
do not fit into it. -/
theorem ensure_growth (hw : b.Wf) {len : Nat} (he : b.ensure len = .ok b') :
    b'.buffer.length = b.buffer.length ∨
      (b.buffer.length < b.readAbleBytes + len + 8 ∧ b'.buffer.length ≤ b.growthBound len) := by
  have h1 := hw.reader_le
  have h2 := hw.writer_le
  unfold ensure at he
  split at he
  · rename_i hlt
    rcases makespace_length hw hlt he with hl | ⟨hguard, hl⟩
    · exact Or.inl hl
    · right
      unfold writeAbleBytes prependAbleBytes cheapPrepend at hguard
      unfold growthBound readAbleBytes
      constructor <;> omega
  · cases he
    exact Or.inl rfl

theorem ensure_length_ge (hw : b.Wf) {len : Nat} (he : b.ensure len = .ok b') :
    b.buffer.length ≤ b'.buffer.length := by
  unfold ensure at he
  split at he
  · rename_i hlt
    rcases makespace_length hw hlt he with hl | ⟨-, hl⟩
    · omega
    · unfold writeAbleBytes at hlt
      omega
  · cases he
    exact Nat.le_refl _

theorem ensure_length_le (hw : b.Wf) {len : Nat} (he : b.ensure len = .ok b') :
    b'.buffer.length ≤ max b.buffer.length (b.growthBound len) := by
  rcases ensure_growth hw he with hl | ⟨-, hl⟩ <;> omega

/-! ## One operation -/

theorem retrieve_buffer {len : Nat} (he : b.retrieve len = .ok b') : b'.buffer = b.buffer := by
  unfold retrieve at he
  obtain ⟨-, -, he⟩ := bind_eq_ok.1 he
  split at he <;> cases he <;> rfl

theorem retrieveString_buffer {len : Nat} {out : Bytes}
    (he : b.retrieveString len = .ok (b', out)) : b'.buffer = b.buffer := by
  unfold retrieveString at he
  obtain ⟨-, -, he⟩ := bind_eq_ok.1 he
  obtain ⟨b₁, hret, he⟩ := bind_eq_ok.1 he
  cases he
  exact retrieve_buffer hret

theorem retrieveUnitil_buffer {n : Nat} (he : b.retrieveUnitil n = .ok b') :
    b'.buffer = b.buffer := by
  unfold retrieveUnitil at he
  obtain ⟨-, -, he⟩ := bind_eq_ok.1 he
  obtain ⟨-, -, he⟩ := bind_eq_ok.1 he
  exact retrieve_buffer he

theorem prepend_length {data : Bytes} {len : Nat} (he : b.prepend data len = .ok b') :
    b'.buffer.length = b.buffer.length := by
  unfold prepend at he
  obtain ⟨-, -, he⟩ := bind_eq_ok.1 he
  simp only at he
  split at he
  · cases he
  · obtain ⟨ys, hstore, he⟩ := bind_eq_ok.1 he
    cases he
    exact length_store hstore

/-- Only the `ensure` in `append` changes the size. -/
theorem append_length_le (hw : b.Wf) {data : Bytes} (he : b.append data = .ok b') :
    b'.buffer.length ≤ max b.buffer.length (b.growthBound data.length) := by
  unfold append at he
  obtain ⟨b₁, hens, he⟩ := bind_eq_ok.1 he
  obtain ⟨ys, hstore, he⟩ := bind_eq_ok.1 he
  cases he
  have hl := length_store hstore
  have hle := ensure_length_le hw hens
  simp only [hasWritten]
  omega

/-- The bytes that went through `extrabuf` are appended behind a full vector, whose tail counts
towards the room already. -/
theorem readFd_length_le (hw : b.Wf) {bytes : Bytes} (he : b.readFd (.data bytes) = .ok b') :
    b'.buffer.length ≤ max b.buffer.length (b.growthBound bytes.length) := by
  have h1 := hw.reader_le
  have h2 := hw.writer_le
  unfold readFd at he
  obtain ⟨ys, hstore, he⟩ := bind_eq_ok.1 he
  have hl := length_store hstore
  simp only at he
  split at he
  · cases he
    simp only [hasWritten]
    omega
  · rename_i hgt
    have hfull : ({ b with buffer := ys, writerIndex := ys.length } : Buffer).Wf :=
      ⟨by simp only; omega, Nat.le_refl _, by simp only [hl]; exact hw.prefix_le⟩
    have hle := append_length_le hfull he
    unfold growthBound readAbleBytes writeAbleBytes at *
    simp only [List.length_drop] at hle
    omega

namespace BufferOp

/-- One operation of a run. -/
def step (b : Buffer) (op : BufferOp) : Checked Buffer := do
  let (b, _) ← op.exec b
  return b

/-- The bound that an operation which asks for room sets to the size. -/
def growthBounds (b : Buffer) : BufferOp → List Nat
  | .append data => [b.growthBound data.length]
  | .ensure len => [b.growthBound len]
  | .readFd (.data bytes) => [b.growthBound bytes.length]
  | _ => []

/-- The operation is `append` or one of the `retrieve` operations. -/
def AppendsOrRetrieves : BufferOp → Prop
  | .append _ | .retrieve _ | .retrieveUnitil _ | .retrieveString _ | .retrieveAllString
  | .retrieveAll => True
  | _ => False

theorem step_eq_ok {op : BufferOp} : op.step b = .ok b' ↔ ∃ out, op.exec b = .ok (b', out) := by
  unfold step
  constructor
  · intro he
    obtain ⟨⟨b₁, out⟩, hexec, he⟩ := bind_eq_ok.1 he
    cases he
    exact ⟨out, hexec⟩
  · rintro ⟨out, hexec⟩
    rw [hexec]
    rfl

/-- **One operation.** -/
theorem exec_length_le (hw : b.Wf) {op : BufferOp} {out : Bytes} (he : op.exec b = .ok (b', out)) :
    b'.buffer.length ≤ max b.buffer.length ((op.growthBounds b).foldr max 0) := by
  cases op with
  | append data =>
    obtain ⟨b₁, happ, he⟩ := bind_eq_ok.1 he
    cases he
    have := append_length_le hw happ
    simp only [growthBounds, List.foldr]
    omega
  | prepend data len =>
    obtain ⟨b₁, hpre, he⟩ := bind_eq_ok.1 he
    cases he
    rw [prepend_length hpre]
    exact Nat.le_max_left _ _
  | retrieve len =>
    obtain ⟨b₁, hret, he⟩ := bind_eq_ok.1 he
    cases he
    rw [retrieve_buffer hret]
    exact Nat.le_max_left _ _
  | retrieveUnitil n =>
    obtain ⟨b₁, hret, he⟩ := bind_eq_ok.1 he
    cases he
    rw [retrieveUnitil_buffer hret]
    exact Nat.le_max_left _ _
  | retrieveString len | retrieveAllString =>
    rw [retrieveString_buffer he]
    exact Nat.le_max_left _ _
  | retrieveAll | shrink =>
    cases he
    exact Nat.le_max_left _ _
  | ensure len =>
    obtain ⟨b₁, hens, he⟩ := bind_eq_ok.1 he
    cases he
    have := ensure_length_le hw hens
    simp only [growthBounds, List.foldr]
    omega
  | readFd res =>
    obtain ⟨b₁, hread, he⟩ := bind_eq_ok.1 he
    cases he
    cases res with
    | error errno =>
      cases hread
      exact Nat.le_max_left _ _
    | data bytes =>
      have := readFd_length_le hw hread
      simp only [growthBounds, List.foldr]
      omega
  | writeFd res =>
    cases he
    cases res <;> exact Nat.le_max_left _ _

/-- `append` and the `retrieve` operations return only inside the ranges their assertions demand. -/
theorem admissible_of_step {op : BufferOp} (hop : op.AppendsOrRetrieves)
    (he : op.step b = .ok b') : op.Admissible b := by
  obtain ⟨out, he⟩ := step_eq_ok.1 he
  cases op with
  | append data => trivial
  | retrieve len =>
    obtain ⟨b₁, hret, -⟩ := bind_eq_ok.1 he
    obtain ⟨_, hreq, -⟩ := bind_eq_ok.1 hret
    exact require_eq_ok.1 hreq
  | retrieveUnitil n =>
    obtain ⟨b₁, hunt, -⟩ := bind_eq_ok.1 he
    obtain ⟨-, -, hunt⟩ := bind_eq_ok.1 hunt
    obtain ⟨-, -, hret⟩ := bind_eq_ok.1 hunt
    obtain ⟨_, hreq, -⟩ := bind_eq_ok.1 hret
    have := require_eq_ok.1 hreq
    rwa [Nat.add_sub_cancel_left] at this
  | retrieveString len =>
    obtain ⟨_, hreq, -⟩ := bind_eq_ok.1 he
    exact require_eq_ok.1 hreq
  | retrieveAllString | retrieveAll => trivial
  | prepend data len | ensure len | shrink | readFd res | writeFd res => exact hop.elim

end BufferOp

/-! ## Runs -/

/-- The bounds that the operations of a run set to the size, each in its own state. -/
def growthBounds (b : Buffer) (ops : List BufferOp) : List Nat :=
  outputs BufferOp.step BufferOp.growthBounds b ops

/-- **The size along a run** of all operations is at most the size at its start or one of the bounds
set on the way. -/
theorem run_growth (hw : b.Wf) {ops : List BufferOp}
    (hal : Allowed BufferOp.step BufferOp.Admissible b ops)
    (he : run BufferOp.step b ops = .ok b') :
    b'.buffer.length ≤ max b.buffer.length ((b.growthBounds ops).foldr max 0) := by
  generalize hsize : max b.buffer.length ((b.growthBounds ops).foldr max 0) = size
  have hbounds : ∀ c ∈ b.growthBounds ops, c ≤ size := fun c hc => by
    have := List.le_max_of_le' 0 hc (Nat.le_refl c)
    omega
  have hstep : ∀ (s : Buffer) (op : BufferOp) (t : Buffer), (s.Wf ∧ s.buffer.length ≤ size) →
      (op.Admissible s ∧ ∀ c ∈ op.growthBounds s, c ≤ size) → op.step s = .ok t →
      t.Wf ∧ t.buffer.length ≤ size := by
    rintro s op t ⟨hs, hle⟩ ⟨hadm, hroom⟩ ht
    obtain ⟨out, hexec⟩ := BufferOp.step_eq_ok.1 ht
    obtain ⟨t', out', hexec', hwt, -⟩ := BufferOp.exec_refines hs op hadm
    rw [hexec] at hexec'
    cases hexec'
    have hgrow := BufferOp.exec_length_le hs hexec
    have hset : (op.growthBounds s).foldr max 0 ≤ size := List.max_le_of_forall_le _ size hroom
    exact ⟨hwt, by omega⟩
  exact (run_safe hstep ops b b' ⟨hw, by omega⟩ (hal.and (Allowed.of_outputs hbounds)) he).2

/-- **Growth is bounded.**  `ensure(len)` returns with `len` writable bytes; it never makes the
vector smaller, enlarges it only if the readable bytes, `len` and `cheap_prepend` exceed its size, and
then to at most `read_able_bytes() + 2 * len + 7`.  Along every run of `append` and of the `retrieve`
operations the size is at most the larger of the size at the start and the bounds of the appends. -/
theorem growth_bounded (b : Buffer) (hw : b.Wf) :
    (∀ len, ∃ b', b.ensure len = .ok b' ∧ len ≤ b'.writeAbleBytes ∧
      b.buffer.length ≤ b'.buffer.length ∧
      (b.buffer.length < b'.buffer.length →
        b.buffer.length < b.readAbleBytes + len + 8 ∧
        b'.buffer.length ≤ b.readAbleBytes + 2 * len + 7)) ∧
    (∀ ops : List BufferOp, (∀ op ∈ ops, op.AppendsOrRetrieves) →
      ∀ b', run BufferOp.step b ops = .ok b' →
        b'.buffer.length ≤ max b.buffer.length ((b.growthBounds ops).foldr max 0)) := by
  constructor
  · intro len
    obtain ⟨b', he, -, -, hroom⟩ := ensure_spec hw len
    refine ⟨b', he, hroom, ensure_length_ge hw he, fun hgrow => ?_⟩
    rcases ensure_growth hw he with hl | hbound
    · omega
    · exact hbound
  · intro ops hops b' he
    have hadm : ∀ (s : Buffer) (op : BufferOp) (t : Buffer), op.AppendsOrRetrieves →
        op.step s = .ok t → op.Admissible s := fun _ _ _ hop ht =>
      BufferOp.admissible_of_step hop ht
    exact run_growth hw (Allowed.of_returns hadm hops he) he

/-- A run that slides and then enlarges. -/
def sampleGrowth : List BufferOp :=
  [.retrieve 3, .append [1, 2, 3], .retrieveAllString, .append [4, 5, 6, 7, 8]]

theorem growth_bounded_sample :
    ∃ b', run BufferOp.step ⟨List.replicate 12 0, 8, 12⟩ sampleGrowth = .ok b' ∧
      b'.buffer.length ≤
        max 12 ((growthBounds ⟨List.replicate 12 0, 8, 12⟩ sampleGrowth).foldr max 0) := by
  have hw : (⟨List.replicate 12 0, 8, 12⟩ : Buffer).Wf := ⟨by decide, by decide, by decide⟩
  have hrun : run BufferOp.step ⟨List.replicate 12 0, 8, 12⟩ sampleGrowth =
      .ok ⟨List.replicate 8 0 ++ [4, 5, 6, 7, 8], 8, 13⟩ := by decide +kernel
  exact ⟨_, hrun, (growth_bounded _ hw).2 sampleGrowth
    (by simp [sampleGrowth, BufferOp.AppendsOrRetrieves]) _ hrun⟩

end Buffer
