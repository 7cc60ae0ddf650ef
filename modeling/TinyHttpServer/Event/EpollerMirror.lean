import TinyHttpServer.Event.Channel
import TinyHttpServer.Lib.Run
import Mathlib.Data.Set.Function

/-!
# The poller, its map and the kernel's list

Any number of channels with distinct descriptors are registered in one poller.

* `Mirrors` — the entries of the poller for the descriptor of a channel are what the status of the
  channel says; `Moved` is what an operation on one channel does.
* `registration_returns_iff` — the assertions of the poller hold along a run exactly when no
  channel of status `DEL` is updated: the branch for `DEL` asserts the opposite of what its comment
  says.
* `map_and_kernel_mirror_channels` — with the assertions left out, `channels_` and the kernel's list
  agree with the channels after every run, and every call of `epoll_ctl` is valid.
-/

set_option autoImplicit false

open Checked Machine

/-- A call of `epoll_ctl`; `present` says whether the kernel's list had the descriptor. -/
structure CtlCall where
  tag : EpollCtl
  fd : Int
  present : Bool
  deriving DecidableEq, Repr

/-- The call succeeds: `ADD` of an absent descriptor, `MOD` and `DEL` of a present one. -/
def CtlCall.Valid (call : CtlCall) : Prop :=
  match call.tag with
  | .add => call.present = false
  | .mod => call.present = true
  | .del => call.present = true

namespace Epoller

/-! ## The functions without their assertions -/

def ctlCall (p : Epoller) (tag : EpollCtl) (ch : Channel) : CtlCall :=
  { tag, fd := ch.fd, present := (p.interest ch.fd).isSome }

/-- The part of `update_channel` for the statuses `NEW` and `DEL`, without its assertions; `insert`
leaves a present key alone. -/
def enterUnasserted (p : Epoller) (ch : Channel) : Epoller :=
  if ch.status = .new ∧ p.channels ch.fd = none then
    { p with channels := Function.update p.channels ch.fd (some ch.address) }
  else p

/-- `update_channel` without its assertions: the poller, the channel and the calls of `epoll_ctl`. -/
def updateChannelUnasserted (p : Epoller) (ch : Channel) : Epoller × Channel × List CtlCall :=
  if ch.status = .new ∨ ch.status = .del then
    let p := p.enterUnasserted ch
    let ch := { ch with status := .add }
    (p.update .add ch, ch, [p.ctlCall .add ch])
  else if ch.isNoneEvent then
    (p.update .del ch, { ch with status := .del }, [p.ctlCall .del ch])
  else
    (p.update .mod ch, ch, [p.ctlCall .mod ch])

/-- `remove_channel` without its assertion. -/
def removeChannelUnasserted (p : Epoller) (ch : Channel) : Epoller × Channel × List CtlCall :=
  let q : Epoller := { p with channels := Function.update p.channels ch.fd none }
  if ch.status = .add then (q.update .del ch, { ch with status := .new }, [q.ctlCall .del ch])
  else (q, { ch with status := .new }, [])

end Epoller

/-- The operations of a channel. -/
inductive ChannelOp where
  | enableReading
  | disableReading
  | enableWriting
  | disableWriting
  | disableAll
  | remove
  deriving DecidableEq, Repr

namespace ChannelOp

/-- What an operation makes of `events_`. -/
def interest : ChannelOp → Events → Events
  | .enableReading, events => { events with read := true }
  | .disableReading, events => { events with read := false }
  | .enableWriting, events => { events with write := true }
  | .disableWriting, events => { events with write := false }
  | .disableAll, _ => .none
  | .remove, events => events

/-- The operation, with all assertions. -/
def exec (op : ChannelOp) (p : Epoller) (ch : Channel) : Checked (Epoller × Channel) :=
  match op with
  | .enableReading => Channel.enableReading p ch
  | .disableReading => Channel.disableReading p ch
  | .enableWriting => Channel.enableWriting p ch
  | .disableWriting => Channel.disableWriting p ch
  | .disableAll => Channel.disableAll p ch
  | .remove => Channel.remove p ch

/-- The operation, without assertions. -/
def execUnasserted (op : ChannelOp) (p : Epoller) (ch : Channel) :
    Epoller × Channel × List CtlCall :=
  if op = .remove then p.removeChannelUnasserted { ch with addedToLoop := false }
  else p.updateChannelUnasserted { ch with events := op.interest ch.events, addedToLoop := true }

theorem exec_update {op : ChannelOp} (hop : op ≠ .remove) (p : Epoller) (ch : Channel) :
    op.exec p ch = Channel.setEvents p ch (op.interest ch.events) := by
  cases op with
  | remove => exact absurd rfl hop
  | _ => rfl

end ChannelOp

namespace Epoller

/-! ## One channel -/

/-- The entries for the descriptor of `ch` are what the status of `ch` says. -/
structure Mirrors (p : Epoller) (ch : Channel) : Prop where
  channels : p.channels ch.fd = if ch.status = .new then none else some ch.address
  interest : p.interest ch.fd = if ch.status = .add then some ch.events else none

/-- The poller with the entries for the descriptor of `ch` set to what the status of `ch` says. -/
def mirror (p : Epoller) (ch : Channel) : Epoller :=
  { channels := Function.update p.channels ch.fd
      (if ch.status = .new then none else some ch.address)
    interest := Function.update p.interest ch.fd
      (if ch.status = .add then some ch.events else none) }

variable {p : Epoller} {ch : Channel}

theorem mirror_mirrors (p : Epoller) (ch : Channel) : (p.mirror ch).Mirrors ch :=
  ⟨Function.update_self .., Function.update_self ..⟩

theorem mirror_channels_off {f : Int} (hf : f ≠ ch.fd) : (p.mirror ch).channels f = p.channels f :=
  Function.update_of_ne hf _ _

theorem mirror_interest_off {f : Int} (hf : f ≠ ch.fd) : (p.mirror ch).interest f = p.interest f :=
  Function.update_of_ne hf _ _

/-- A channel of another descriptor is mirrored as before. -/
theorem Mirrors.mirror_of_ne {k : Channel} (hk : p.Mirrors k) (hne : k.fd ≠ ch.fd) :
    (p.mirror ch).Mirrors k :=
  ⟨(mirror_channels_off hne).trans hk.channels, (mirror_interest_off hne).trans hk.interest⟩

/-! The valid calls of `epoll_ctl`. -/

theorem update_add (h : p.interest ch.fd = none) : p.update .add ch =
    { p with interest := Function.update p.interest ch.fd (some ch.events) } := by
  unfold update
  rw [h]

theorem update_mod (h : (p.interest ch.fd).isSome) : p.update .mod ch =
    { p with interest := Function.update p.interest ch.fd (some ch.events) } := by
  obtain ⟨events, he⟩ := Option.isSome_iff_exists.1 h
  unfold update
  rw [he]

theorem update_del (h : (p.interest ch.fd).isSome) : p.update .del ch =
    { p with interest := Function.update p.interest ch.fd none } := by
  obtain ⟨events, he⟩ := Option.isSome_iff_exists.1 h
  unfold update
  rw [he]

/-- The status after an update: an empty interest is taken out of the kernel's list, except that
an update of a channel that is not in the list enters it in any case. -/
def nextStatus (status : PollTag) (events : Events) : PollTag :=
  if status = .add ∧ events = .none then .del else .add

/-- The channel after an update. -/
def updated (ch : Channel) (events : Events) : Channel :=
  { ch with events, addedToLoop := true, status := nextStatus ch.status events }

/-- **An update of a channel**, without assertions. -/
theorem updateChannelUnasserted_eq (hm : p.Mirrors ch) (events : Events) :
    ∃ call, p.updateChannelUnasserted { ch with events, addedToLoop := true } =
        (p.mirror (updated ch events), updated ch events, [call]) ∧ call.Valid := by
  obtain ⟨hc, hi⟩ := hm
  unfold updateChannelUnasserted
  cases hst : ch.status with
  | new =>
    simp only [hst, if_true, reduceCtorEq, if_false] at hc hi
    refine ⟨⟨.add, ch.fd, false⟩, ?_, rfl⟩
    simp only [true_or, if_true, enterUnasserted, hst, hc, and_self, update_add, hi, updated,
      nextStatus, reduceCtorEq, false_and, if_false, mirror, ctlCall, Option.isSome_none]
  | add =>
    simp only [hst, if_true, reduceCtorEq, if_false] at hc hi
    have hsame : Function.update p.channels ch.fd (some ch.address) = p.channels := by
      rw [← hc, Function.update_eq_self]
    cases hnone : decide (events = .none) with
    | true =>
      refine ⟨⟨.del, ch.fd, true⟩, ?_, rfl⟩
      simp only [reduceCtorEq, or_self, if_false, Channel.isNoneEvent, decide_true, if_true, update_del,
        updated, nextStatus, hst, true_and, mirror, hsame, ctlCall, hi, Option.isSome_some,
        of_decide_eq_true hnone]
    | false =>
      refine ⟨⟨.mod, ch.fd, true⟩, ?_, rfl⟩
      simp only [reduceCtorEq, or_self, if_false, Channel.isNoneEvent, decide_false, update_mod, if_true,
        updated, nextStatus, hst, true_and, mirror, hsame, ctlCall, hi, Option.isSome_some,
        of_decide_eq_false hnone, Bool.false_eq_true]
  | del =>
    simp only [hst, reduceCtorEq, if_false] at hc hi
    have hsame : Function.update p.channels ch.fd (some ch.address) = p.channels := by
      rw [← hc, Function.update_eq_self]
    refine ⟨⟨.add, ch.fd, false⟩, ?_, rfl⟩
    simp only [reduceCtorEq, or_true, if_true, enterUnasserted, false_and, if_false, update_add,
      updated, nextStatus, hst, mirror, hsame, ctlCall, hi, Option.isSome_none]

/-- The channel after `remove`. -/
def removed (ch : Channel) : Channel := { ch with addedToLoop := false, status := .new }

/-- **The removal of a channel**, without assertions. -/
theorem removeChannelUnasserted_eq (hm : p.Mirrors ch) :
    ∃ calls, p.removeChannelUnasserted { ch with addedToLoop := false } =
        (p.mirror (removed ch), removed ch, calls) ∧ ∀ call ∈ calls, call.Valid := by
  obtain ⟨-, hi⟩ := hm
  unfold removeChannelUnasserted
  simp only
  split
  · rename_i hst
    rw [if_pos hst] at hi
    refine ⟨[⟨.del, ch.fd, true⟩], ?_, by simp [CtlCall.Valid]⟩
    simp only [update_del, ctlCall, hi, Option.isSome_some, mirror, removed, if_true, reduceCtorEq,
      if_false]
  · rename_i hst
    rw [if_neg hst] at hi
    have hsame : Function.update p.interest ch.fd none = p.interest := by
      rw [← hi, Function.update_eq_self]
    refine ⟨[], ?_, fun _ h => absurd h List.not_mem_nil⟩
    simp only [mirror, removed, if_true, reduceCtorEq, if_false, hsame]

/-! ## The assertions -/

/-- With the assertions, an update returns exactly when the status is not `DEL`, and does then what
it does without them. -/
theorem setEvents_eq (hm : p.Mirrors ch) (events : Events) :
    Channel.setEvents p ch events =
      if ch.status = .del then .error .assertion
      else .ok (p.mirror (updated ch events), updated ch events) := by
  obtain ⟨call, hcall, -⟩ := updateChannelUnasserted_eq hm events
  unfold updateChannelUnasserted at hcall
  unfold Channel.setEvents updateChannel
  cases hst : ch.status with
  | new =>
    have hc := hm.channels
    simp only [hst, if_true] at hc
    simp only [hst, true_or, if_true, enterUnasserted, hc, and_self] at hcall
    simp only [true_or, if_true, enter, hc, require_of, ok_bind, pure_eq_ok, reduceCtorEq, if_false]
    rw [Prod.mk.injEq, Prod.mk.injEq] at hcall
    rw [hcall.1, hcall.2.1]
  | add =>
    simp only [hst, reduceCtorEq, or_self, if_false] at hcall ⊢
    split at hcall
    · rename_i hnone
      rw [Prod.mk.injEq, Prod.mk.injEq] at hcall
      rw [if_pos hnone, hcall.1, hcall.2.1]
      rfl
    · rename_i hnone
      rw [Prod.mk.injEq, Prod.mk.injEq] at hcall
      rw [if_neg hnone, hcall.1, hcall.2.1]
      rfl
  | del =>
    have hc := hm.channels
    simp only [hst, reduceCtorEq, if_false] at hc
    simp only [reduceCtorEq, or_true, if_true, enter, hc, if_false]
    rfl

/-- `remove` of a registered channel with an empty interest. -/
theorem remove_eq (hm : p.Mirrors ch) (hnone : ch.events = .none) (hst : ch.status ≠ .new) :
    Channel.remove p ch = .ok (p.mirror (removed ch), removed ch) := by
  obtain ⟨calls, hcalls, -⟩ := removeChannelUnasserted_eq hm
  have hreg : ch.status = .add ∨ ch.status = .del := by
    cases h : ch.status with
    | new => exact absurd h hst
    | add => exact .inl rfl
    | del => exact .inr rfl
  unfold removeChannelUnasserted at hcalls
  unfold Channel.remove removeChannel
  rw [require_of (by simpa [Channel.isNoneEvent] using hnone), ok_bind]
  simp only [require_of hreg, ok_bind]
  simp only at hcalls
  split at hcalls
  · rename_i hadd
    rw [Prod.mk.injEq, Prod.mk.injEq] at hcalls
    rw [if_pos hadd, hcalls.1, hcalls.2.1]
    rfl
  · rename_i hadd
    rw [Prod.mk.injEq, Prod.mk.injEq] at hcalls
    rw [if_neg hadd, hcalls.1, hcalls.2.1]
    rfl

end Epoller

/-! ## Any number of channels -/

/-- A poller and the channels that use it, by address. -/
structure Registry where
  poller : Epoller
  channels : Nat → Channel

namespace Registry

open Epoller

/-- New channels with the descriptors `fds`, and a new poller. -/
def start (fds : Nat → Int) : Registry :=
  { poller := Epoller.make, channels := fun a => Channel.make a (fds a) }

/-- An operation on the channel at an address. -/
def step (s : Registry) (act : Nat × ChannelOp) : Checked Registry := do
  let (poller, ch) ← act.2.exec s.poller (s.channels act.1)
  return { poller, channels := Function.update s.channels act.1 ch }

/-- The same without the assertions of the poller, with the list of all calls of `epoll_ctl`. -/
def stepUnasserted (s : Registry × List CtlCall) (act : Nat × ChannelOp) :
    Checked (Registry × List CtlCall) :=
  let (poller, ch, calls) := act.2.execUnasserted s.1.poller (s.1.channels act.1)
  return ({ poller, channels := Function.update s.1.channels act.1 ch }, s.2 ++ calls)

/-- The operations are on channels of the set `S`; `remove` is called on a registered channel
without interest. -/
def Admissible (S : Set Nat) (s : Registry) (act : Nat × ChannelOp) : Prop :=
  act.1 ∈ S ∧ (act.2 = .remove →
    (s.channels act.1).events = .none ∧ (s.channels act.1).status ≠ .new)

/-- Every channel of the set is mirrored, and the poller has no other entries. -/
structure Consistent (S : Set Nat) (fds : Nat → Int) (s : Registry) : Prop where
  address : ∀ a, (s.channels a).address = a
  fd : ∀ a, (s.channels a).fd = fds a
  mirrors : ∀ a ∈ S, s.poller.Mirrors (s.channels a)
  outside : ∀ f, (∀ a ∈ S, fds a ≠ f) → s.poller.channels f = none ∧ s.poller.interest f = none

variable {S : Set Nat} {fds : Nat → Int} {s : Registry}

theorem start_consistent (S : Set Nat) (fds : Nat → Int) : Consistent S fds (start fds) :=
  ⟨fun _ => rfl, fun _ => rfl, fun _ _ => ⟨rfl, rfl⟩, fun _ _ => ⟨rfl, rfl⟩⟩

/-- An operation on one channel keeps the others consistent, since their descriptors differ. -/
theorem Consistent.set (h : Consistent S fds s) (hfds : Set.InjOn fds S) {a : Nat} (ha : a ∈ S)
    {ch : Channel} (hfd : ch.fd = (s.channels a).fd) (haddress : ch.address = (s.channels a).address) :
    Consistent S fds
      { poller := s.poller.mirror ch, channels := Function.update s.channels a ch } := by
  rw [h.fd] at hfd
  rw [h.address] at haddress
  constructor
  · intro b
    obtain rfl | hb := eq_or_ne b a
    · simpa using haddress
    · simpa [Function.update_of_ne hb] using h.address b
  · intro b
    obtain rfl | hb := eq_or_ne b a
    · simpa using hfd
    · simpa [Function.update_of_ne hb] using h.fd b
  · intro b hbS
    obtain rfl | hb := eq_or_ne b a
    · simpa using mirror_mirrors s.poller ch
    · have hne : (s.channels b).fd ≠ ch.fd := by
        rw [h.fd, hfd]
        exact fun heq => hb (hfds hbS ha heq)
      simpa [Function.update_of_ne hb] using (h.mirrors b hbS).mirror_of_ne hne
  · intro f hf
    have hne : f ≠ ch.fd := by
      rw [hfd]
      exact (hf a ha).symm
    rw [mirror_channels_off hne, mirror_interest_off hne]
    exact h.outside f hf

/-- A step returns unless it updates a channel of status `DEL`. -/
theorem step_returns (hfds : Set.InjOn fds S) {act : Nat × ChannelOp} (h : Consistent S fds s)
    (hadm : Admissible S s act) (hdel : act.2 ≠ .remove → (s.channels act.1).status ≠ .del) :
    ∃ t, step s act = .ok t ∧ Consistent S fds t := by
  obtain ⟨a, op⟩ := act
  have hm := h.mirrors a hadm.1
  unfold step
  by_cases hop : op = .remove
  · obtain ⟨hnone, hst⟩ := hadm.2 hop
    rw [hop]
    show ∃ t, (Channel.remove s.poller (s.channels a) >>= _) = _ ∧ _
    rw [remove_eq hm hnone hst]
    exact ⟨_, rfl, h.set hfds hadm.1 rfl rfl⟩
  · rw [ChannelOp.exec_update hop, setEvents_eq hm, if_neg (hdel hop)]
    exact ⟨_, rfl, h.set hfds hadm.1 rfl rfl⟩

theorem step_stops {act : Nat × ChannelOp} {t : Registry} (h : Consistent S fds s)
    (hadm : Admissible S s act) (hstep : step s act = .ok t) (hop : act.2 ≠ .remove) :
    (s.channels act.1).status ≠ .del := by
  intro hdel
  unfold step at hstep
  rw [ChannelOp.exec_update hop, setEvents_eq (h.mirrors act.1 hadm.1), if_pos hdel] at hstep
  cases hstep

/-- **The assertions of the poller.**  Along every sequence of operations on channels with distinct
descriptors the assertions hold if and only if no channel whose status is `DEL` is updated. -/
theorem registration_returns_iff (S : Set Nat) (fds : Nat → Int) (hfds : Set.InjOn fds S)
    (acts : List (Nat × ChannelOp)) (hacts : Allowed step (Admissible S) (start fds) acts) :
    (∃ s, run step (start fds) acts = .ok s) ↔
      ∀ before act, before ++ [act] <+: acts → ∀ s, run step (start fds) before = .ok s →
        act.2 ≠ .remove → (s.channels act.1).status ≠ .del :=
  run_returns_iff (fun _ _ h hadm hdel => step_returns hfds h hadm hdel)
    (fun _ _ _ h hadm hstep => step_stops h hadm hstep) acts _ (start_consistent S fds) hacts

/-- Registration, a change of interest, removal and a second registration of one channel. -/
def sampleActs : List (Nat × ChannelOp) :=
  [(0, .enableReading), (0, .enableWriting), (0, .disableAll), (0, .remove), (0, .enableReading)]

theorem sampleActs_allowed : Allowed step (Admissible Set.univ) (start Int.ofNat) sampleActs :=
  ⟨⟨trivial, nofun⟩, ⟨trivial, nofun⟩, ⟨trivial, nofun⟩, ⟨trivial, fun _ => ⟨rfl, nofun⟩⟩,
    ⟨trivial, nofun⟩, trivial⟩

theorem registration_returns_iff_sample :
    (∃ s, run step (start Int.ofNat) sampleActs = .ok s) ∧
      ∀ before act, before ++ [act] <+: sampleActs →
        ∀ s, run step (start Int.ofNat) before = .ok s →
          act.2 ≠ .remove → (s.channels act.1).status ≠ .del :=
  ⟨⟨_, rfl⟩, (registration_returns_iff Set.univ Int.ofNat (fun _ _ _ _ h => Int.ofNat.inj h)
    sampleActs sampleActs_allowed).1 ⟨_, rfl⟩⟩

/-- A channel whose interest became empty cannot be enabled again: the second `enable_reading`
fails the assertion that `channels_` has no entry. -/
theorem enabling_again_aborts :
    Allowed step (Admissible Set.univ) (start Int.ofNat)
        [(0, .enableReading), (0, .disableReading), (0, .enableReading)] ∧
      run step (start Int.ofNat) [(0, .enableReading), (0, .disableReading), (0, .enableReading)] =
        .error .assertion :=
  ⟨⟨⟨trivial, nofun⟩, ⟨trivial, nofun⟩, ⟨trivial, nofun⟩, trivial⟩, rfl⟩

/-! ## Without the assertions -/

/-- The operations with assertions, where they return, do what the operations without them do. -/
theorem step_unasserted {act : Nat × ChannelOp} {t : Registry} (h : Consistent S fds s)
    (hadm : Admissible S s act) (hstep : step s act = .ok t) (calls : List CtlCall) :
    ∃ calls', stepUnasserted (s, calls) act = .ok (t, calls') := by
  obtain ⟨a, op⟩ := act
  have hm := h.mirrors a hadm.1
  unfold step at hstep
  unfold stepUnasserted ChannelOp.execUnasserted
  by_cases hop : op = .remove
  · subst hop
    obtain ⟨hnone, hst⟩ := hadm.2 rfl
    obtain ⟨calls', hcalls, -⟩ := removeChannelUnasserted_eq hm
    simp only [ChannelOp.exec, remove_eq hm hnone hst, ok_bind] at hstep
    simp only [if_true, hcalls]
    cases hstep
    exact ⟨_, rfl⟩
  · obtain ⟨call, hcall, -⟩ := updateChannelUnasserted_eq hm (op.interest (s.channels a).events)
    simp only [ChannelOp.exec_update hop, setEvents_eq hm] at hstep
    simp only [if_neg hop, hcall]
    split at hstep
    · cases hstep
    · cases hstep
      exact ⟨_, rfl⟩

theorem stepUnasserted_returns (hfds : Set.InjOn fds S) {calls : List CtlCall}
    {act : Nat × ChannelOp} (h : Consistent S fds s) (hcalls : ∀ call ∈ calls, call.Valid)
    (hadm : Admissible S s act) :
    ∃ t calls', stepUnasserted (s, calls) act = .ok (t, calls') ∧ Consistent S fds t ∧
      ∀ call ∈ calls', call.Valid := by
  obtain ⟨a, op⟩ := act
  have hm := h.mirrors a hadm.1
  have hmore : ∀ more : List CtlCall, (∀ call ∈ more, call.Valid) →
      ∀ call ∈ calls ++ more, call.Valid := by
    intro more hvalid call hmem
    obtain hmem | hmem := List.mem_append.1 hmem
    · exact hcalls call hmem
    · exact hvalid call hmem
  unfold stepUnasserted ChannelOp.execUnasserted
  by_cases hop : op = .remove
  · obtain ⟨more, heq, hvalid⟩ := removeChannelUnasserted_eq hm
    simp only [if_pos hop, heq]
    exact ⟨_, _, rfl, h.set hfds hadm.1 rfl rfl, hmore more hvalid⟩
  · obtain ⟨call, heq, hvalid⟩ := updateChannelUnasserted_eq hm (op.interest (s.channels a).events)
    simp only [if_neg hop, heq]
    exact ⟨_, _, rfl, h.set hfds hadm.1 rfl rfl, hmore [call] (by simpa using hvalid)⟩

/-- What consistency says about the two maps as a whole. -/
theorem Consistent.maps (h : Consistent S fds s) :
    (∀ f a, s.poller.channels f = some a ↔ a ∈ S ∧ fds a = f ∧
        ((s.channels a).status = .add ∨ (s.channels a).status = .del)) ∧
      ∀ f events, s.poller.interest f = some events ↔
        ∃ a ∈ S, fds a = f ∧ (s.channels a).status = .add ∧ (s.channels a).events = events := by
  have hch : ∀ a ∈ S, s.poller.channels (fds a) =
      if (s.channels a).status = .new then none else some a := by
    intro a ha
    have := (h.mirrors a ha).channels
    rwa [h.fd, h.address] at this
  have hin : ∀ a ∈ S, s.poller.interest (fds a) =
      if (s.channels a).status = .add then some (s.channels a).events else none := by
    intro a ha
    have := (h.mirrors a ha).interest
    rwa [h.fd] at this
  have hreg : ∀ status : PollTag, status ≠ .new ↔ status = .add ∨ status = .del := by
    intro status
    cases status <;> simp
  constructor
  · intro f a
    rw [← hreg]
    constructor
    · intro hf
      obtain ⟨b, hb, rfl⟩ : ∃ b ∈ S, fds b = f := by
        by_contra hno
        rw [(h.outside f fun b hb heq => hno ⟨b, hb, heq⟩).1] at hf
        cases hf
      rw [hch b hb] at hf
      split at hf
      · cases hf
      · rename_i hst
        cases hf
        exact ⟨hb, rfl, hst⟩
    · rintro ⟨ha, rfl, hst⟩
      rw [hch a ha, if_neg hst]
  · intro f events
    constructor
    · intro hf
      obtain ⟨b, hb, rfl⟩ : ∃ b ∈ S, fds b = f := by
        by_contra hno
        rw [(h.outside f fun b hb heq => hno ⟨b, hb, heq⟩).2] at hf
        cases hf
      rw [hin b hb] at hf
      split at hf
      · rename_i hst
        cases hf
        exact ⟨b, hb, rfl, hst, rfl⟩
      · cases hf
    · rintro ⟨a, ha, rfl, hst, rfl⟩
      rw [hin a ha, if_pos hst]

/-- **The poller mirrors the kernel.**  Assertions left aside, after every sequence of operations
`channels_` has exactly the channels of status `ADD` or `DEL`, the kernel's list has exactly the
channels of status `ADD` with their current interest, and every call of `epoll_ctl` was valid. -/
theorem map_and_kernel_mirror_channels (S : Set Nat) (fds : Nat → Int) (hfds : Set.InjOn fds S)
    (acts : List (Nat × ChannelOp))
    (hacts : Allowed stepUnasserted (fun s => Admissible S s.1) (start fds, []) acts) :
    ∃ s calls, run stepUnasserted (start fds, []) acts = .ok (s, calls) ∧
      (∀ f a, s.poller.channels f = some a ↔ a ∈ S ∧ fds a = f ∧
        ((s.channels a).status = .add ∨ (s.channels a).status = .del)) ∧
      (∀ f events, s.poller.interest f = some events ↔
        ∃ a ∈ S, fds a = f ∧ (s.channels a).status = .add ∧ (s.channels a).events = events) ∧
      ∀ call ∈ calls, call.Valid := by
  have hstep : ∀ (s : Registry × List CtlCall) (act : Nat × ChannelOp),
      (Consistent S fds s.1 ∧ ∀ call ∈ s.2, call.Valid) → Admissible S s.1 act →
        ∃ t, stepUnasserted s act = .ok t ∧
          (Consistent S fds t.1 ∧ ∀ call ∈ t.2, call.Valid) := by
    rintro ⟨s, calls⟩ act ⟨h, hcalls⟩ hadm
    obtain ⟨t, calls', heq, ht, hvalid⟩ := stepUnasserted_returns hfds h hcalls hadm
    exact ⟨(t, calls'), heq, ht, hvalid⟩
  obtain ⟨⟨s, calls⟩, hrun, h, hcalls⟩ := run_invariant hstep acts (start fds, [])
    ⟨start_consistent S fds, fun _ hmem => absurd hmem List.not_mem_nil⟩ hacts
  obtain ⟨hch, hin⟩ := h.maps
  exact ⟨s, calls, hrun, hch, hin, hcalls⟩

theorem map_and_kernel_mirror_channels_sample :
    ∃ s calls, run stepUnasserted (start Int.ofNat, [])
        [(0, .enableReading), (0, .disableReading), (0, .enableReading)] = .ok (s, calls) ∧
      (∀ f a, s.poller.channels f = some a ↔ a ∈ Set.univ ∧ Int.ofNat a = f ∧
        ((s.channels a).status = .add ∨ (s.channels a).status = .del)) ∧
      (∀ f events, s.poller.interest f = some events ↔ ∃ a ∈ Set.univ, Int.ofNat a = f ∧
        (s.channels a).status = .add ∧ (s.channels a).events = events) ∧
      ∀ call ∈ calls, call.Valid :=
  map_and_kernel_mirror_channels Set.univ Int.ofNat (fun _ _ _ _ h => Int.ofNat.inj h) _
    ⟨⟨trivial, nofun⟩, ⟨trivial, nofun⟩, ⟨trivial, nofun⟩, trivial⟩

end Registry
