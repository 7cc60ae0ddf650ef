import TinyHttpServer.Lib.Checked
import Mathlib.Logic.Function.Basic

/-!
# Channels and the poller (`src/event/channel.h`, `src/event/epoller.cc`)

A `Channel` is the interest of one file descriptor, together with its registration status in
the poller.  Every change of the interest goes through `Epoller::update_channel`, which keeps
the map `channels_` and the kernel's interest list.  The kernel's list is part of the model, since
a failing `epoll_ctl` is only logged.

A channel is known by a number that stands for its address.
-/

set_option autoImplicit false

open Checked

/-- An event mask.  `kReadEvent` is `POLLIN | POLLPRI` and `kWriteEvent` is `POLLOUT`: the masks
are disjoint, and each is always set and cleared as a whole. -/
structure Events where
  read : Bool
  write : Bool
  deriving DecidableEq, Repr

/-- `kNoneEvent`. -/
def Events.none : Events := ⟨false, false⟩

/-- `PollBase::POLL_TAG`. -/
inductive PollTag where
  | new
  | add
  | del
  deriving DecidableEq, Repr

/-- `class Channel`. -/
structure Channel where
  address : Nat
  fd : Int
  events : Events
  status : PollTag
  addedToLoop : Bool
  deriving DecidableEq, Repr

namespace Channel

/-- The constructor. -/
def make (address : Nat) (fd : Int) : Channel :=
  { address, fd, events := .none, status := .new, addedToLoop := false }

def isNoneEvent (ch : Channel) : Bool := ch.events = .none
def isWriting (ch : Channel) : Bool := ch.events.write
def isReading (ch : Channel) : Bool := ch.events.read

end Channel

/-- The operations of `epoll_ctl`. -/
inductive EpollCtl where
  | add
  | mod
  | del
  deriving DecidableEq, Repr

/-- `class Epoller`: the map `channels_` and the kernel's interest list. -/
structure Epoller where
  channels : Int → Option Nat
  interest : Int → Option Events

namespace Epoller

/-- A new poller. -/
def make : Epoller := { channels := fun _ => none, interest := fun _ => none }

/-- `update`: the call of `epoll_ctl`.  Adding a present descriptor, changing an absent one and
deleting an absent one fail and change nothing. -/
def update (p : Epoller) (tag : EpollCtl) (ch : Channel) : Epoller :=
  match tag, p.interest ch.fd with
  | .add, none => { p with interest := Function.update p.interest ch.fd (some ch.events) }
  | .mod, some _ => { p with interest := Function.update p.interest ch.fd (some ch.events) }
  | .del, some _ => { p with interest := Function.update p.interest ch.fd none }
  | _, _ => p

/-- The part of `update_channel` for the statuses `NEW` and `DEL`.  For `DEL` the code demands
that `channels_` has no entry and then reads the entry. -/
def enter (p : Epoller) (ch : Channel) : Checked Epoller :=
  if ch.status = .new then do
    require (p.channels ch.fd = none)
    return { p with channels := Function.update p.channels ch.fd (some ch.address) }
  else do
    require (p.channels ch.fd = none)
    match p.channels ch.fd with
    | none => .error .invalidAccess
    | some address =>
      require (address = ch.address)
      return p

/-- `update_channel`. -/
def updateChannel (p : Epoller) (ch : Channel) : Checked (Epoller × Channel) :=
  if ch.status = .new ∨ ch.status = .del then do
    let p ← p.enter ch
    let ch := { ch with status := .add }
    return (p.update .add ch, ch)
  else if ch.isNoneEvent then
    return (p.update .del ch, { ch with status := .del })
  else
    return (p.update .mod ch, ch)

/-- `remove_channel`. -/
def removeChannel (p : Epoller) (ch : Channel) : Checked (Epoller × Channel) := do
  require (ch.status = .add ∨ ch.status = .del)
  let q : Epoller := { p with channels := Function.update p.channels ch.fd none }
  let q := if ch.status = .add then q.update .del ch else q
  return (q, { ch with status := .new })

end Epoller

namespace Channel

/-- A change of `events_` followed by `update_`. -/
def setEvents (p : Epoller) (ch : Channel) (events : Events) : Checked (Epoller × Channel) :=
  p.updateChannel { ch with events, addedToLoop := true }

def enableReading (p : Epoller) (ch : Channel) : Checked (Epoller × Channel) :=
  setEvents p ch { ch.events with read := true }

def disableReading (p : Epoller) (ch : Channel) : Checked (Epoller × Channel) :=
  setEvents p ch { ch.events with read := false }

def enableWriting (p : Epoller) (ch : Channel) : Checked (Epoller × Channel) :=
  setEvents p ch { ch.events with write := true }

def disableWriting (p : Epoller) (ch : Channel) : Checked (Epoller × Channel) :=
  setEvents p ch { ch.events with write := false }

def disableAll (p : Epoller) (ch : Channel) : Checked (Epoller × Channel) :=
  setEvents p ch .none

/-- `remove`. -/
def remove (p : Epoller) (ch : Channel) : Checked (Epoller × Channel) := do
  require (ch.isNoneEvent)
  p.removeChannel { ch with addedToLoop := false }

variable {p p' : Epoller} {ch ch' : Channel} {events : Events}

/-- The poller changes the status of a channel and nothing else in it; with a non-empty interest
the channel is registered afterwards. -/
theorem setEvents_eq_ok (h : setEvents p ch events = .ok (p', ch')) :
    ch'.events = events ∧ (events ≠ .none → ch'.status = .add) := by
  unfold setEvents Epoller.updateChannel at h
  split at h
  · rw [bind_eq_ok] at h
    obtain ⟨q, _, h⟩ := h
    cases h
    exact ⟨rfl, fun _ => rfl⟩
  · rename_i hs
    split at h
    · rename_i hnone
      cases h
      exact ⟨rfl, fun hne => absurd (by simpa [isNoneEvent] using hnone) hne⟩
    · cases h
      refine ⟨rfl, fun _ => ?_⟩
      cases hst : ch.status with
      | new => simp [hst] at hs
      | add => rfl
      | del => simp [hst] at hs

/-- A registered channel can take every interest; it stays registered unless the interest is
empty. -/
theorem setEvents_added (hs : ch.status = .add) (hne : events ≠ .none) :
    setEvents p ch events =
      .ok (p.update .mod { ch with events, addedToLoop := true },
        { ch with events, addedToLoop := true }) := by
  unfold setEvents Epoller.updateChannel
  rw [if_neg (by simp [hs]), if_neg (by simpa [isNoneEvent] using hne)]
  rfl

end Channel
