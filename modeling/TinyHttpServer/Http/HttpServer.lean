import TinyHttpServer.Lib.CircularBuffer
import TinyHttpServer.Lib.Run
import Mathlib.Data.Finset.Card

/-!
# The idle wheel of the HTTP server (`src/httpserver.cc`, `src/server/entry.h`)

Every connection has an `Entry`.  The wheel is a circular buffer of three sets of shared pointers to
entries; a connection and each message on it put the entry into the newest set, and every tick
pushes an empty set.  An entry that no set holds any more is destroyed, and its destructor shuts the
connection down.

* `idle_wheel` — along every run an entry is alive exactly while fewer than three ticks have passed
  since the last touch, and the wheel shuts a connection down exactly once, at the third.
-/

set_option autoImplicit false

open Checked Machine

/-- `typedef std::unordered_set<EntryPtr> Bucket`; a pointer is the number of its entry. -/
abbrev Bucket := Finset Nat

/-- `class HttpServer`, as far as the wheel goes.  `entries` are the entries made so far, each with
the connection of its `weakConn_`; `entry` is the weak pointer that a connection has been given, and
`expired` says of which connections no object is left.  `shutdowns` counts the calls of `shutdown`
by the destructor of `Entry`, and `idle` the ticks since the last touch. -/
structure HttpServer (C : Type) where
  connectionList : CircularBuffer Bucket 3
  entries : List C
  entry : C → Option Nat
  expired : C → Bool
  shutdowns : C → Nat
  idle : C → Nat

namespace HttpServer

variable {C : Type}

/-- The constructor: `connection_list_.resize(3)`. -/
def make : HttpServer C :=
  { connectionList := .filled 3 ∅, entries := [], entry := fun _ => none, expired := fun _ => false,
    shutdowns := fun _ => 0, idle := fun _ => 0 }

/-- Some bucket holds the entry, so that a weak pointer to it can be locked. -/
def lock (s : HttpServer C) (e : Nat) : Bool := s.connectionList.elems.any (e ∈ ·)

/-- `connection_list_.back().insert(entry)` -/
def insertBack (s : HttpServer C) (e : Nat) : HttpServer C :=
  { s with connectionList := s.connectionList.modifyBack (insert e) }

/-- The entries that `connection_list_.push_back(Bucket())` destroys: those of the bucket it drops
that no other bucket holds. -/
def destroyed (s : HttpServer C) (e : Nat) : Bool :=
  (s.connectionList.dropped ∅).any (e ∈ ·) && !(s.connectionList.pushBack ∅).elems.any (e ∈ ·)

section Step

variable [DecidableEq C]

/-- `connection_cb`; `connected` is `conn->is_connected()`. -/
def connectionCb (s : HttpServer C) (conn : C) (connected : Bool) : HttpServer C :=
  if connected then
    { s.insertBack s.entries.length with
      entries := s.entries ++ [conn]
      entry := Function.update s.entry conn (some s.entries.length)
      idle := Function.update s.idle conn 0 }
  else s

/-- `message_cb`, as far as the wheel goes; the cast of an entry that was never set throws. -/
def messageCb (s : HttpServer C) (conn : C) : Checked (HttpServer C) :=
  match s.entry conn with
  | none => throw .invalidAccess
  | some e =>
    return if s.lock e then { s.insertBack e with idle := Function.update s.idle conn 0 } else s

/-- `ontime`, with the destructors of the entries that go. -/
def ontime (s : HttpServer C) : HttpServer C :=
  { s with
    connectionList := s.connectionList.pushBack ∅
    shutdowns := fun conn => s.shutdowns conn +
      if s.expired conn then 0
      else ((Finset.range s.entries.length).filter fun e =>
        s.entries[e]? = some conn ∧ s.destroyed e).card
    idle := fun conn => s.idle conn + 1 }

/-- The callbacks, and the end of a connection's object. -/
inductive Event (C : Type) where
  | connection (conn : C) (connected : Bool)
  | message (conn : C)
  | tick
  | expire (conn : C)
  deriving DecidableEq

def step (s : HttpServer C) : Event C → Checked (HttpServer C)
  | .connection conn connected => return s.connectionCb conn connected
  | .message conn => s.messageCb conn
  | .tick => return s.ontime
  | .expire conn => return { s with expired := Function.update s.expired conn true }

/-- A connection is new once, and messages come on connections that have been announced. -/
def Admissible (s : HttpServer C) : Event C → Prop
  | .connection conn connected => connected → s.entry conn = none
  | .message conn => s.entry conn ≠ none
  | .tick | .expire _ => True

instance (s : HttpServer C) : ∀ event, Decidable (Admissible s event)
  | .connection conn connected => inferInstanceAs (Decidable (connected → s.entry conn = none))
  | .message conn => inferInstanceAs (Decidable (s.entry conn ≠ none))
  | .tick | .expire _ => inferInstanceAs (Decidable True)

end Step

/-! ## The invariant -/

/-- The age of an entry in the wheel: the number of buckets newer than the newest that holds it. -/
def age (s : HttpServer C) (e : Nat) : Nat := s.connectionList.age (e ∈ ·)

/-- Connections and entries correspond; the age of an entry is the number of ticks since the last
touch, up to the size of the wheel; and a connection whose object is there has been shut down once
when this number is three or more. -/
structure Wheel (s : HttpServer C) : Prop where
  full : s.connectionList.Full
  entry_iff : ∀ conn e, s.entry conn = some e ↔ s.entries[e]? = some conn
  age : ∀ conn e, s.entry conn = some e → s.age e = min 3 (s.idle conn)
  shutdowns : ∀ conn, s.expired conn = false →
    s.shutdowns conn = if s.entry conn ≠ none ∧ 3 ≤ s.idle conn then 1 else 0

theorem make_wheel : Wheel (make : HttpServer C) where
  full := CircularBuffer.filled_full ∅
  entry_iff conn e := by simp [make]
  age := nofun
  shutdowns conn _ := rfl

variable {s : HttpServer C}

/-- A weak pointer can be locked exactly while fewer than three ticks have passed. -/
theorem Wheel.lock_iff (h : Wheel s) {conn : C} {e : Nat} (he : s.entry conn = some e) :
    s.lock e = true ↔ s.idle conn < 3 := by
  have hlock : s.lock e = true ↔ s.age e < 3 := by
    rw [HttpServer.age, h.full.age_lt_iff]
    simp [lock]
  rw [hlock, h.age conn e he]
  omega

/-- An entry is destroyed at the third tick since the last touch. -/
theorem Wheel.destroyed_iff (h : Wheel s) {conn : C} {e : Nat} (he : s.entry conn = some e) :
    s.destroyed e = true ↔ s.idle conn = 2 := by
  have hlost := CircularBuffer.lost_iff (p := (e ∈ ·)) (x := ∅) h.full (by simp)
  have hdestroyed : s.destroyed e = true ↔ s.age e + 1 = 3 := by
    rw [HttpServer.age, ← hlost]
    simp [destroyed]
  rw [hdestroyed, h.age conn e he]
  omega

theorem age_insertBack_self (h : s.connectionList.Full) (e : Nat) : (s.insertBack e).age e = 0 :=
  CircularBuffer.age_modifyBack_of_true h (by decide) (by simp)

theorem age_insertBack_of_ne {e e' : Nat} (hne : e' ≠ e) : (s.insertBack e).age e' = s.age e' :=
  CircularBuffer.age_modifyBack_of_eq (by simp [hne])

/-- Two connections have different entries. -/
theorem Wheel.conn_eq (h : Wheel s) {conn conn' : C} {e : Nat} (he : s.entry conn = some e)
    (he' : s.entry conn' = some e) : conn = conn' := by
  rw [h.entry_iff] at he he'
  exact Option.some.inj (he.symm.trans he')

section Step

variable [DecidableEq C]

/-- The destructors of a tick call `shutdown` once for a connection whose entry goes. -/
theorem Wheel.card_destroyed (h : Wheel s) (conn : C) :
    ((Finset.range s.entries.length).filter fun e =>
      s.entries[e]? = some conn ∧ s.destroyed e).card =
      if s.entry conn ≠ none ∧ s.idle conn = 2 then 1 else 0 := by
  cases he : s.entry conn with
  | none =>
    rw [if_neg (by simp), Finset.card_eq_zero, Finset.filter_eq_empty_iff]
    rintro e - ⟨hconn, -⟩
    rw [← h.entry_iff, he] at hconn
    cases hconn
  | some e =>
    have hsome := (h.entry_iff conn e).1 he
    have hlt : e < s.entries.length := (List.getElem?_eq_some_iff.1 hsome).1
    by_cases hidle : s.idle conn = 2
    · rw [if_pos ⟨by simp, hidle⟩, Finset.card_eq_one]
      refine ⟨e, Finset.ext fun e' => ?_⟩
      simp only [Finset.mem_filter, Finset.mem_range, Finset.mem_singleton]
      constructor
      · rintro ⟨-, hconn, -⟩
        rw [← h.entry_iff, he] at hconn
        exact (Option.some.inj hconn).symm
      · rintro rfl
        exact ⟨hlt, hsome, (h.destroyed_iff he).2 hidle⟩
    · rw [if_neg (fun hand => hidle hand.2), Finset.card_eq_zero, Finset.filter_eq_empty_iff]
      rintro e' - ⟨hconn, hgone⟩
      rw [← h.entry_iff] at hconn
      exact hidle ((h.destroyed_iff hconn).1 hgone)

theorem Wheel.ontime (h : Wheel s) : Wheel s.ontime where
  full := h.full.pushBack ∅
  entry_iff := h.entry_iff
  age conn e he := by
    have hage := CircularBuffer.age_pushBack (p := (e ∈ ·)) s.connectionList (x := ∅) (by simp)
    refine hage.trans ?_
    show min 3 (s.age e + 1) = min 3 (s.idle conn + 1)
    rw [h.age conn e he]
    omega
  shutdowns conn hexp := by
    have hbefore := h.shutdowns conn hexp
    simp only [HttpServer.ontime] at hexp ⊢
    rw [hexp, h.card_destroyed, hbefore]
    by_cases hentry : s.entry conn = none
    · simp [hentry]
    · simp only [hentry, ne_eq, not_false_eq_true, true_and, Bool.false_eq_true, if_false]
      split_ifs <;> omega

/-- The invariant reads the wheel, the weak pointers and the counters; `insertBack` changes the
wheel for one entry, whose connection is touched. -/
theorem Wheel.touch (h : Wheel s) {conn : C} {e : Nat} (he : s.entry conn = some e)
    (hidle : s.idle conn < 3) :
    Wheel { s.insertBack e with idle := Function.update s.idle conn 0 } where
  full := h.full.modifyBack _
  entry_iff := h.entry_iff
  age conn' e' he' := by
    by_cases hconn : conn' = conn
    · subst hconn
      obtain rfl : e' = e := Option.some.inj (he'.symm.trans he)
      simp only [Function.update_self]
      exact age_insertBack_self h.full e'
    · have hne : e' ≠ e := by
        rintro rfl
        exact hconn (h.conn_eq he' he)
      simp only [Function.update_of_ne hconn]
      exact (age_insertBack_of_ne hne).trans (h.age conn' e' he')
  shutdowns conn' hexp := by
    have hbefore := h.shutdowns conn' hexp
    by_cases hconn : conn' = conn
    · subst hconn
      rw [if_neg (by omega)] at hbefore
      simpa [insertBack] using hbefore
    · simpa [insertBack, Function.update_of_ne hconn] using hbefore

/-- A new entry gets a pointer of its own. -/
theorem Wheel.connected (h : Wheel s) {conn : C} (hnew : s.entry conn = none) :
    Wheel (s.connectionCb conn true) := by
  have hfresh : ∀ conn' e, s.entry conn' = some e → e ≠ s.entries.length := by
    intro conn' e he
    have := (List.getElem?_eq_some_iff.1 ((h.entry_iff conn' e).1 he)).1
    omega
  refine ⟨h.full.modifyBack _, fun conn' e => ?_, fun conn' e he => ?_, fun conn' hexp => ?_⟩
  · simp only [connectionCb, if_true, insertBack]
    rcases Nat.lt_trichotomy e s.entries.length with hlt | rfl | hgt
    · rw [List.getElem?_append_left hlt, ← h.entry_iff]
      by_cases hconn : conn' = conn
      · subst hconn
        simp [hnew, hlt.ne']
      · rw [Function.update_of_ne hconn]
    · by_cases hconn : conn' = conn
      · subst hconn
        simp
      · rw [Function.update_of_ne hconn]
        have hno : s.entry conn' ≠ some s.entries.length := fun he => hfresh conn' _ he rfl
        simp [hno, Ne.symm hconn]
    · have hout : (s.entries ++ [conn])[e]? = none := by
        rw [List.getElem?_eq_none_iff, List.length_append, List.length_singleton]
        omega
      rw [hout]
      by_cases hconn : conn' = conn
      · subst hconn
        simp [hgt.ne]
      · rw [Function.update_of_ne hconn, h.entry_iff, List.getElem?_eq_none (by omega)]
  · simp only [connectionCb, if_true, insertBack] at he ⊢
    by_cases hconn : conn' = conn
    · subst hconn
      rw [Function.update_self] at he ⊢
      obtain rfl := Option.some.inj he
      exact age_insertBack_self h.full _
    · rw [Function.update_of_ne hconn] at he ⊢
      exact (age_insertBack_of_ne (hfresh conn' e he)).trans (h.age conn' e he)
  · have hbefore := h.shutdowns conn' hexp
    simp only [connectionCb, if_true, insertBack]
    by_cases hconn : conn' = conn
    · subst hconn
      rw [if_neg (by simp [hnew])] at hbefore
      simpa using hbefore
    · rwa [Function.update_of_ne hconn, Function.update_of_ne hconn]

theorem step_wheel (h : Wheel s) {event : Event C} (hadm : Admissible s event) :
    ∃ t, step s event = .ok t ∧ Wheel t := by
  cases event with
  | connection conn connected =>
    refine ⟨_, rfl, ?_⟩
    cases connected with
    | true => exact h.connected (hadm rfl)
    | false => exact h
  | message conn =>
    cases he : s.entry conn with
    | none => exact absurd he hadm
    | some e =>
      cases hlock : s.lock e with
      | true =>
        refine ⟨_, ?_, h.touch he ((h.lock_iff he).1 hlock)⟩
        simp [step, messageCb, he, hlock]
      | false =>
        refine ⟨s, ?_, h⟩
        simp [step, messageCb, he, hlock]
  | tick => exact ⟨_, rfl, h.ontime⟩
  | expire conn =>
    refine ⟨_, rfl, h.full, h.entry_iff, h.age, fun conn' hexp => h.shutdowns conn' ?_⟩
    simp only [Function.update_apply] at hexp
    split at hexp
    · cases hexp
    · exact hexp

/-- **An entry lives for three ticks after the last touch.**  After every run of the callbacks, the
entry of an announced connection is alive exactly while fewer than three ticks have passed since its
last touch.  While the connection's object is there, the wheel has called `shutdown` for it once if
there have been three ticks and not at all before, and a tick calls it exactly when it is the
third. -/
theorem idle_wheel (events : List (Event C)) (hevents : Allowed step Admissible make events) :
    ∃ s, run step (make : HttpServer C) events = .ok s ∧
      ∀ conn e, s.entry conn = some e →
        (s.lock e = true ↔ s.idle conn < 3) ∧
        (s.expired conn = false →
          s.shutdowns conn = (if s.idle conn < 3 then 0 else 1) ∧
          s.ontime.shutdowns conn = s.shutdowns conn + if s.idle conn = 2 then 1 else 0) := by
  obtain ⟨s, hrun, h⟩ := run_invariant (fun _ _ hs hadm => step_wheel hs hadm) events make
    make_wheel hevents
  have hentry : ∀ conn e, s.entry conn = some e → s.entry conn ≠ none := by
    intro conn e he hnone
    rw [he] at hnone
    cases hnone
  refine ⟨s, hrun, fun conn e he => ⟨h.lock_iff he, fun hexp => ⟨?_, ?_⟩⟩⟩
  · rw [h.shutdowns conn hexp]
    simp only [hentry conn e he, ne_eq, not_false_eq_true, true_and]
    split_ifs <;> omega
  · simp only [ontime, hexp, h.card_destroyed]
    simp [hentry conn e he]

/-- Two connections; the one without messages is shut down at the third tick, the other lives. -/
theorem idle_wheel_sample :
    ∃ s, run step (make : HttpServer Nat)
        [.connection 7 true, .connection 8 true, .tick, .message 8, .tick, .tick] = .ok s ∧
      s.lock 0 = false ∧ s.shutdowns 7 = 1 ∧ s.lock 1 = true ∧ s.shutdowns 8 = 0 := by
  obtain ⟨s, hrun, h⟩ := idle_wheel (C := Nat)
    [.connection 7 true, .connection 8 true, .tick, .message 8, .tick, .tick] (by decide +kernel)
  obtain ⟨t, ht, hview⟩ := map_eq_ok.1 (show (run step (make : HttpServer Nat)
      [.connection 7 true, .connection 8 true, .tick, .message 8, .tick, .tick]).map
        (fun s => ((s.entry 7, s.idle 7, s.expired 7), s.entry 8, s.idle 8, s.expired 8)) =
      .ok ((some 0, 3, false), some 1, 2, false) by decide +kernel)
  obtain rfl : s = t := Except.ok.inj (hrun.symm.trans ht)
  simp only [Prod.mk.injEq] at hview
  obtain ⟨⟨hentry, hidle, hexp⟩, hentry', hidle', hexp'⟩ := hview
  obtain ⟨hlock, hshut⟩ := h 7 0 hentry
  obtain ⟨hlock', hshut'⟩ := h 8 1 hentry'
  refine ⟨s, hrun, ?_, ?_, ?_, ?_⟩
  · rw [Bool.eq_false_iff, ne_eq, hlock]
    omega
  · rw [(hshut hexp).1, hidle]
    rfl
  · rw [hlock']
    omega
  · rw [(hshut' hexp').1, hidle']
    rfl

end Step

end HttpServer
