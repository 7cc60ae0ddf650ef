import TinyHttpServer.Http.HttpRequest
import TinyHttpServer.Base.LogOrder
import Mathlib.Data.Option.Basic

/-!
# Users and passwords (`HttpRequest::UserVerify` in `src/http/httprequest.cc`)

`UserVerify` sends a `SELECT` for the name and, for a registration that finds no row, an `INSERT`.
The server is the parameter `exec`: what it answers to the text of a statement, and the table after
it.  A call of `mysql_query` may fail for reasons of its own.  `mysql_store_result` is taken to
succeed after a `SELECT` that did, and the columns to be not null.

* `Serves` — what is known of the server: the two statements with plain strings in them.
* `verify_meaning_iff` — when the answer means what it says.
* `register_without_insert` — a registration whose `INSERT` fails is reported as done.
-/

set_option autoImplicit false

open Checked

namespace UserVerify

open HttpRequest

/-- The table `user`: the password of a username. -/
abbrev Table := Bytes → Option Bytes

/-- A row with username and password. -/
abbrev Row := Bytes × Bytes

/-- The rows that a statement returns and the table after it; `none` if it fails. -/
abbrev Exec := Table → Bytes → Option (List Row × Table)

/-! ## The statements -/

/-- The text of the `SELECT`. -/
def selectText (name : Bytes) : Bytes :=
  str "SELECT username, password FROM user WHERE username='" ++ name ++ str "' LIMIT 1"

/-- The text of the `INSERT`. -/
def insertText (name pwd : Bytes) : Bytes :=
  str "INSERT INTO user(username, password) VALUES('" ++ name ++ str "','" ++ pwd ++ str "')"

/-- What `snprintf(order, 256, …)` leaves of a text. -/
def order (text : Bytes) : Bytes := text.take 255

def selectOrder (name : Bytes) : Bytes := order (selectText (Log.cString name))

def insertOrder (name pwd : Bytes) : Bytes := order (insertText (Log.cString name) (Log.cString pwd))

/-- A string that stands for itself between quotes: without quote, backslash and zero byte. -/
def Plain (s : Bytes) : Prop := 39 ∉ s ∧ 92 ∉ s ∧ 0 ∉ s

instance (s : Bytes) : Decidable (Plain s) := inferInstanceAs (Decidable (_ ∧ _ ∧ _))

/-- The answers of the server to the two statements; usernames are unique. -/
structure Serves (exec : Exec) : Prop where
  select : ∀ table name, Plain name →
    exec table (selectText name) = some ((table name).toList.map fun pwd => (name, pwd), table)
  insert : ∀ table name pwd, Plain name → Plain pwd →
    exec table (insertText name pwd) =
      if table name = none then some ([], Function.update table name (some pwd)) else none

/-- The text behind a prefix. -/
def behind (pre text : Bytes) : Option Bytes :=
  if text.take pre.length = pre then some (text.drop pre.length) else none

theorem behind_append (pre rest : Bytes) : behind pre (pre ++ rest) = some rest := by
  simp [behind]

/-- A server that reads the two statements with plain strings, and no others. -/
def plainServer : Exec := fun table text =>
  match behind (str "SELECT username, password FROM user WHERE username='") text with
  | some rest => do
    let (name, tail) ← Lines.cut 39 rest
    guard (tail = str " LIMIT 1")
    return ((table name).toList.map fun pwd => (name, pwd), table)
  | none => do
    let rest ← behind (str "INSERT INTO user(username, password) VALUES('") text
    let (name, tail) ← Lines.cut 39 rest
    let rest ← behind (str ",'") tail
    let (pwd, tail) ← Lines.cut 39 rest
    guard (tail = str ")" ∧ table name = none)
    return ([], Function.update table name (some pwd))

theorem plainServer_serves : Serves plainServer where
  select := by
    intro table name hname
    have hcut : Lines.cut 39 (name ++ str "' LIMIT 1") = some (name, str " LIMIT 1") :=
      Lines.cut_append hname.1 _
    simp only [plainServer, selectText, List.append_assoc, behind_append]
    simp [hcut, guard]
  insert := by
    intro table name pwd hname hpwd
    have hcut : Lines.cut 39 (name ++ (str "','" ++ (pwd ++ str "')"))) =
        some (name, str ",'" ++ (pwd ++ str "')")) := Lines.cut_append hname.1 _
    have hcut' : Lines.cut 39 (pwd ++ str "')") = some (pwd, str ")") :=
      Lines.cut_append hpwd.1 _
    have hselect : behind (str "SELECT username, password FROM user WHERE username='")
        (insertText name pwd) = none := by
      rw [behind, if_neg]
      intro h
      have := congrArg List.head? h
      cases this
    simp only [plainServer, hselect]
    simp only [insertText, List.append_assoc, behind_append, Option.bind_eq_bind, Option.bind_some,
      hcut, hcut']
    by_cases habsent : table name = none
    · simp [habsent, guard]
    · simp [habsent, guard]

section Order

variable {name pwd : Bytes}

theorem selectOrder_eq (hname : Plain name) (hlen : (selectText name).length ≤ 255) :
    selectOrder name = selectText name := by
  rw [selectOrder, Log.cString_of_noZero hname.2.2, order, List.take_of_length_le hlen]

theorem insertOrder_eq (hname : Plain name) (hpwd : Plain pwd)
    (hlen : (insertText name pwd).length ≤ 255) : insertOrder name pwd = insertText name pwd := by
  rw [insertOrder, Log.cString_of_noZero hname.2.2, Log.cString_of_noZero hpwd.2.2, order,
    List.take_of_length_le hlen]

end Order

/-! ## The call -/

section Call

variable (exec : Exec)

/-- `mysql_query`; `ok` tells whether the statement gets to the server and is executed there. -/
def query (ok : Bool) (table : Table) (order : Bytes) : Option (List Row × Table) :=
  if ok then exec table order else none

/-- `flag` before the `SELECT`. -/
def initialFlag (isLogin : Bool) : Bool := if !isLogin then true else false

/-- An iteration of the loop over the rows. -/
def fetchRow (pwd : Bytes) (isLogin : Bool) (row : Row) : Bool :=
  if isLogin then if pwd = Log.cString row.2 then true else false else false

/-- The loop over the rows. -/
def fetchRows (pwd : Bytes) (isLogin : Bool) (rows : List Row) (flag : Bool) : Bool :=
  rows.foldl (fun _ row => fetchRow pwd isLogin row) flag

/-- `flag` after the `INSERT`: it is cleared if the `INSERT` failed, and then set. -/
def insertFlag (_inserted : Bool) : Bool := true

/-- The outcomes of the two calls of `mysql_query`. -/
structure Outcome where
  select : Bool
  insert : Bool
  deriving DecidableEq

/-- `UserVerify`: its answer and the table after it. -/
def userVerify (o : Outcome) (table : Table) (name pwd : Bytes) (isLogin : Bool) : Bool × Table :=
  if name = [] ∨ pwd = [] then (false, table)
  else
    match query exec o.select table (selectOrder name) with
    | none => (false, table)
    | some (rows, table) =>
      let flag := fetchRows pwd isLogin rows (initialFlag isLogin)
      if !isLogin && flag then
        match query exec o.insert table (insertOrder name pwd) with
        | none => (insertFlag false, table)
        | some (_, table) => (insertFlag true, table)
      else (flag, table)

/-- The answer that the parser of requests gets. -/
theorem parser_userVerify (o : Outcome) (table : Table) (name pwd : Bytes) (isLogin : Bool) :
    HttpRequest.userVerify (fun name pwd isLogin => (userVerify exec o table name pwd isLogin).1)
      name pwd isLogin = (userVerify exec o table name pwd isLogin).1 := by
  unfold HttpRequest.userVerify
  split
  · rename_i h
    rw [userVerify, if_pos h]
  · rfl

end Call

/-! ## What the answer means -/

variable {exec : Exec} {o : Outcome} {table : Table} {name pwd : Bytes}

theorem query_select (hexec : Serves exec) (hname : Plain name)
    (hlen : (selectText name).length ≤ 255) (ok : Bool) (table : Table) :
    query exec ok table (selectOrder name) =
      if ok then some ((table name).toList.map fun pwd => (name, pwd), table) else none := by
  rw [query, selectOrder_eq hname hlen, hexec.select table name hname]

theorem query_insert (hexec : Serves exec) (hname : Plain name) (hpwd : Plain pwd)
    (hlen : (insertText name pwd).length ≤ 255) (ok : Bool) (table : Table) :
    query exec ok table (insertOrder name pwd) =
      if ok = true ∧ table name = none then some ([], Function.update table name (some pwd))
      else none := by
  rw [query, insertOrder_eq hname hpwd hlen, hexec.insert table name pwd hname hpwd]
  cases ok <;> simp

/-- A row is an objection to a registration. -/
theorem fetchRows_register (pwd : Bytes) (row : Row) (rows : List Row) (flag : Bool) :
    fetchRows pwd false (row :: rows) flag = false := by
  induction rows generalizing row flag with
  | nil => rfl
  | cons row' rows ih => exact ih row' (fetchRow pwd false row)

/-- A row of a login decides the answer; a row of a registration is an objection. -/
theorem fetchRows_table (pwd : Bytes) (isLogin : Bool) (stored : Option Bytes) :
    fetchRows pwd isLogin (stored.toList.map fun p => (name, p)) (initialFlag isLogin) =
      if isLogin then decide (∃ p ∈ stored, Log.cString p = pwd) else decide (stored = none) := by
  cases stored with
  | none => cases isLogin <;> simp [fetchRows, initialFlag]
  | some p => cases isLogin <;> simp [fetchRows, fetchRow, eq_comm]

section Meaning

variable (hexec : Serves exec) (hne : name ≠ [] ∧ pwd ≠ []) (hname : Plain name)

include hexec hne hname

/-- A login looks at the stored password up to its first zero byte. -/
theorem login_eq (hlen : (selectText name).length ≤ 255) (o : Outcome) (table : Table) :
    userVerify exec o table name pwd true =
      (o.select && decide (∃ p ∈ table name, Log.cString p = pwd), table) := by
  have hcred : ¬(name = [] ∨ pwd = []) := not_or.2 hne
  rw [userVerify, if_neg hcred, query_select hexec hname hlen]
  cases o.select with
  | false => rfl
  | true => simp [fetchRows_table]

/-- A registration answers whether the `SELECT` found no row. -/
theorem register_eq (hpwd : Plain pwd) (hlen : (selectText name).length ≤ 255)
    (hlen' : (insertText name pwd).length ≤ 255) (o : Outcome) (table : Table) :
    userVerify exec o table name pwd false =
      (o.select && decide (table name = none),
        if o.select = true ∧ o.insert = true ∧ table name = none then
          Function.update table name (some pwd) else table) := by
  have hcred : ¬(name = [] ∨ pwd = []) := not_or.2 hne
  rw [userVerify, if_neg hcred, query_select hexec hname hlen]
  cases o.select with
  | false => rfl
  | true =>
    simp only [if_true, fetchRows_table, Bool.false_eq_true, if_false, Bool.not_false,
      Bool.true_and, query_insert hexec hname hpwd hlen']
    by_cases habsent : table name = none
    · cases o.insert <;> simp [habsent, insertFlag]
    · simp [habsent]

end Meaning

/-- What the answer of a call says: a login that the stored password is `pwd`, a registration that
the row has been added.  A call that answers `false` leaves the table as it is, and so does every
login. -/
def Means (o : Outcome) (table : Table) (name pwd : Bytes) (isLogin : Bool) (answer : Bool)
    (after : Table) : Prop :=
  if isLogin then (answer = true ↔ o.select = true ∧ table name = some pwd) ∧ after = table
  else (answer = true ↔ table name = none ∧ o.select = true ∧ o.insert = true) ∧
    (answer = false → after = table)

/-- **When `UserVerify` means what it says.**  The name is plain, and the `SELECT` fits into the 256
bytes of `order`; for a registration so is the password, and the `INSERT` fits as well.  The answer
of a login is right if and only if, as far as the `SELECT` succeeds, the stored password up to its
first zero byte is `pwd` exactly when it is `pwd` as a whole; that of a registration is right if and
only if the `INSERT`, as far as it is sent, succeeds. -/
theorem verify_meaning_iff (hexec : Serves exec) (name pwd : Bytes) (isLogin : Bool)
    (hne : name ≠ [] ∧ pwd ≠ []) (hname : Plain name) (hlen : (selectText name).length ≤ 255)
    (hregister : isLogin = false → Plain pwd ∧ (insertText name pwd).length ≤ 255)
    (o : Outcome) (table : Table) :
    Means o table name pwd isLogin (userVerify exec o table name pwd isLogin).1
        (userVerify exec o table name pwd isLogin).2 ↔
      if isLogin then o.select = true → ∀ p, table name = some p → (Log.cString p = pwd ↔ p = pwd)
      else o.select = true → table name = none → o.insert = true := by
  cases isLogin with
  | true =>
    rw [login_eq hexec hne hname hlen]
    simp only [Means, if_true, and_true, Bool.and_eq_true, decide_eq_true_eq]
    constructor
    · rintro hiff hsel p hp
      constructor
      · intro hstored
        have hright := (hiff.1 ⟨hsel, p, hp, hstored⟩).2
        rw [hp] at hright
        exact Option.some.inj hright
      · rintro rfl
        obtain ⟨-, p', hp', hstored⟩ := hiff.2 ⟨hsel, hp⟩
        rw [Option.mem_def, hp] at hp'
        rwa [Option.some.inj hp'] at hstored ⊢
    · intro hstored
      constructor
      · rintro ⟨hsel, p, hp, hpwd'⟩
        exact ⟨hsel, by rw [← (hstored hsel p hp).1 hpwd']; exact hp⟩
      · rintro ⟨hsel, hp⟩
        exact ⟨hsel, pwd, hp, (hstored hsel pwd hp).2 rfl⟩
  | false =>
    obtain ⟨hpwd, hlen'⟩ := hregister rfl
    rw [register_eq hexec hne hname hpwd hlen hlen']
    simp only [Means, Bool.false_eq_true, if_false, Bool.and_eq_true, decide_eq_true_eq]
    constructor
    · rintro ⟨hiff, -⟩ hsel habsent
      exact (hiff.1 ⟨hsel, habsent⟩).2.2
    · intro hinsert
      refine ⟨⟨?_, ?_⟩, ?_⟩
      · rintro ⟨hsel, habsent⟩
        exact ⟨habsent, hsel, hinsert hsel habsent⟩
      · rintro ⟨habsent, hsel, -⟩
        exact ⟨hsel, habsent⟩
      · intro hanswer
        rw [if_neg]
        rintro ⟨hsel, -, habsent⟩
        simp [hsel, habsent] at hanswer

/-- A login with the right password, and a registration of a new name. -/
theorem verify_meaning_sample :
    Means ⟨true, true⟩ (Function.update (fun _ => none) (str "bob") (some (str "pw"))) (str "bob")
        (str "pw") true
        (userVerify plainServer ⟨true, true⟩ (Function.update (fun _ => none) (str "bob")
          (some (str "pw"))) (str "bob") (str "pw") true).1
        (userVerify plainServer ⟨true, true⟩ (Function.update (fun _ => none) (str "bob")
          (some (str "pw"))) (str "bob") (str "pw") true).2 ∧
      Means ⟨true, true⟩ (fun _ => none) (str "eve") (str "pw") false
        (userVerify plainServer ⟨true, true⟩ (fun _ => none) (str "eve") (str "pw") false).1
        (userVerify plainServer ⟨true, true⟩ (fun _ => none) (str "eve") (str "pw") false).2 := by
  constructor
  · refine (verify_meaning_iff plainServer_serves (str "bob") (str "pw") true (by decide) (by decide)
      (by decide) (fun h => absurd h (by decide)) _ _).2 ?_
    rintro - p hp
    rw [Function.update_self] at hp
    obtain rfl := Option.some.inj hp
    decide
  · exact (verify_meaning_iff plainServer_serves (str "eve") (str "pw") false (by decide) (by decide)
      (by decide) (fun _ => ⟨by decide, by decide⟩) _ _).2 fun _ _ => rfl

/-- A registration of a new name whose `INSERT` fails: the answer is `true`, and the table is as it
was. -/
theorem register_without_insert :
    Serves plainServer ∧
      (userVerify plainServer ⟨true, false⟩ (fun _ => none) (str "eve") (str "pw") false).1 = true ∧
      (userVerify plainServer ⟨true, false⟩ (fun _ => none) (str "eve") (str "pw") false).2 =
        (fun _ => none) ∧
      ¬Means ⟨true, false⟩ (fun _ => none) (str "eve") (str "pw") false
        (userVerify plainServer ⟨true, false⟩ (fun _ => none) (str "eve") (str "pw") false).1
        (userVerify plainServer ⟨true, false⟩ (fun _ => none) (str "eve") (str "pw") false).2 := by
  have hcall := register_eq plainServer_serves (show str "eve" ≠ [] ∧ str "pw" ≠ [] by decide)
    (show Plain (str "eve") by decide) (show Plain (str "pw") by decide) (by decide) (by decide)
    ⟨true, false⟩ fun _ => none
  rw [hcall]
  refine ⟨plainServer_serves, rfl, rfl, ?_⟩
  simp [Means]

end UserVerify
