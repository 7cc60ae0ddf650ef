import TinyHttpServer.Http.UserVerify
import TinyHttpServer.Lib.SqlText

/-!
# The texts of the statements of `UserVerify`

`UserVerify` writes the name and the password between the quotes of two templates, with `snprintf`
into 256 bytes.

* `sent` — the texts that a call passes to `mysql_query`; the server is asked nothing else
  (`userVerify_congr`).
* `credentials_stay_data_iff` — every text of a call has the tokens of its template exactly where
  the credentials that are in it are verbatim, have no zero byte, and fit.
* `name_adds_condition` — a name that adds a condition to the `SELECT`.
-/

set_option autoImplicit false

open Checked SqlText

namespace UserVerify

open HttpRequest

/-- The statements of `UserVerify`. -/
inductive Statement where
  | select
  | insert
  deriving DecidableEq, Repr

/-- The tokens of the `SELECT` before the name. -/
def selectFront : List Token :=
  [.word (str "SELECT"), .word (str "username"), .symbol 44, .word (str "password"),
    .word (str "FROM"), .word (str "user"), .word (str "WHERE"), .word (str "username"), .symbol 61]

/-- The tokens of the `INSERT` before the name. -/
def insertFront : List Token :=
  [.word (str "INSERT"), .word (str "INTO"), .word (str "user"), .symbol 40, .word (str "username"),
    .symbol 44, .word (str "password"), .symbol 41, .word (str "VALUES"), .symbol 40]

/-- The tokens of the template, with the credentials for the values of its literals. -/
def Statement.tokens (name pwd : Bytes) : Statement → List Token
  | .select => selectFront ++ .literal name :: [.word (str "LIMIT"), .word (str "1")]
  | .insert => insertFront ++ [.literal name, .symbol 44] ++ .literal pwd :: [.symbol 41]

section Call

variable (exec : Exec) (o : Outcome) (table : Table) (name pwd : Bytes) (isLogin : Bool)

/-- The texts that a call of `UserVerify` passes to `mysql_query`. -/
def sent : List (Statement × Bytes) :=
  if name = [] ∨ pwd = [] then []
  else
    (.select, selectOrder name) ::
      match query exec o.select table (selectOrder name) with
      | none => []
      | some (rows, _) =>
        if !isLogin && fetchRows pwd isLogin rows (initialFlag isLogin) then
          [(.insert, insertOrder name pwd)]
        else []

/-- The call asks the server nothing else. -/
theorem userVerify_congr {exec' : Exec}
    (h : ∀ q ∈ sent exec o table name pwd isLogin, ∀ table, exec table q.2 = exec' table q.2) :
    userVerify exec o table name pwd isLogin = userVerify exec' o table name pwd isLogin := by
  have hquery : ∀ {text : Bytes} (ok : Bool) (table : Table),
      (∀ table, exec table text = exec' table text) →
      query exec ok table text = query exec' ok table text := by
    intro text ok table h
    unfold query
    rw [h]
  unfold sent at h
  unfold userVerify
  split
  · rfl
  · rename_i hcred
    rw [if_neg hcred, List.forall_mem_cons] at h
    obtain ⟨hselect, hinsert⟩ := h
    rw [← hquery o.select table hselect]
    cases hrows : query exec o.select table (selectOrder name) with
    | none => rfl
    | some answer =>
      obtain ⟨rows, table'⟩ := answer
      simp only [hrows] at hinsert ⊢
      split
      · rename_i hreg
        rw [if_pos hreg, List.forall_mem_singleton] at hinsert
        rw [hquery o.insert table' hinsert]
      · rfl

/-- The call is a registration, and the `SELECT` returns no row. -/
def Inserts : Prop :=
  isLogin = false ∧ ∃ table', query exec o.select table (selectOrder name) = some ([], table')

/-- The statements of a call. -/
theorem forall_mem_sent {P : Statement × Bytes → Prop} (hne : ¬(name = [] ∨ pwd = [])) :
    (∀ q ∈ sent exec o table name pwd isLogin, P q) ↔
      P (.select, selectOrder name) ∧
        (Inserts exec o table name isLogin → P (.insert, insertOrder name pwd)) := by
  unfold sent Inserts
  rw [if_neg hne, List.forall_mem_cons]
  refine and_congr_right fun _ => ?_
  cases query exec o.select table (selectOrder name) with
  | none => simp
  | some answer =>
    obtain ⟨rows, table'⟩ := answer
    cases isLogin with
    | true => simp
    | false =>
      cases rows with
      | nil => simp [fetchRows, initialFlag]
      | cons row rows => simp [fetchRows_register]

end Call

/-! ## The tokens of the texts -/

/-- The credential stands for itself between quotes, also as a C string, and the text with it fits
into `order`. -/
def Fits (credential text : Bytes) : Prop :=
  Verbatim credential ∧ 0 ∉ credential ∧ text.length ≤ 255

instance (credential text : Bytes) : Decidable (Fits credential text) :=
  inferInstanceAs (Decidable (_ ∧ _ ∧ _))

theorem cString_length_le (s : Bytes) : (Log.cString s).length ≤ s.length :=
  (List.takeWhile_sublist _).length_le

theorem eq_cString_iff (s : Bytes) : s = Log.cString s ↔ 0 ∉ s := by
  constructor
  · intro h hmem
    rw [h] at hmem
    have := List.mem_takeWhile_imp hmem
    simp at this
  · exact fun h => (Log.cString_of_noZero h).symm

/-- A credential between the quotes of a template that fits into `order` up to its opening quote. -/
theorem lex_order_iff {front tail : Bytes} {ts us : List Token} (credential : Bytes)
    (hfront : scan ⟨[], .plain []⟩ front = ⟨ts, .literal []⟩) (hsize : front.length ≤ 255)
    (htail : QUOTE ∉ tail) (hus : lex tail = some us)
    (hcut : ∀ j < tail.length, lex (tail.take j) ≠ some us) :
    lex (order (front ++ (Log.cString credential ++ QUOTE :: tail))) =
        some (ts ++ .literal credential :: us) ↔
      Fits credential (front ++ (credential ++ QUOTE :: tail)) := by
  rw [order, List.take_append, List.take_of_length_le hsize, lex, scan_append, hfront,
    finish_literal_iff (cString_length_le credential) htail hus hcut, Fits, eq_cString_iff]
  constructor
  · rintro ⟨hzero, hverb, hlen⟩
    rw [Log.cString_of_noZero hzero] at hverb hlen
    refine ⟨hverb, hzero, ?_⟩
    rw [List.length_append]
    omega
  · rintro ⟨hverb, hzero, hlen⟩
    rw [Log.cString_of_noZero hzero]
    rw [List.length_append] at hlen
    exact ⟨hzero, hverb, by omega⟩

theorem selectText_eq (name : Bytes) :
    selectText name = str "SELECT username, password FROM user WHERE username='" ++
      (name ++ QUOTE :: str " LIMIT 1") := by
  simp [selectText, str, QUOTE]

theorem insertText_eq (name pwd : Bytes) :
    insertText name pwd =
      (str "INSERT INTO user(username, password) VALUES('" ++ (name ++ str "','")) ++
        (pwd ++ QUOTE :: str ")") := by
  simp [insertText, str, QUOTE]

/-- **The text of the `SELECT`.** -/
theorem lex_selectOrder_iff (name pwd : Bytes) :
    lex (selectOrder name) = some (Statement.select.tokens name pwd) ↔
      Fits name (selectText name) := by
  rw [selectOrder, selectText_eq, selectText_eq]
  exact lex_order_iff name
    (show scan ⟨[], .plain []⟩ _ = ⟨selectFront, .literal []⟩ by decide +kernel) (by decide)
    (by decide) (by decide +kernel) (by decide +kernel)

/-- **The text of the `INSERT`**, for a name that fits into the `SELECT`. -/
theorem lex_insertOrder_iff (name pwd : Bytes) (hname : Fits name (selectText name)) :
    lex (insertOrder name pwd) = some (Statement.insert.tokens name pwd) ↔
      Fits pwd (insertText name pwd) := by
  obtain ⟨hverb, hzero, hlen⟩ := hname
  have hsize : (str "INSERT INTO user(username, password) VALUES('" ++ (name ++ str "','")).length ≤
      255 := by
    have hselect : (str "SELECT username, password FROM user WHERE username='").length = 52 := rfl
    have hinsert : (str "INSERT INTO user(username, password) VALUES('").length = 45 := rfl
    have hbetween : (str "','").length = 3 := rfl
    rw [selectText_eq] at hlen
    simp only [List.length_append] at hlen ⊢
    omega
  have hfront : scan ⟨[], .plain []⟩
      (str "INSERT INTO user(username, password) VALUES('" ++ (name ++ str "','")) =
        ⟨insertFront ++ [.literal name, .symbol 44], .literal []⟩ := by
    have hinsert : scan ⟨[], .plain []⟩ (str "INSERT INTO user(username, password) VALUES('") =
        ⟨insertFront, .literal []⟩ := by decide +kernel
    rw [scan_append, hinsert, scan_append, scan_verbatim insertFront hverb, List.nil_append]
    rfl
  rw [insertOrder, Log.cString_of_noZero hzero, insertText_eq, insertText_eq]
  exact lex_order_iff pwd hfront hsize (by decide) (by decide +kernel) (by decide +kernel)

/-- The statements of which `Serves` speaks have the tokens of their templates. -/
theorem lex_of_plain {name pwd : Bytes} (hname : Plain name) (hpwd : Plain pwd)
    (hlen : (selectText name).length ≤ 255) (hlen' : (insertText name pwd).length ≤ 255) :
    lex (selectOrder name) = some (Statement.select.tokens name pwd) ∧
      lex (insertOrder name pwd) = some (Statement.insert.tokens name pwd) := by
  have hfits : Fits name (selectText name) :=
    ⟨verbatim_of_plain hname.1 hname.2.1, hname.2.2, hlen⟩
  have hfits' : Fits pwd (insertText name pwd) :=
    ⟨verbatim_of_plain hpwd.1 hpwd.2.1, hpwd.2.2, hlen'⟩
  exact ⟨(lex_selectOrder_iff name pwd).2 hfits, (lex_insertOrder_iff name pwd hfits).2 hfits'⟩

/-- **Credentials as data.**  Every text that a call of `UserVerify` passes to `mysql_query` has the
tokens of its template, with the name and the password for the values of its literals, if and only if
the call sends nothing because a credential is empty, or the name fits into the `SELECT` and, when a
registration goes on to the `INSERT`, the password fits into that. -/
theorem credentials_stay_data_iff (exec : Exec) (o : Outcome) (table : Table) (name pwd : Bytes)
    (isLogin : Bool) :
    (∀ q ∈ sent exec o table name pwd isLogin, lex q.2 = some (q.1.tokens name pwd)) ↔
      name = [] ∨ pwd = [] ∨ Fits name (selectText name) ∧
        (Inserts exec o table name isLogin → Fits pwd (insertText name pwd)) := by
  by_cases hne : name = [] ∨ pwd = []
  · refine iff_of_true ?_ ?_
    · rw [sent, if_pos hne]
      exact fun q hq => absurd hq List.not_mem_nil
    · exact hne.imp_right .inl
  · rw [forall_mem_sent exec o table name pwd isLogin hne, lex_selectOrder_iff]
    rw [not_or] at hne
    simp only [hne.1, hne.2, false_or]
    exact and_congr_right fun hname => imp_congr_right fun _ => lex_insertOrder_iff name pwd hname

/-- The name `' OR '1'='1`: the `SELECT` has no literal with it, but one more condition. -/
theorem name_adds_condition :
    (∃ q ∈ sent plainServer ⟨true, true⟩ (fun _ => none) (str "' OR '1'='1") (str "pw") true,
      lex q.2 = some (selectFront ++ [.literal [], .word (str "OR"), .literal (str "1"), .symbol 61,
        .literal (str "1"), .word (str "LIMIT"), .word (str "1")])) ∧
      ¬∀ q ∈ sent plainServer ⟨true, true⟩ (fun _ => none) (str "' OR '1'='1") (str "pw") true,
        lex q.2 = some (q.1.tokens (str "' OR '1'='1") (str "pw")) := by
  have hfirst : (.select, selectOrder (str "' OR '1'='1")) ∈ sent plainServer ⟨true, true⟩
      (fun _ => none) (str "' OR '1'='1") (str "pw") true := List.mem_cons_self
  have htokens : lex (selectOrder (str "' OR '1'='1")) = some (selectFront ++ [.literal [],
      .word (str "OR"), .literal (str "1"), .symbol 61, .literal (str "1"), .word (str "LIMIT"),
      .word (str "1")]) := by decide +kernel
  refine ⟨⟨_, hfirst, htokens⟩, fun hall => ?_⟩
  have hdata := (hall _ hfirst).symm.trans htokens
  revert hdata
  decide +kernel

end UserVerify
