import Mathlib.Data.List.Induction
import Mathlib.Data.List.TakeDrop

/-!
# SQL texts as token lists

A left-to-right scan of a text, one byte a step: words, symbols, and string literals between single
quotes.  Within a literal a doubled quote stands for a quote, and a backslash changes the meaning of
the byte behind it; before `%` and `_` the backslash stays.  A text whose last literal is not ended
has no tokens.

* `Verbatim` — the strings that stand for themselves between quotes.
* `scan_verbatim` — they do.
* `finish_literal_iff` — conversely, where a string has been put between a quote and a tail without
  quotes, and the text has been cut off somewhere, the text has a literal with this string for its
  value and the tokens of the tail only if the string is verbatim and nothing was cut off.
-/

set_option autoImplicit false

namespace SqlText

inductive Token where
  | word (bytes : List UInt8)
  | symbol (b : UInt8)
  | literal (value : List UInt8)
  deriving DecidableEq, Repr

/-- Where the scan is, with what it has read of a word or of a literal. -/
inductive Mode where
  | plain (word : List UInt8)
  | literal (value : List UInt8)
  /-- behind a quote in a literal, which ends the literal unless another quote follows -/
  | quote (value : List UInt8)
  /-- behind a backslash in a literal -/
  | escape (value : List UInt8)
  deriving DecidableEq, Repr

structure Scan where
  tokens : List Token
  mode : Mode
  deriving DecidableEq, Repr

/-- The single quote. -/
def QUOTE : UInt8 := 39

def BACKSLASH : UInt8 := 92

/-- `%` or `_`: the wildcards of patterns, which keep their backslash. -/
def isWildcard (b : UInt8) : Bool := b = 37 || b = 95

def isSpace (b : UInt8) : Bool := b = 32 || 9 ≤ b && b ≤ 13

/-- Letters, digits, `_`, `$` and all bytes that are not ASCII. -/
def isWord (b : UInt8) : Bool :=
  48 ≤ b && b ≤ 57 || 65 ≤ b && b ≤ 90 || 97 ≤ b && b ≤ 122 || b = 95 || b = 36 || 128 ≤ b

/-- What a backslash and `b` stand for. -/
def unescape (b : UInt8) : List UInt8 :=
  if isWildcard b then [BACKSLASH, b]
  else if b = 48 then [0]
  else if b = 98 then [8]
  else if b = 110 then [10]
  else if b = 114 then [13]
  else if b = 116 then [9]
  else if b = 90 then [26]
  else [b]

def wordToken (word : List UInt8) : List Token := if word = [] then [] else [.word word]

/-- A byte outside of literals. -/
def plainStep (tokens : List Token) (word : List UInt8) (b : UInt8) : Scan :=
  if isWord b then { tokens, mode := .plain (word ++ [b]) }
  else if b = QUOTE then { tokens := tokens ++ wordToken word, mode := .literal [] }
  else if isSpace b then { tokens := tokens ++ wordToken word, mode := .plain [] }
  else { tokens := tokens ++ wordToken word ++ [.symbol b], mode := .plain [] }

def step (s : Scan) (b : UInt8) : Scan :=
  match s.mode with
  | .plain word => plainStep s.tokens word b
  | .literal value =>
    if b = QUOTE then { s with mode := .quote value }
    else if b = BACKSLASH then { s with mode := .escape value }
    else { s with mode := .literal (value ++ [b]) }
  | .quote value =>
    if b = QUOTE then { s with mode := .literal (value ++ [QUOTE]) }
    else plainStep (s.tokens ++ [.literal value]) [] b
  | .escape value => { s with mode := .literal (value ++ unescape b) }

def scan (s : Scan) (text : List UInt8) : Scan := text.foldl step s

/-- The tokens at the end of the text. -/
def finish (s : Scan) : Option (List Token) :=
  match s.mode with
  | .plain word => some (s.tokens ++ wordToken word)
  | .quote value => some (s.tokens ++ [.literal value])
  | .literal _ | .escape _ => none

/-- The tokens of a text. -/
def lex (text : List UInt8) : Option (List Token) := finish (scan ⟨[], .plain []⟩ text)

/-! ## The scan -/

variable {s : Scan} {ts us toks : List Token} {v w xs ys : List UInt8} {b : UInt8}

@[simp] theorem scan_nil (s : Scan) : scan s [] = s := rfl

@[simp] theorem scan_cons (s : Scan) (b : UInt8) (xs : List UInt8) :
    scan s (b :: xs) = scan (step s b) xs := rfl

@[simp] theorem step_literal_quote : step ⟨ts, .literal v⟩ QUOTE = ⟨ts, .quote v⟩ := rfl

@[simp] theorem step_literal_backslash : step ⟨ts, .literal v⟩ BACKSLASH = ⟨ts, .escape v⟩ := rfl

theorem step_literal (hquote : b ≠ QUOTE) (hback : b ≠ BACKSLASH) :
    step ⟨ts, .literal v⟩ b = ⟨ts, .literal (v ++ [b])⟩ := by
  simp [step, hquote, hback]

@[simp] theorem step_quote_quote : step ⟨ts, .quote v⟩ QUOTE = ⟨ts, .literal (v ++ [QUOTE])⟩ := rfl

theorem step_quote (hquote : b ≠ QUOTE) :
    step ⟨ts, .quote v⟩ b = plainStep (ts ++ [.literal v]) [] b := if_neg hquote

@[simp] theorem step_escape : step ⟨ts, .escape v⟩ b = ⟨ts, .literal (v ++ unescape b)⟩ := rfl

theorem scan_append (s : Scan) (xs ys : List UInt8) : scan s (xs ++ ys) = scan (scan s xs) ys :=
  List.foldl_append

/-- The tokens that have been found are left alone. -/
theorem step_shift (ts : List Token) (s : Scan) (b : UInt8) :
    step { s with tokens := ts ++ s.tokens } b =
      { step s b with tokens := ts ++ (step s b).tokens } := by
  unfold step
  cases s.mode with
  | plain word =>
    simp only [plainStep]
    split_ifs <;> simp
  | literal value =>
    simp only
    split_ifs <;> rfl
  | quote value =>
    simp only [plainStep]
    split_ifs <;> simp
  | escape value => rfl

theorem scan_shift (ts : List Token) (s : Scan) (xs : List UInt8) :
    scan { s with tokens := ts ++ s.tokens } xs =
      { scan s xs with tokens := ts ++ (scan s xs).tokens } := by
  induction xs generalizing s with
  | nil => rfl
  | cons b xs ih => rw [scan_cons, scan_cons, step_shift, ih]

theorem finish_shift (ts : List Token) (s : Scan) :
    finish { s with tokens := ts ++ s.tokens } = (finish s).map (ts ++ ·) := by
  unfold finish
  cases s.mode <;> simp

theorem finish_scan_shift (ts : List Token) (s : Scan) (xs : List UInt8) :
    finish (scan { s with tokens := ts ++ s.tokens } xs) = (finish (scan s xs)).map (ts ++ ·) := by
  rw [scan_shift, finish_shift]

/-- Whatever follows, the tokens begin with those that have been found. -/
theorem finish_begins (h : finish (scan s xs) = some toks) : s.tokens <+: toks := by
  have hshift := finish_scan_shift s.tokens { s with tokens := [] } xs
  simp only [List.append_nil] at hshift
  rw [h] at hshift
  obtain ⟨rest, -, hrest⟩ := Option.map_eq_some_iff.1 hshift.symm
  exact ⟨rest, hrest⟩

/-- A literal that has been ended, and the text behind it. -/
theorem finish_quote (hxs : QUOTE ∉ xs) :
    finish (scan ⟨ts, .quote v⟩ xs) = (lex xs).map ((ts ++ [.literal v]) ++ ·) := by
  unfold lex
  cases xs with
  | nil => simp [finish, wordToken]
  | cons b xs =>
    have hb : b ≠ QUOTE := fun h => hxs (h ▸ List.mem_cons_self)
    have hshift := finish_scan_shift (ts ++ [.literal v]) ⟨[], .plain []⟩ (b :: xs)
    simp only [List.append_nil] at hshift
    rw [← hshift, scan_cons, scan_cons, step_quote hb]
    rfl

/-- Without a quote a literal does not end. -/
theorem finish_literal (hxs : QUOTE ∉ xs) : finish (scan ⟨ts, .literal v⟩ xs) = none := by
  have hrun : ∃ w, scan ⟨ts, .literal v⟩ xs = ⟨ts, .literal w⟩ ∨
      scan ⟨ts, .literal v⟩ xs = ⟨ts, .escape w⟩ := by
    induction xs using List.reverseRecOn with
    | nil => exact ⟨v, .inl rfl⟩
    | append_singleton xs b ih =>
      rw [List.mem_append, List.mem_singleton, not_or] at hxs
      have hb : b ≠ QUOTE := Ne.symm hxs.2
      obtain ⟨w, h | h⟩ := ih hxs.1
      · rw [scan_append, h]
        by_cases hback : b = BACKSLASH
        · exact ⟨w, .inr (by rw [hback]; rfl)⟩
        · exact ⟨w ++ [b], .inl (step_literal hb hback)⟩
      · rw [scan_append, h]
        exact ⟨w ++ unescape b, .inl rfl⟩
  obtain ⟨w, h | h⟩ := hrun
  · rw [h]
    rfl
  · rw [h]
    rfl

/-- Within quotes, a doubled quote, an escaped quote and an escaped wildcard. -/
example : lex [39, 39, 39, 92, 39, 92, 37, 39] = some [.literal [39, 39, 92, 37]] := by decide

/-! ## Strings that stand for themselves -/

/-- No quote, and every backslash before a wildcard. -/
def Verbatim : List UInt8 → Prop
  | [] => True
  | b :: rest => b ≠ QUOTE ∧ (b = BACKSLASH → ∃ c ∈ rest.head?, isWildcard c) ∧ Verbatim rest

instance decidableVerbatim : (xs : List UInt8) → Decidable (Verbatim xs)
  | [] => .isTrue trivial
  | b :: rest =>
    have := decidableVerbatim rest
    inferInstanceAs (Decidable (b ≠ QUOTE ∧ (b = BACKSLASH → ∃ c ∈ rest.head?, _) ∧ Verbatim rest))

/-- Strings without quote and backslash are verbatim. -/
theorem verbatim_of_plain (hquote : QUOTE ∉ xs) (hback : BACKSLASH ∉ xs) : Verbatim xs := by
  induction xs with
  | nil => trivial
  | cons b xs ih =>
    rw [List.mem_cons, not_or] at hquote hback
    exact ⟨Ne.symm hquote.1, fun h => absurd h.symm hback.1, ih hquote.2 hback.2⟩

theorem unescape_wildcard (h : isWildcard b) : unescape b = [BACKSLASH, b] := if_pos h

theorem length_unescape (h : ¬isWildcard b) : (unescape b).length = 1 := by
  unfold unescape
  rw [if_neg h]
  split_ifs <;> rfl

/-- **A verbatim string within a literal.** -/
theorem scan_verbatim (ts : List Token) (h : Verbatim xs) :
    scan ⟨ts, .literal v⟩ xs = ⟨ts, .literal (v ++ xs)⟩ := by
  induction hn : xs.length using Nat.strongRecOn generalizing xs v with
  | ind n ih =>
    cases xs with
    | nil => rw [scan_nil, List.append_nil]
    | cons b rest =>
      obtain ⟨hquote, hback, hrest⟩ := h
      by_cases hb : b = BACKSLASH
      · -- the backslash and the wildcard behind it are two steps
        obtain ⟨c, hc, hwild⟩ := hback hb
        subst hb
        cases rest with
        | nil => cases hc
        | cons d rest =>
          obtain rfl : d = c := Option.some.inj hc
          rw [List.length_cons, List.length_cons] at hn
          rw [scan_cons, scan_cons, step_literal_backslash, step_escape, unescape_wildcard hwild,
            ih rest.length (by omega) hrest.2.2 rfl, List.append_assoc]
          rfl
      · rw [List.length_cons] at hn
        rw [scan_cons, step_literal hquote hb, ih rest.length (by omega) hrest rfl, List.append_assoc]
        rfl

/-! ## Strings that do not -/

/-- The literal that begins behind the tokens `ts` has, or had, a value of less than `n` bytes. -/
inductive Falls (ts : List Token) (n : Nat) (s : Scan) : Prop where
  | literal (w : List UInt8) (hw : w.length < n) (hs : s = ⟨ts, .literal w⟩)
  | quote (w : List UInt8) (hw : w.length < n) (hs : s = ⟨ts, .quote w⟩)
  | escape (w : List UInt8) (hw : w.length < n) (hs : s = ⟨ts, .escape w⟩)
  | closed (w : List UInt8) (hw : w.length < n) (hs : ts ++ [.literal w] <+: s.tokens)

theorem Falls.mono {m n : Nat} (h : Falls ts m s) (hmn : m ≤ n) : Falls ts n s := by
  cases h with
  | literal w hw hs => exact .literal w (by omega) hs
  | quote w hw hs => exact .quote w (by omega) hs
  | escape w hw hs => exact .escape w (by omega) hs
  | closed w hw hs => exact .closed w (by omega) hs

theorem Falls.of_closed {n : Nat} (hw : w.length < n) (h : ts ++ [.literal w] <+: s.tokens)
    (xs : List UInt8) : Falls ts n (scan s xs) := by
  refine .closed w hw (h.trans ?_)
  have hshift := scan_shift s.tokens { s with tokens := [] } xs
  simp only [List.append_nil] at hshift
  rw [hshift]
  exact List.prefix_append _ _

theorem plainStep_tokens (ts : List Token) (w : List UInt8) (b : UInt8) :
    ts <+: (plainStep ts w b).tokens := by
  unfold plainStep
  split_ifs <;> simp [List.append_assoc]

/-- **The value of a literal is at most as long as its text**, and of the same length only for a
verbatim string. -/
theorem verbatim_or_falls (ts : List Token) (v xs : List UInt8) :
    Verbatim xs ∨ Falls ts (v.length + xs.length) (scan ⟨ts, .literal v⟩ xs) := by
  induction hn : xs.length using Nat.strongRecOn generalizing xs v with
  | ind n ih =>
    cases xs with
    | nil => exact .inl trivial
    | cons b rest =>
      have hlen : n = rest.length + 1 := hn.symm
      -- the rest of the string, read as a part of a literal that is shorter than the text so far
      have hshort : ∀ {w ys : List UInt8}, ys.length < n → w.length + ys.length < v.length + n →
          Falls ts (v.length + n) (scan ⟨ts, .literal w⟩ ys) := by
        intro w ys hys hw
        rcases ih ys.length hys w ys rfl with hverb | hfalls
        · rw [scan_verbatim ts hverb]
          exact .literal (w ++ ys) (by rw [List.length_append]; omega) rfl
        · exact hfalls.mono (by omega)
      by_cases hquote : b = QUOTE
      · refine .inr ?_
        rw [scan_cons, hquote, step_literal_quote]
        cases rest with
        | nil => exact .quote v (by omega) rfl
        | cons c rest =>
          rw [List.length_cons] at hlen
          by_cases hc : c = QUOTE
          · rw [scan_cons, hc, step_quote_quote]
            exact hshort (by omega) (by rw [List.length_append, List.length_singleton]; omega)
          · rw [scan_cons, step_quote hc]
            exact .of_closed (w := v) (by omega) (plainStep_tokens _ _ _) rest
      · by_cases hback : b = BACKSLASH
        · rw [scan_cons, hback, step_literal_backslash]
          cases rest with
          | nil => exact .inr (.escape v (by omega) rfl)
          | cons c rest =>
            rw [scan_cons, step_escape]
            rw [List.length_cons] at hlen
            by_cases hwild : isWildcard c
            · rcases ih rest.length (by omega) (v ++ unescape c) rest rfl with hverb | hfalls
              · refine .inl ⟨by decide, fun _ => ⟨c, rfl, hwild⟩, ?_, fun h => ?_, hverb⟩
                · rintro rfl
                  cases hwild
                · rw [h] at hwild
                  cases hwild
              · refine .inr (hfalls.mono ?_)
                rw [unescape_wildcard hwild, List.length_append]
                simp only [List.length_cons, List.length_nil]
                omega
            · refine .inr (hshort (by omega) ?_)
              rw [List.length_append, length_unescape hwild]
              omega
        · rw [scan_cons, step_literal hquote hback]
          rcases ih rest.length (by omega) (v ++ [b]) rest rfl with hverb | hfalls
          · exact .inl ⟨hquote, fun h => absurd h hback, hverb⟩
          · refine .inr (hfalls.mono ?_)
            rw [List.length_append, List.length_singleton]
            omega

/-- The tokens of a text whose literal falls short have a shorter literal. -/
theorem Falls.finish {n : Nat} (h : Falls ts n s) (hxs : QUOTE ∉ xs)
    (hfin : SqlText.finish (scan s xs) = some toks ∨
      SqlText.finish (scan s (QUOTE :: xs)) = some toks) :
    ∃ w, w.length < n ∧ ts ++ [.literal w] <+: toks := by
  have hquote : ∀ {w : List UInt8}, SqlText.finish (scan ⟨ts, .quote w⟩ xs) = some toks →
      ts ++ [.literal w] <+: toks := by
    intro w h
    rw [finish_quote hxs] at h
    obtain ⟨rest, -, hrest⟩ := Option.map_eq_some_iff.1 h
    exact ⟨rest, hrest⟩
  have hnone : ∀ {w : List UInt8}, SqlText.finish (scan ⟨ts, .literal w⟩ xs) ≠ some toks := by
    intro w
    rw [finish_literal hxs]
    nofun
  cases h with
  | literal w hw hs =>
    subst hs
    rcases hfin with hfin | hfin
    · exact absurd hfin hnone
    · exact ⟨w, hw, hquote hfin⟩
  | quote w hw hs =>
    subst hs
    rcases hfin with hfin | hfin
    · exact ⟨w, hw, hquote hfin⟩
    · exact absurd hfin hnone
  | escape w hw hs =>
    subst hs
    rcases hfin with hfin | hfin
    · cases xs with
      | nil => cases hfin
      | cons b xs =>
        rw [scan_cons] at hfin
        have hlit : SqlText.finish (scan ⟨ts, .literal (w ++ unescape b)⟩ xs) = none :=
          finish_literal fun h => hxs (List.mem_cons_of_mem _ h)
        cases hlit.symm.trans hfin
    · exact absurd hfin hnone
  | closed w hw hs =>
    rcases hfin with hfin | hfin
    · exact ⟨w, hw, hs.trans (finish_begins hfin)⟩
    · exact ⟨w, hw, hs.trans (finish_begins hfin)⟩

/-- So they are not those of a text with a literal that is long enough. -/
theorem Falls.not_finish {n : Nat} {value : List UInt8} (h : Falls ts n s) (hn : n ≤ value.length)
    (hxs : QUOTE ∉ xs) :
    ¬(SqlText.finish (scan s xs) = some (ts ++ .literal value :: us) ∨
      SqlText.finish (scan s (QUOTE :: xs)) = some (ts ++ .literal value :: us)) := by
  intro hfin
  obtain ⟨w, hw, rest, hrest⟩ := h.finish hxs hfin
  rw [List.append_assoc] at hrest
  have hcons := List.append_cancel_left hrest
  rw [List.singleton_append, List.cons.injEq, Token.literal.injEq] at hcons
  rw [hcons.1] at hw
  omega

/-- **A string between a quote and a tail.**  Where the text `body`, a quote and the tail, cut off
after `k` bytes, is read behind a quote, it gives a literal with the value `value`, which is not
shorter than `body`, and the tokens of the tail, if and only if `body` is this value, is verbatim,
and nothing is cut off. -/
theorem finish_literal_iff {body value tail : List UInt8} {k : Nat}
    (hvalue : body.length ≤ value.length) (htail : QUOTE ∉ tail) (hus : lex tail = some us)
    (hcut : ∀ j < tail.length, lex (tail.take j) ≠ some us) :
    finish (scan ⟨ts, .literal []⟩ ((body ++ QUOTE :: tail).take k)) =
        some (ts ++ .literal value :: us) ↔
      value = body ∧ Verbatim body ∧ (body ++ QUOTE :: tail).length ≤ k := by
  by_cases hk : k ≤ body.length
  · -- the text is cut off before the quote
    rw [List.take_append_of_le_length hk]
    refine iff_of_false (fun h => ?_) fun h => ?_
    · rcases verbatim_or_falls ts [] (body.take k) with hverb | hfall
      · rw [scan_verbatim ts hverb] at h
        cases h
      · refine hfall.not_finish ?_ List.not_mem_nil (.inl h)
        rw [List.length_nil, List.length_take]
        omega
    · have hlen := h.2.2
      rw [List.length_append, List.length_cons] at hlen
      omega
  · obtain ⟨j, rfl⟩ : ∃ j, k = body.length + (j + 1) := ⟨k - body.length - 1, by omega⟩
    have htake : (body ++ QUOTE :: tail).take (body.length + (j + 1)) =
        body ++ QUOTE :: tail.take j := by
      rw [List.take_length_add_append, List.take_succ_cons]
    have htail' : QUOTE ∉ tail.take j := fun h => htail (List.mem_of_mem_take h)
    rw [htake, scan_append]
    by_cases hverb : Verbatim body
    · rw [scan_verbatim ts hverb, List.nil_append, scan_cons, step_literal_quote, finish_quote htail']
      constructor
      · intro h
        obtain ⟨rest, hrest, heq⟩ := Option.map_eq_some_iff.1 h
        rw [List.append_assoc] at heq
        have hcons := List.append_cancel_left heq
        rw [List.singleton_append, List.cons.injEq, Token.literal.injEq] at hcons
        obtain ⟨rfl, rfl⟩ := hcons
        refine ⟨rfl, hverb, ?_⟩
        by_contra hlen
        rw [List.length_append, List.length_cons] at hlen
        exact hcut j (by omega) hrest
      · rintro ⟨rfl, -, hlen⟩
        rw [List.length_append, List.length_cons] at hlen
        rw [List.take_of_length_le (by omega), hus]
        simp
    · have hfall := (verbatim_or_falls ts [] body).resolve_left hverb
      refine iff_of_false (fun h => ?_) fun h => hverb h.2.1
      exact hfall.not_finish (by simpa using hvalue) htail' (.inr h)

end SqlText
