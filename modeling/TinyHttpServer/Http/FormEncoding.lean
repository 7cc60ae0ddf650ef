import TinyHttpServer.Http.FormScan
import Mathlib.Algebra.BigOperators.Group.List.Basic

/-!
# Encoded forms

What `ParseFromUrlencoded_` makes of a body that is a list of pairs, `key=value` joined by `'&'`.

* `Reads` — a text without separators that the loop takes over as one part of a component.
* `parse_pairs` — the pairs of a body are entered into the map in the order in which they stand.
* `form_splits` — a form without escapes gives exactly its pairs, with blanks for the `'+'`.
* `form_decodes_iff` — the encoding of a form is undone exactly when it has no escapes.
-/

set_option autoImplicit false

open Checked

namespace HttpRequest

/-! ## Components -/

/-- The loop takes over `text` as `part`, and goes on behind it. -/
def Reads (text part : Bytes) : Prop :=
  ∀ (f : FormScan) (rest : Bytes),
    f.scan (text ++ rest) = FormScan.scan { f with part := f.part ++ part } rest

theorem Reads.nil : Reads [] [] := by
  intro f rest
  simp

theorem Reads.append {s t p q : Bytes} (hs : Reads s p) (ht : Reads t q) :
    Reads (s ++ t) (p ++ q) := by
  intro f rest
  rw [List.append_assoc, hs, ht, List.append_assoc]

theorem Reads.flatMap {text part : UInt8 → Bytes} {w : Bytes}
    (h : ∀ b ∈ w, Reads (text b) (part b)) : Reads (w.flatMap text) (w.flatMap part) := by
  induction w with
  | nil => exact Reads.nil
  | cons b w ih =>
    rw [List.flatMap_cons, List.flatMap_cons]
    exact (h b List.mem_cons_self).append (ih fun c hc => h c (List.mem_cons_of_mem b hc))

/-- A byte that means nothing to the loop. -/
theorem Reads.byte {b : UInt8} (h : b ≠ 61 ∧ b ≠ 38 ∧ b ≠ 37 ∧ b ≠ 43) : Reads [b] [b] := by
  obtain ⟨heq, hamp, hpercent, hplus⟩ := h
  intro f rest
  rw [List.singleton_append, FormScan.scan_byte f hpercent, FormScan.byte, if_neg heq, if_neg hplus,
    if_neg hamp]

theorem Reads.plus : Reads [43] [SP] := by
  intro f rest
  rw [List.singleton_append, FormScan.scan_byte f (by decide)]
  rfl

theorem Reads.escape (high low : UInt8) : Reads [37, high, low] (escaped high low) := by
  intro f rest
  exact FormScan.scan_escape f high low rest

/-! ## Pairs -/

/-- `key=value`. -/
def pairText (p : Bytes × Bytes) : Bytes := p.1 ++ 61 :: p.2

/-- The pairs of a form, joined by `'&'`. -/
def formText : List (Bytes × Bytes) → Bytes
  | [] => []
  | [p] => pairText p
  | p :: q :: pairs => pairText p ++ 38 :: formText (q :: pairs)

/-- The loop reads the pair `text` as the pair `p`. -/
def ReadsPair (text p : Bytes × Bytes) : Prop := Reads text.1 p.1 ∧ Reads text.2 p.2

theorem scan_pairText {text p : Bytes × Bytes} (h : ReadsPair text p) {f : FormScan}
    (hpart : f.part = []) (rest : Bytes) :
    f.scan (pairText text ++ rest) = FormScan.scan { f with key := p.1, part := p.2 } rest := by
  rw [pairText, List.append_assoc, h.1, List.cons_append, FormScan.scan_byte _ (by decide), h.2, hpart]
  rfl

/-- The pairs of a body, entered one after the other; the last one is still in the variables. -/
theorem scan_formText {texts : List (Bytes × Bytes)} {p : Bytes × Bytes} :
    ∀ {pairs : List (Bytes × Bytes)}, List.Forall₂ ReadsPair texts (pairs ++ [p]) →
      ∀ {f : FormScan}, f.part = [] →
        f.scan (formText texts) =
          some { post := pairs.foldl Assoc.enter f.post, key := p.1, part := p.2 } := by
  induction texts with
  | nil =>
    intro pairs h
    have hlen := h.length_eq
    simp at hlen
  | cons text texts ih =>
    intro pairs h f hpart
    cases pairs with
    | nil =>
      obtain ⟨hp, hnil⟩ := List.forall₂_cons.1 h
      obtain rfl := List.forall₂_nil_right_iff.1 hnil
      have hscan := scan_pairText hp hpart []
      rw [List.append_nil] at hscan
      rw [formText, hscan]
      rfl
    | cons q pairs =>
      obtain ⟨hq, htail⟩ := List.forall₂_cons.1 h
      cases texts with
      | nil =>
        have hlen := htail.length_eq
        simp at hlen
      | cons text' texts =>
        rw [formText, scan_pairText hq hpart, FormScan.scan_byte _ (by decide)]
        exact ih htail rfl

/-- What the decoding of a form without other fields leaves in the map. -/
def formMap (pairs : List (Bytes × Bytes)) (p : Bytes × Bytes) : Bytes → Option Bytes :=
  FormScan.finish { post := Assoc.lastWins pairs, key := p.1, part := p.2 }

/-- **The pairs of a body** are entered in the order in which they stand; the last one only if its
key is not there yet and its value is not empty. -/
theorem parse_pairs {req : HttpRequest} {texts pairs : List (Bytes × Bytes)} {p : Bytes × Bytes}
    (hpairs : List.Forall₂ ReadsPair texts (pairs ++ [p])) (hbody : req.body = formText texts)
    (hpost : req.post = fun _ => none) :
    ∃ body, req.parseFromUrlencoded = .ok { req with body, post := formMap pairs p } := by
  have hscan : (FormScan.start req.post).scan req.body =
      some { post := Assoc.lastWins pairs, key := p.1, part := p.2 } := by
    rw [hbody, scan_formText hpairs rfl, FormScan.start, hpost, Assoc.foldl_enter_none]
  have heq := parseFromUrlencoded_eq req
  rw [hscan] at heq
  exact heq

theorem formMap_new {pairs : List (Bytes × Bytes)} {p : Bytes × Bytes}
    (hkeys : ((pairs ++ [p]).map Prod.fst).Nodup) (hvalue : p.2 ≠ []) :
    formMap pairs p = Assoc.lastWins (pairs ++ [p]) := by
  have hnew : Assoc.lastWins pairs p.1 = none := by
    apply Assoc.lastWins_eq_none
    intro hmem
    rw [List.map_append, List.nodup_append] at hkeys
    exact hkeys.2.2 _ hmem _ (by simp) rfl
  rw [formMap, FormScan.finish, if_pos ⟨hnew, hvalue⟩, ← Assoc.foldl_enter_none,
    ← Assoc.foldl_enter_none, List.foldl_append]
  rfl

/-- Nothing gets into the map that is not a pair of the body. -/
theorem mem_of_formMap {pairs : List (Bytes × Bytes)} {p : Bytes × Bytes} {k v : Bytes}
    (h : formMap pairs p k = some v) : (k, v) ∈ pairs ++ [p] := by
  unfold formMap FormScan.finish at h
  split at h
  · rw [Assoc.enter, Function.update_apply] at h
    split at h
    · rename_i hk
      obtain rfl := Option.some.inj h
      exact List.mem_append_right _ (by simp [hk])
    · exact List.mem_append_left _ (Assoc.mem_of_lastWins h)
  · exact List.mem_append_left _ (Assoc.mem_of_lastWins h)

/-- Where every pair is read as a pair of the list, so is the whole form. -/
theorem readsPairs_map {enc dec : Bytes × Bytes → Bytes × Bytes} {pairs : List (Bytes × Bytes)}
    (h : ∀ p ∈ pairs, ReadsPair (enc p) (dec p)) :
    List.Forall₂ ReadsPair (pairs.map enc) (pairs.map dec) :=
  List.forall₂_map_left_iff.2 (List.forall₂_map_right_iff.2 (List.forall₂_same.2 h))

/-! ## Forms without escapes -/

/-- A component without `'='`, `'&'` and `'%'`. -/
def PercentFree (w : Bytes) : Prop := 61 ∉ w ∧ 38 ∉ w ∧ 37 ∉ w

instance (w : Bytes) : Decidable (PercentFree w) := inferInstanceAs (Decidable (_ ∧ _ ∧ _))

def plusToSpace (w : Bytes) : Bytes := w.map fun b => if b = 43 then SP else b

def plusPair (p : Bytes × Bytes) : Bytes × Bytes := (plusToSpace p.1, plusToSpace p.2)

theorem reads_percentFree {w : Bytes} (h : PercentFree w) : Reads w (plusToSpace w) := by
  obtain ⟨heq, hamp, hpercent⟩ := h
  have hbyte : ∀ b ∈ w, Reads [b] [if b = 43 then SP else b] := by
    intro b hb
    by_cases hplus : b = 43
    · rw [if_pos hplus, hplus]
      exact Reads.plus
    · rw [if_neg hplus]
      refine Reads.byte ⟨?_, ?_, ?_, hplus⟩
      · exact fun h => heq (h ▸ hb)
      · exact fun h => hamp (h ▸ hb)
      · exact fun h => hpercent (h ▸ hb)
  have hreads := Reads.flatMap hbyte
  rwa [List.flatMap_singleton', ← List.map_eq_flatMap] at hreads

/-- **Splitting of forms without escapes.**  A body `k1=v1&...&kn=vn`, whose keys are different once
the `'+'` are blanks and whose last value is not empty, gives the map with exactly these pairs. -/
theorem form_splits (req : HttpRequest) (pairs : List (Bytes × Bytes)) (hne : pairs ≠ [])
    (hfree : ∀ p ∈ pairs, PercentFree p.1 ∧ PercentFree p.2)
    (hkeys : (pairs.map fun p => plusToSpace p.1).Nodup) (hlast : (pairs.getLast hne).2 ≠ [])
    (hbody : req.body = formText pairs) (hpost : req.post = fun _ => none) :
    ∃ req', req.parseFromUrlencoded = .ok req' ∧
      ∀ k v, req'.post k = some v ↔ (k, v) ∈ pairs.map plusPair := by
  have hreads : List.Forall₂ ReadsPair (pairs.map id) (pairs.map plusPair) :=
    readsPairs_map fun p hp =>
      ⟨reads_percentFree (hfree p hp).1, reads_percentFree (hfree p hp).2⟩
  have hkeys' : ((pairs.map plusPair).map Prod.fst).Nodup := by
    rw [List.map_map]
    exact hkeys
  obtain ⟨init, p, rfl⟩ := (List.eq_nil_or_concat' pairs).resolve_left hne
  have hvalue : (plusPair p).2 ≠ [] := by
    simpa [plusPair, plusToSpace] using hlast
  rw [List.map_id, List.map_append] at hreads
  rw [List.map_append] at hkeys'
  obtain ⟨body, hparse⟩ := parse_pairs hreads hbody hpost
  refine ⟨_, hparse, fun k v => ?_⟩
  rw [List.map_append]
  show formMap _ _ k = some v ↔ _
  rw [formMap_new hkeys' hvalue]
  exact Assoc.lastWins_eq_some_iff hkeys'

/-- `a+b=&c=d+e`. -/
theorem form_splits_sample :
    ∃ req', parseFromUrlencoded { init with body := str "a+b=&c=d+e" } = .ok req' ∧
      ∀ k v, req'.post k = some v ↔
        (k, v) ∈ [(str "a+b", str ""), (str "c", str "d+e")].map plusPair :=
  form_splits { init with body := str "a+b=&c=d+e" } [(str "a+b", str ""), (str "c", str "d+e")]
    (by decide) (by decide) (by decide) (by decide) (by decide) rfl

/-! ## Percent-encoding -/

/-- How `application/x-www-form-urlencoded` writes bytes: which of them stand for themselves, and
the hexadecimal digits. -/
structure FormCoding where
  unreserved : UInt8 → Bool
  digit : Nat → UInt8
  unreserved_ok : ∀ b, unreserved b = true → b ≠ 61 ∧ b ≠ 38 ∧ b ≠ 37 ∧ b ≠ 43
  digit_ok : ∀ v, v < 16 → (str "0123456789ABCDEF")[v]? = some (digit v) ∨
    (str "0123456789abcdef")[v]? = some (digit v)

namespace FormCoding

variable (coding : FormCoding)

/-- A byte that is written with a `'%'`. -/
def escapes (b : UInt8) : Bool := b ≠ SP && !coding.unreserved b

def encodeByte (b : UInt8) : Bytes :=
  if b = SP then [43]
  else if coding.unreserved b then [b]
  else [37, coding.digit (b.toNat / 16), coding.digit (b.toNat % 16)]

def encode (w : Bytes) : Bytes := w.flatMap coding.encodeByte

def encodePair (p : Bytes × Bytes) : Bytes × Bytes := (coding.encode p.1, coding.encode p.2)

/-- What the loop makes of an encoded byte. -/
def readByte (b : UInt8) : Bytes :=
  if coding.escapes b then
    escaped (coding.digit (b.toNat / 16)) (coding.digit (b.toNat % 16))
  else [b]

def readPair (p : Bytes × Bytes) : Bytes × Bytes :=
  (p.1.flatMap coding.readByte, p.2.flatMap coding.readByte)

theorem reads_encodeByte (b : UInt8) : Reads (coding.encodeByte b) (coding.readByte b) := by
  unfold encodeByte readByte escapes
  by_cases hsp : b = SP
  · simp only [hsp, if_true, ne_eq, not_true, decide_false, Bool.false_and, Bool.false_eq_true,
      if_false]
    exact Reads.plus
  · cases hun : coding.unreserved b with
    | true =>
      simp only [hsp, if_false, if_true, Bool.not_true, Bool.and_false, Bool.false_eq_true]
      exact Reads.byte (coding.unreserved_ok b hun)
    | false =>
      simp only [hsp, if_false, if_true, Bool.not_false, Bool.and_true, ne_eq, not_false_eq_true,
        decide_true, Bool.false_eq_true]
      exact Reads.escape _ _

theorem reads_encodePair (p : Bytes × Bytes) : ReadsPair (coding.encodePair p) (coding.readPair p) :=
  ⟨Reads.flatMap fun b _ => coding.reads_encodeByte b,
    Reads.flatMap fun b _ => coding.reads_encodeByte b⟩

theorem readByte_length (b : UInt8) :
    (coding.readByte b).length = 1 + 2 * (coding.escapes b).toNat := by
  unfold readByte
  cases coding.escapes b <;> rfl

/-- The bytes of a pair that are written with a `'%'`. -/
def escapeCount (p : Bytes × Bytes) : Nat := (p.1 ++ p.2).countP coding.escapes

/-- An escape makes the decoded component two bytes longer. -/
theorem flatMap_readByte_length (w : Bytes) :
    (w.flatMap coding.readByte).length = w.length + 2 * w.countP coding.escapes := by
  induction w with
  | nil => rfl
  | cons b w ih =>
    rw [List.flatMap_cons, List.length_append, ih, readByte_length, List.length_cons,
      List.countP_cons]
    cases coding.escapes b <;> simp <;> omega

theorem flatMap_readByte_of_plain {w : Bytes} (h : ∀ b ∈ w, coding.escapes b = false) :
    w.flatMap coding.readByte = w := by
  induction w with
  | nil => rfl
  | cons b w ih =>
    rw [List.flatMap_cons, ih fun c hc => h c (List.mem_cons_of_mem b hc), readByte,
      h b List.mem_cons_self]
    rfl

/-- Upper-case digits, and the unreserved bytes of HTML forms. -/
def standard : FormCoding where
  unreserved b :=
    (48 ≤ b && b ≤ 57) || (65 ≤ b && b ≤ 90) || (97 ≤ b && b ≤ 122) || b = 42 || b = 45 || b = 46 ||
      b = 95
  digit v := (str "0123456789ABCDEF").getD v 0
  unreserved_ok := by
    intro b hb
    refine ⟨?_, ?_, ?_, ?_⟩ <;> rintro rfl <;> revert hb <;> decide
  digit_ok := by decide

end FormCoding

/-- The size of a pair. -/
def pairSize (p : Bytes × Bytes) : Nat := p.1.length + p.2.length

theorem FormCoding.pairSize_readPair (coding : FormCoding) (p : Bytes × Bytes) :
    pairSize (coding.readPair p) = pairSize p + 2 * coding.escapeCount p := by
  unfold pairSize readPair escapeCount
  rw [coding.flatMap_readByte_length, coding.flatMap_readByte_length, List.countP_append]
  omega

/-- A map that has exactly the pairs of a list with distinct keys, and nothing but the pairs of
another list of the same length: the two lists have the same pairs. -/
theorem perm_of_same_map {pairs decoded : List (Bytes × Bytes)} {m : Bytes → Option Bytes}
    (hkeys : (pairs.map Prod.fst).Nodup) (hlen : decoded.length = pairs.length)
    (hm : ∀ k v, m k = some v ↔ (k, v) ∈ pairs) (hdecoded : ∀ k v, m k = some v → (k, v) ∈ decoded) :
    pairs.Perm decoded := by
  have hsub : pairs ⊆ decoded := by
    rintro ⟨k, v⟩ hmem
    exact hdecoded k v ((hm k v).2 hmem)
  exact (List.subperm_of_subset hkeys.of_map hsub).perm_of_length_le (Nat.le_of_eq hlen)

/-- **Decoding undoes encoding** for a non-empty list of pairs with distinct keys and non-empty
values if and only if no byte of it is written with a `'%'`. -/
theorem form_decodes_iff (coding : FormCoding) (req : HttpRequest) (pairs : List (Bytes × Bytes))
    (hne : pairs ≠ []) (hkeys : (pairs.map Prod.fst).Nodup) (hvalues : ∀ p ∈ pairs, p.2 ≠ [])
    (hbody : req.body = formText (pairs.map coding.encodePair)) (hpost : req.post = fun _ => none) :
    (∃ req', req.parseFromUrlencoded = .ok req' ∧ ∀ k v, req'.post k = some v ↔ (k, v) ∈ pairs) ↔
      ∀ p ∈ pairs, ∀ b ∈ p.1 ++ p.2, b = SP ∨ coding.unreserved b = true := by
  have hreads : List.Forall₂ ReadsPair (pairs.map coding.encodePair) (pairs.map coding.readPair) :=
    readsPairs_map fun p _ => coding.reads_encodePair p
  have hplain : (∀ p ∈ pairs, ∀ b ∈ p.1 ++ p.2, b = SP ∨ coding.unreserved b = true) ↔
      ∀ p ∈ pairs, coding.escapeCount p = 0 := by
    simp only [FormCoding.escapeCount, List.countP_eq_zero, FormCoding.escapes]
    simp [or_iff_not_imp_left]
  rw [hplain]
  obtain ⟨init, p, rfl⟩ := (List.eq_nil_or_concat' pairs).resolve_left hne
  have hmap : (init ++ [p]).map coding.readPair =
      init.map coding.readPair ++ [coding.readPair p] := List.map_append
  rw [hmap] at hreads
  obtain ⟨body, hparse⟩ := parse_pairs hreads hbody hpost
  rw [hparse]
  constructor
  · rintro ⟨_, hret, hpairs⟩
    cases hret
    have hperm : (init ++ [p]).Perm ((init ++ [p]).map coding.readPair) := by
      refine perm_of_same_map hkeys (List.length_map _) hpairs fun k v hkv => ?_
      rw [hmap]
      exact mem_of_formMap hkv
    -- both lists have the same number of bytes, so that no escape can have added any
    have hsum := (hperm.map pairSize).sum_eq
    have hsize : pairSize ∘ coding.readPair = fun q => pairSize q + 2 * coding.escapeCount q :=
      funext coding.pairSize_readPair
    rw [List.map_map, hsize, List.sum_map_add] at hsum
    have hzero : ((init ++ [p]).map fun q => 2 * coding.escapeCount q).sum = 0 := by omega
    rw [List.sum_eq_zero_iff_forall_eq_nat] at hzero
    intro q hq
    have := hzero _ (List.mem_map_of_mem hq)
    omega
  · intro hzero
    have hsame : ∀ q ∈ init ++ [p], coding.readPair q = q := by
      intro q hq
      have hcount := List.countP_eq_zero.1 (hzero q hq)
      have hbyte : ∀ b ∈ q.1 ++ q.2, coding.escapes b = false := fun b hb => by
        simpa using hcount b hb
      exact Prod.ext
        (coding.flatMap_readByte_of_plain fun b hb => hbyte b (List.mem_append_left _ hb))
        (coding.flatMap_readByte_of_plain fun b hb => hbyte b (List.mem_append_right _ hb))
    have hinit : init.map coding.readPair = init :=
      (List.map_congr_left fun q hq => hsame q (List.mem_append_left _ hq)).trans (List.map_id _)
    rw [hinit, hsame p (by simp)]
    refine ⟨_, rfl, fun k v => ?_⟩
    show formMap init p k = some v ↔ _
    rw [formMap_new hkeys (hvalues p (by simp))]
    exact Assoc.lastWins_eq_some_iff hkeys

/-- `name=a b`. -/
theorem form_decodes_sample :
    ∃ req', parseFromUrlencoded { init with body := str "name=a+b" } = .ok req' ∧
      ∀ k v, req'.post k = some v ↔ (k, v) ∈ [(str "name", str "a b")] :=
  (form_decodes_iff .standard { init with body := str "name=a+b" } [(str "name", str "a b")]
    (by decide) (by decide) (by decide) (by decide) rfl).2 (by decide +kernel)

/-- The value `A&B`: its second byte comes back as three. -/
theorem escape_not_decoded :
    formText ([(str "x", str "A&B")].map FormCoding.standard.encodePair) = str "x=A%26B" ∧
      ¬∃ req', parseFromUrlencoded { init with body := str "x=A%26B" } = .ok req' ∧
        ∀ k v, req'.post k = some v ↔ (k, v) ∈ [(str "x", str "A&B")] := by
  refine ⟨by decide, ?_⟩
  rintro ⟨req', hparse, hpairs⟩
  have hvalue : (parseFromUrlencoded { init with body := str "x=A%26B" }).map
      (fun r => r.post (str "x")) = .ok (some [65, 37, 133, 52, 66]) := by decide +kernel
  rw [hparse] at hvalue
  have hfive : req'.post (str "x") = some [65, 37, 133, 52, 66] := Except.ok.inj hvalue
  have hmem := (hpairs _ _).1 hfive
  revert hmem
  decide

end HttpRequest
