import Mathlib.Data.List.Basic
import Mathlib.Data.List.TakeDrop

/-!
# Searching and splitting lists

* `search` — the position of the first occurrence of a pattern, or the length.
* `cut` — the parts before and after the first occurrence of an element.
* `render` — lines, each followed by a terminator.  A block of non-empty lines that is ended by an
  empty line can be read back from any list that begins with it (`render_cancel`).
* `terminate` — lines, each followed by one element.  Splitting gives them back (`splitOn_terminate`),
  and a prefix that is `Whole` is made of the first lines (`Whole.eq_terminate`).
-/

set_option autoImplicit false

namespace Lines

variable {α : Type} [DecidableEq α]

/-- The position of the first occurrence of `pat`, or the length of the list. -/
def search (pat : List α) : List α → Nat
  | [] => 0
  | x :: xs => if pat.isPrefixOf (x :: xs) then 0 else search pat xs + 1

theorem search_le (pat xs : List α) : search pat xs ≤ xs.length := by
  induction xs with
  | nil => exact Nat.le_refl _
  | cons x xs ih =>
    unfold search
    split
    · exact Nat.zero_le _
    · exact Nat.succ_le_succ ih

/-- A position before the end is an occurrence. -/
theorem search_found {pat xs : List α} (h : search pat xs < xs.length) :
    ∃ rest, xs = xs.take (search pat xs) ++ pat ++ rest := by
  induction xs with
  | nil => cases h
  | cons x xs ih =>
    unfold search at h ⊢
    split at h
    · rename_i hp
      obtain ⟨rest, hrest⟩ := List.isPrefixOf_iff_prefix.1 hp
      exact ⟨rest, by rw [if_pos hp]; simpa using hrest.symm⟩
    · rename_i hp
      obtain ⟨rest, hrest⟩ := ih (by simpa using h)
      refine ⟨rest, ?_⟩
      rw [if_neg hp, List.take_succ_cons, List.cons_append, List.cons_append, ← hrest]

/-- A pattern is found behind a list that does not contain its first element. -/
theorem search_append {a : α} {pat w : List α} (hw : a ∉ w) (rest : List α) :
    search (a :: pat) (w ++ (a :: pat ++ rest)) = w.length := by
  induction w with
  | nil =>
    have hp : (a :: pat).isPrefixOf (a :: (pat ++ rest)) = true :=
      List.isPrefixOf_iff_prefix.2 ⟨rest, rfl⟩
    show search (a :: pat) (a :: (pat ++ rest)) = 0
    rw [search, if_pos hp]
  | cons x w ih =>
    have hne : a ≠ x := fun h => hw (h ▸ List.mem_cons_self)
    rw [List.cons_append, search, if_neg (by simp [List.isPrefixOf, hne]),
      ih (fun h => hw (List.mem_cons_of_mem _ h))]
    rfl

/-- What is added behind an occurrence does not move it. -/
theorem search_append_of_found {pat xs : List α} (h : search pat xs < xs.length) (ys : List α) :
    search pat (xs ++ ys) = search pat xs := by
  induction xs with
  | nil => cases h
  | cons x xs ih =>
    obtain ⟨rest, hrest⟩ := search_found h
    have hlen := congrArg List.length hrest
    rw [List.cons_append]
    unfold search at h ⊢
    by_cases hp : pat.isPrefixOf (x :: xs) = true
    · have hlong : pat.isPrefixOf (x :: (xs ++ ys)) = true :=
        List.isPrefixOf_iff_prefix.2 ((List.isPrefixOf_iff_prefix.1 hp).trans (List.prefix_append _ ys))
      rw [if_pos hp, if_pos hlong]
    · -- the pattern fits into the list, so that it is no longer than the list
      have hlong : ¬pat.isPrefixOf (x :: (xs ++ ys)) = true := by
        intro hlong
        refine hp (List.isPrefixOf_iff_prefix.2 (List.prefix_of_prefix_length_le
          (List.isPrefixOf_iff_prefix.1 hlong) (List.prefix_append (x :: xs) ys) ?_))
        rw [List.length_append, List.length_append] at hlen
        omega
      rw [if_neg hp] at h
      rw [if_neg hp, if_neg hlong, ih (by simpa using h)]

/-- The parts before and after the first `x`. -/
def cut (x : α) : List α → Option (List α × List α)
  | [] => none
  | y :: ys => if y = x then some ([], ys) else (cut x ys).map fun p => (y :: p.1, p.2)

theorem cut_append {x : α} {w : List α} (hw : x ∉ w) (rest : List α) :
    cut x (w ++ x :: rest) = some (w, rest) := by
  induction w with
  | nil => simp [cut]
  | cons y w ih =>
    have hne : y ≠ x := fun h => hw (h ▸ List.mem_cons_self)
    rw [List.cons_append, cut, if_neg hne, ih (fun h => hw (List.mem_cons_of_mem _ h))]
    rfl

theorem cut_eq_some {x : α} {xs w rest : List α} (h : cut x xs = some (w, rest)) :
    xs = w ++ x :: rest ∧ x ∉ w := by
  induction xs generalizing w with
  | nil => cases h
  | cons y ys ih =>
    rw [cut] at h
    split at h
    · rename_i hy
      cases h
      exact ⟨by rw [hy]; rfl, List.not_mem_nil⟩
    · rename_i hy
      obtain ⟨⟨v, rest'⟩, hv, hp⟩ := Option.map_eq_some_iff.1 h
      cases hp
      obtain ⟨rfl, hnot⟩ := ih hv
      exact ⟨rfl, List.not_mem_cons_of_ne_of_not_mem (Ne.symm hy) hnot⟩

theorem append_cons_inj {x : α} {w v s t : List α} (hw : x ∉ w) (hv : x ∉ v)
    (h : w ++ x :: s = v ++ x :: t) : w = v ∧ s = t := by
  have hcut := congrArg (cut x) h
  rw [cut_append hw, cut_append hv] at hcut
  simpa using hcut

omit [DecidableEq α] in
/-- Lines, each followed by the terminator `[a, b]`. -/
def render (a b : α) (ls : List (List α)) : List α := ls.flatMap fun l => l ++ [a, b]

omit [DecidableEq α] in
@[simp] theorem render_cons (a b : α) (l : List α) (ls : List (List α)) :
    render a b (l :: ls) = l ++ a :: b :: render a b ls := by
  simp [render]

omit [DecidableEq α] in
@[simp] theorem render_append (a b : α) (ls ms : List (List α)) :
    render a b (ls ++ ms) = render a b ls ++ render a b ms := List.flatMap_append

omit [DecidableEq α] in
theorem length_le_render (a b : α) (ls : List (List α)) : ls.length ≤ (render a b ls).length := by
  induction ls with
  | nil => exact Nat.zero_le _
  | cons l ls ih =>
    rw [render_cons, List.length_append, List.length_cons, List.length_cons, List.length_cons]
    omega

/-- A block of non-empty lines and the empty line after it are determined by any list that begins
with them. -/
theorem render_cancel {a b : α} {ls ms : List (List α)} {s t : List α}
    (hls : ∀ l ∈ ls, l ≠ [] ∧ a ∉ l) (hms : ∀ l ∈ ms, l ≠ [] ∧ a ∉ l)
    (h : render a b ls ++ a :: b :: s = render a b ms ++ a :: b :: t) : ls = ms ∧ s = t := by
  -- a non-empty line does not begin with the terminator
  have hline : ∀ {l x y : List α}, l ≠ [] ∧ a ∉ l → a :: x ≠ l ++ y := by
    rintro l x y ⟨hne, hmem⟩ heq
    cases l with
    | nil => exact hne rfl
    | cons z l =>
      rw [List.cons_append, List.cons.injEq] at heq
      exact hmem (heq.1 ▸ List.mem_cons_self)
  induction ls generalizing ms with
  | nil =>
    cases ms with
    | nil => simpa [render] using h
    | cons m ms =>
      refine absurd h ?_
      unfold render
      rw [List.flatMap_nil, List.nil_append, List.flatMap_cons, List.append_assoc, List.append_assoc]
      exact hline (hms m List.mem_cons_self)
  | cons l ls ih =>
    cases ms with
    | nil =>
      refine absurd h.symm ?_
      unfold render
      rw [List.flatMap_nil, List.nil_append, List.flatMap_cons, List.append_assoc, List.append_assoc]
      exact hline (hls l List.mem_cons_self)
    | cons m ms =>
      have hsplit : l ++ a :: b :: (render a b ls ++ a :: b :: s) =
          m ++ a :: b :: (render a b ms ++ a :: b :: t) := by
        simpa [render] using h
      obtain ⟨rfl, hrest⟩ := append_cons_inj (hls l List.mem_cons_self).2
        (hms m List.mem_cons_self).2 hsplit
      obtain ⟨rfl, rfl⟩ := ih (fun k hk => hls k (List.mem_cons_of_mem _ hk))
        (fun k hk => hms k (List.mem_cons_of_mem _ hk)) (List.cons.inj hrest).2
      exact ⟨rfl, rfl⟩

/-! ## Lines with a terminator of one element -/

section Terminate

omit [DecidableEq α]

/-- Lines, each followed by `a`. -/
def terminate (a : α) (ls : List (List α)) : List α := ls.flatMap fun l => l ++ [a]

theorem terminate_cons (a : α) (l : List α) (ls : List (List α)) :
    terminate a (l :: ls) = l ++ a :: terminate a ls := by
  simp [terminate]

/-- No line is broken off: the list is empty or ends in `a`. -/
def Whole (a : α) (xs : List α) : Prop := xs = [] ∨ ∃ ys, xs = ys ++ [a]

theorem whole_nil (a : α) : Whole a [] := .inl rfl

theorem Whole.append {a : α} {xs ys : List α} (hxs : Whole a xs) (hys : Whole a ys) :
    Whole a (xs ++ ys) := by
  obtain rfl | ⟨zs, rfl⟩ := hys
  · rwa [List.append_nil]
  · exact .inr ⟨xs ++ zs, (List.append_assoc xs zs [a]).symm⟩

theorem Whole.of_append {a : α} {xs ys : List α} (h : Whole a (xs ++ ys)) : Whole a ys := by
  obtain rfl | ⟨zs, b, rfl⟩ := List.eq_nil_or_concat ys
  · exact whole_nil a
  · obtain hnil | ⟨ws, heq⟩ := h
    · simp at hnil
    · rw [List.concat_eq_append, ← List.append_assoc] at heq
      obtain ⟨-, rfl⟩ := List.append_singleton_inj.1 heq
      exact .inr ⟨zs, List.concat_eq_append⟩

theorem splitOn_terminate [BEq α] [LawfulBEq α] {a : α} {ls : List (List α)}
    (hls : ∀ l ∈ ls, a ∉ l) : (terminate a ls).splitOn a = ls ++ [[]] := by
  induction ls with
  | nil => rfl
  | cons l ls ih =>
    rw [terminate_cons, List.splitOn_append_cons_self_of_not_mem (hls l List.mem_cons_self),
      ih fun k hk => hls k (List.mem_cons_of_mem l hk)]
    rfl

/-- A prefix without a broken line is made of the first lines. -/
theorem Whole.eq_terminate {a : α} {ls : List (List α)} :
    ∀ {xs : List α}, Whole a xs → (∀ l ∈ ls, a ∉ l) → xs <+: terminate a ls →
      ∃ n, xs = terminate a (ls.take n) := by
  induction ls with
  | nil =>
    intro xs _ _ hpre
    exact ⟨0, List.prefix_nil.1 hpre⟩
  | cons l ls ih =>
    intro xs hxs hls hpre
    obtain rfl | ⟨ys, hys⟩ := hxs
    · exact ⟨0, rfl⟩
    rw [terminate_cons, List.append_cons] at hpre
    -- the terminator at the end of the prefix is not in the first line, so that the prefix holds
    -- that line
    have hlong : (l ++ [a]).length ≤ xs.length := by
      by_contra hshort
      rw [List.length_append, List.length_singleton] at hshort
      have hle : xs <+: l := by
        refine List.prefix_of_prefix_length_le hpre ?_ (by omega)
        rw [List.append_assoc]
        exact List.prefix_append l _
      refine hls l List.mem_cons_self (hle.subset ?_)
      rw [hys]
      exact List.mem_append_right ys List.mem_cons_self
    obtain ⟨rest, rfl⟩ := List.prefix_of_prefix_length_le (List.prefix_append _ _) hpre hlong
    have hrest : Whole a rest := Whole.of_append (.inr ⟨ys, hys⟩)
    obtain ⟨n, hn⟩ := ih hrest (fun k hk => hls k (List.mem_cons_of_mem l hk))
      ((List.prefix_append_right_inj (l ++ [a])).1 hpre)
    refine ⟨n + 1, ?_⟩
    rw [List.take_succ_cons, terminate_cons, ← hn, List.append_assoc]
    rfl

end Terminate

end Lines
