import Mathlib.Data.List.Infix

/-!
# Paths and their resolution

A path is a string over any alphabet with a separator and a dot.  It is resolved lexically: from its
components alone, without a look at a file system.  A place is the list of the names that lead to it
from the root, and at the root `..` leads nowhere.

* `Net` — what is left of a series of components when every `..` is cancelled against the name before
  it: some `..`, and names behind them (`walk_eq`).
* `resolve_inside_iff` — whether a longer path stays inside the place of a shorter one.
-/

set_option autoImplicit false

namespace Paths

/-! ## Walks -/

/-- A component of a path. -/
inductive Component (α : Type) where
  | here
  | up
  | name (n : α)
  deriving DecidableEq, Repr

/-- Some `..`, and names behind them. -/
structure Net (α : Type) where
  ups : Nat
  names : List α
  deriving DecidableEq, Repr

section Walk

variable {α : Type}

/-- One component, read at a place. -/
def move (place : List α) : Component α → List α
  | .here => place
  | .up => place.dropLast
  | .name n => place ++ [n]

/-- The place to which components lead. -/
def walk (place : List α) (cs : List (Component α)) : List α := cs.foldl move place

/-- One component behind a net. -/
def Net.read (net : Net α) : Component α → Net α
  | .here => net
  | .up => if net.names.isEmpty then { net with ups := net.ups + 1 }
      else { net with names := net.names.dropLast }
  | .name n => { net with names := net.names ++ [n] }

/-- What is left of components. -/
def netOf (cs : List (Component α)) : Net α := cs.foldl Net.read ⟨0, []⟩

/-- A net, read at a place. -/
def Net.apply (net : Net α) (place : List α) : List α :=
  place.take (place.length - net.ups) ++ net.names

@[simp] theorem walk_nil (place : List α) : walk place [] = place := rfl

theorem walk_append (place : List α) (cs ds : List (Component α)) :
    walk place (cs ++ ds) = walk (walk place cs) ds := List.foldl_append

theorem read_apply (net : Net α) (place : List α) (c : Component α) :
    (net.read c).apply place = move (net.apply place) c := by
  cases c with
  | here => rfl
  | name n => exact (List.append_assoc _ _ _).symm
  | up =>
    unfold Net.apply move
    by_cases hnames : net.names = []
    · have hread : net.read .up = { net with ups := net.ups + 1 } := if_pos (by rw [hnames]; rfl)
      rw [hread, hnames, List.append_nil, List.append_nil, List.dropLast_eq_take, List.take_take,
        List.length_take]
      congr 1
      change place.length - (net.ups + 1) = _
      omega
    · have hread : net.read .up = { net with names := net.names.dropLast } :=
        if_neg fun h => hnames (List.isEmpty_iff.1 h)
      rw [hread]
      exact (List.dropLast_append_of_ne_nil hnames).symm

/-- **A walk and its net.** -/
theorem walk_eq (place : List α) (cs : List (Component α)) :
    walk place cs = (netOf cs).apply place := by
  induction cs using List.reverseRecOn with
  | nil => simp [netOf, Net.apply]
  | append_singleton cs c ih =>
    have hread : netOf (cs ++ [c]) = (netOf cs).read c := List.foldl_append
    rw [hread, read_apply, walk_append, ih]
    rfl

/-- Of two places one of which lies inside the other, the one is inside a net of the other where the
names of the net make up for what the net takes away. -/
theorem inside_apply_iff {root place : List α} (h : root <+: place ∨ place <+: root) (net : Net α) :
    root <+: net.apply place ↔ root.drop (place.length - net.ups) <+: net.names := by
  unfold Net.apply
  generalize hm : place.length - net.ups = m
  by_cases hlen : root.length ≤ m
  · rw [List.drop_eq_nil_of_le hlen]
    refine iff_of_true ?_ (List.nil_prefix)
    have hroot : root <+: place := by
      obtain h | h := h
      · exact h
      · have hle := h.length_le
        rw [h.eq_of_length (by omega)]
    exact (List.prefix_take_iff.2 ⟨hroot, hlen⟩).trans (List.prefix_append _ _)
  · have hsame : place.take m = root.take m := by
      obtain ⟨more, h⟩ | ⟨more, h⟩ := h
      · rw [← h, List.take_append_of_le_length (by omega)]
      · rw [← h, List.take_append_of_le_length (by omega)]
    rw [hsame]
    nth_rewrite 1 [← List.take_append_drop m root]
    exact List.prefix_append_right_inj _

end Walk

/-! ## Strings -/

section Strings

variable {σ : Type} [DecidableEq σ] (slash dot : σ)

/-- A component as it is written. -/
def component (s : List σ) : Component (List σ) :=
  if s = [] ∨ s = [dot] then .here else if s = [dot, dot] then .up else .name s

/-- The components of a path. -/
def components (path : List σ) : List (Component (List σ)) :=
  (path.splitOn slash).map (component dot)

/-- The place of a path. -/
def resolve (path : List σ) : List (List σ) := walk [] (components slash dot path)

/-- What stands behind the last separator. -/
def leaf (path : List σ) : List σ := (path.splitOn slash).getLast (List.splitOn_ne_nil slash path)

/-- The place of what stands before the last separator. -/
def parent (path : List σ) : List (List σ) :=
  walk [] ((path.splitOn slash).dropLast.map (component dot))

/-- The place of `path ++ more` lies inside the place of `path`, said of what is left of the last
component of `path` and of `more`. -/
def Stays (path more : List σ) : Prop :=
  let net := netOf (components slash dot (leaf slash path ++ more))
  (resolve slash dot path).drop ((parent slash dot path).length - net.ups) <+: net.names

instance (path more : List σ) : Decidable (Stays slash dot path more) :=
  inferInstanceAs (Decidable (_ <+: _))

theorem components_append_slash (path more : List σ) :
    components slash dot (path ++ slash :: more) =
      components slash dot path ++ components slash dot more := by
  unfold components
  rw [List.splitOn_append_cons_self, List.map_append]

/-- A separator begins a new walk. -/
theorem resolve_append_slash (path more : List σ) :
    resolve slash dot (path ++ slash :: more) =
      walk (resolve slash dot path) (components slash dot more) := by
  unfold resolve
  rw [components_append_slash, walk_append]

theorem splitOn_append (path more : List σ) :
    (path ++ more).splitOn slash =
      (path.splitOn slash).dropLast ++ (leaf slash path ++ more).splitOn slash := by
  unfold leaf
  induction path with
  | nil => rfl
  | cons x path ih =>
    rw [List.cons_append]
    simp only [List.splitOn_cons_eq_if_modifyHead]
    split
    · rw [ih, List.dropLast_cons_of_ne_nil (List.splitOn_ne_nil slash path),
        List.getLast_cons (List.splitOn_ne_nil slash path)]
      rfl
    · rename_i hx
      obtain ⟨w, ws, hsplit⟩ := List.exists_cons_of_ne_nil (List.splitOn_ne_nil slash path)
      simp only [hsplit] at ih ⊢
      cases ws with
      | nil =>
        rw [ih]
        simp only [List.dropLast_singleton, List.nil_append, List.getLast_singleton,
          List.modifyHead_cons, List.cons_append, List.splitOn_cons_eq_if_modifyHead, if_neg hx]
      | cons v vs =>
        rw [ih]
        rfl

/-- The place of `path` is its parent, read on by its last component. -/
theorem resolve_eq (path : List σ) :
    resolve slash dot path = move (parent slash dot path) (component dot (leaf slash path)) := by
  unfold resolve parent leaf components
  conv_lhs => rw [← List.dropLast_append_getLast (List.splitOn_ne_nil slash path)]
  rw [List.map_append, walk_append]
  rfl

/-- A move stays comparable with its start. -/
theorem move_comparable {α : Type} (place : List α) (c : Component α) :
    move place c <+: place ∨ place <+: move place c := by
  cases c with
  | here => exact .inl (List.prefix_refl _)
  | up => exact .inl (List.dropLast_prefix _)
  | name n => exact .inr (List.prefix_append _ _)

/-- **Inside.** -/
theorem resolve_inside_iff (path more : List σ) :
    resolve slash dot path <+: resolve slash dot (path ++ more) ↔ Stays slash dot path more := by
  have hwalk : resolve slash dot (path ++ more) =
      (netOf (components slash dot (leaf slash path ++ more))).apply (parent slash dot path) := by
    rw [← walk_eq]
    unfold resolve parent components
    rw [splitOn_append, List.map_append, walk_append]
  rw [hwalk]
  refine inside_apply_iff ?_ _
  rw [resolve_eq]
  exact move_comparable _ _

/-- Behind a separator the components of `more` are read at the place of `path`. -/
theorem stays_slash_iff (path more : List σ) :
    Stays slash dot path (slash :: more) ↔
      let net := netOf (components slash dot more)
      (resolve slash dot path).drop ((resolve slash dot path).length - net.ups) <+: net.names := by
  rw [← resolve_inside_iff, resolve_append_slash, walk_eq]
  exact inside_apply_iff (.inl (List.prefix_refl _)) _

/-- Where no `..` is left over, the path stays inside. -/
theorem stays_of_ups_eq_zero {path more : List σ} (h : (netOf (components slash dot more)).ups = 0) :
    Stays slash dot path (slash :: more) := by
  rw [stays_slash_iff]
  simp only [h, Nat.sub_zero, List.drop_length]
  exact List.nil_prefix

end Strings

end Paths
