import ApiPages.Files.Tree
import ApiPages.Proofs.Keyed
import ApiPages.Proofs.Text.Lines
import Mathlib.Order.Defs.Unbundled

/-! What making directories and writing a file changes of a tree: nothing but the place of the file,
and directories on the way to it that were missing. -/
namespace ApiPages.Files

namespace Path

/-- The place at the end of a way, outwards where a segment says so. -/
def walk (start : List Text) (segments : List Text) : List Text :=
  segments.foldl (fun place segment =>
    if segment = Tree.outwards then Tree.around place else place ++ [segment]) start

/-- The place that a path names. -/
def place (p : Path) : List Text := walk (if p.isAbsolute then Tree.top else []) p.segments

/-- The path leads to the other one or beyond it. -/
def LeadsBy (p : Path) (place : List Text) : Prop :=
  ∃ segments, segments <+: p.segments ∧ place = (⟨p.root, segments⟩ : Path).place

theorem LeadsBy.mono {root : Text} {segments segments' : List Text} {place : List Text}
    (h : (⟨root, segments⟩ : Path).LeadsBy place) (hs : segments <+: segments') :
    (⟨root, segments'⟩ : Path).LeadsBy place := by
  obtain ⟨front, hfront, hplace⟩ := h
  exact ⟨front, hfront.trans hs, hplace⟩

end Path

namespace Tree

private theorem resolveFrom_ok {tree : Tree} {start segments place : List Text}
    (h : tree.resolveFrom start segments = .ok place) : place = Path.walk start segments := by
  induction segments generalizing start with
  | nil => exact (Except.ok.inj h).symm
  | cons segment rest ih =>
    rw [resolveFrom] at h
    rw [Path.walk, List.foldl_cons]
    by_cases hout : segment = outwards
    · rw [if_pos hout] at h ⊢
      exact ih h
    · rw [if_neg hout] at h ⊢
      split at h
      · simp at h
      · split at h
        · next hrest =>
          obtain rfl := List.isEmpty_iff.mp hrest
          exact (Except.ok.inj h).symm
        · split at h
          · simp at h
          · simp at h
          · exact ih h

theorem resolve_ok {tree : Tree} {p : Path} {place : List Text} (h : tree.resolve p = .ok place) :
    place = p.place := by
  rw [resolve] at h
  split at h
  · simp at h
  · split at h
    · simp at h
    · exact resolveFrom_ok h

theorem node?_put_of_ne (tree : Tree) {place other : List Text} (node : Node)
    (h : other ≠ place) : (tree.put place node).node? other = tree.node? other := by
  rw [node?, node?, put, List.lookup_append, Keyed.lookup_filter_of_ne h, Keyed.lookup_cons,
    if_neg h, List.lookup_nil, Option.or_none]

theorem node?_put_self (tree : Tree) {place : List Text} (node : Node)
    (h : isAlwaysThere place = false) : (tree.put place node).node? place = some node := by
  rw [node?, if_neg (by simp [h]), put, List.lookup_append, Keyed.lookup_filter_self,
    Keyed.lookup_cons, if_pos rfl, Option.none_or]

/-- From one tree to the other nothing changes but what stands at places that are written, and
directories that are made at places where nothing stood. -/
def Differs (written made : List Text → Prop) (before after : Tree) : Prop :=
  ∀ place, after.node? place = before.node? place ∨ written place ∨
    made place ∧ before.node? place = none ∧ after.node? place = some .directory

variable {written made : List Text → Prop}

instance : IsPreorder Tree (Differs written made) where
  refl _ _ := Or.inl rfl
  trans first second third h h' place := by
    rcases h' place with hsame' | hwritten | ⟨hmade, hnone, hdirectory⟩
    · rcases h place with hsame | hwritten | ⟨hmade, hnone, hdirectory⟩
      · exact Or.inl (hsame'.trans hsame)
      · exact Or.inr (Or.inl hwritten)
      · exact Or.inr (Or.inr ⟨hmade, hnone, hsame'.trans hdirectory⟩)
    · exact Or.inr (Or.inl hwritten)
    · rcases h place with hsame | hwritten | ⟨-, -, hbefore⟩
      · exact Or.inr (Or.inr ⟨hmade, hsame ▸ hnone, hdirectory⟩)
      · exact Or.inr (Or.inl hwritten)
      · exact absurd (hnone.symm.trans hbefore) (Option.some_ne_none _).symm

theorem Differs.mono {written' made' : List Text → Prop} {before after : Tree}
    (h : Differs written made before after) (hwritten : ∀ place, written place → written' place)
    (hmade : ∀ place, made place → made' place) : Differs written' made' before after :=
  fun place => (h place).imp_right fun h => h.imp (hwritten place) (And.imp_left (hmade place))

/-- One directory made, or found to be there. -/
def ensure (tree : Tree) (p : Path) : Tree × Except FileError Unit :=
  match tree.orPresent p (tree.makeDirectory p) with
  | .ok changed => (changed, .ok ())
  | .error e => (tree, .error e)

theorem makeDirectoriesRev_of_ne_missing {root : Text} {segments : List Text} {tree : Tree}
    (h : tree.makeDirectory ⟨root, segments.reverse⟩ ≠ .error .missing) :
    makeDirectoriesRev root segments tree = tree.ensure ⟨root, segments.reverse⟩ := by
  rw [makeDirectoriesRev.eq_def]
  dsimp only
  split
  · next hmissing => exact absurd hmissing h
  · rfl

theorem makeDirectoriesRev_of_missing {root segment : Text} {outer : List Text} {tree : Tree}
    (h : tree.makeDirectory ⟨root, (segment :: outer).reverse⟩ = .error .missing) :
    makeDirectoriesRev root (segment :: outer) tree =
      match makeDirectoriesRev root outer tree with
      | (tree, .error e) => (tree, .error e)
      | (tree, .ok ()) => tree.ensure ⟨root, (segment :: outer).reverse⟩ := by
  rw [makeDirectoriesRev]
  dsimp only
  rw [h]
  rfl

end Tree
end ApiPages.Files
