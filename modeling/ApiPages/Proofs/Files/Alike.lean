import ApiPages.Proofs.Files.Change

/-! Two trees that differ only in what some of their files hold: every path leads to the same place in
both, and writing files and making directories end alike and keep the trees alike. -/
namespace ApiPages.Files.Tree

/-- What stands at a place is the same, or two files that may hold different bytes there. -/
def Alike (differ : List Text → List UInt8 → List UInt8 → Prop) (tree tree' : Tree) : Prop :=
  ∀ place, tree'.node? place = tree.node? place ∨
    ∃ bytes bytes', tree.node? place = some (.file bytes) ∧
      tree'.node? place = some (.file bytes') ∧ differ place bytes bytes'

variable {differ : List Text → List UInt8 → List UInt8 → Prop} {tree tree' : Tree}

theorem Alike.mono {differ' : List Text → List UInt8 → List UInt8 → Prop} (h : Alike differ tree tree')
    (hdiffer : ∀ place bytes bytes', differ place bytes bytes' → differ' place bytes bytes') :
    Alike differ' tree tree' := fun place =>
  (h place).imp_right fun ⟨bytes, bytes', hb, hb', hd⟩ => ⟨bytes, bytes', hb, hb', hdiffer _ _ _ hd⟩

theorem Alike.resolveFrom (h : Alike differ tree tree') (start segments : List Text) :
    tree'.resolveFrom start segments = tree.resolveFrom start segments := by
  induction segments generalizing start with
  | nil => rfl
  | cons segment rest ih =>
    rw [Tree.resolveFrom, Tree.resolveFrom]
    rcases h (start ++ [segment]) with hsame | ⟨bytes, bytes', hb, hb', -⟩
    · rw [hsame]
      simp only [ih]
    · rw [hb, hb']
      simp only [ih]

theorem Alike.resolve (h : Alike differ tree tree') (p : Path) : tree'.resolve p = tree.resolve p := by
  rw [Tree.resolve, Tree.resolve, h.resolveFrom]

private theorem find_eq (tree : Tree) (p : Path) : tree.find p =
    match tree.resolve p with
    | .error cause => .error cause
    | .ok place =>
      match tree.node? place with
      | some node => .ok node
      | none => .error .missing := by
  rw [Tree.find]
  cases tree.resolve p <;> rfl

private theorem makeDirectory_eq (tree : Tree) (p : Path) : tree.makeDirectory p =
    match tree.resolve p with
    | .error cause => .error cause
    | .ok place =>
      match tree.node? place with
      | some _ => .error .alreadyThere
      | none => .ok (tree.put place .directory) := by
  rw [Tree.makeDirectory]
  cases tree.resolve p <;> rfl

/-- At a path stands the same in both trees, or a file in each of them. -/
theorem Alike.find (h : Alike differ tree tree') (p : Path) : tree'.find p = tree.find p ∨
    ∃ bytes bytes', tree.find p = .ok (.file bytes) ∧ tree'.find p = .ok (.file bytes') := by
  rw [find_eq, find_eq, h.resolve]
  cases tree.resolve p with
  | error cause => exact Or.inl rfl
  | ok place =>
    dsimp only
    rcases h place with hsame | ⟨bytes, bytes', hb, hb', -⟩
    · exact Or.inl (by rw [hsame])
    · exact Or.inr ⟨bytes, bytes', by rw [hb], by rw [hb']⟩

theorem Alike.isFile (h : Alike differ tree tree') (p : Path) : tree'.isFile p = tree.isFile p := by
  rw [Tree.isFile, Tree.isFile, find?, find?]
  rcases h.find p with hsame | ⟨bytes, bytes', hb, hb'⟩
  · rw [hsame]
  · rw [hb, hb']
    rfl

theorem Alike.put (h : Alike differ tree tree') {place : List Text} {node node' : Node}
    (hnode : node' = node ∨
      ∃ bytes bytes', node = .file bytes ∧ node' = .file bytes' ∧ differ place bytes bytes') :
    Alike differ (tree.put place node) (tree'.put place node') := by
  intro other
  by_cases hother : other = place
  · subst hother
    cases hthere : isAlwaysThere other with
    | true =>
      left
      rw [node?, node?, if_pos hthere, if_pos hthere]
    | false =>
      rw [node?_put_self _ _ hthere, node?_put_self _ _ hthere]
      rcases hnode with rfl | ⟨bytes, bytes', rfl, rfl, hd⟩
      · exact Or.inl rfl
      · exact Or.inr ⟨bytes, bytes', rfl, rfl, hd⟩
  · rw [node?_put_of_ne _ _ hother, node?_put_of_ne _ _ hother]
    exact h other

/-- The same error in both cases, or trees that are alike. -/
def AlikeResult {ε : Type} (differ : List Text → List UInt8 → List UInt8 → Prop) :
    Except ε Tree → Except ε Tree → Prop
  | .error e, .error e' => e' = e
  | .ok tree, .ok tree' => Alike differ tree tree'
  | _, _ => False

private theorem AlikeResult.error_iff {ε : Type} {result result' : Except ε Tree}
    (h : AlikeResult differ result result') (e : ε) : result' = .error e ↔ result = .error e := by
  cases result with
  | ok _ =>
    cases result' with
    | ok _ => simp
    | error _ => exact h.elim
  | error cause =>
    cases result' with
    | ok _ => exact h.elim
    | error cause' =>
      obtain rfl : cause' = cause := h
      rfl

/-- Files with contents that may differ at their place are written alike. -/
theorem Alike.write (h : Alike differ tree tree') (p : Path) {bytes bytes' : List UInt8}
    (hbytes : bytes' = bytes ∨ differ p.place bytes bytes') :
    AlikeResult differ (tree.write p bytes) (tree'.write p bytes') := by
  rw [Tree.write, Tree.write, h.resolve]
  cases hresolve : tree.resolve p with
  | error cause => rfl
  | ok place =>
    obtain rfl := resolve_ok hresolve
    have hput : Alike differ (tree.put p.place (.file bytes)) (tree'.put p.place (.file bytes')) :=
      h.put (hbytes.imp (congrArg Node.file) fun hd => ⟨bytes, bytes', rfl, rfl, hd⟩)
    rcases h p.place with hsame | ⟨held, held', hb, hb', -⟩
    · dsimp only
      rw [hsame]
      cases tree.node? p.place with
      | none => exact hput
      | some node =>
        cases node with
        | directory => rfl
        | file _ => exact hput
    · dsimp only
      rw [hb, hb']
      exact hput

theorem Alike.makeDirectory (h : Alike differ tree tree') (p : Path) :
    AlikeResult differ (tree.makeDirectory p) (tree'.makeDirectory p) := by
  rw [makeDirectory_eq, makeDirectory_eq, h.resolve]
  cases tree.resolve p with
  | error cause => rfl
  | ok place =>
    dsimp only
    rcases h place with hsame | ⟨held, held', hb, hb', -⟩
    · rw [hsame]
      cases tree.node? place with
      | none => exact h.put (Or.inl rfl)
      | some node => rfl
    · rw [hb, hb']
      rfl

/-- Directories were made alike: the trees are alike, and it ended with the same result. -/
def AlikeMade (differ : List Text → List UInt8 → List UInt8 → Prop)
    (made made' : Tree × Except FileError Unit) : Prop :=
  Alike differ made.1 made'.1 ∧ made'.2 = made.2

theorem Alike.ensure (h : Alike differ tree tree') (p : Path) :
    AlikeMade differ (tree.ensure p) (tree'.ensure p) := by
  have hmade := h.makeDirectory p
  rw [Tree.ensure, Tree.ensure]
  cases hm : tree.makeDirectory p with
  | ok changed =>
    cases hm' : tree'.makeDirectory p with
    | ok changed' =>
      rw [hm, hm'] at hmade
      exact ⟨hmade, rfl⟩
    | error _ =>
      rw [hm, hm'] at hmade
      exact hmade.elim
  | error cause =>
    cases hm' : tree'.makeDirectory p with
    | ok _ =>
      rw [hm, hm'] at hmade
      exact hmade.elim
    | error cause' =>
      rw [hm, hm'] at hmade
      obtain rfl : cause' = cause := hmade
      rw [orPresent, orPresent]
      rcases h.find p with hsame | ⟨bytes, bytes', hb, hb'⟩
      · rw [hsame]
        cases tree.find p with
        | error _ => exact ⟨h, rfl⟩
        | ok node =>
          cases node with
          | directory => exact ⟨h, rfl⟩
          | file _ => exact ⟨h, rfl⟩
      · rw [hb, hb']
        exact ⟨h, rfl⟩

theorem Alike.makeDirectoriesRev (h : Alike differ tree tree') (root : Text) (segments : List Text) :
    AlikeMade differ (makeDirectoriesRev root segments tree)
      (makeDirectoriesRev root segments tree') := by
  have hmissing := (h.makeDirectory ⟨root, segments.reverse⟩).error_iff .missing
  induction segments with
  | nil =>
    by_cases hm : tree.makeDirectory ⟨root, [].reverse⟩ = .error .missing
    · rw [Tree.makeDirectoriesRev, Tree.makeDirectoriesRev]
      dsimp only
      rw [hm, hmissing.mpr hm]
      exact ⟨h, rfl⟩
    · rw [makeDirectoriesRev_of_ne_missing hm, makeDirectoriesRev_of_ne_missing (hm ∘ hmissing.mp)]
      exact h.ensure _
  | cons segment outer ih =>
    by_cases hm : tree.makeDirectory ⟨root, (segment :: outer).reverse⟩ = .error .missing
    · obtain ⟨houter, hresult⟩ := ih ((h.makeDirectory ⟨root, outer.reverse⟩).error_iff .missing)
      rw [makeDirectoriesRev_of_missing hm, makeDirectoriesRev_of_missing (hmissing.mpr hm)]
      cases hmade : Tree.makeDirectoriesRev root outer tree with
      | mk made result =>
        cases hmade' : Tree.makeDirectoriesRev root outer tree' with
        | mk made' result' =>
          rw [hmade, hmade'] at houter hresult
          obtain rfl : result' = result := hresult
          cases result' with
          | error e => exact ⟨houter, rfl⟩
          | ok _ => exact houter.ensure _
    · rw [makeDirectoriesRev_of_ne_missing hm, makeDirectoriesRev_of_ne_missing (hm ∘ hmissing.mp)]
      exact h.ensure _

theorem Alike.makeDirectories (h : Alike differ tree tree') (p : Path) :
    AlikeMade differ (tree.makeDirectories p) (tree'.makeDirectories p) :=
  h.makeDirectoriesRev p.root p.segments.reverse

/-- A file that can be read stands at the place of its path. -/
theorem node?_of_read {p : Path} {bytes : List UInt8} (h : tree.read p = .ok bytes) :
    tree.resolve p = .ok p.place ∧ tree.node? p.place = some (.file bytes) ∧
      isAlwaysThere p.place = false := by
  rw [read, find_eq] at h
  cases hresolve : tree.resolve p with
  | error cause => simp [hresolve] at h
  | ok place =>
    obtain rfl := resolve_ok hresolve
    rw [hresolve] at h
    dsimp only at h
    cases hnode : tree.node? p.place with
    | none => simp [hnode] at h
    | some node =>
      cases node with
      | directory => simp [hnode] at h
      | file held =>
        rw [hnode] at h
        obtain rfl : held = bytes := Except.ok.inj h
        refine ⟨rfl, rfl, ?_⟩
        rw [← Bool.not_eq_true]
        intro hthere
        simp [node?, hthere] at hnode

/-- The file that can be read is there. -/
theorem find?_of_read {p : Path} {bytes : List UInt8} (h : tree.read p = .ok bytes) :
    tree.find? p = .ok (some (.file bytes)) := by
  obtain ⟨hresolve, hnode, -⟩ := node?_of_read h
  rw [find?, find_eq, hresolve]
  dsimp only
  rw [hnode]

section Rewriting

variable {p : Path} {bytes : List UInt8} (h : tree.read p = .ok bytes) (bytes' : List UInt8)

include h

/-- A file that can be read can be written. -/
theorem write_of_read : tree.write p bytes' = .ok (tree.put p.place (.file bytes')) := by
  obtain ⟨hresolve, hnode, -⟩ := node?_of_read h
  rw [write, hresolve]
  dsimp only
  rw [hnode]

theorem alike_put_of_read :
    Alike (fun place held held' => place = p.place ∧ held = bytes ∧ held' = bytes')
      tree (tree.put p.place (.file bytes')) := by
  obtain ⟨-, hnode, hthere⟩ := node?_of_read h
  intro place
  by_cases hplace : place = p.place
  · subst hplace
    exact Or.inr ⟨bytes, bytes', hnode, node?_put_self _ _ hthere, rfl, rfl, rfl⟩
  · exact Or.inl (node?_put_of_ne _ _ hplace)

theorem read_put_of_read : (tree.put p.place (.file bytes')).read p = .ok bytes' := by
  obtain ⟨hresolve, -, hthere⟩ := node?_of_read h
  rw [read, find_eq, (alike_put_of_read h bytes').resolve, hresolve]
  dsimp only
  rw [node?_put_self _ _ hthere]

theorem read_put_of_ne {q : Path} (hq : q.place ≠ p.place) :
    (tree.put p.place (.file bytes')).read q = tree.read q := by
  rw [read, read, find_eq, find_eq, (alike_put_of_read h bytes').resolve]
  cases hresolve : tree.resolve q with
  | error cause => rfl
  | ok place =>
    obtain rfl := resolve_ok hresolve
    dsimp only
    rw [node?_put_of_ne _ _ hq]

end Rewriting

end ApiPages.Files.Tree
