import ApiPages.Proofs.Signature.TypeReference

/-! References to constructed types inside one another, where every segment may have arguments. The
arguments of the first list are shortened, at any depth, and what stands behind the list is shown as it
is written. -/
namespace ApiPages.Signature

/-- A type with arguments or without, and the type inside it that is referred to, if there is one. -/
inductive ConstructedType where
  | innermost (name : Name) (arguments : List ConstructedType)
  | around (name : Name) (arguments : List ConstructedType) (inner : ConstructedType)

namespace ConstructedType

mutual

/-- The reference in a spelling, with a dot before every type that stands inside another. -/
def write (s : Spelling) : ConstructedType → Text
  | .innermost name arguments => name.text ++ s.enclose (writeAll s arguments)
  | .around name arguments inner =>
    name.text ++ s.enclose (writeAll s arguments) ++ '.' :: write s inner

def writeAll (s : Spelling) : List ConstructedType → List Text
  | [] => []
  | t :: ts => write s t :: writeAll s ts

end

mutual

/-- The label of a reference behind the names of a path: the short head, the labels of its first
arguments, and the segments behind, which have labels for their arguments if the whole is shortened. -/
def label (whole : Bool) (outer : List Name) : ConstructedType → Text
  | .innermost name arguments =>
    (Path.mk outer name).label ++ Spelling.shown.enclose (labels whole arguments)
  | .around name [] inner => label whole (outer ++ [name]) inner
  | .around name (t :: ts) inner =>
    (Path.mk outer name).label ++ Spelling.shown.enclose (labels whole (t :: ts)) ++
      '.' :: if whole then segments whole inner else write .angled inner

/-- The segments of a reference with the labels of their arguments. -/
def segments (whole : Bool) : ConstructedType → Text
  | .innermost name arguments => name.text ++ Spelling.shown.enclose (labels whole arguments)
  | .around name arguments inner =>
    name.text ++ Spelling.shown.enclose (labels whole arguments) ++ '.' :: segments whole inner

def labels (whole : Bool) : List ConstructedType → List Text
  | [] => []
  | t :: ts => label whole [] t :: labels whole ts

end

theorem writeAll_eq_map (s : Spelling) (ts : List ConstructedType) :
    writeAll s ts = ts.map (write s) := by
  induction ts with
  | nil => rfl
  | cons t ts ih => rw [writeAll, ih, List.map_cons]

theorem labels_eq_map (whole : Bool) (ts : List ConstructedType) :
    labels whole ts = ts.map (label whole []) := by
  induction ts with
  | nil => rfl
  | cons t ts ih => rw [labels, ih, List.map_cons]

theorem label_around {arguments : List ConstructedType} (h : arguments ≠ []) (whole : Bool)
    (outer : List Name) (name : Name) (inner : ConstructedType) :
    label whole outer (.around name arguments inner) =
      (Path.mk outer name).label ++ Spelling.shown.enclose (labels whole arguments) ++
        '.' :: if whole then segments whole inner else write .angled inner := by
  obtain ⟨t, ts, rfl⟩ := List.exists_cons_of_ne_nil h
  rw [label]

mutual

/-- What holds of a reference when it holds of its arguments and of what stands inside holds of every
reference. -/
theorem induct {motive : ConstructedType → Prop}
    (innermost : ∀ name arguments, (∀ t ∈ arguments, motive t) → motive (.innermost name arguments))
    (around : ∀ name arguments inner, (∀ t ∈ arguments, motive t) → motive inner →
      motive (.around name arguments inner)) :
    ∀ t, motive t
  | .innermost name arguments => innermost name arguments (inductAll innermost around arguments)
  | .around name arguments inner =>
    around name arguments inner (inductAll innermost around arguments)
      (induct innermost around inner)

theorem inductAll {motive : ConstructedType → Prop}
    (innermost : ∀ name arguments, (∀ t ∈ arguments, motive t) → motive (.innermost name arguments))
    (around : ∀ name arguments inner, (∀ t ∈ arguments, motive t) → motive inner →
      motive (.around name arguments inner)) :
    ∀ ts : List ConstructedType, ∀ t ∈ ts, motive t
  | [] => fun _ h => absurd h List.not_mem_nil
  | t :: ts =>
    List.forall_mem_cons.mpr ⟨induct innermost around t, inductAll innermost around ts⟩

end

/-! ### What is written -/

section
variable {s : Spelling}

theorem write_ne_nil (t : ConstructedType) : t.write s ≠ [] := by
  cases t with
  | innermost name arguments =>
    rw [write]
    exact List.append_ne_nil_of_left_ne_nil name.nonempty _
  | around name arguments inner =>
    rw [write, List.append_assoc]
    exact List.append_ne_nil_of_left_ne_nil name.nonempty _

/-- What holds of names, of a dot, and of texts one after another and in a list when it holds of each, holds
of every reference as it is written. -/
theorem write_induct {P : Text → Prop} (hname : ∀ name : Name, P name.text) (hdot : P ['.'])
    (happend : ∀ {t u}, P t → P u → P (t ++ u))
    (henclose : ∀ {ts}, (∀ t ∈ ts, P t) → P (s.enclose ts)) (t : ConstructedType) : P (t.write s) := by
  have hlist {ts : List ConstructedType} (ih : ∀ t ∈ ts, P (t.write s)) :
      P (s.enclose (writeAll s ts)) := by
    refine henclose fun u hu => ?_
    rw [writeAll_eq_map] at hu
    obtain ⟨t, ht, rfl⟩ := List.mem_map.mp hu
    exact ih t ht
  induction t using induct with
  | innermost name arguments ih =>
    rw [write]
    exact happend (hname name) (hlist ih)
  | around name arguments inner ih ihinner =>
    rw [write]
    exact happend (happend (hname name) (hlist ih)) (happend hdot ihinner)

theorem forall_mem_write {P : Char → Prop} (hword : ∀ c, isWordChar c = true → P c) (hdot : P '.')
    (hopening : P s.opening) (hclosing : P s.closing) (hseparator : ∀ c ∈ s.separator, P c)
    (t : ConstructedType) : ∀ c ∈ t.write s, P c :=
  write_induct (P := fun t => ∀ c ∈ t, P c) (fun name c hc => hword c (name.word c hc))
    (List.forall_mem_singleton.mpr hdot) (fun ht hu => List.forall_mem_append.mpr ⟨ht, hu⟩)
    (Spelling.forall_mem_enclose hopening hclosing hseparator) t

end

theorem isBlank_of_mem_source (t : ConstructedType) :
    ∀ c ∈ t.write .source, Text.isBlank c = false :=
  forall_mem_write (fun _ h => (isPlain_cases (isPlain_of_isWordChar h)).1) (by decide) (by decide)
    (by decide) (Text.of_all rfl) t

private theorem isBlank_of_mem_angled (t : ConstructedType) :
    ∀ c ∈ t.write .angled, Text.isBlank c = false :=
  forall_mem_write (fun _ h => (isPlain_cases (isPlain_of_isWordChar h)).1) (by decide) (by decide)
    (by decide) (Text.of_all rfl) t

private theorem not_mem_angled {c : Char} (hword : isWordChar c = false) (hsigns : c ∉ ['.', '<', '>', ','])
    (t : ConstructedType) : c ∉ t.write .angled := by
  simp only [List.mem_cons, List.not_mem_nil, or_false, not_or] at hsigns
  have hcomma : ∀ d ∈ Spelling.angled.separator, d ≠ c :=
    List.forall_mem_singleton.mpr (Ne.symm hsigns.2.2.2)
  refine fun hm => forall_mem_write (P := (· ≠ c)) ?_ (Ne.symm hsigns.1) (Ne.symm hsigns.2.1)
    (Ne.symm hsigns.2.2.1) hcomma t c hm rfl
  rintro d hd rfl
  rw [hword] at hd
  cases hd

theorem bracesToAngles_source (t : ConstructedType) :
    bracesToAngles (t.write .source) = t.write .angled := by
  rw [bracesToAngles_eq_map]
  have hname (name : Name) : name.text.map angleFor = name.text :=
    map_angleFor_of_isPlain fun c hc => isPlain_of_isWordChar (name.word c hc)
  have hlist {ts : List ConstructedType}
      (ih : ∀ t ∈ ts, (t.write .source).map angleFor = t.write .angled) :
      (Spelling.source.enclose (writeAll .source ts)).map angleFor =
        Spelling.angled.enclose (writeAll .angled ts) := by
    rw [writeAll_eq_map, writeAll_eq_map, Spelling.map_enclose, Spelling.map_source, List.map_map]
    exact congrArg _ (List.map_congr_left ih)
  induction t using induct with
  | innermost name arguments ih => rw [write, List.map_append, hname, hlist ih, write]
  | around name arguments inner ih ihinner =>
    rw [write, List.map_append, List.map_append, hname, hlist ih, List.map_cons, ihinner, write]
    rfl

/-- A reference is looked at with angle brackets. -/
theorem reference_source (t : ConstructedType) : reference (t.write .source) = t.write .angled := by
  rw [reference, Text.trim_eq_self t.isBlank_of_mem_source, bracesToAngles_source]

private theorem reference_angled (t : ConstructedType) : reference (t.write .angled) = t.write .angled := by
  rw [reference, Text.trim_eq_self t.isBlank_of_mem_angled]
  exact bracesToAngles_eq_self (t.not_mem_angled (by decide) (by decide))
    (t.not_mem_angled (by decide) (by decide))

private theorem byReference?_angled (t : ConstructedType) : byReference? (t.write .angled) = none := by
  have hn : '@' ∉ t.write .angled := t.not_mem_angled (by decide) (by decide)
  rw [byReference?, if_neg]
  exact fun h => hn (List.mem_of_getLast? h)

theorem expandArity_angled (t : ConstructedType) : expandArity (t.write .angled) = t.write .angled :=
  expandArity_of_not_mem (t.not_mem_angled (by decide) (by decide))

/-! ### Brackets -/

/-- A split at commas does not cut a reference. -/
theorem uncut_write (t : ConstructedType) : Uncut (· = ',') 0 (t.write .angled) :=
  write_induct (fun name => uncut_of_isPlain fun c hc => isPlain_of_isWordChar (name.word c hc))
    (uncut_singleton (by decide) (by decide) (.inl (by decide))) Uncut.append
    (Spelling.uncut_enclose Spelling.proper_angled) t

/-- The angle brackets of a reference match. -/
theorem balanced_write (t : ConstructedType) : Balanced '<' '>' (t.write .angled) :=
  write_induct (fun name => balanced_of_isPlain fun c hc => isPlain_of_isWordChar (name.word c hc))
    (balanced_singleton (by decide) (by decide)) Balanced.append
    (Spelling.balanced_enclose Spelling.proper_angled rfl rfl) t

theorem balanced_arguments (ts : List ConstructedType) :
    Balanced '<' '>' (Text.join [','] (ts.map (write .angled))) := by
  refine balanced_join (balanced_singleton (by decide) (by decide)) fun u hu => ?_
  obtain ⟨t, -, rfl⟩ := List.mem_map.mp hu
  exact t.balanced_write

private theorem splitTopLevel_arguments (ts : List ConstructedType) :
    splitTopLevel (· = ',') (Text.join [','] (ts.map (write .angled))) = ts.map (write .angled) := by
  refine splitTopLevel_join (fun u hu => ?_) (fun u hu => ?_) (fun u hu => ?_)
  · obtain ⟨t, -, rfl⟩ := List.mem_map.mp hu
    exact t.uncut_write
  · obtain ⟨t, -, rfl⟩ := List.mem_map.mp hu
    exact t.write_ne_nil
  · obtain ⟨t, -, rfl⟩ := List.mem_map.mp hu
    exact t.isBlank_of_mem_angled

/-! ### What is shown -/

section

variable {raw : Text} (hmark : byReference? (reference raw) = none) {path : Path}
  {arguments : List ConstructedType}

include hmark

/-- A path with arguments behind it is shown with their labels, and what follows is kept. -/
theorem shorten_of_list {rest : Text}
    (h : expandArity (reference raw) =
      path.dotted ++ (Spelling.angled.enclose (writeAll .angled arguments) ++ rest))
    (hne : arguments ≠ [])
    (harguments : ∀ t ∈ arguments, shorten (t.write .angled) = t.label false []) :
    shorten raw = path.label ++ (Spelling.shown.enclose (labels false arguments) ++ rest) := by
  have hmap {f : ConstructedType → Text} : arguments.map f ≠ [] := fun hn =>
    hne (List.map_eq_nil_iff.mp hn)
  have hlabels : (arguments.map (write .angled)).map shorten = arguments.map (label false []) := by
    rw [List.map_map]
    exact List.map_congr_left harguments
  rw [writeAll_eq_map, Spelling.enclose_of_ne_nil _ hmap] at h
  rw [shorten_of_arguments hmark h (balanced_arguments arguments) (splitTopLevel_arguments arguments),
    hlabels, labels_eq_map, Spelling.enclose_of_ne_nil _ hmap]
  rfl

end

/-- A reference behind the names of a path is shown as its label there. -/
theorem shorten_of_expands (t : ConstructedType) {outer : List Name} {raw : Text}
    (hmark : byReference? (reference raw) = none)
    (h : expandArity (reference raw) =
      outer.flatMap (fun name => name.text ++ ['.']) ++ t.write .angled) :
    shorten raw = t.label false outer := by
  have hlist {arguments : List ConstructedType}
      (ih : ∀ t ∈ arguments, ∀ {outer : List Name} {raw : Text},
        byReference? (reference raw) = none →
        expandArity (reference raw) =
          outer.flatMap (fun name => name.text ++ ['.']) ++ t.write .angled →
        shorten raw = t.label false outer) :
      ∀ t ∈ arguments, shorten (t.write .angled) = t.label false [] := by
    intro t ht
    refine ih t ht ?_ ?_
    · rw [reference_angled, byReference?_angled]
    · rw [reference_angled, expandArity_angled]
      rfl
  induction t using induct generalizing outer raw with
  | innermost name arguments ih =>
    rw [write] at h
    by_cases hne : arguments = []
    · subst hne
      have hplain : expandArity (reference raw) = (Path.mk outer name).dotted ++ suffixText [] := by
        rw [h, writeAll, Spelling.enclose, List.isEmpty_nil, if_pos rfl, ← List.append_assoc]
        rfl
      rw [TypeExpression.shorten_of_suffixed hmark hplain, label, labels]
      rfl
    · have hgeneric : expandArity (reference raw) = (Path.mk outer name).dotted ++
          (Spelling.angled.enclose (writeAll .angled arguments) ++ []) := by
        rw [h, List.append_nil, ← List.append_assoc]
        rfl
      rw [shorten_of_list hmark hgeneric hne (hlist ih), List.append_nil, label]
  | around name arguments inner ih ihinner =>
    rw [write] at h
    by_cases hne : arguments = []
    · subst hne
      rw [label]
      refine ihinner hmark ?_
      rw [h, writeAll, Spelling.enclose, List.isEmpty_nil, if_pos rfl, List.flatMap_append]
      simp
    · have hgeneric : expandArity (reference raw) = (Path.mk outer name).dotted ++
          (Spelling.angled.enclose (writeAll .angled arguments) ++ '.' :: inner.write .angled) := by
        rw [h]
        simp [Path.dotted]
      rw [shorten_of_list hmark hgeneric hne (hlist ih), label_around hne, List.append_assoc,
        if_neg Bool.false_ne_true]

theorem shorten_source (t : ConstructedType) : shorten (t.write .source) = t.label false [] := by
  refine t.shorten_of_expands ?_ ?_
  · rw [reference_source, byReference?_angled]
  · rw [reference_source, expandArity_angled]
    rfl

end ConstructedType
end ApiPages.Signature
