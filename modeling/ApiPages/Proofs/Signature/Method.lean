import ApiPages.Proofs.Link
import ApiPages.Proofs.Signature.TypeReference

/-! Identifiers of methods: their headings, and the titles of the links to them, say what the parts
of the identifier say. -/
namespace ApiPages.Signature

/-- The parts of the identifier of a method: the path of its owner, where types may have markers for
their parameters, its name, how many type parameters it has itself, its parameters, and the type
that a conversion gives back. -/
structure Method where
  owner : List (Name × Option Nat)
  name : Name
  generics : Nat
  parameters : List Parameter
  returns : Option TypeExpression

namespace Method

/-- A name of the path of the owner, with its marker and the dot behind. -/
def ownerSegment : Name × Option Nat → Text
  | (n, none) => n.text ++ ['.']
  | (n, some count) => n.text ++ (Marker.spelled 1 count ++ ['.'])

/-- The name with its marker. A method that is not generic has none. -/
def nameText (m : Method) : Text :=
  m.name.text ++ if m.generics = 0 then [] else Marker.spelled 2 m.generics

def returnText (m : Method) : Text :=
  match m.returns with
  | none => []
  | some t => '~' :: t.write .source

def path (m : Method) : Text := m.owner.flatMap ownerSegment ++ m.nameText

def id (m : Method) : Text :=
  m.path ++ '(' :: (Text.join [','] (m.parameters.map Parameter.source) ++ ')' :: m.returnText)

/-- The identifier as the compiler writes it. -/
def identifier (m : Method) : Identifier := 'M' :: ':' :: m.id

/-- The name and the parameters as they are shown. -/
def label (m : Method) : Text :=
  m.name.text ++ (if m.generics = 0 then [] else parameterNames m.generics) ++
    '(' :: Text.join ", ".toList (m.parameters.map Parameter.shown) ++ [')']

private theorem mem_spelled {ticks number : Nat} {c : Char} (h : c ∈ Marker.spelled ticks number) :
    c = '`' ∨ isWordChar c = true := by
  rcases List.mem_append.mp h with h | h
  · exact Or.inl (List.eq_of_mem_replicate h)
  · exact Or.inr (isWordChar_of_isDigit (Text.isDigit_of_mem_ofNat h))

private theorem isPlain_of_mem_spelled {ticks number : Nat} {c : Char}
    (h : c ∈ Marker.spelled ticks number) : isPlain c = true := by
  rcases mem_spelled h with rfl | h
  · decide
  · exact isPlain_of_isWordChar h

private theorem isPlain_of_mem_nameText {m : Method} {c : Char} (h : c ∈ m.nameText) :
    isPlain c = true := by
  rcases List.mem_append.mp h with h | h
  · exact isPlain_of_isWordChar (m.name.word c h)
  · split at h
    · cases h
    · exact isPlain_of_mem_spelled h

private theorem isPlain_of_mem_path {m : Method} {c : Char} (h : c ∈ m.path) : isPlain c = true := by
  rcases List.mem_append.mp h with h | h
  · obtain ⟨⟨n, arity⟩, _, hc⟩ := List.mem_flatMap.mp h
    cases arity with
    | none =>
      rcases List.mem_append.mp hc with hc | hc
      · exact isPlain_of_isWordChar (n.word c hc)
      · rw [List.mem_singleton.mp hc]
        decide
    | some count =>
      rcases List.mem_append.mp hc with hc | hc
      · exact isPlain_of_isWordChar (n.word c hc)
      · rcases List.mem_append.mp hc with hc | hc
        · exact isPlain_of_mem_spelled hc
        · rw [List.mem_singleton.mp hc]
          decide
  · exact isPlain_of_mem_nameText h

private theorem dot_not_mem_nameText (m : Method) : '.' ∉ m.nameText := by
  intro h
  rcases List.mem_append.mp h with h | h
  · exact absurd (m.name.word _ h) (by decide)
  · split at h
    · cases h
    · rcases mem_spelled h with h | h
      · exact absurd h (by decide)
      · exact absurd h (by decide)

private theorem afterLast_path (m : Method) : Text.afterLast '.' m.path = m.nameText := by
  rw [path]
  rcases List.eq_nil_or_concat m.owner with hn | ⟨front, segment, hs⟩
  · rw [hn, List.flatMap_nil, List.nil_append, Text.afterLast_of_not_mem m.dot_not_mem_nameText]
  · have hsegment : ∃ t, ownerSegment segment = t ++ ['.'] := by
      obtain ⟨n, arity⟩ := segment
      cases arity with
      | none => exact ⟨n.text, rfl⟩
      | some count => exact ⟨n.text ++ Marker.spelled 1 count, (List.append_assoc _ _ _).symm⟩
    obtain ⟨t, ht⟩ := hsegment
    rw [hs, List.concat_eq_append, List.flatMap_append, List.flatMap_singleton, ht]
    have hsplit : front.flatMap ownerSegment ++ (t ++ ['.']) ++ m.nameText =
        (front.flatMap ownerSegment ++ t) ++ '.' :: m.nameText := by simp
    rw [hsplit, Text.afterLast_append, Text.afterLast_of_not_mem m.dot_not_mem_nameText]

private theorem parenthesis_not_mem_source (p : Parameter) :
    ∀ c ∈ p.source, c ≠ '(' ∧ c ≠ ')' := by
  have hopen : '(' ∉ p.type.write .source := p.type.not_mem_write Spelling.proper_source
    (by decide) (by decide) (by decide) (by decide)
  have hclose : ')' ∉ p.type.write .source := p.type.not_mem_write Spelling.proper_source
    (by decide) (by decide) (by decide) (by decide)
  refine List.forall_mem_append.mpr ⟨fun c hc => ⟨?_, ?_⟩, ?_⟩
  · rintro rfl
    exact hopen hc
  · rintro rfl
    exact hclose hc
  · cases p.byReference <;> exact Text.of_all rfl

/-- The path and the parameter list are found again. -/
theorem splitParameters_id (m : Method) : Identifier.splitParameters m.id =
    (m.path, some (Text.join [','] (m.parameters.map Parameter.source))) := by
  have hpath : '(' ∉ m.path := fun h => absurd (isPlain_of_mem_path h) (by decide)
  have hinside : Balanced '(' ')' (Text.join [','] (m.parameters.map Parameter.source)) := by
    refine balanced_of_forall fun c hc => ?_
    rcases Text.mem_join hc with hc | ⟨u, hu, hc⟩
    · rw [List.mem_singleton.mp hc]
      decide
    · obtain ⟨p, _, rfl⟩ := List.mem_map.mp hu
      exact parenthesis_not_mem_source p c hc
  rw [Identifier.splitParameters, id, enclosed_append hpath (by decide) hinside]

/-- The shown name of a method that is no constructor is its name, with its type parameters. -/
theorem methodName_nameText (m : Method) (owner : Identifier) (c : Char) :
    Identifier.methodName m.nameText (some (c :: owner)) =
      m.name.text ++ if m.generics = 0 then [] else parameterNames m.generics := by
  have hconstructor : Identifier.constructorNames.contains m.nameText = false := by
    have hnames : ∀ n ∈ Identifier.constructorNames, '#' ∈ n := by decide
    refine Bool.eq_false_iff.mpr fun h => ?_
    have hm := hnames _ (List.contains_iff_mem.mp h)
    exact absurd (isPlain_of_mem_nameText hm) (by decide)
  rw [Identifier.methodName, hconstructor, if_neg Bool.false_ne_true, nameText]
  split
  · rw [List.append_nil, m.name.expandArity_text]
  · exact m.name.expandArity_marker m.generics

private theorem parenthesised_parameters (m : Method) :
    Identifier.parenthesised (some (Text.join [','] (m.parameters.map Parameter.source))) =
      '(' :: Text.join ", ".toList (m.parameters.map Parameter.shown) ++ [')'] := by
  rw [Identifier.parenthesised, Option.getD_some, parameterList_source]

private theorem isBlank_of_mem_identifier (m : Method) :
    ∀ c ∈ m.identifier, Text.isBlank c = false := by
  have hpath : ∀ c ∈ m.path, Text.isBlank c = false :=
    fun c hc => (isPlain_cases (isPlain_of_mem_path hc)).1
  have hparameters : ∀ c ∈ Text.join [','] (m.parameters.map Parameter.source),
      Text.isBlank c = false := by
    intro c hc
    rcases Text.mem_join hc with hc | ⟨u, hu, hc⟩
    · rw [List.mem_singleton.mp hc]
      decide
    · obtain ⟨p, _, rfl⟩ := List.mem_map.mp hu
      exact p.isBlank_of_mem_source c hc
  have hreturns : ∀ c ∈ m.returnText, Text.isBlank c = false := by
    rw [returnText]
    cases m.returns with
    | none => exact fun c hc => absurd hc List.not_mem_nil
    | some t =>
      exact List.forall_mem_cons.mpr
        ⟨by decide, t.isBlank_of_mem_write Spelling.proper_source⟩
  refine List.forall_mem_cons.mpr ⟨by decide, List.forall_mem_cons.mpr ⟨by decide, ?_⟩⟩
  refine List.forall_mem_append.mpr ⟨hpath, List.forall_mem_cons.mpr ⟨by decide, ?_⟩⟩
  exact List.forall_mem_append.mpr ⟨hparameters, List.forall_mem_cons.mpr ⟨by decide, hreturns⟩⟩

/-- The heading of a method says its name and the types of its parameters in short form, and so does
the title of a link to it. -/
theorem heading_and_title (m : Method) :
    Identifier.memberHeader m.identifier = "Method: ".toList ++ m.label ∧
      ∀ options singleDocument,
        (Reference.resolve options singleDocument m.identifier).title = m.label := by
  have hlabel : ∀ owner c, Identifier.methodName (Text.afterLast '.' m.path) (some (c :: owner)) ++
      Identifier.parenthesised (some (Text.join [','] (m.parameters.map Parameter.source))) =
        m.label := by
    intro owner c
    rw [m.afterLast_path, m.methodName_nameText, m.parenthesised_parameters]
    simp [label]
  constructor
  · have hkind : m.identifier.kind = ['M'] := by
      rw [Identifier.kind, identifier]
      rfl
    have hid : m.identifier.id = m.id := by
      rw [Identifier.id, identifier]
      rfl
    have hword : m.identifier.kindWord = "Method".toList := by
      rw [Identifier.kindWord, hkind]
      decide
    have hmethod : m.identifier.isMethod = true := by
      rw [Identifier.isMethod, hkind]
      rfl
    have hstart : "Method".toList ++ ": ".toList = "Method: ".toList := by decide
    rw [Identifier.memberHeader, Identifier.memberName, hid, m.splitParameters_id, hword, hmethod,
      hstart, List.append_assoc]
    exact congrArg _ (hlabel _ 'T')
  · intro options singleDocument
    have htrim : Text.trim m.identifier = m.identifier :=
      Text.trim_eq_self m.isBlank_of_mem_identifier
    have hid : m.id ≠ [] := List.append_ne_nil_of_right_ne_nil _ (List.cons_ne_nil _ _)
    have htagged : Reference.isTagged m.identifier = true :=
      Reference.isTagged_cons (by decide) hid
    have htype : ¬ some 'M' = some 'T' := by decide
    have hnamespace : ¬ some 'M' = some 'N' := by decide
    have hdrop : m.identifier.drop 2 = m.id := rfl
    have hhead : m.identifier.head? = some 'M' := rfl
    rw [Reference.resolve, htrim, Reference.label, htagged, hdrop, hhead]
    simp only [m.splitParameters_id, if_neg htype, if_neg hnamespace]
    exact hlabel _ 'T'

private def nameOf (t : Text) (h : (!t.isEmpty && t.all isWordChar) = true) : Name where
  text := t
  nonempty := by
    rintro rfl
    cases h
  word := List.all_eq_true.mp (Bool.and_eq_true_iff.mp h).2

/-- A generic method of a generic type, with a reference to an array of rank two. -/
private def transform : Method where
  owner := [(nameOf "Temp".toList rfl, none), (nameOf "Foo".toList rfl, some 1)]
  name := nameOf "Transform".toList rfl
  generics := 2
  parameters := [
    ⟨.named ⟨[], nameOf "List".toList rfl⟩ [.parameter true 0 [.pointer]] [], false⟩,
    ⟨.named ⟨[nameOf "System".toList rfl], nameOf "Int32".toList rfl⟩ [] [.ranked 1], true⟩]
  returns := some (.parameter false 0 [.array])

example : transform.identifier =
      "M:Temp.Foo`1.Transform``2(List\x7b``0*\x7d,System.Int32[0:,0:]@)~`0[]".toList ∧
    transform.label = "Transform<T1,T2>(List<T1*>, ref int[0:,0:])".toList := by
  decide +kernel

end Method
end ApiPages.Signature
