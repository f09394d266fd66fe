import ApiPages.Proofs.Catalog
import ApiPages.Proofs.Link
import ApiPages.Proofs.Markup.Position
import ApiPages.Render.TypePage

/-! The single document and the pages differ only in where links lead: the page of a type is the same
text in both when all references that it mentions lead to the same places. -/
namespace ApiPages.Render

open Markup

/-- The tags of elements on which a cross-reference counts. -/
def referenceTags : List Text := ["see".toList, "seealso".toList, "exception".toList]

/-- An element inside the other one, at any depth, has the cross-reference. -/
def Mentions (e : Element) (reference : Text) : Prop :=
  ∃ position inner, position ≠ [] ∧ e.at? position = some inner ∧
    inner.tag ∈ referenceTags ∧ inner.attr? "cref".toList = some reference

/-- The two styles make the same link of every reference that the element or one inside it has. -/
def AgreeOn (style style' : LinkStyle) (e : Element) : Prop :=
  ∀ position inner reference, e.at? position = some inner → inner.tag ∈ referenceTags →
    inner.attr? "cref".toList = some reference → style.resolve reference = style'.resolve reference

private theorem tag_of_reference {tag : Text} (h : Kind.ofTag tag = .reference) : tag ∈ referenceTags := by
  by_contra hn
  simp only [referenceTags, List.mem_cons, List.not_mem_nil, or_false, not_or] at hn
  have hsee : (tag == "see".toList) = false := beq_false_of_ne hn.1
  have halso : (tag == "seealso".toList) = false := beq_false_of_ne hn.2.1
  have hkind : Kind.ofTag tag = ((kinds.drop 2).lookup tag).getD .other := by
    simp only [Kind.ofTag, kinds, List.lookup_cons, hsee, halso, List.drop_succ_cons, List.drop_zero]
  have hother : ∀ kind ∈ (kinds.drop 2).map Prod.snd, kind ≠ .reference := by decide
  rw [hkind] at h
  cases hfound : (kinds.drop 2).lookup tag with
  | none => simp [hfound] at h
  | some kind =>
    rw [hfound] at h
    exact hother kind (List.mem_map_of_mem (Keyed.mem_of_lookup_eq_some hfound)) h

namespace AgreeOn

variable {style style' : LinkStyle}

theorem child {e child : Element} (h : AgreeOn style style' e) (hchild : child ∈ e.children) :
    AgreeOn style style' child := by
  intro position inner reference hat
  obtain ⟨number, hnumber⟩ := List.getElem?_of_mem hchild
  refine h (number :: position) inner reference ?_
  rw [Element.at?_cons, hnumber]
  exact hat

/-- A reference that is not empty makes the same link in both styles. -/
theorem resolve_eq {e : Element} (h : AgreeOn style style' e) (htag : e.tag ∈ referenceTags)
    (hcref : (e.attr "cref".toList).isEmpty = false) :
    style.resolve (e.attr "cref".toList) = style'.resolve (e.attr "cref".toList) := by
  rw [Element.attr] at hcref ⊢
  cases hattr : e.attr? "cref".toList with
  | none =>
    rw [hattr] at hcref
    cases hcref
  | some reference => exact h [] e reference rfl htag hattr

private theorem reference_eq {e : Element} (h : AgreeOn style style' e) (htag : e.tag ∈ referenceTags) :
    reference style e = reference style' e := by
  rw [reference, reference]
  cases hcref : (e.attr "cref".toList).isEmpty with
  | true => rfl
  | false => rw [h.resolve_eq htag hcref]

end AgreeOn

section Content

variable {style style' : LinkStyle}

mutual

theorem element_eq (ho : style.options = style'.options) (pending : Bool) {e : Element}
    (h : AgreeOn style style' e) :
    element style pending e = element style' pending e := by
  obtain ⟨tag, attributes, text, inner, tail⟩ := e
  have hinner : ∀ child ∈ inner, AgreeOn style style' child := fun child hchild => h.child hchild
  rw [element, element]
  cases hkind : Kind.ofTag tag with
  | reference => simp only [h.reference_eq (tag_of_reference hkind)]
  | parameter => rfl
  | inlineCode => simp only [code, ho]
  | code => simp only [code, ho]
  | paragraph => simp only [children_eq ho pending hinner]
  | list => simp only [header?_eq ho hinner, items_eq ho hinner]
  | nothing => rfl
  | other => simp only [children_eq ho pending hinner]

private theorem children_eq (ho : style.options = style'.options) (pending : Bool) {es : List Element}
    (h : ∀ e ∈ es, AgreeOn style style' e) :
    children style pending es = children style' pending es := by
  cases es with
  | nil => rw [children, children]
  | cons e es =>
    obtain ⟨he, hes⟩ := List.forall_mem_cons.mp h
    rw [children, children]
    simp only [element_eq ho pending he, children_eq ho _ hes]

private theorem inlineOf_eq (ho : style.options = style'.options) (tag : Text) {es : List Element}
    (h : ∀ e ∈ es, AgreeOn style style' e) :
    inlineOf style tag es = inlineOf style' tag es := by
  cases es with
  | nil => rw [inlineOf, inlineOf]
  | cons e es =>
    obtain ⟨he, hes⟩ := List.forall_mem_cons.mp h
    obtain ⟨tag', attributes, text, inner, tail⟩ := e
    have hinner : ∀ child ∈ inner, AgreeOn style style' child := fun child hchild => he.child hchild
    rw [inlineOf, inlineOf, children_eq ho false hinner, inlineOf_eq ho tag hes]

private theorem items_eq (ho : style.options = style'.options) {es : List Element}
    (h : ∀ e ∈ es, AgreeOn style style' e) :
    items style es = items style' es := by
  cases es with
  | nil => rw [items, items]
  | cons e es =>
    obtain ⟨he, hes⟩ := List.forall_mem_cons.mp h
    obtain ⟨tag, attributes, text, inner, tail⟩ := e
    have hinner : ∀ child ∈ inner, AgreeOn style style' child := fun child hchild => he.child hchild
    rw [items, items, inlineOf_eq ho _ hinner, inlineOf_eq ho _ hinner, children_eq ho false hinner,
      items_eq ho hes]

private theorem header?_eq (ho : style.options = style'.options) {es : List Element}
    (h : ∀ e ∈ es, AgreeOn style style' e) :
    header? style es = header? style' es := by
  cases es with
  | nil => rw [header?, header?]
  | cons e es =>
    obtain ⟨he, hes⟩ := List.forall_mem_cons.mp h
    obtain ⟨tag, attributes, text, inner, tail⟩ := e
    have hinner : ∀ child ∈ inner, AgreeOn style style' child := fun child hchild => he.child hchild
    rw [header?, header?, inlineOf_eq ho _ hinner, inlineOf_eq ho _ hinner, header?_eq ho hes]

end

variable (ho : style.options = style'.options)

include ho

private theorem prose_eq (preferBlock : Bool) {section_ : Option Element}
    (h : ∀ e ∈ section_, AgreeOn style style' e) :
    prose style preferBlock section_ = prose style' preferBlock section_ := by
  cases section_ with
  | none => rfl
  | some e =>
    have he := h e rfl
    rw [prose, prose, raw, raw, children_eq ho preferBlock fun child hchild => he.child hchild]

variable {content : Element} (h : ∀ e ∈ content.children, AgreeOn style style' e)

include h

omit ho in
private theorem agreeOn_childrenNamed {tag : Text} {e : Element} (he : e ∈ content.childrenNamed tag) :
    AgreeOn style style' e ∧ e.tag = tag := by
  obtain ⟨hmem, htag⟩ := List.mem_filter.mp he
  exact ⟨h e hmem, eq_of_beq htag⟩

private theorem prose_child?_eq (tag : Text) :
    prose style false (content.child? tag) = prose style' false (content.child? tag) :=
  prose_eq ho false fun e he => h e (List.mem_of_find?_eq_some he)

private theorem namedSections_eq (heading tag : Text) :
    namedSections style heading (content.childrenNamed tag) =
      namedSections style' heading (content.childrenNamed tag) := by
  have hsections : ∀ e ∈ content.childrenNamed tag, prose style false (some e) =
      prose style' false (some e) := fun e he =>
    prose_eq ho false fun inner hinner =>
      Option.some.inj hinner ▸ (agreeOn_childrenNamed h he).1
  rw [namedSections, namedSections, List.flatMap_congr fun e he => by rw [hsections e he]]

private theorem exceptions_eq : exceptions style content = exceptions style' content := by
  have hexception : ∀ e ∈ content.childrenNamed "exception".toList,
      exception style e = exception style' e := by
    intro e he
    obtain ⟨hagree, htag⟩ := agreeOn_childrenNamed h he
    have hreference : e.tag ∈ referenceTags := by
      rw [htag]
      decide
    rw [exception, exception, prose_eq ho false fun inner hinner => Option.some.inj hinner ▸ hagree]
    cases hcref : (e.attr "cref".toList).isEmpty with
    | true => rfl
    | false => rw [hagree.resolve_eq hreference hcref]
  rw [exceptions, exceptions, List.flatMap_congr hexception]

private theorem examples_eq (heading : Text) :
    examples style content heading = examples style' content heading := by
  rw [examples, examples]
  refine List.flatMap_congr fun e he => ?_
  rw [prose_eq ho true fun inner hinner => Option.some.inj hinner ▸ (agreeOn_childrenNamed h he).1]

omit ho in
private theorem seeAlso_eq (heading : Text) :
    seeAlso style content heading = seeAlso style' content heading := by
  have hlinks : ∀ e ∈ content.childrenNamed "seealso".toList,
      reference style e = reference style' e := by
    intro e he
    obtain ⟨hagree, htag⟩ := agreeOn_childrenNamed h he
    refine hagree.reference_eq ?_
    rw [htag]
    decide
  rw [seeAlso, seeAlso, List.map_congr_left hlinks]

private theorem memberSections_eq : memberSections style content = memberSections style' content := by
  simp only [memberSections, textSection, prose_child?_eq ho h, namedSections_eq ho h,
    exceptions_eq ho h, examples_eq ho h, seeAlso_eq h]

private theorem typeSections_eq : typeSections style content = typeSections style' content := by
  simp only [typeSections, textSection, prose_child?_eq ho h, namedSections_eq ho h,
    examples_eq ho h, seeAlso_eq h]

end Content

section Page

variable {ctx ctx' : Context}

private theorem group_eq_of_details {g : Group}
    (h : ∀ e ∈ g.members, memberDetails ctx e = memberDetails ctx' e) :
    group ctx g = group ctx' g := by
  have hmember : ∀ e ∈ g.members, member ctx e = member ctx' e := by
    intro e he
    rw [member, member, h e he]
  have hbulleted : ∀ e ∈ g.members, bulletedMember ctx e = bulletedMember ctx' e := by
    intro e he
    rw [bulletedMember, bulletedMember, h e he]
  rw [group, group, List.flatMap_congr hmember, List.flatMap_congr hbulleted]

/-- A page is told by its heading, the sections of the type and those of the members. -/
theorem typePage_eq_of_sections {withHeading : Bool} {type : Entry}
    (hcatalog : ctx.catalog = ctx'.catalog) (hoptions : ctx.options = ctx'.options)
    (htype : typeSections ctx.style (ctx.content type) =
      typeSections ctx'.style (ctx'.content type))
    (hmembers : ∀ e ∈ ctx.catalog.membersOf type.identifier,
      memberDetails ctx e = memberDetails ctx' e) :
    typePage ctx withHeading type = typePage ctx' withHeading type := by
  have hgroups : (groups ctx type).flatMap (group ctx) =
      (groups ctx' type).flatMap (group ctx') := by
    rw [groups, groups, ← hcatalog]
    refine List.flatMap_congr fun g hg => group_eq_of_details fun e he => hmembers e ?_
    exact (Group.members_ofEntries _).mem_iff.mp (List.mem_flatMap.mpr ⟨g, hg, he⟩)
  rw [typePage, typePage, hgroups, htype, typeHeading, typeHeading, hoptions]

end Page

/-- The reference leads to the same place in the single document and from page to page. -/
def LeadsAlike (options : Options) (reference : Text) : Prop :=
  (Reference.resolve options true reference).href =
    (Reference.resolve options false reference).href

/-- A reference that leads to a place leads to different ones in the two modes: from page to page there
is a file name in it. So only those lead alike that lead nowhere. -/
theorem leadsAlike_iff {options : Options} {reference : Text} :
    LeadsAlike options reference ↔ (Reference.resolve options true reference).href = none := by
  have hfile (type : Text) : '.' ∈ fileName options type := by
    rw [fileName]
    exact List.mem_append_right _ (by decide)
  have hslug (heading : Text) : '.' ∉ '#' :: headerSlug heading := by
    rw [List.mem_cons, not_or]
    exact ⟨by decide, fun h => absurd (isSlugChar_of_mem_headerSlug h) (by decide)⟩
  have hanchor (file anchor : Text) (hf : '.' ∈ file) : '#' :: anchor ≠ file ++ '#' :: anchor := by
    intro he
    have hnil : file = [] := List.self_eq_append_left.mp he
    rw [hnil] at hf
    cases hf
  rw [LeadsAlike, Reference.resolve, Reference.resolve]
  generalize Text.trim reference = token
  unfold Reference.place?
  cases Reference.isTagged token with
  | false => exact iff_of_true rfl rfl
  | true =>
    cases token with
    | nil => exact iff_of_true rfl rfl
    | cons kind rest =>
      cases hkind : Reference.linkableKinds.contains kind with
      | false =>
        simp only [hkind]
        exact iff_of_true rfl rfl
      | true =>
        simp only [hkind]
        by_cases htype : kind = 'T'
        · simp only [htype]
          refine iff_of_false (fun h => ?_) (Option.some_ne_none _)
          exact hslug _ (Option.some.inj h ▸ hfile _)
        · simp only [htype]
          refine iff_of_false (fun h => ?_) (Option.some_ne_none _)
          exact hanchor _ _ (hfile _) (Option.some.inj h)

/-- Where all references that a type and its members mention lead alike, its page is the same text in
the single document and on its own. -/
theorem mode_shows_only_in_links (catalog : Catalog) (options : Options) (strategy : Strategy)
    (withHeading : Bool) (type : Entry)
    (h : ∀ e, e = type ∨ e ∈ catalog.membersOf type.identifier → ∀ reference,
      Mentions (Inheritance.content strategy catalog e) reference → LeadsAlike options reference) :
    typePage ⟨catalog, options, true, strategy⟩ withHeading type =
      typePage ⟨catalog, options, false, strategy⟩ withHeading type := by
  have hagree (e : Entry) (he : e = type ∨ e ∈ catalog.membersOf type.identifier) :
      ∀ child ∈ (Inheritance.content strategy catalog e).children,
        AgreeOn ⟨options, true⟩ ⟨options, false⟩ child := by
    intro child hchild position inner reference hat htag hcref
    obtain ⟨number, hnumber⟩ := List.getElem?_of_mem hchild
    have hplace : LeadsAlike options reference := by
      refine h e he reference ⟨number :: position, inner, List.cons_ne_nil _ _, ?_, htag, hcref⟩
      rw [Element.at?_cons, hnumber]
      exact hat
    rw [LinkStyle.resolve, LinkStyle.resolve, Reference.resolve, Reference.resolve]
    exact congrArg (Link.mk _) hplace
  have ho : (⟨options, true⟩ : LinkStyle).options = (⟨options, false⟩ : LinkStyle).options := rfl
  have htype := typeSections_eq ho (hagree type (Or.inl rfl))
  have hmembers := fun e he => memberSections_eq ho (hagree e (Or.inr he))
  exact typePage_eq_of_sections rfl rfl htype hmembers

/-- The cross-references at and inside an element. -/
def references (e : Element) : List Text :=
  referenceTags.flatMap fun tag =>
    (e.occurrences tag []).filterMap fun found => found.2.attr? "cref".toList

private theorem mem_references {e : Element} {reference : Text} (h : Mentions e reference) :
    reference ∈ references e := by
  obtain ⟨position, inner, -, hat, htag, hcref⟩ := h
  refine List.mem_flatMap.mpr ⟨inner.tag, htag, List.mem_filterMap.mpr ⟨(position, inner), ?_, hcref⟩⟩
  exact Element.mem_occurrences.mpr ⟨position, rfl, hat, rfl⟩

private def withCref (tag cref : String) (children : List Element) : Element :=
  ⟨tag.toList, [("cref".toList, cref.toList)], [], children, []⟩

private def record (name : String) (children : List Element) : Element :=
  ⟨"member".toList, [("name".toList, name.toList)], [], children, []⟩

private def section_ (tag : String) (children : List Element) : Element :=
  ⟨tag.toList, [], [], children, []⟩

/-- Two overloads, one of which inherits from the other, that mention a namespace in a list and an
exception that is not known. -/
def placeless : Element :=
  section_ "doc" [
    record "T:A" [section_ "summary" [withCref "see" "N:Sys" []]],
    record "M:A.F" [withCref "inheritdoc" "M:A.F(System.Int32)" []],
    record "M:A.F(System.Int32)" [
      section_ "summary" [section_ "list" [section_ "item" [withCref "see" "N:Sys" []]]],
      withCref "exception" "!:Gone" []]]

private def placelessType : Entry :=
  ⟨"T:A".toList, record "T:A" [section_ "summary" [withCref "see" "N:Sys" []]], [0]⟩

theorem mode_shows_only_in_links_of_overloads :
    let catalog := Catalog.ofDocument placeless
    (∃ e ∈ catalog.membersOf "T:A".toList, e.element.hasChild "exception".toList = false ∧
      Mentions (Inheritance.content Strategy.heuristic catalog e) "!:Gone".toList) ∧
    LeadsAlike .default "!:Gone".toList ∧ LeadsAlike .default "N:Sys".toList ∧
    typePage ⟨catalog, .default, true, Strategy.heuristic⟩ true placelessType =
      typePage ⟨catalog, .default, false, Strategy.heuristic⟩ true placelessType := by
  intro catalog
  have hall : ∀ e ∈ placelessType :: catalog.membersOf "T:A".toList,
      ∀ reference ∈ references (Inheritance.content Strategy.heuristic catalog e),
        (Reference.resolve .default true reference).href = none := by
    decide +kernel
  have hcopy : ∃ e ∈ catalog.membersOf "T:A".toList,
      e.element.hasChild "exception".toList = false ∧
        ((Inheritance.content Strategy.heuristic catalog e).at? [2]).bind
          (fun inner => if inner.tag = "exception".toList then inner.attr? "cref".toList else none) =
            some "!:Gone".toList := by
    decide +kernel
  refine ⟨?_, leadsAlike_iff.mpr (by decide +kernel), leadsAlike_iff.mpr (by decide +kernel), ?_⟩
  · obtain ⟨e, he, hown, hinner⟩ := hcopy
    obtain ⟨inner, hat, hcref⟩ := Option.bind_eq_some_iff.mp hinner
    split at hcref
    · next htag =>
      exact ⟨e, he, hown, [2], inner, List.cons_ne_nil _ _, hat, by rw [htag]; decide, hcref⟩
    · cases hcref
  · refine mode_shows_only_in_links catalog .default Strategy.heuristic true placelessType ?_
    intro e he reference hmentions
    refine leadsAlike_iff.mpr (hall e ?_ reference (mem_references hmentions))
    exact List.mem_cons.mpr he

end ApiPages.Render
