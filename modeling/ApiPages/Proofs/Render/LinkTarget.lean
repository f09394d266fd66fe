import ApiPages.Proofs.Render.Site

/-! Round trip of links and marks over a whole rendering: every link to a member or a type leads to
a place that the rendering makes. -/
namespace ApiPages.Render

open Markup

def rendering (root : Element) (options : Options) (strategy : Strategy)
    (singleDocument : Bool) : Context :=
  ⟨Catalog.ofDocument root, options, singleDocument, strategy⟩

/-- The identifier of a member of a type is its letter and its id, which is not empty. -/
private theorem member_shape {type : Identifier} {e : Entry}
    (h : Catalog.isMemberOf type e = true) :
    ∃ k ∈ Identifier.memberLetters,
      e.identifier = k :: ':' :: e.identifier.id ∧ e.identifier.id ≠ [] := by
  obtain ⟨hk, hp, _⟩ := Catalog.isMemberOf_iff.mp h
  obtain ⟨k, hm, he⟩ := Identifier.eq_of_isMember hk
  refine ⟨k, hm, he, ?_⟩
  intro h0
  rw [h0, List.prefix_nil] at hp
  exact absurd hp (by simp)

/-- A link to a member: its anchor, and for pages the file of its type in front. -/
theorem resolve_member (ctx : Context) {type e : Entry} (ht : type ∈ ctx.catalog.types)
    (he : e ∈ ctx.catalog.membersOf type.identifier)
    (htrim : Text.trim e.identifier = e.identifier) :
    (ctx.style.resolve e.identifier).href =
      some ((if ctx.singleDocument then [] else fileName ctx.options type.identifier) ++
        '#' :: memberAnchor e.identifier.id) := by
  obtain ⟨_, htype⟩ := Catalog.mem_types.mp ht
  obtain ⟨_, hmember⟩ := Catalog.mem_membersOf.mp he
  obtain ⟨k, hk, hshape, hid⟩ := member_shape hmember
  obtain ⟨_, _, howner⟩ := Catalog.isMemberOf_iff.mp hmember
  have hplace := Reference.place?_member ctx.options ctx.singleDocument hk hid
  rw [← hshape, howner, ← Identifier.eq_of_isType htype] at hplace
  rw [← hplace]
  simp only [LinkStyle.resolve, Reference.resolve, htrim]
  rfl

/-- The tag of a type is no blank, so only blanks at the end count. -/
theorem trim_of_isType {i : Identifier} (h : i.isType = true) (htrim : Text.trimEnd i = i) :
    Text.trim i = i := by
  have hshape := Identifier.eq_of_isType h
  rw [hshape, Text.trim_cons (by decide), ← hshape, htrim]

/-- A link to a type: the file of its page, or the anchor above its heading. -/
theorem resolve_type (ctx : Context) {type : Entry} (ht : type ∈ ctx.catalog.types)
    (hid : type.identifier.id ≠ []) (htrim : Text.trimEnd type.identifier = type.identifier) :
    (ctx.style.resolve type.identifier).href =
      some (if ctx.singleDocument then '#' :: headerSlug (typeHeading ctx type)
        else fileName ctx.options type.identifier) := by
  obtain ⟨_, htype⟩ := Catalog.mem_types.mp ht
  have hshape := Identifier.eq_of_isType htype
  have hall := trim_of_isType htype htrim
  have hplace := Reference.place?_type ctx.options ctx.singleDocument hid
  rw [← hshape] at hplace
  simp only [LinkStyle.resolve, Reference.resolve, hall]
  exact hplace

/-- Links and marks agree. A link to a member has its anchor, behind the file of its type when there
are pages; the page of the type, the single document and the stored page of a type with a file of
its own hold the mark of that anchor. A link to a type has the file under which its page is stored,
or the anchor that the single document sets right before the type's heading. -/
theorem links_lead_to_marks (root : Element) (options : Options) (strategy : Strategy)
    (type : Entry) (ht : type ∈ (Catalog.ofDocument root).types) :
    let site := rendering root options strategy false
    let single := rendering root options strategy true
    let file := fileName options type.identifier
    (∀ e ∈ (Catalog.ofDocument root).membersOf type.identifier,
      Text.trim e.identifier = e.identifier →
        let anchor := memberAnchor e.identifier.id
        let mark := "<a id=\"".toList ++ anchor ++ "\"></a>".toList
        (single.style.resolve e.identifier).href = some ('#' :: anchor) ∧
        (site.style.resolve e.identifier).href = some (file ++ '#' :: anchor) ∧
        (∀ withHeading, mark <:+: typePage site withHeading type ∧
          mark <:+: typePage single withHeading type) ∧
        mark <:+: document single ∧
        (HasOwnFile site type →
          ∃ page, Page.find? (pages site) file = some page ∧ mark <:+: page.content)) ∧
    (type.identifier.id ≠ [] → Text.trimEnd type.identifier = type.identifier →
      (site.style.resolve type.identifier).href = some file ∧
      (Page.find? (pages site) file).isSome = true ∧
      (HasOwnFile site type → Page.find? (pages site) file = some (pageOf site type)) ∧
      ∃ slug earlier later rest,
        (single.style.resolve type.identifier).href = some ('#' :: slug) ∧
        single.catalog.types = earlier ++ type :: later ∧
        document single = finished
          ((Text.trimEnd (index single single.catalog.types) :: [] ::
              earlier.flatMap (chapter single)) ++
            ["---".toList, [], "<a id=\"".toList ++ slug ++ "\"></a>".toList, [],
              "# ".toList ++ typeHeading single type, []] ++
            rest)) := by
  intro site single file
  constructor
  · intro e he htrim anchor mark
    refine ⟨resolve_member single ht he htrim, resolve_member site ht he htrim, ?_, ?_, ?_⟩
    · intro withHeading
      exact ⟨entryMark_infix_typePage site withHeading he,
        entryMark_infix_typePage single withHeading he⟩
    · exact entryMark_infix_document single ht he
    · intro hown
      exact ⟨pageOf site type, find?_pages_of_hasOwnFile site ht hown,
        entryMark_infix_typePage site true he⟩
  · intro hid htrim
    obtain ⟨earlier, later, hsplit⟩ := List.append_of_mem ht
    obtain ⟨rest, hdocument⟩ := document_eq single hsplit
    exact ⟨resolve_type site ht hid htrim, find?_pages_isSome site ht,
      find?_pages_of_hasOwnFile site ht, headerSlug (typeHeading single type), earlier, later, rest,
      resolve_type single ht hid htrim, hsplit, hdocument⟩

def undocumented (name : String) : Element :=
  ⟨Catalog.recordTag, [("name".toList, name.toList)], [], [], []⟩

/-- A type with two methods of one name. -/
def overloads : Element :=
  ⟨"doc".toList, [], [], ["T:A.B", "M:A.B.F", "M:A.B.F(System.Int32)"].map undocumented, []⟩

/-- The entries of its catalogue. -/
def overloadsEntry (number : Nat) (name : String) : Entry :=
  ⟨name.toList, undocumented name, [number]⟩

private theorem overloads_types :
    (Catalog.ofDocument overloads).types = [overloadsEntry 0 "T:A.B"] := rfl

private theorem overloads_members :
    (Catalog.ofDocument overloads).membersOf (overloadsEntry 0 "T:A.B").identifier =
      [overloadsEntry 1 "M:A.B.F", overloadsEntry 2 "M:A.B.F(System.Int32)"] := rfl

private theorem overloads_hasOwnFile :
    HasOwnFile (rendering overloads .default Strategy.heuristic false)
      (overloadsEntry 0 "T:A.B") := by
  refine ⟨by decide +kernel, ?_⟩
  intro other hm _
  have h : other ∈ (Catalog.ofDocument overloads).types := hm
  rw [overloads_types] at h
  exact List.mem_singleton.mp h

theorem links_lead_to_marks_of_overloads :
    let site := rendering overloads .default Strategy.heuristic false
    let single := rendering overloads .default Strategy.heuristic true
    let type := overloadsEntry 0 "T:A.B"
    let e := overloadsEntry 2 "M:A.B.F(System.Int32)"
    let mark := "<a id=\"a.b.f(int)\"></a>".toList
    (type ∈ (Catalog.ofDocument overloads).types ∧
      e ∈ (Catalog.ofDocument overloads).membersOf type.identifier ∧
      Text.trim e.identifier = e.identifier ∧ HasOwnFile site type ∧
      type.identifier.id ≠ [] ∧ Text.trimEnd type.identifier = type.identifier) ∧
    (single.style.resolve e.identifier).href = some "#a.b.f(int)".toList ∧
    (site.style.resolve e.identifier).href = some "A.B.md#a.b.f(int)".toList ∧
    mark <:+: typePage site true type ∧ mark <:+: document single ∧
    (∃ page, Page.find? (pages site) "A.B.md".toList = some page ∧ mark <:+: page.content) ∧
    (site.style.resolve type.identifier).href = some "A.B.md".toList := by
  intro site single type e mark
  have ht : type ∈ (Catalog.ofDocument overloads).types := by
    rw [overloads_types]
    exact List.mem_singleton_self type
  have he : e ∈ (Catalog.ofDocument overloads).membersOf type.identifier := by
    rw [overloads_members]
    exact List.mem_cons_of_mem _ (List.mem_singleton_self e)
  have htrim : Text.trim e.identifier = e.identifier := by decide +kernel
  have hid : type.identifier.id ≠ [] := by decide +kernel
  have hend : Text.trimEnd type.identifier = type.identifier := by decide +kernel
  have hanchor : memberAnchor e.identifier.id = "a.b.f(int)".toList := by decide +kernel
  have hfile : fileName .default type.identifier = "A.B.md".toList := by decide +kernel
  obtain ⟨hmembers, htypes⟩ :=
    links_lead_to_marks overloads .default Strategy.heuristic type ht
  obtain ⟨hsingle, hsite, hpages, hdocument, hstored⟩ := hmembers e he htrim
  rw [hanchor] at hsingle hsite hdocument hstored
  rw [hfile] at hsite hstored
  have hpage := (hpages true).1
  rw [hanchor] at hpage
  have hplace := (htypes hid hend).1
  rw [hfile] at hplace
  exact ⟨⟨ht, he, htrim, overloads_hasOwnFile, hid, hend⟩, hsingle, hsite, hpage, hdocument,
    hstored overloads_hasOwnFile, hplace⟩

end ApiPages.Render
