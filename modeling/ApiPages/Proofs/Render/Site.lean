import ApiPages.Proofs.Catalog
import ApiPages.Proofs.Link
import ApiPages.Proofs.Text.Lines
import ApiPages.Proofs.Text.Trim
import ApiPages.Render.Site

/-! Links and marks: a link to a member leads to the mark that its type's page sets for it, and a
link to a type to its page or to the mark above its heading. -/
namespace ApiPages.Render

open Markup

private theorem append_eq_concat {b b' : Text} {c : Char} (h : b = b' ++ [c]) (a : Text) :
    a ++ b = (a ++ b') ++ [c] := by
  rw [h, List.append_assoc]

/-- A mark ends in a character that no trimming takes away. -/
theorem anchorMark_eq_concat (anchor : Text) : ∃ front, anchorMark anchor = front ++ ['>'] :=
  ⟨"<a id=\"".toList ++ anchor ++ "\"></a".toList, append_eq_concat (by decide) _⟩

/-- A mark in one of the parts is there when they are put together. -/
theorem anchorMark_infix_finished {anchor part : Text} {parts : List Text} (hm : part ∈ parts)
    (h : anchorMark anchor <:+: part) : anchorMark anchor <:+: finished parts := by
  have hu : anchorMark anchor <:+: Text.unlines parts := h.trans (Text.infix_join _ hm)
  obtain ⟨front, he⟩ := anchorMark_eq_concat anchor
  rw [he] at hu ⊢
  exact (Text.infix_trimEnd (by decide) hu).trans (List.prefix_append _ _).isInfix

private theorem entryMark_mem_member (ctx : Context) (e : Entry) : entryMark e ∈ member ctx e :=
  List.mem_cons_self

theorem entryMark_infix_bullet (ctx : Context) (e : Entry) :
    ∃ part ∈ bulletedMember ctx e, entryMark e <:+: part := by
  refine ⟨_, List.mem_cons_self, "- ".toList, '`' :: e.identifier.memberHeader ++ ['`'], ?_⟩
  simp

/-- A group sets the marks of all its members, under headings of their own or as bullets. -/
theorem entryMark_infix_group (ctx : Context) {g : Group} {e : Entry} (he : e ∈ g.members) :
    ∃ part ∈ group ctx g, entryMark e <:+: part := by
  unfold group
  split
  · obtain ⟨part, hp, hi⟩ := entryMark_infix_bullet ctx e
    have hm : part ∈ g.members.flatMap (bulletedMember ctx) := List.mem_flatMap.mpr ⟨e, he, hp⟩
    exact ⟨part, List.mem_cons_of_mem _ (List.mem_cons_of_mem _ hm), hi⟩
  · exact ⟨entryMark e, List.mem_flatMap.mpr ⟨e, he, entryMark_mem_member ctx e⟩, List.infix_rfl⟩

/-- The page of a type sets the marks of all its members, with its heading or without. -/
theorem entryMark_infix_typePage (ctx : Context) (withHeading : Bool) {type e : Entry}
    (he : e ∈ ctx.catalog.membersOf type.identifier) :
    entryMark e <:+: typePage ctx withHeading type := by
  obtain ⟨g, hg, hm⟩ := Group.exists_of_mem he
  obtain ⟨part, hp, hi⟩ := entryMark_infix_group ctx hm
  have hpart : part ∈ (groups ctx type).flatMap (group ctx) := List.mem_flatMap.mpr ⟨g, hg, hp⟩
  exact anchorMark_infix_finished (List.mem_append_right _ hpart) hi

/-- The single document sets the marks of all members of its types. -/
theorem entryMark_infix_document (ctx : Context) {type e : Entry} (ht : type ∈ ctx.catalog.types)
    (he : e ∈ ctx.catalog.membersOf type.identifier) : entryMark e <:+: document ctx := by
  have hpage : entryMark e <:+: Text.trimEnd (typePage ctx false type) := by
    have h := entryMark_infix_typePage ctx false he
    obtain ⟨front, he⟩ := anchorMark_eq_concat (memberAnchor e.identifier.id)
    rw [entryMark, he] at h ⊢
    exact Text.infix_trimEnd (by decide) h
  have hbody : Text.trimEnd (typePage ctx false type) ∈
      unheaded (Text.trimEnd (typePage ctx false type)) := by
    have hne : Text.trimEnd (typePage ctx false type) ≠ [] := by
      intro h0
      rw [h0, List.infix_nil] at hpage
      cases hpage
    rw [unheaded, if_neg (by simpa using hne)]
    exact List.mem_cons_self
  have hchapter : Text.trimEnd (typePage ctx false type) ∈ chapter ctx type :=
    List.mem_append_right _ hbody
  refine anchorMark_infix_finished ?_ hpage
  exact List.mem_cons_of_mem _ (List.mem_cons_of_mem _ (List.mem_flatMap.mpr ⟨type, ht, hchapter⟩))

/-- The parts of the single document, up to the heading of one of its types and from there on. -/
theorem document_eq (ctx : Context) {earlier later : List Entry} {type : Entry}
    (h : ctx.catalog.types = earlier ++ type :: later) :
    ∃ rest, document ctx = finished
      ((Text.trimEnd (index ctx ctx.catalog.types) :: [] :: earlier.flatMap (chapter ctx)) ++
        ["---".toList, [], anchorMark (headerSlug (typeHeading ctx type)), [],
          "# ".toList ++ typeHeading ctx type, []] ++ rest) := by
  refine ⟨unheaded (Text.trimEnd (typePage ctx false type)) ++ later.flatMap (chapter ctx), ?_⟩
  have hc : ctx.catalog.types.flatMap (chapter ctx) =
      earlier.flatMap (chapter ctx) ++ (chapter ctx type ++ later.flatMap (chapter ctx)) := by
    rw [h, List.flatMap_append, List.flatMap_cons]
  rw [document, hc, chapter]
  simp

namespace Page

/-- The page that is stored under a file name. -/
def find? (pages : List Page) (file : Text) : Option Page :=
  List.find? (fun page => page.file == file) pages

theorem put_eq_exchange (page : Page) (pages : List Page) :
    put page pages = Keyed.exchange Page.file page.file (fun _ => page) pages := by
  induction pages with
  | nil => rfl
  | cons p ps ih => rw [put, Keyed.exchange, ih]

theorem find?_put (page : Page) (pages : List Page) (file : Text) :
    find? (put page pages) file = if page.file = file then some page else find? pages file := by
  rw [put_eq_exchange]
  exact Keyed.find?_exchange Page.file page pages file

end Page

/-- Of the types with one file name the last one keeps it. -/
theorem find?_addPages (ctx : Context) (pages : List Page) (types : List Entry) (file : Text) :
    Page.find? (addPages ctx pages types) file =
      ((types.reverse.find? fun type => fileName ctx.options type.identifier == file).map
        (pageOf ctx)).or (Page.find? pages file) := by
  induction types generalizing pages with
  | nil => simp [addPages]
  | cons type types ih =>
    rw [addPages, ih, Page.find?_put, List.reverse_cons, List.find?_append]
    cases types.reverse.find? fun type => fileName ctx.options type.identifier == file with
    | some last => simp
    | none =>
      by_cases h : fileName ctx.options type.identifier = file
      · simp [pageOf, h]
      · simp [pageOf, h]

/-- No other type has the file name of this one, and it is not that of the index. -/
def HasOwnFile (ctx : Context) (type : Entry) : Prop :=
  fileName ctx.options type.identifier ≠ indexFile ∧
    ∀ other ∈ ctx.catalog.types,
      fileName ctx.options other.identifier = fileName ctx.options type.identifier → other = type

theorem find?_pages_isSome (ctx : Context) {type : Entry} (ht : type ∈ ctx.catalog.types) :
    (Page.find? (pages ctx) (fileName ctx.options type.identifier)).isSome = true := by
  rw [pages, Page.find?_put]
  split
  · rfl
  · rw [find?_addPages, Option.isSome_or, Option.isSome_map, Bool.or_eq_true]
    refine Or.inl (List.find?_isSome.mpr ⟨type, List.mem_reverse.mpr ht, ?_⟩)
    exact beq_self_eq_true _

/-- A file name of its own leads to the type's own page. -/
theorem find?_pages_of_hasOwnFile (ctx : Context) {type : Entry} (ht : type ∈ ctx.catalog.types)
    (h : HasOwnFile ctx type) :
    Page.find? (pages ctx) (fileName ctx.options type.identifier) = some (pageOf ctx type) := by
  obtain ⟨hindex, hown⟩ := h
  rw [pages, Page.find?_put, if_neg (fun he => hindex he.symm), find?_addPages]
  cases hf : ctx.catalog.types.reverse.find? fun other =>
      fileName ctx.options other.identifier == fileName ctx.options type.identifier with
  | none =>
    have hn := List.find?_eq_none.mp hf type (List.mem_reverse.mpr ht)
    exact absurd (beq_self_eq_true _) hn
  | some other =>
    have hm : other ∈ ctx.catalog.types := List.mem_reverse.mp (List.mem_of_find?_eq_some hf)
    have he := List.find?_some hf
    rw [hown other hm (eq_of_beq he)]
    rfl

end ApiPages.Render
