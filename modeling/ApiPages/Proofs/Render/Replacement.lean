import ApiPages.Proofs.Keyed
import ApiPages.Proofs.Render.LinkTarget

/-! Pages with one file name: the last one keeps it, and the notices name every type whose page gave
way to that of another. The index comes last and takes its place without a notice. -/
namespace ApiPages

/-- Following the sources of an entry leaves nothing that matters much. -/
theorem Inheritance.level_of_mem_chainNotices {e : Entry} {sources : List Entry} {notice : Notice}
    (h : notice ∈ chainNotices e sources) : notice.level = .debug := by
  induction sources generalizing e with
  | nil =>
    rw [chainNotices] at h
    split at h
    · rw [List.mem_singleton.mp h]
      rfl
    · cases h
  | cons source rest ih =>
    rcases List.mem_cons.mp h with rfl | h
    · rfl
    · exact ih h

namespace Render

private theorem level_of_mem_typePageNotices {ctx : Context} {type : Entry} {notice : Notice}
    (h : notice ∈ typePageNotices ctx type) : notice.level = .debug := by
  rcases List.mem_append.mp h with h | h
  · exact Inheritance.level_of_mem_chainNotices h
  · obtain ⟨g, _, h⟩ := List.mem_flatMap.mp h
    obtain ⟨e, _, h⟩ := List.mem_flatMap.mp h
    exact Inheritance.level_of_mem_chainNotices h

/-- Adding one page leaves a notice of replacement exactly when its file name belongs to another type
by then. -/
theorem pageReplaced_mem_addPagesNotices_cons {ctx : Context} {pages : List Page} {type : Entry}
    {types : List Entry} {former other : Identifier} {file : Text} :
    .pageReplaced former other file ∈ addPagesNotices ctx pages (type :: types) ↔
      (Page.ownerOf? pages file = some former ∧ type.identifier = other ∧
        fileName ctx.options type.identifier = file) ∨
      .pageReplaced former other file ∈
        addPagesNotices ctx (Page.put (pageOf ctx type) pages) types := by
  have hpage : .pageReplaced former other file ∉ typePageNotices ctx type :=
    fun h => nomatch level_of_mem_typePageNotices h
  rw [addPagesNotices, List.mem_append, List.mem_append, or_iff_left hpage]
  refine or_congr_left ?_
  cases hown : Page.ownerOf? pages (pageOf ctx type).file with
  | none =>
    refine iff_of_false List.not_mem_nil ?_
    rintro ⟨ho, _, rfl⟩
    cases hown.symm.trans ho
  | some owner =>
    rw [List.mem_singleton, Notice.pageReplaced.injEq]
    constructor
    · rintro ⟨rfl, rfl, rfl⟩
      exact ⟨hown, rfl, rfl⟩
    · rintro ⟨ho, rfl, rfl⟩
      exact ⟨Option.some.inj (ho.symm.trans hown), rfl, rfl⟩

/-- The notices of replacement of a whole run: one type owned the file name when another came. -/
theorem pageReplaced_mem_addPagesNotices {ctx : Context} {pages : List Page} {types : List Entry}
    {former other : Identifier} {file : Text} :
    .pageReplaced former other file ∈ addPagesNotices ctx pages types ↔
      ∃ earlier type later, types = earlier ++ type :: later ∧
        Page.ownerOf? (addPages ctx pages earlier) file = some former ∧
        type.identifier = other ∧ fileName ctx.options type.identifier = file := by
  induction types generalizing pages with
  | nil =>
    refine iff_of_false List.not_mem_nil ?_
    rintro ⟨earlier, type, later, h, _⟩
    cases earlier <;> cases h
  | cons first rest ih =>
    rw [pageReplaced_mem_addPagesNotices_cons, ih]
    constructor
    · rintro (h | ⟨earlier, type, later, rfl, h⟩)
      · exact ⟨[], first, rest, rfl, h⟩
      · exact ⟨first :: earlier, type, later, rfl, h⟩
    · rintro ⟨_ | ⟨_, earlier⟩, type, later, hsplit, h⟩
      · cases hsplit
        exact Or.inl h
      · cases hsplit
        exact Or.inr ⟨earlier, type, later, rfl, h⟩

/-- A page stays until another type with its file name comes. -/
theorem find?_addPages_append_cons (ctx : Context) (pages : List Page) (earlier : List Entry)
    {type : Entry} {later : List Entry}
    (h : ∀ other ∈ later,
      fileName ctx.options other.identifier ≠ fileName ctx.options type.identifier) :
    Page.find? (addPages ctx pages (earlier ++ type :: later))
      (fileName ctx.options type.identifier) = some (pageOf ctx type) := by
  have hlater : later.reverse.find? (fun other =>
      fileName ctx.options other.identifier == fileName ctx.options type.identifier) = none :=
    List.find?_eq_none.mpr fun other ho he => h other (List.mem_reverse.mp ho) (eq_of_beq he)
  rw [find?_addPages, List.reverse_append, List.reverse_cons, List.append_assoc,
    List.find?_append, hlater]
  simp

/-- Only types own pages. -/
theorem exists_of_ownerOf?_addPages {ctx : Context} {types : List Entry} {file : Text}
    {owner : Identifier} (h : Page.ownerOf? (addPages ctx [] types) file = some owner) :
    ∃ type ∈ types, fileName ctx.options type.identifier = file ∧ type.identifier = owner := by
  obtain ⟨page, hpage, howner⟩ := Option.bind_eq_some_iff.mp h
  have hnone : Page.find? [] file = none := rfl
  have hfind := find?_addPages ctx [] types file
  rw [hnone, Option.or_none] at hfind
  replace hpage := hfind.symm.trans hpage
  obtain ⟨type, htype, rfl⟩ := Option.map_eq_some_iff.mp hpage
  have hfile := List.find?_some htype
  exact ⟨type, List.mem_reverse.mp (List.mem_of_find?_eq_some htype), eq_of_beq hfile,
    Option.some.inj howner⟩

def indexPage (ctx : Context) : Page := ⟨indexFile, index ctx ctx.catalog.types, none⟩

/-- What is stored under the type's file name is its page. -/
def HasPage (ctx : Context) (type : Entry) : Prop :=
  (Page.find? (pages ctx) (fileName ctx.options type.identifier)).map Page.content =
    some (typePage ctx true type)

/-- A notice says that the type's page gave way to another's. -/
def IsNotedAsReplaced (ctx : Context) (type : Entry) : Prop :=
  ∃ other file, .pageReplaced type.identifier other file ∈ pagesNotices ctx

private theorem hasPage_of_last {ctx : Context} {earlier later : List Entry} {type : Entry}
    (hsplit : ctx.catalog.types = earlier ++ type :: later)
    (hlast : ∀ other ∈ later,
      fileName ctx.options other.identifier ≠ fileName ctx.options type.identifier)
    (hindex : fileName ctx.options type.identifier ≠ indexFile) : HasPage ctx type := by
  rw [HasPage, pages, Page.find?_put, if_neg (Ne.symm hindex), hsplit,
    find?_addPages_append_cons ctx [] earlier hlast]
  rfl

private theorem isNotedAsReplaced_of_later {ctx : Context} {earlier later : List Entry} {type other : Entry}
    (hsplit : ctx.catalog.types = earlier ++ type :: later) (hother : other ∈ later)
    (hfile : fileName ctx.options other.identifier = fileName ctx.options type.identifier) :
    IsNotedAsReplaced ctx type := by
  -- The first of the later types with the file name is the one that replaces the page.
  have hsome : (later.find? fun other =>
      fileName ctx.options other.identifier == fileName ctx.options type.identifier).isSome :=
    List.find?_isSome.mpr ⟨other, hother, beq_iff_eq.mpr hfile⟩
  obtain ⟨next, hnext⟩ := Option.isSome_iff_exists.mp hsome
  obtain ⟨hfile, between, rest, rfl, hbetween⟩ := List.find?_eq_some_iff_append.mp hnext
  have hpage : Page.find? (addPages ctx [] (earlier ++ type :: between))
      (fileName ctx.options type.identifier) = some (pageOf ctx type) := by
    refine find?_addPages_append_cons ctx [] earlier fun other ho he => ?_
    simpa [he] using hbetween other ho
  refine ⟨next.identifier, fileName ctx.options type.identifier, ?_⟩
  refine pageReplaced_mem_addPagesNotices.mpr
    ⟨earlier ++ type :: between, next, rest, by rw [hsplit]; simp, ?_, rfl, eq_of_beq hfile⟩
  exact congrArg (·.bind Page.owner) hpage

/-- The notices do not name a type whose file name no later type has. -/
theorem not_isNotedAsReplaced_of_last {ctx : Context} {earlier later : List Entry} {type : Entry}
    (hnodup : (ctx.catalog.types.map Entry.identifier).Nodup)
    (hsplit : ctx.catalog.types = earlier ++ type :: later)
    (hlast : ∀ other ∈ later,
      fileName ctx.options other.identifier ≠ fileName ctx.options type.identifier) :
    ¬ IsNotedAsReplaced ctx type := by
  rintro ⟨_, file, hnotice⟩
  obtain ⟨before, next, rest, hnext, howner, _, hfile⟩ :=
    pageReplaced_mem_addPagesNotices.mp hnotice
  obtain ⟨former, hformer, hformerFile, hid⟩ := exists_of_ownerOf?_addPages howner
  have hmem : former ∈ ctx.catalog.types := by
    rw [hnext]
    exact List.mem_append_left _ hformer
  have htype : type ∈ ctx.catalog.types := by
    rw [hsplit]
    exact List.mem_append_right _ List.mem_cons_self
  obtain rfl := List.inj_on_of_nodup_map hnodup hmem htype hid
  obtain ⟨front, between, rfl⟩ := List.append_of_mem hformer
  -- The type stands once among the types, so what follows it is the same in both divisions.
  have heq : front ++ former :: (between ++ next :: rest) = earlier ++ former :: later := by
    rw [← hsplit, hnext]
    simp
  have honce := List.Nodup.of_map _ hnodup
  rw [hsplit, ← heq, List.nodup_middle, List.nodup_cons, List.mem_append, not_or] at honce
  obtain ⟨_, _, rfl⟩ := (List.append_cons_inj_of_notMem honce.1.1 honce.1.2).mp heq
  have hnextLater : next ∈ between ++ next :: rest := List.mem_append_right _ List.mem_cons_self
  exact hlast next hnextLater (hfile.trans hformerFile.symm)

private theorem Page.files_put (page : Page) (pages : List Page) :
    (put page pages).map Page.file = Keyed.withKey (pages.map Page.file) page.file := by
  rw [put_eq_exchange]
  exact Keyed.keys_exchange (k := page.file) rfl (fun _ _ => rfl) pages

private theorem files_addPages (ctx : Context) (pages : List Page) (types : List Entry) :
    (addPages ctx pages types).map Page.file =
      (types.map fun type => fileName ctx.options type.identifier).foldl Keyed.withKey
        (pages.map Page.file) := by
  induction types generalizing pages with
  | nil => rfl
  | cons type types ih =>
    rw [addPages, ih, Page.files_put]
    rfl

/-- The files of a site in the order in which their names first come, that of the index at the end. -/
theorem files_pages (ctx : Context) :
    (pages ctx).map Page.file =
      ((ctx.catalog.types.map fun type => fileName ctx.options type.identifier) ++
        [indexFile]).foldl Keyed.withKey [] := by
  rw [pages, Page.files_put, files_addPages, List.foldl_append]
  rfl

private theorem find?_pages_indexFile (ctx : Context) :
    Page.find? (pages ctx) indexFile = some (indexPage ctx) := by
  rw [pages, Page.find?_put, if_pos rfl]
  rfl

private theorem getLast?_pages {ctx : Context}
    (h : ∀ type ∈ ctx.catalog.types, fileName ctx.options type.identifier ≠ indexFile) :
    (pages ctx).getLast? = some (indexPage ctx) := by
  have hfind : Page.find? (addPages ctx [] ctx.catalog.types) indexFile = none := by
    have hnone := List.find?_eq_none.mpr fun type ht hf =>
      h type (List.mem_reverse.mp ht) (eq_of_beq hf)
    rw [find?_addPages, hnone]
    rfl
  have hfree : indexFile ∉ (addPages ctx [] ctx.catalog.types).map Page.file := by
    intro hm
    obtain ⟨page, hp, hf⟩ := List.mem_map.mp hm
    exact List.find?_eq_none.mp hfind page hp (beq_iff_eq.mpr hf)
  rw [pages, Page.put_eq_exchange, Keyed.exchange_of_notMem hfree]
  exact List.getLast?_concat

/-- The type is the last one that has the file name of the index. -/
def IsLastAtIndex (ctx : Context) (type : Entry) : Prop :=
  fileName ctx.options type.identifier = indexFile ∧
    ∃ earlier later, ctx.catalog.types = earlier ++ type :: later ∧
      ∀ other ∈ later, fileName ctx.options other.identifier ≠ indexFile

/-- Pages with one file name. Every type has its page stored under its file name, or a notice names it
as replaced, or it is the last one at the name of the index. That one loses its page to the index, and
no notice names it. The files come in the order of their names' first use, the index at the end
unless a type has its name. -/
theorem replaced_pages_are_noted (ctx : Context) :
    (∀ type ∈ ctx.catalog.types,
      HasPage ctx type ∨ IsNotedAsReplaced ctx type ∨ IsLastAtIndex ctx type) ∧
    ((ctx.catalog.types.map Entry.identifier).Nodup → ∀ type, IsLastAtIndex ctx type →
      ¬ IsNotedAsReplaced ctx type) ∧
    Page.find? (pages ctx) indexFile = some (indexPage ctx) ∧
    (pages ctx).map Page.file =
      ((ctx.catalog.types.map fun type => fileName ctx.options type.identifier) ++
        [indexFile]).foldl Keyed.withKey [] ∧
    ((∀ type ∈ ctx.catalog.types, fileName ctx.options type.identifier ≠ indexFile) →
      (pages ctx).getLast? = some (indexPage ctx)) := by
  refine ⟨?_, ?_, find?_pages_indexFile ctx, files_pages ctx, getLast?_pages⟩
  · intro type ht
    obtain ⟨earlier, later, hsplit⟩ := List.append_of_mem ht
    by_cases h : ∃ other ∈ later,
        fileName ctx.options other.identifier = fileName ctx.options type.identifier
    · obtain ⟨other, hother, hfile⟩ := h
      exact Or.inr (Or.inl (isNotedAsReplaced_of_later hsplit hother hfile))
    · push Not at h
      by_cases hindex : fileName ctx.options type.identifier = indexFile
      · rw [hindex] at h
        exact Or.inr (Or.inr ⟨hindex, earlier, later, hsplit, h⟩)
      · exact Or.inl (hasPage_of_last hsplit h hindex)
  · rintro hnodup type ⟨hindex, earlier, later, hsplit, hlast⟩
    rw [← hindex] at hlast
    exact not_isNotedAsReplaced_of_last hnodup hsplit hlast

/-- A type with the file name of the index, and one behind it. -/
def namedIndex : Markup.Element :=
  ⟨"doc".toList, [], [], ["T:index", "T:zoo"].map undocumented, []⟩

theorem replaced_pages_are_noted_beside_index :
    let ctx := rendering namedIndex .default Strategy.heuristic false
    let plain := rendering overloads .default Strategy.heuristic false
    HasPage ctx (overloadsEntry 1 "T:zoo") ∧
    ¬ IsNotedAsReplaced ctx (overloadsEntry 0 "T:index") ∧
    (pages plain).getLast? = some (indexPage plain) := by
  intro ctx plain
  have htypes : ctx.catalog.types = [overloadsEntry 0 "T:index", overloadsEntry 1 "T:zoo"] := rfl
  have hnotices : pagesNotices ctx = [] := rfl
  obtain ⟨hpages, hlost, _⟩ := replaced_pages_are_noted ctx
  refine ⟨?_, ?_, ?_⟩
  · rcases hpages (overloadsEntry 1 "T:zoo") (by simp [htypes]) with h | ⟨other, file, h⟩ | h
    · exact h
    · rw [hnotices] at h
      cases h
    · exact absurd h.1 (by decide +kernel)
  · refine hlost (by rw [htypes]; decide) _ ⟨by decide +kernel, [], _, htypes, ?_⟩
    intro other hother
    rw [List.mem_singleton.mp hother]
    decide +kernel
  · refine (replaced_pages_are_noted plain).2.2.2.2 ?_
    intro type ht
    have htype : type ∈ [overloadsEntry 0 "T:A.B"] := ht
    rw [List.mem_singleton.mp htype]
    decide +kernel

/-- The page of a type with the file name of the index is lost, without a notice, and the index is
not the last of the files. -/
theorem page_named_index_is_lost :
    let ctx := rendering namedIndex .default Strategy.heuristic false
    let type := overloadsEntry 0 "T:index"
    type ∈ ctx.catalog.types ∧ ¬ HasPage ctx type ∧ ¬ IsNotedAsReplaced ctx type ∧
      (pages ctx).map Page.file = ["index.md".toList, "zoo.md".toList] := by
  intro ctx type
  have htypes : ctx.catalog.types = [type, overloadsEntry 1 "T:zoo"] := rfl
  have hnotices : pagesNotices ctx = [] := rfl
  refine ⟨by simp [htypes], ?_, ?_, by decide +kernel⟩
  · intro h
    have hstored : (Page.find? (pages ctx) (fileName ctx.options type.identifier)).map Page.content =
        some "# API Reference\n\n- [index](index.md)\n- [zoo](zoo.md)\n".toList := by
      decide +kernel
    have hown : typePage ctx true type = "# index\n".toList := by decide +kernel
    rw [HasPage, hstored, hown] at h
    exact absurd h (by decide)
  · rintro ⟨other, file, h⟩
    rw [hnotices] at h
    cases h

end Render
end ApiPages
