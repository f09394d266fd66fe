import ApiPages.Proofs.Order
import ApiPages.Proofs.Render.Replacement

/-! The index: a bullet for every type, in the order of titles, and each of them leads to a page or to
the mark above a heading. -/
namespace ApiPages.Render

private theorem linkLe_iff {a b : Link} : linkLe a b = true ↔
    Text.le (Text.lower a.title) (Text.lower b.title) = true ∧
      (Text.lower a.title = Text.lower b.title →
        Text.le (a.href.getD []) (b.href.getD []) = true) := by
  have hrefl (t : Text) : Text.le t t = true := (Text.le_total t t).elim id id
  rw [linkLe]
  by_cases h : Text.lower a.title = Text.lower b.title
  · simp [h, hrefl]
  · simp [h]

private theorem linkLe_total (a b : Link) : linkLe a b = true ∨ linkLe b a = true := by
  rw [linkLe_iff, linkLe_iff]
  by_cases h : Text.lower a.title = Text.lower b.title
  · rw [h]
    have htitle := (Text.le_total (Text.lower b.title) (Text.lower b.title)).elim id id
    exact (Text.le_total (a.href.getD []) (b.href.getD [])).imp (fun hle => ⟨htitle, fun _ => hle⟩)
      fun hle => ⟨htitle, fun _ => hle⟩
  · exact (Text.le_total (Text.lower a.title) (Text.lower b.title)).imp
      (fun hle => ⟨hle, fun he => absurd he h⟩) fun hle => ⟨hle, fun he => absurd he.symm h⟩

private theorem linkLe_trans (a b c : Link) (hab : linkLe a b = true) (hbc : linkLe b c = true) :
    linkLe a c = true := by
  rw [linkLe_iff] at *
  refine ⟨Text.le_trans _ _ _ hab.1 hbc.1, fun hac => ?_⟩
  -- A title between two equal ones is equal to both.
  have hba : Text.lower a.title = Text.lower b.title := by
    refine Text.le_antisymm hab.1 ?_
    rw [hac]
    exact hbc.1
  exact Text.le_trans _ _ _ (hab.2 hba) (hbc.2 (hba.symm.trans hac))

private theorem indexLinks_perm (ctx : Context) (types : List Entry) :
    (indexLinks ctx types).Perm (types.map fun type => ctx.style.resolve type.identifier) :=
  sortBy_perm linkLe _

private theorem pairwise_indexLinks (ctx : Context) (types : List Entry) :
    (indexLinks ctx types).Pairwise fun a b => linkLe a b = true :=
  pairwise_sortBy linkLe_total linkLe_trans _

/-- The line of a link in the index. -/
def indexLine (link : Link) : Text := '-' :: ' ' :: link.markdown

/-- The line is a bullet. -/
def isBullet (line : Text) : Bool := "- ".toList.isPrefixOf line

private theorem isBullet_indexLine (link : Link) : isBullet (indexLine link) = true := rfl

/-- The line of a link ends in a character that no trimming takes away. -/
theorem indexLine_eq_concat (link : Link) :
    ∃ front c, Text.isBlank c = false ∧ indexLine link = front ++ [c] := by
  cases h : link.href with
  | none =>
    refine ⟨'-' :: ' ' :: '`' :: link.title, '`', by decide, ?_⟩
    rw [indexLine, Link.markdown, h]
    rfl
  | some href =>
    refine ⟨'-' :: ' ' :: '[' :: link.title ++ "](".toList ++ href, ')', by decide, ?_⟩
    rw [indexLine, Link.markdown_of_href h]
    rfl

private theorem lines_finished {lines : List Text} (hlines : ∀ line ∈ lines, '\n' ∉ line) {front : Text}
    {c : Char} (hc : Text.isBlank c = false) (hlast : lines.getLast? = some (front ++ [c])) :
    Text.lines (finished lines) = lines ++ [[]] := by
  obtain ⟨before, rfl⟩ := List.getLast?_eq_some_iff.mp hlast
  have hend : ∃ start, Text.unlines (before ++ [front ++ [c]]) = start ++ [c] := by
    by_cases hb : before = []
    · subst hb
      exact ⟨front, rfl⟩
    · refine ⟨Text.unlines before ++ ['\n'] ++ front, ?_⟩
      rw [Text.unlines, Text.join_append ['\n'] hb (List.cons_ne_nil _ _)]
      simp [Text.join, Text.unlines]
  obtain ⟨start, hstart⟩ := hend
  have hkept : Text.trimEnd (Text.unlines (before ++ [front ++ [c]])) =
      Text.unlines (before ++ [front ++ [c]]) := by
    rw [hstart]
    exact Text.dropEndWhile_append_cons hc start []
  rw [finished, hkept, Text.lines_append, Text.lines_unlines hlines (by simp)]
  rfl

/-- The bullets among the lines of the index are those of its links. -/
theorem bullets_index (ctx : Context) {types : List Entry}
    (h : ∀ link ∈ indexLinks ctx types, '\n' ∉ link.markdown) :
    (Text.lines (index ctx types)).filter isBullet = (indexLinks ctx types).map indexLine := by
  have htitle : ¬ isBullet "# API Reference".toList = true := by decide
  have hblank : ¬ isBullet [] = true := by decide
  by_cases hnone : indexLinks ctx types = []
  · have hempty : (Text.lines (finished ["# API Reference".toList, []])).filter isBullet = [] := by
      decide
    rw [index, hnone]
    exact hempty
  · obtain ⟨front, c, hc, hlast⟩ := indexLine_eq_concat ((indexLinks ctx types).getLast hnone)
    have hend : ("# API Reference".toList :: [] :: (indexLinks ctx types).map indexLine).getLast? =
        some (front ++ [c]) := by
      rw [List.getLast?_cons_cons, List.getLast?_cons_of_ne_nil (by simpa using hnone),
        List.getLast?_map, List.getLast?_eq_some_getLast hnone, Option.map_some, hlast]
    have hlines : ∀ line ∈ "# API Reference".toList :: [] :: (indexLinks ctx types).map indexLine,
        '\n' ∉ line := by
      intro line hline
      simp only [List.mem_cons, List.mem_map] at hline
      rcases hline with rfl | rfl | ⟨link, hlink, rfl⟩
      · decide
      · decide
      · simp [indexLine, h link hlink]
    have hall : ∀ line ∈ (indexLinks ctx types).map indexLine, isBullet line = true := by
      intro line hline
      obtain ⟨link, _, rfl⟩ := List.mem_map.mp hline
      exact isBullet_indexLine link
    have hindex : index ctx types =
        finished ("# API Reference".toList :: [] :: (indexLinks ctx types).map indexLine) := rfl
    rw [hindex, lines_finished hlines hc hend, List.filter_append,
      List.filter_cons_of_neg htitle, List.filter_cons_of_neg hblank,
      List.filter_eq_self.mpr hall, List.filter_cons_of_neg hblank, List.filter_nil,
      List.append_nil]

/-- The link to a type has its heading as the title. -/
theorem title_resolve_type (ctx : Context) {type : Entry} (ht : type ∈ ctx.catalog.types)
    (hid : type.identifier.id ≠ []) (htrim : Text.trimEnd type.identifier = type.identifier) :
    (ctx.style.resolve type.identifier).title = typeHeading ctx type := by
  have htype := (Catalog.mem_types.mp ht).2
  have hshape := Identifier.eq_of_isType htype
  have hall := trim_of_isType htype htrim
  have hlabel := Reference.label_type ctx.options hid
  rw [← hshape] at hlabel
  simp only [LinkStyle.resolve, Reference.resolve, hall]
  exact hlabel

private theorem lineFeed_not_mem_headerSlug (heading : Text) : '\n' ∉ headerSlug heading :=
  fun h => absurd (isSlugChar_of_mem_headerSlug h) (by decide)

private theorem lineFeed_not_mem_typeLink (ctx : Context) {type : Entry} (ht : type ∈ ctx.catalog.types)
    (hid : type.identifier.id ≠ []) (htrim : Text.trimEnd type.identifier = type.identifier)
    (hline : '\n' ∉ type.identifier) :
    '\n' ∉ (ctx.style.resolve type.identifier).markdown := by
  have hshape := Identifier.eq_of_isType (Catalog.mem_types.mp ht).2
  refine Link.lineFeed_not_mem_markdown ?_ ?_
  · rw [title_resolve_type ctx ht hid htrim]
    intro h
    rcases Identifier.mem_displayName h with h | h
    · refine hline ?_
      rw [hshape]
      exact List.mem_cons_of_mem _ (List.mem_cons_of_mem _ h)
    · exact absurd h (by decide)
  · intro href hhref
    rw [resolve_type ctx ht hid htrim] at hhref
    cases hhref
    split
    · intro h
      rcases List.mem_cons.mp h with h | h
      · exact absurd h (by decide)
      · exact lineFeed_not_mem_headerSlug _ h
    · exact fun h => (mem_fileName h).elim hline (by decide)

/-- The single document sets the mark of the slug right before the heading of the type. -/
def SetsMarkAbove (ctx : Context) (slug : Text) (type : Entry) : Prop :=
  ∃ earlier later rest, ctx.catalog.types = earlier ++ type :: later ∧
    document ctx = finished
      ((Text.trimEnd (index ctx ctx.catalog.types) :: [] :: earlier.flatMap (chapter ctx)) ++
        ["---".toList, [], "<a id=\"".toList ++ slug ++ "\"></a>".toList, [],
          "# ".toList ++ typeHeading ctx type, []] ++ rest)

private theorem setsMarkAbove (ctx : Context) {type : Entry} (ht : type ∈ ctx.catalog.types) :
    SetsMarkAbove ctx (headerSlug (typeHeading ctx type)) type := by
  obtain ⟨earlier, later, hsplit⟩ := List.append_of_mem ht
  obtain ⟨rest, hdocument⟩ := document_eq ctx hsplit
  exact ⟨earlier, later, rest, hsplit, hdocument⟩

/-- How the index lists types: a line for each link, a link for each type, by title and place. -/
structure ListsTypes (ctx : Context) : Prop where
  lines : (Text.lines (index ctx ctx.catalog.types)).filter isBullet =
    (indexLinks ctx ctx.catalog.types).map indexLine
  links : (indexLinks ctx ctx.catalog.types).Perm
    (ctx.catalog.types.map fun type => ctx.style.resolve type.identifier)
  sorted : (indexLinks ctx ctx.catalog.types).Pairwise fun a b =>
    Text.le (Text.lower a.title) (Text.lower b.title) = true ∧
      (Text.lower a.title = Text.lower b.title →
        Text.le (a.href.getD []) (b.href.getD []) = true)

private theorem exists_of_mem_indexLinks {ctx : Context} {types : List Entry} {link : Link}
    (h : link ∈ indexLinks ctx types) :
    ∃ type ∈ types, ctx.style.resolve type.identifier = link :=
  List.mem_map.mp ((indexLinks_perm ctx types).mem_iff.mp h)

private theorem mem_indexLinks {ctx : Context} {types : List Entry} {type : Entry} (h : type ∈ types) :
    ctx.style.resolve type.identifier ∈ indexLinks ctx types :=
  (indexLinks_perm ctx types).mem_iff.mpr (List.mem_map_of_mem h)

/-- Every file of a site is the index or has the name of a type. -/
theorem mem_files_pages {ctx : Context} {file : Text} :
    file ∈ (pages ctx).map Page.file ↔
      file = indexFile ∨ ∃ type ∈ ctx.catalog.types, fileName ctx.options type.identifier = file := by
  have hfold (names former : List Text) :
      file ∈ names.foldl Keyed.withKey former ↔ file ∈ former ∨ file ∈ names := by
    induction names generalizing former with
    | nil => simp
    | cons name names ih => rw [List.foldl_cons, ih, Keyed.mem_withKey, List.mem_cons, or_assoc]
  rw [files_pages, hfold, or_iff_right List.not_mem_nil, List.mem_append, List.mem_map,
    List.mem_singleton, or_comm]

/-- The index and the documents agree. Whatever the mode, its bullets are the links to the types, each
once, by title and place. Links of pages have the files of the site, and all of them but the index; in
the single document they lead to the marks right before the headings of their types. -/
theorem index_leads_to_types (root : Markup.Element) (options : Options) (strategy : Strategy)
    (h : ∀ type ∈ (Catalog.ofDocument root).types, type.identifier.id ≠ [] ∧
      Text.trimEnd type.identifier = type.identifier ∧ '\n' ∉ type.identifier) :
    let types := (Catalog.ofDocument root).types
    let site := rendering root options strategy false
    let single := rendering root options strategy true
    ListsTypes site ∧ ListsTypes single ∧
    (∀ link ∈ indexLinks site types,
      ∃ file ∈ (pages site).map Page.file, link.href = some file) ∧
    (∀ file ∈ (pages site).map Page.file, file ≠ indexFile →
      ∃ link ∈ indexLinks site types, link.href = some file) ∧
    ∀ type ∈ types, ∃ slug,
      (single.style.resolve type.identifier).href = some ('#' :: slug) ∧
        SetsMarkAbove single slug type := by
  intro types site single
  have hlists (singleDocument : Bool) :
      ListsTypes (rendering root options strategy singleDocument) := by
    refine ⟨bullets_index _ fun link hlink => ?_, indexLinks_perm _ _, ?_⟩
    · obtain ⟨type, ht, rfl⟩ := exists_of_mem_indexLinks hlink
      obtain ⟨hid, htrim, hline⟩ := h type ht
      exact lineFeed_not_mem_typeLink _ ht hid htrim hline
    · exact (pairwise_indexLinks _ _).imp fun hle => linkLe_iff.mp hle
  refine ⟨hlists false, hlists true, ?_, ?_, ?_⟩
  · intro link hlink
    obtain ⟨type, ht, rfl⟩ := exists_of_mem_indexLinks hlink
    obtain ⟨hid, htrim, _⟩ := h type ht
    exact ⟨fileName options type.identifier, mem_files_pages.mpr (Or.inr ⟨type, ht, rfl⟩),
      resolve_type site ht hid htrim⟩
  · intro file hfile hindex
    obtain ⟨type, ht, rfl⟩ := (mem_files_pages.mp hfile).resolve_left hindex
    obtain ⟨hid, htrim, _⟩ := h type ht
    exact ⟨_, mem_indexLinks ht, resolve_type site ht hid htrim⟩
  · intro type ht
    obtain ⟨hid, htrim, _⟩ := h type ht
    exact ⟨headerSlug (typeHeading single type), resolve_type single ht hid htrim,
      setsMarkAbove single ht⟩

/-- Two types of which the first has the later title. -/
def titlesReversed : Markup.Element :=
  ⟨"doc".toList, [], [], ["T:M.Zeta", "T:N.alpha`1"].map undocumented, []⟩

theorem index_leads_to_types_with_titles_reversed :
    let types := (Catalog.ofDocument titlesReversed).types
    let site := rendering titlesReversed .default Strategy.heuristic false
    let single := rendering titlesReversed .default Strategy.heuristic true
    types = [overloadsEntry 0 "T:M.Zeta", overloadsEntry 1 "T:N.alpha`1"] ∧
    (∀ type ∈ types, type.identifier.id ≠ [] ∧
      Text.trimEnd type.identifier = type.identifier ∧ '\n' ∉ type.identifier) ∧
    (Text.lines (index site types)).filter isBullet =
      ["- [alpha<T1>](N.alpha`1.md)".toList, "- [Zeta](M.Zeta.md)".toList] ∧
    (Text.lines (index single types)).filter isBullet =
      ["- [alpha<T1>](#alphat1)".toList, "- [Zeta](#zeta)".toList] ∧
    (∃ link ∈ indexLinks site types, link.href = some "N.alpha`1.md".toList) ∧
    ∃ slug, (single.style.resolve "T:M.Zeta".toList).href = some ('#' :: slug) ∧
      SetsMarkAbove single slug (overloadsEntry 0 "T:M.Zeta") := by
  intro types site single
  have htypes : types = [overloadsEntry 0 "T:M.Zeta", overloadsEntry 1 "T:N.alpha`1"] := rfl
  have hwell : ∀ type ∈ types, type.identifier.id ≠ [] ∧
      Text.trimEnd type.identifier = type.identifier ∧ '\n' ∉ type.identifier := by
    rw [htypes]
    decide +kernel
  have hzeta : overloadsEntry 0 "T:M.Zeta" ∈ types := by simp [htypes]
  have halpha : overloadsEntry 1 "T:N.alpha`1" ∈ types := by simp [htypes]
  obtain ⟨hsite, hsingle, _, hfiles, hmarks⟩ :=
    index_leads_to_types titlesReversed .default Strategy.heuristic hwell
  refine ⟨htypes, hwell, hsite.lines.trans ?_, hsingle.lines.trans ?_, ?_, ?_⟩
  · decide +kernel
  · decide +kernel
  · refine hfiles "N.alpha`1.md".toList ?_ (by decide)
    exact mem_files_pages.mpr (Or.inr ⟨_, halpha, by decide +kernel⟩)
  · exact hmarks _ hzeta

end ApiPages.Render
