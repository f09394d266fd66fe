import ApiPages.Proofs.Anchor
import ApiPages.Proofs.Render.Members
import ApiPages.Proofs.Text.InOrder

/-! The marks of the single document: one for every type and one for every member on its page. Anchors
leave out much of the identifiers, so two marks can have one anchor; how the identifiers of such two are
related is said here. -/
namespace ApiPages.Render

/-- A mark of the single document, and the entry that it is set for. -/
structure Mark where
  anchor : Text
  entry : Entry

namespace Mark

def ofType (ctx : Context) (type : Entry) : Mark := ⟨headerSlug (typeHeading ctx type), type⟩

def ofMember (e : Entry) : Mark := ⟨memberAnchor e.identifier.id, e⟩

def text (m : Mark) : Text := anchorMark m.anchor

end Mark

/-- Every type has a mark above its heading, and behind it stand those of the members on its page. -/
def marks (ctx : Context) : List Mark :=
  ctx.catalog.types.flatMap fun type => .ofType ctx type :: (shown ctx type).map .ofMember

variable {ctx : Context}

private theorem inOrder_trimEnd {marks : List Mark} {t : Text}
    (h : Text.InOrder (marks.map Mark.text) t) :
    Text.InOrder (marks.map Mark.text) (Text.trimEnd t) := by
  refine h.trimEnd fun part hpart => ?_
  obtain ⟨m, _, rfl⟩ := List.mem_map.mp hpart
  obtain ⟨front, he⟩ := anchorMark_eq_concat m.anchor
  exact ⟨front, '>', by decide, he⟩

private theorem inOrder_finished {marks : List Mark} {parts : List Text}
    (h : Text.InOrder (marks.map Mark.text) (Text.unlines parts)) :
    Text.InOrder (marks.map Mark.text) (finished parts) :=
  (inOrder_trimEnd h).before ['\n']

private theorem inOrder_unheaded {parts : List Text} {body : Text} (h : Text.InOrder parts body) :
    Text.InOrder parts (Text.unlines (unheaded body)) := by
  rw [unheaded]
  split
  · next hnone =>
    rw [List.isEmpty_iff.mp hnone] at h
    exact h
  · have hlines : Text.unlines [body, []] = body ++ ['\n'] := List.append_nil _
    rw [hlines]
    exact h.before ['\n']

/-- A part of the list of members has the mark of its member. -/
theorem inOrder_memberPart (ctx : Context) (part : MemberPart) :
    Text.InOrder ((part.entry?.toList.map Mark.ofMember).map Mark.text)
      (Text.unlines (part.texts ctx)) := by
  cases part with
  | heading => exact .nil
  | member bulleted e =>
    refine Text.InOrder.of_infix ?_
    cases bulleted with
    | false => exact Text.infix_join ['\n'] List.mem_cons_self
    | true =>
      obtain ⟨part, hpart, hmark⟩ := entryMark_infix_bullet ctx e
      exact hmark.trans (Text.infix_join ['\n'] hpart)

private theorem inOrder_typePage (ctx : Context) (withHeading : Bool) (type : Entry) :
    Text.InOrder (((shown ctx type).map Mark.ofMember).map Mark.text)
      (typePage ctx withHeading type) := by
  have hparts : Text.InOrder (((shown ctx type).map Mark.ofMember).map Mark.text)
      (Text.unlines ((memberParts ctx type).flatMap (MemberPart.texts ctx))) := by
    rw [shown, List.filterMap_eq_flatMap_toList, List.map_flatMap, List.map_flatMap]
    exact Text.InOrder.unlines_flatMap fun part _ => inOrder_memberPart ctx part
  rw [typePage_eq]
  exact inOrder_finished (Text.InOrder.nil.unlines_append hparts)

private theorem inOrder_chapter (ctx : Context) (type : Entry) :
    Text.InOrder ((Mark.ofType ctx type :: (shown ctx type).map Mark.ofMember).map Mark.text)
      (Text.unlines (chapter ctx type)) := by
  have hmembers := inOrder_unheaded (inOrder_trimEnd (inOrder_typePage ctx false type))
  obtain ⟨front, hmark, hchapter⟩ : ∃ front, (Mark.ofType ctx type).text ∈ front ∧
      chapter ctx type = front ++ unheaded (Text.trimEnd (typePage ctx false type)) :=
    ⟨_, List.mem_cons_of_mem _ (List.mem_cons_of_mem _ List.mem_cons_self), rfl⟩
  rw [hchapter]
  exact (Text.InOrder.of_infix (Text.infix_join ['\n'] hmark)).unlines_append hmembers

private theorem inOrder_document (ctx : Context) :
    Text.InOrder ((marks ctx).map Mark.text) (document ctx) := by
  have hchapters : Text.InOrder ((marks ctx).map Mark.text)
      (Text.unlines (ctx.catalog.types.flatMap (chapter ctx))) := by
    rw [marks, List.map_flatMap]
    exact Text.InOrder.unlines_flatMap fun type _ => inOrder_chapter ctx type
  have hindex : Text.InOrder []
      (Text.unlines [Text.trimEnd (index ctx ctx.catalog.types), []]) := .nil
  exact inOrder_finished (hindex.unlines_append hchapters)

private theorem mem_marks {m : Mark} : m ∈ marks ctx ↔ ∃ type ∈ ctx.catalog.types,
    m = .ofType ctx type ∨ ∃ e ∈ ctx.catalog.membersOf type.identifier, m = .ofMember e := by
  simp only [marks, List.mem_flatMap, List.mem_cons, List.mem_map, (shown_perm ctx _).mem_iff]
  simp only [eq_comm]

/-- The marks of types are set for all types, and those of members for all members on their pages. -/
theorem entries_marks_perm (ctx : Context) : ((marks ctx).map Mark.entry).Perm
    (ctx.catalog.types ++ ctx.catalog.types.flatMap (shown ctx)) := by
  have hentries : (marks ctx).map Mark.entry =
      ctx.catalog.types.flatMap fun type => type :: shown ctx type := by
    rw [marks, List.map_flatMap]
    refine List.flatMap_congr fun type _ => ?_
    rw [List.map_cons, List.map_map]
    exact congrArg (type :: ·) (List.map_id _)
  have hperm := List.map_append_flatMap_perm ctx.catalog.types id (shown ctx)
  rw [List.map_id] at hperm
  rw [hentries]
  exact hperm.symm

/-- The dot between the member and its owner is that in the full name of a framework type. -/
def SpellsAlias (e : Entry) : Prop :=
  ∃ owner, e.identifier.owner? = some owner ∧ Signature.DotInAlias owner e.identifier.id

/-- How two entries are related when their marks have one anchor. -/
inductive Clash (ctx : Context) : Entry → Entry → Prop
  /-- The headings of the types are the same but for case, blanks and what no slug has. -/
  | types {a b : Entry} : a.identifier.isType = true → b.identifier.isType = true →
      headerSlug (typeHeading ctx a) = headerSlug (typeHeading ctx b) → Clash ctx a b
  /-- With keywords for framework types, the ids of the members are the same but for case and the shape of
  brackets. -/
  | members {a b : Entry} : a.identifier.isMember = true → b.identifier.isMember = true →
      ReadAlike a.identifier.id b.identifier.id → Clash ctx a b
  /-- The keyword for a framework type hides the dot behind the owner, and what is then read of the member
  is the slug of the heading. -/
  | typeAndMember {type e : Entry} : type.identifier.isType = true → e.identifier.isMember = true →
      SpellsAlias e → IsReadAs e.identifier.id (headerSlug (typeHeading ctx type)) → Clash ctx type e
  | memberAndType {e type : Entry} : e.identifier.isMember = true → type.identifier.isType = true →
      SpellsAlias e → IsReadAs e.identifier.id (headerSlug (typeHeading ctx type)) → Clash ctx e type

private theorem isMember_of_mem_membersOf {type e : Entry}
    (he : e ∈ ctx.catalog.membersOf type.identifier) : e.identifier.isMember = true :=
  (Catalog.isMemberOf_iff.mp (Catalog.mem_membersOf.mp he).2).1

/-- The anchor of a type has neither dots nor sigmas, so of a member with the same one it is read as a
whole, and the member has no dot outside of the name of a framework type. -/
theorem isReadAs_of_anchor_eq {type owner e : Entry}
    (he : e ∈ ctx.catalog.membersOf owner.identifier)
    (h : (Mark.ofType ctx type).anchor = (Mark.ofMember e).anchor) :
    SpellsAlias e ∧ IsReadAs e.identifier.id (headerSlug (typeHeading ctx type)) := by
  have hslug : headerSlug (typeHeading ctx type) = memberAnchor e.identifier.id := h
  have hslugChar {c : Char} (hc : isSlugChar c = false) : c ∉ headerSlug (typeHeading ctx type) := by
    intro hm
    rw [isSlugChar_of_mem_headerSlug hm] at hc
    cases hc
  have hread : IsReadAs e.identifier.id (headerSlug (typeHeading ctx type)) := by
    rw [hslug]
    refine isReadAs_memberAnchor ?_
    rw [← hslug]
    exact hslugChar (by decide)
  have howner := (Catalog.isMemberOf_iff_owner? (isMember_of_mem_membersOf he)).mp
    (Catalog.mem_membersOf.mp he).2
  obtain ⟨name, _, hname⟩ := Identifier.owner?_eq_some_iff.mp howner
  obtain ⟨rest, hid, _⟩ := Text.exists_beforeFirst_append '(' e.identifier.id
  have hsplit : e.identifier.id = owner.identifier.id ++ '.' :: (name ++ rest) := by
    rw [hname] at hid
    rw [hid]
    simp
  exact ⟨⟨owner.identifier.id, howner, hread.dotInAlias (hslugChar (by decide)) hsplit⟩, hread⟩

/-- Marks with one anchor are set for entries that clash. -/
theorem clash_of_anchor_eq {m n : Mark} (hm : m ∈ marks ctx) (hn : n ∈ marks ctx)
    (h : m.anchor = n.anchor) : Clash ctx m.entry n.entry := by
  obtain ⟨type, ht, rfl | ⟨e, he, rfl⟩⟩ := mem_marks.mp hm <;>
    obtain ⟨other, ho, rfl | ⟨f, hf, rfl⟩⟩ := mem_marks.mp hn
  · exact .types (Catalog.mem_types.mp ht).2 (Catalog.mem_types.mp ho).2 h
  · obtain ⟨hspelt, hread⟩ := isReadAs_of_anchor_eq hf h
    exact .typeAndMember (Catalog.mem_types.mp ht).2 (isMember_of_mem_membersOf hf) hspelt hread
  · obtain ⟨hspelt, hread⟩ := isReadAs_of_anchor_eq he h.symm
    exact .memberAndType (isMember_of_mem_membersOf he) (Catalog.mem_types.mp ho).2 hspelt hread
  · exact .members (isMember_of_mem_membersOf he) (isMember_of_mem_membersOf hf)
      (readAlike_of_memberAnchor_eq h)

/-- No sigma, whose small form depends on what stands around it, is in the id. -/
def HasNoSigma (e : Entry) : Prop := ∀ c ∈ sigmas, c ∉ e.identifier.id

private theorem eq_ofType {m : Mark} (hm : m ∈ marks ctx) (h : m.entry.identifier.isType = true) :
    m = .ofType ctx m.entry := by
  obtain ⟨type, _, rfl | ⟨e, he, rfl⟩⟩ := mem_marks.mp hm
  · rfl
  · have hmember : (Mark.ofMember e).entry.identifier.isMember = true := isMember_of_mem_membersOf he
    rw [Identifier.isMember_of_isType h] at hmember
    cases hmember

private theorem eq_ofMember {m : Mark} (hm : m ∈ marks ctx) (h : m.entry.identifier.isMember = true) :
    m = .ofMember m.entry := by
  obtain ⟨type, ht, rfl | ⟨e, _, rfl⟩⟩ := mem_marks.mp hm
  · have htype : (Mark.ofType ctx type).entry.identifier.isType = true := (Catalog.mem_types.mp ht).2
    rw [Identifier.isMember_of_isType htype] at h
    cases h
  · rfl

private theorem anchor_eq_of_isReadAs {type e : Entry} (hsigma : HasNoSigma e)
    (h : IsReadAs e.identifier.id (headerSlug (typeHeading ctx type))) :
    (Mark.ofType ctx type).anchor = (Mark.ofMember e).anchor := by
  rw [isReadAs_iff, ← memberAnchor_eq_flatMap hsigma] at h
  exact h.symm

/-- Entries that clash have one anchor, unless the small form of a sigma tells them apart. -/
theorem anchor_eq_of_clash {m n : Mark} (hm : m ∈ marks ctx) (hn : n ∈ marks ctx)
    (hsigmam : m.entry.identifier.isMember = true → HasNoSigma m.entry)
    (hsigman : n.entry.identifier.isMember = true → HasNoSigma n.entry)
    (h : Clash ctx m.entry n.entry) : m.anchor = n.anchor := by
  cases h with
  | types htm htn hslug =>
    rw [eq_ofType hm htm, eq_ofType hn htn]
    exact hslug
  | members hmm hmn hread =>
    rw [eq_ofMember hm hmm, eq_ofMember hn hmn]
    exact (memberAnchor_eq_iff (hsigmam hmm) (hsigman hmn)).mpr hread
  | typeAndMember htm hmn _ hread =>
    rw [eq_ofType hm htm, eq_ofMember hn hmn]
    exact anchor_eq_of_isReadAs (hsigman hmn) hread
  | memberAndType hmm htn _ hread =>
    rw [eq_ofMember hm hmm, eq_ofType hn htn]
    exact (anchor_eq_of_isReadAs (hsigmam hmm) hread).symm

/-- A reference to the entry of a mark leads to its anchor. -/
theorem resolve_mark (hsingle : ctx.singleDocument = true) {m : Mark} (hm : m ∈ marks ctx)
    (hid : m.entry.identifier.id ≠ []) {reference : Text}
    (href : Text.trim reference = m.entry.identifier) :
    (ctx.style.resolve reference).href = some ('#' :: m.anchor) := by
  have htrim : Text.trim m.entry.identifier = m.entry.identifier := by
    rw [← href, Text.trim_trim]
  have hresolve : ctx.style.resolve reference = ctx.style.resolve m.entry.identifier := by
    simp only [LinkStyle.resolve, Reference.resolve, href, htrim]
  rw [hresolve]
  obtain ⟨type, ht, rfl | ⟨e, he, rfl⟩⟩ := mem_marks.mp hm
  · have htrimEnd : Text.trimEnd type.identifier = type.identifier := by
      have hend := Text.trimEnd_trim reference
      rw [href] at hend
      exact hend
    exact (resolve_type ctx ht hid htrimEnd).trans (by rw [if_pos hsingle]; rfl)
  · exact (resolve_member ctx ht he htrim).trans (by rw [if_pos hsingle]; rfl)

/-- How the single document sets its marks: in the order of their list, one for every type and one for
every member of a type, and references to these entries lead to them. -/
structure SetsMarks (ctx : Context) : Prop where
  inOrder : Text.InOrder ((marks ctx).map Mark.text) (document ctx)
  once : ((marks ctx).map Mark.entry).Nodup
  complete : ((marks ctx).map Mark.entry).Perm
    (ctx.catalog.types ++ ctx.catalog.entries.filter ctx.catalog.isOwned)
  links : ∀ m ∈ marks ctx, m.entry.identifier.id ≠ [] → ∀ reference,
    Text.trim reference = m.entry.identifier →
      (ctx.style.resolve reference).href = some ('#' :: m.anchor)

private theorem setsMarks (root : Markup.Element) (options : Options) (strategy : Strategy) :
    SetsMarks (rendering root options strategy true) := by
  have hperm := (entries_marks_perm (rendering root options strategy true)).trans
    (((List.Perm.flatMap_left _ fun type _ => shown_perm _ type).trans
      (Catalog.perm_flatMap_membersOf root)).append_left _)
  refine ⟨inOrder_document _, hperm.nodup_iff.mpr ?_, hperm, fun m hm hid reference href =>
    resolve_mark rfl hm hid href⟩
  refine (Catalog.nodup_types root).append ((Catalog.nodup_entries root).filter _) ?_
  intro e ht hm
  have htype := (Catalog.mem_types.mp ht).2
  have howned : (Catalog.ofDocument root).isOwned e = true := List.of_mem_filter hm
  rw [Catalog.isOwned, Identifier.isMember_of_isType htype] at howned
  cases howned

/-- Marks and links of the single document. Every type and every member of a type has one mark, and a
link to it leads there. Two marks have one anchor only if their entries clash, and just then where no id
of a member has a sigma. Without entries that clash the anchors are distinct, and the place of a link is
that of its own mark alone. -/
theorem anchors_are_shared_only_in_clashes (root : Markup.Element) (options : Options)
    (strategy : Strategy) :
    let ctx := rendering root options strategy true
    SetsMarks ctx ∧
    (∀ m ∈ marks ctx, ∀ n ∈ marks ctx, m.anchor = n.anchor → Clash ctx m.entry n.entry) ∧
    (∀ m ∈ marks ctx, ∀ n ∈ marks ctx,
      (m.entry.identifier.isMember = true → HasNoSigma m.entry) →
      (n.entry.identifier.isMember = true → HasNoSigma n.entry) →
        Clash ctx m.entry n.entry → m.anchor = n.anchor) ∧
    ((∀ m ∈ marks ctx, ∀ n ∈ marks ctx, Clash ctx m.entry n.entry → m.entry = n.entry) →
      ((marks ctx).map Mark.anchor).Nodup ∧
      ∀ m ∈ marks ctx, m.entry.identifier.id ≠ [] → ∀ reference,
        Text.trim reference = m.entry.identifier → ∀ n ∈ marks ctx,
          (ctx.style.resolve reference).href = some ('#' :: n.anchor) ↔ n = m) := by
  intro ctx
  have hmarks := setsMarks root options strategy
  refine ⟨hmarks, fun m hm n hn h => clash_of_anchor_eq hm hn h,
    fun m hm n hn hsigmam hsigman h => anchor_eq_of_clash hm hn hsigmam hsigman h, fun hclash => ?_⟩
  have hinj : ∀ m ∈ marks ctx, ∀ n ∈ marks ctx, m.anchor = n.anchor → m = n := fun m hm n hn h =>
    List.inj_on_of_nodup_map hmarks.once hm hn (hclash m hm n hn (clash_of_anchor_eq hm hn h))
  refine ⟨List.Nodup.map_on hinj (List.Nodup.of_map _ hmarks.once), ?_⟩
  intro m hm hid reference href n hn
  rw [hmarks.links m hm hid reference href, Option.some.injEq, List.cons.injEq,
    and_iff_right rfl]
  constructor
  · exact fun h => (hinj m hm n hn h).symm
  · rintro rfl
    rfl

theorem anchors_are_shared_only_in_clashes_beside_overloads :
    let ctx := rendering overloads .default Strategy.heuristic true
    let e := overloadsEntry 2 "M:A.B.F(System.Int32)"
    (∀ m ∈ marks ctx, ∀ n ∈ marks ctx, Clash ctx m.entry n.entry → m.entry = n.entry) ∧
    (marks ctx).map Mark.anchor = ["b".toList, "a.b.f".toList, "a.b.f(int)".toList] ∧
    ((marks ctx).map Mark.anchor).Nodup ∧
    ∀ n ∈ marks ctx,
      (ctx.style.resolve " M:A.B.F(System.Int32)".toList).href = some ('#' :: n.anchor) ↔
        n = .ofMember e := by
  intro ctx e
  obtain ⟨_, _, hshared, hdistinct⟩ :=
    anchors_are_shared_only_in_clashes overloads .default Strategy.heuristic
  have hmarks : marks ctx = [.ofType ctx (overloadsEntry 0 "T:A.B"),
    .ofMember (overloadsEntry 1 "M:A.B.F"), .ofMember e] := rfl
  have hanchors : (marks ctx).map Mark.anchor =
      ["b".toList, "a.b.f".toList, "a.b.f(int)".toList] := by decide +kernel
  have hsigma : ∀ m ∈ marks ctx, HasNoSigma m.entry := by
    rw [hmarks]
    simp only [HasNoSigma, forall_mem_sigmas]
    decide
  have hfree : ∀ m ∈ marks ctx, ∀ n ∈ marks ctx, Clash ctx m.entry n.entry → m.entry = n.entry := by
    intro m hm n hn hclash
    have hone := hshared m hm n hn (fun _ => hsigma m hm) (fun _ => hsigma n hn) hclash
    have hnodup : ((marks ctx).map Mark.anchor).Nodup := by
      rw [hanchors]
      decide
    exact congrArg Mark.entry (List.inj_on_of_nodup_map hnodup hm hn hone)
  obtain ⟨hnodup, hlinks⟩ := hdistinct hfree
  refine ⟨hfree, hanchors, hnodup, ?_⟩
  exact hlinks (.ofMember e) (by rw [hmarks]; simp) (by decide) _ (by decide +kernel)

/-- A document of entries without texts. -/
def bare (names : List String) : Markup.Element :=
  ⟨"doc".toList, [], [], names.map undocumented, []⟩

/-- The anchors of its single document. -/
def bareAnchors (names : List String) : List Text :=
  (marks (rendering (bare names) .default Strategy.heuristic true)).map Mark.anchor

/-- Anchors that are shared: by types of one short name, by members of names that differ in case, by a
keyword and its framework type, by the sign for Kelvin and a letter, and by a type and a member. A link
leads nowhere when its place has no mark: when the identifier ends in a blank, and when the owner of the
member is not there. -/
theorem anchors_are_shared :
    let single (names : List String) := rendering (bare names) .default Strategy.heuristic true
    document (single ["T:A.Foo", "T:B.Foo"]) =
      ("# API Reference\n\n- [Foo](#foo)\n- [Foo](#foo)\n\n---\n\n<a id=\"foo\"></a>\n\n# Foo\n\n" ++
        "---\n\n<a id=\"foo\"></a>\n\n# Foo\n").toList ∧
    bareAnchors ["T:A.Foo", "T:B.Foo"] = ["foo".toList, "foo".toList] ∧
    bareAnchors ["T:A", "M:A.Go", "M:A.go"] = ["a".toList, "a.go".toList, "a.go".toList] ∧
    bareAnchors ["T:A", "M:A.F(System.Int32)", "M:A.F(int)"] =
      ["a".toList, "a.f(int)".toList, "a.f(int)".toList] ∧
    bareAnchors ["T:A", "M:A.F(System.Int32\u212A)", "M:A.F(intk)"] =
      ["a".toList, "a.f(intk)".toList, "a.f(intk)".toList] ∧
    bareAnchors ["T:System", "P:System.Int32", "T:X.Int"] =
      ["system".toList, "int".toList, "int".toList] ∧
    bareAnchors ["T:A", "P:A.X "] = ["a".toList, "a.x ".toList] ∧
    ((single ["T:A", "P:A.X "]).style.resolve "P:A.X ".toList).href = some "#a.x".toList ∧
    bareAnchors ["M:A.Go"] = [] ∧
    ((single ["M:A.Go"]).style.resolve "M:A.Go".toList).href = some "#a.go".toList := by
  refine ⟨?_, ?_, ?_, ?_, ?_, ?_, ?_, ?_, ?_, ?_⟩ <;> decide +kernel

end ApiPages.Render
