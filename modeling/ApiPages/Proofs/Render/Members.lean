import ApiPages.Proofs.Grouping
import ApiPages.Proofs.Order
import ApiPages.Proofs.Ownership
import ApiPages.Proofs.Render.LinkTarget
import Mathlib.Data.List.Perm.Basic

/-! The members on the pages: every member whose owner is a type stands on the page of that type, once,
and among the overloads of its name. -/
namespace ApiPages

/-- Two of the members or more are methods. -/
def Group.holdsOverloads (g : Group) : Bool :=
  decide (1 < (g.members.filter fun e => e.identifier.isMethod).length)

namespace Render

/-- What the list of members on a page consists of. -/
inductive MemberPart where
  | heading (key : Text)
  | member (bulleted : Bool) (e : Entry)

namespace MemberPart

def texts (ctx : Context) : MemberPart → List Text
  | heading key => ["## ".toList ++ key, []]
  | member true e => bulletedMember ctx e
  | member false e => Render.member ctx e

def entry? : MemberPart → Option Entry
  | heading _ => none
  | member _ e => some e

/-- A group is its members, under a heading when there are overloads among them. -/
def ofGroup (g : Group) : List MemberPart :=
  (if g.holdsOverloads then [heading g.key] else []) ++ g.members.map (member g.holdsOverloads)

private theorem flatMap_texts_ofGroup (ctx : Context) (g : Group) :
    (ofGroup g).flatMap (texts ctx) = group ctx g := by
  have hmembers (bulleted : Bool) : (g.members.map (member bulleted)).flatMap (texts ctx) =
      g.members.flatMap fun e => texts ctx (member bulleted e) := List.flatMap_map _ _ _
  rw [ofGroup, List.flatMap_append, hmembers, group]
  by_cases h : 1 < (g.members.filter fun e => e.identifier.isMethod).length
  · have ho : g.holdsOverloads = true := decide_eq_true h
    rw [if_pos h, ho, if_pos rfl]
    rfl
  · have ho : g.holdsOverloads = false := decide_eq_false h
    rw [if_neg h, ho, if_neg Bool.false_ne_true]
    rfl

private theorem filterMap_entry?_ofGroup (g : Group) : (ofGroup g).filterMap entry? = g.members := by
  have hhead : (if g.holdsOverloads then [heading g.key] else []).filterMap entry? = [] := by
    split <;> rfl
  rw [ofGroup, List.filterMap_append, hhead, List.nil_append, List.filterMap_map]
  exact List.filterMap_some

private theorem member_mem_ofGroup {g : Group} {bulleted : Bool} {e : Entry} :
    member bulleted e ∈ ofGroup g ↔ e ∈ g.members ∧ bulleted = g.holdsOverloads := by
  have hhead : member bulleted e ∉ if g.holdsOverloads then [heading g.key] else [] := by
    split <;> simp
  rw [ofGroup, List.mem_append, or_iff_right hhead, List.mem_map]
  constructor
  · rintro ⟨_, he, h⟩
    cases h
    exact ⟨he, rfl⟩
  · rintro ⟨he, rfl⟩
    exact ⟨e, he, rfl⟩

end MemberPart

/-- The list of members on the page of a type. -/
def memberParts (ctx : Context) (type : Entry) : List MemberPart :=
  (groups ctx type).flatMap MemberPart.ofGroup

/-- The members that are shown there. -/
def shown (ctx : Context) (type : Entry) : List Entry :=
  (memberParts ctx type).filterMap MemberPart.entry?

private theorem shown_eq (ctx : Context) (type : Entry) :
    shown ctx type = (groups ctx type).flatMap Group.members := by
  rw [shown, memberParts, List.filterMap_flatMap]
  exact List.flatMap_congr fun g _ => MemberPart.filterMap_entry?_ofGroup g

theorem shown_perm (ctx : Context) (type : Entry) :
    (shown ctx type).Perm (ctx.catalog.membersOf type.identifier) := by
  rw [shown_eq]
  exact Group.members_ofEntries _

theorem typePage_eq (ctx : Context) (withHeading : Bool) (type : Entry) :
    typePage ctx withHeading type =
      finished ((if withHeading then ["# ".toList ++ typeHeading ctx type, []] else []) ++
        typeSections ctx.style (ctx.content type) ++
        (memberParts ctx type).flatMap (MemberPart.texts ctx)) := by
  have hparts : (memberParts ctx type).flatMap (MemberPart.texts ctx) =
      (groups ctx type).flatMap (group ctx) := by
    rw [memberParts, List.flatMap_assoc]
    exact List.flatMap_congr fun g _ => MemberPart.flatMap_texts_ofGroup ctx g
  rw [typePage, hparts]

theorem divides_groups (ctx : Context) (type : Entry) :
    Group.Divides (groups ctx type) (ctx.catalog.membersOf type.identifier) :=
  Group.divides_ofEntries _

/-- A member is a bullet exactly where its group holds overloads. -/
theorem member_mem_memberParts {ctx : Context} {type e : Entry} {g : Group}
    (hg : g ∈ groups ctx type) (he : e ∈ g.members) {bulleted : Bool} :
    .member bulleted e ∈ memberParts ctx type ↔ bulleted = g.holdsOverloads := by
  rw [memberParts, List.mem_flatMap]
  constructor
  · rintro ⟨other, ho, hm⟩
    obtain ⟨heo, hb⟩ := MemberPart.member_mem_ofGroup.mp hm
    rw [hb, (divides_groups ctx type).eq_of_mem hg ho he heo]
  · rintro rfl
    exact ⟨g, hg, MemberPart.member_mem_ofGroup.mpr ⟨he, rfl⟩⟩

/-- Where a member belongs: to the type that its owner part names, if it is there. -/
structure HasPlace (catalog : Catalog) (e : Entry) : Prop where
  mem_iff : ∀ type ∈ catalog.types, e ∈ catalog.membersOf type.identifier ↔
    ∃ name, '.' ∉ name ∧
      Text.beforeFirst '(' e.identifier.id = type.identifier.id ++ '.' :: name
  one : ∀ owner, e.identifier.owner? = some owner → 'T' :: ':' :: owner ∈ catalog.identifiers →
    ∃! type, type ∈ catalog.types ∧ e ∈ catalog.membersOf type.identifier
  none : (∀ owner, e.identifier.owner? = some owner →
      'T' :: ':' :: owner ∉ catalog.identifiers) →
    ∀ type ∈ catalog.types, e ∉ catalog.membersOf type.identifier

/-- How the page of a type lists its members: sorted, in groups by their keys, all of them once, and
with their marks. -/
structure ListsMembers (ctx : Context) (type : Entry) : Prop where
  sorted : (ctx.catalog.membersOf type.identifier).Pairwise fun a b =>
    Text.le a.identifier.id b.identifier.id = true
  together : ((groups ctx type).flatMap Group.members).Perm
    (ctx.catalog.membersOf type.identifier)
  keys : ((groups ctx type).map Group.key).Nodup
  members : ∀ g ∈ groups ctx type, g.members =
    (ctx.catalog.membersOf type.identifier).filter fun e => e.identifier.groupKey == g.key
  kind : ∀ g ∈ groups ctx type, ∀ a ∈ g.members, ∀ b ∈ g.members,
    a.identifier.kind = b.identifier.kind
  page : ∀ withHeading, typePage ctx withHeading type =
    finished ((if withHeading then ["# ".toList ++ typeHeading ctx type, []] else []) ++
      typeSections ctx.style (ctx.content type) ++
      (memberParts ctx type).flatMap (MemberPart.texts ctx))
  once : (shown ctx type).Perm (ctx.catalog.membersOf type.identifier)
  /-- Whatever is listed leaves its mark. -/
  marks : ∀ withHeading, ∀ e ∈ shown ctx type,
    "<a id=\"".toList ++ memberAnchor e.identifier.id ++ "\"></a>".toList <:+:
      typePage ctx withHeading type
  bulleted : ∀ g ∈ groups ctx type, ∀ e ∈ g.members, ∀ bulleted,
    .member bulleted e ∈ memberParts ctx type ↔
      (bulleted = true ↔ 2 ≤ (g.members.filter fun m => m.identifier.isMethod).length)

private theorem listsMembers (ctx : Context) (type : Entry) : ListsMembers ctx type where
  sorted := by
    refine pairwise_sortBy (fun a b => ?_) (fun a b c => ?_) _
    · exact Text.le_total a.identifier.id b.identifier.id
    · exact Text.le_trans a.identifier.id b.identifier.id c.identifier.id
  together := Group.members_ofEntries _
  keys := (divides_groups ctx type).keys
  members := (divides_groups ctx type).members
  kind := by
    intro g hg a ha b hb
    refine (divides_groups ctx type).kind_eq (fun e he => ?_) hg ha hb
    exact (Catalog.isMemberOf_iff.mp (Catalog.mem_membersOf.mp he).2).1
  page := fun withHeading => typePage_eq ctx withHeading type
  once := shown_perm ctx type
  marks withHeading e he :=
    entryMark_infix_typePage ctx withHeading ((shown_perm ctx type).mem_iff.mp he)
  bulleted := by
    intro g hg e he bulleted
    rw [member_mem_memberParts hg he, Group.holdsOverloads, Bool.eq_iff_iff, decide_eq_true_iff]
    exact Iff.rfl

private theorem hasPlace {root : Markup.Element} {e : Entry} (he : e ∈ (Catalog.ofDocument root).entries)
    (hmember : e.identifier.isMember = true) : HasPlace (Catalog.ofDocument root) e where
  mem_iff := by
    intro type _
    rw [Catalog.mem_membersOf, and_iff_right he, Catalog.isMemberOf_iff_owner? hmember,
      Identifier.owner?_eq_some_iff]
  one := by
    intro owner howner hin
    obtain ⟨type, hm, hid⟩ := List.mem_map.mp hin
    have hfound : (Catalog.ofDocument root).owner? e = some type := by
      rw [Catalog.owner?, howner]
      exact Catalog.get?_eq_some_iff.mpr ⟨hm, hid⟩
    have ht := Catalog.mem_types_of_owner? hfound
    have hof := (Catalog.isMemberOf_iff_owner?_eq ht hmember).mpr hfound
    refine ⟨type, ⟨ht, Catalog.mem_membersOf.mpr ⟨he, hof⟩⟩, ?_⟩
    rintro other ⟨ho, heo⟩
    exact Catalog.eq_of_mem_membersOf ho ht heo (Catalog.mem_membersOf.mpr ⟨he, hof⟩)
  none := by
    intro hnone type ht hm
    obtain ⟨hin, htype⟩ := Catalog.mem_types.mp ht
    have howner := (Catalog.isMemberOf_iff_owner? hmember).mp (Catalog.mem_membersOf.mp hm).2
    refine hnone type.identifier.id howner ?_
    rw [← Identifier.eq_of_isType htype]
    exact List.mem_map_of_mem hin

/-- No member is lost, shown twice or out of place. -/
theorem members_are_shown_once (root : Markup.Element) (options : Options) (strategy : Strategy)
    (singleDocument : Bool) :
    let ctx := rendering root options strategy singleDocument
    (∀ e ∈ ctx.catalog.entries, e.identifier.isMember = true → HasPlace ctx.catalog e) ∧
    (∀ type ∈ ctx.catalog.types, ListsMembers ctx type) ∧
    (ctx.catalog.types.flatMap (shown ctx)).Perm
      (ctx.catalog.entries.filter ctx.catalog.isOwned) := by
  intro ctx
  refine ⟨fun e he hmember => hasPlace he hmember, fun type _ => listsMembers ctx type, ?_⟩
  exact (List.Perm.flatMap_left _ fun type _ => shown_perm ctx type).trans
    (Catalog.perm_flatMap_membersOf root)

theorem members_are_shown_once_in_overloads :
    let ctx := rendering overloads .default Strategy.heuristic false
    let type := overloadsEntry 0 "T:A.B"
    let e := overloadsEntry 2 "M:A.B.F(System.Int32)"
    (∃! owner, owner ∈ ctx.catalog.types ∧ e ∈ ctx.catalog.membersOf owner.identifier) ∧
    .member true e ∈ memberParts ctx type ∧
    (ctx.catalog.types.flatMap (shown ctx)).Perm [overloadsEntry 1 "M:A.B.F", e] := by
  intro ctx type e
  have hentries : ctx.catalog.entries = [type, overloadsEntry 1 "M:A.B.F", e] := rfl
  have hgroups : groups ctx type =
      [⟨"Method: F".toList, [overloadsEntry 1 "M:A.B.F", e]⟩] := rfl
  have hfilter : ctx.catalog.entries.filter ctx.catalog.isOwned =
      [overloadsEntry 1 "M:A.B.F", e] := rfl
  have htypes : ctx.catalog.types = [type] := rfl
  obtain ⟨hplace, hlists, hall⟩ :=
    members_are_shown_once overloads .default Strategy.heuristic false
  have he : e ∈ ctx.catalog.entries := by simp [hentries]
  have ht : type ∈ ctx.catalog.types := by simp [htypes]
  refine ⟨(hplace e he rfl).one "A.B".toList rfl ?_, ?_, ?_⟩
  · exact List.mem_map_of_mem (Catalog.mem_types.mp ht).1
  · refine ((hlists type ht).bulleted _ (by rw [hgroups]; exact List.mem_singleton_self _) e
      (by simp) true).mpr ?_
    exact ⟨fun _ => le_refl 2, fun _ => rfl⟩
  · rw [← hfilter]
    exact hall

end Render
end ApiPages
