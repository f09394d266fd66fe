import ApiPages.Proofs.Catalog
import ApiPages.Proofs.Identifier

/-! Which type a member belongs to: the one that its owner part names, and no other. -/
namespace ApiPages

namespace Identifier

/-- The part of the identifier that names the type around: what precedes the last dot of what precedes
the parameters. -/
def owner? (i : Identifier) : Option Text :=
  (Text.cutLast '.' (Text.beforeFirst '(' i.id)).map Prod.fst

theorem owner?_eq_some_iff {i : Identifier} {owner : Text} :
    i.owner? = some owner ↔
      ∃ name, '.' ∉ name ∧ Text.beforeFirst '(' i.id = owner ++ '.' :: name := by
  rw [owner?, Option.map_eq_some_iff]
  constructor
  · rintro ⟨⟨before, name⟩, hcut, rfl⟩
    obtain ⟨he, hn⟩ := Text.cutLast_eq_some_iff.mp hcut
    exact ⟨name, hn, he⟩
  · rintro ⟨name, hn, he⟩
    exact ⟨(owner, name), Text.cutLast_eq_some_iff.mpr ⟨he, hn⟩, rfl⟩

/-- The containing type of a member is named by its owner part, or without one by all that precedes
the parameters. -/
theorem containingType_of_isMember {i : Identifier} (h : i.isMember = true) :
    containingType i = 'T' :: ':' :: i.owner?.getD (Text.beforeFirst '(' i.id) := by
  obtain ⟨k, _, hshape⟩ := eq_of_isMember h
  have hcons (id : Text) : containingType (k :: ':' :: id) = 'T' :: ':' ::
      ((Text.cutLast '.' (Text.beforeFirst '(' id)).map Prod.fst).getD
        (Text.beforeFirst '(' id) := by
    simp only [containingType, stripTag]
    cases Text.cutLast '.' (Text.beforeFirst '(' id) <;> rfl
  conv_lhs => rw [hshape]
  exact hcons i.id

end Identifier

namespace Catalog

/-- A member belongs to the type that its owner part names. -/
theorem isMemberOf_iff_owner? {type : Identifier} {e : Entry} (h : e.identifier.isMember = true) :
    isMemberOf type e = true ↔ e.identifier.owner? = some type.id := by
  obtain ⟨rest, hid, hrest⟩ := Text.exists_beforeFirst_append '(' e.identifier.id
  rw [isMemberOf_iff, Identifier.containingType_of_isMember h]
  constructor
  · rintro ⟨_, hprefix, howner⟩
    cases ho : e.identifier.owner? with
    | some owner =>
      rw [ho] at howner
      simpa using howner
    | none =>
      -- Without an owner part the id cannot go on with a dot behind the name of the type.
      rw [ho] at howner
      have hname : Text.beforeFirst '(' e.identifier.id = type.id := by simpa using howner
      rw [hid, hname, List.prefix_append_right_inj] at hprefix
      obtain ⟨tail, rfl⟩ := hprefix
      exact absurd (hrest '.' rfl) (by decide)
  · intro ho
    refine ⟨h, ?_, by rw [ho]; rfl⟩
    obtain ⟨name, _, hname⟩ := Identifier.owner?_eq_some_iff.mp ho
    rw [hid, hname]
    exact ⟨name ++ rest, by simp⟩

/-- The type of the catalogue that the owner part of a member names, if there is one. -/
def owner? (catalog : Catalog) (e : Entry) : Option Entry :=
  e.identifier.owner?.bind fun owner => catalog.get? ('T' :: ':' :: owner)

theorem identifier_of_get? {catalog : Catalog} {identifier : Identifier} {e : Entry}
    (h : catalog.get? identifier = some e) : e.identifier = identifier := by
  have hfound := List.find?_some h
  exact eq_of_beq hfound

/-- In the catalogue of a document an entry is found by its identifier. -/
theorem get?_eq_some_iff {root : Markup.Element} {identifier : Identifier} {e : Entry} :
    (ofDocument root).get? identifier = some e ↔
      e ∈ (ofDocument root).entries ∧ e.identifier = identifier := by
  constructor
  · exact fun h => ⟨mem_of_get? h, identifier_of_get? h⟩
  · rintro ⟨hm, rfl⟩
    have hsome : ((ofDocument root).get? e.identifier).isSome = true :=
      List.find?_isSome.mpr ⟨e, hm, beq_self_eq_true _⟩
    obtain ⟨found, hfound⟩ := Option.isSome_iff_exists.mp hsome
    rw [hfound, eq_of_identifier_eq (mem_of_get? hfound) hm (identifier_of_get? hfound)]

theorem mem_types_of_owner? {catalog : Catalog} {type e : Entry} (h : catalog.owner? e = some type) :
    type ∈ catalog.types := by
  obtain ⟨owner, _, hget⟩ := Option.bind_eq_some_iff.mp h
  refine mem_types.mpr ⟨mem_of_get? hget, ?_⟩
  rw [identifier_of_get? hget]
  rfl

/-- A type of a document has the members that are owned by it. -/
theorem isMemberOf_iff_owner?_eq {root : Markup.Element} {type e : Entry}
    (ht : type ∈ (ofDocument root).types) (h : e.identifier.isMember = true) :
    isMemberOf type.identifier e = true ↔ (ofDocument root).owner? e = some type := by
  obtain ⟨hm, htype⟩ := mem_types.mp ht
  rw [isMemberOf_iff_owner? h, owner?, Option.bind_eq_some_iff]
  constructor
  · intro ho
    exact ⟨_, ho, get?_eq_some_iff.mpr ⟨hm, Identifier.eq_of_isType htype⟩⟩
  · rintro ⟨owner, ho, hget⟩
    have hid := (identifier_of_get? hget).symm.trans (Identifier.eq_of_isType htype)
    rw [ho]
    simpa using hid

theorem nodup_entries (root : Markup.Element) : (ofDocument root).entries.Nodup :=
  List.Nodup.of_map _ (nodup_identifiers root)

theorem nodup_types (root : Markup.Element) : (ofDocument root).types.Nodup :=
  (sortBy_perm _ _).nodup_iff.mpr ((nodup_entries root).filter _)

private theorem nodup_membersOf (root : Markup.Element) (type : Identifier) :
    ((ofDocument root).membersOf type).Nodup :=
  (sortBy_perm _ _).nodup_iff.mpr ((nodup_entries root).filter _)

/-- The member has its owner among the types. -/
def isOwned (catalog : Catalog) (e : Entry) : Bool :=
  e.identifier.isMember && (catalog.owner? e).isSome

private theorem isOwned_iff {root : Markup.Element} {e : Entry} (he : e ∈ (ofDocument root).entries) :
    (ofDocument root).isOwned e = true ↔
      ∃ type ∈ (ofDocument root).types, e ∈ (ofDocument root).membersOf type.identifier := by
  rw [isOwned, Bool.and_eq_true, Option.isSome_iff_exists]
  constructor
  · rintro ⟨hmember, type, howner⟩
    have ht := mem_types_of_owner? howner
    exact ⟨type, ht, mem_membersOf.mpr ⟨he, (isMemberOf_iff_owner?_eq ht hmember).mpr howner⟩⟩
  · rintro ⟨type, ht, hm⟩
    obtain ⟨_, hof⟩ := mem_membersOf.mp hm
    have hmember := (isMemberOf_iff.mp hof).1
    exact ⟨hmember, type, (isMemberOf_iff_owner?_eq ht hmember).mp hof⟩

/-- A member is listed under one type only. -/
theorem eq_of_mem_membersOf {root : Markup.Element} {a b e : Entry}
    (ha : a ∈ (ofDocument root).types) (hb : b ∈ (ofDocument root).types)
    (hea : e ∈ (ofDocument root).membersOf a.identifier)
    (heb : e ∈ (ofDocument root).membersOf b.identifier) : a = b := by
  obtain ⟨_, hofa⟩ := mem_membersOf.mp hea
  obtain ⟨_, hofb⟩ := mem_membersOf.mp heb
  have hmember := (isMemberOf_iff.mp hofa).1
  have howner := (isMemberOf_iff_owner?_eq ha hmember).mp hofa
  rw [(isMemberOf_iff_owner?_eq hb hmember).mp hofb] at howner
  exact (Option.some.inj howner).symm

/-- The members of all types together are the members with an owner, each once. -/
theorem perm_flatMap_membersOf (root : Markup.Element) :
    ((ofDocument root).types.flatMap fun type => (ofDocument root).membersOf type.identifier).Perm
      ((ofDocument root).entries.filter (ofDocument root).isOwned) := by
  have hnodup : ((ofDocument root).types.flatMap fun type =>
      (ofDocument root).membersOf type.identifier).Nodup := by
    refine List.nodup_flatMap.mpr ⟨fun type _ => nodup_membersOf root type.identifier, ?_⟩
    refine (nodup_types root).imp_of_mem fun ha hb hne => ?_
    exact fun e hea heb => hne (eq_of_mem_membersOf ha hb hea heb)
  rw [List.perm_ext_iff_of_nodup hnodup ((nodup_entries root).filter _)]
  intro e
  rw [List.mem_flatMap, List.mem_filter]
  constructor
  · rintro ⟨type, ht, hm⟩
    have he := (mem_membersOf.mp hm).1
    exact ⟨he, (isOwned_iff he).mpr ⟨type, ht, hm⟩⟩
  · rintro ⟨he, howned⟩
    exact (isOwned_iff he).mp howned

end Catalog
end ApiPages
