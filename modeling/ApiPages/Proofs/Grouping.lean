import ApiPages.Proofs.Catalog

/-! Grouping is a partition: every entry is in the group of its key, in the order of the entries, and
the members of one group are of one kind. -/
namespace ApiPages

/-- The first letter of the key is the kind of the member. -/
theorem Identifier.take_groupKey {i : Identifier} (h : i.isMember = true) :
    i.groupKey.take 1 = i.kind := by
  have hkind : i.kind ∈ [['M'], ['P'], ['F'], ['E']] := List.contains_iff_mem.mp h
  rw [groupKey, kindWord]
  generalize i.kind = kind at hkind ⊢
  simp only [List.mem_cons, List.not_mem_nil, or_false] at hkind
  rcases hkind with rfl | rfl | rfl | rfl <;> rfl

namespace Group

/-- The groups divide the entries by their keys and keep their order. -/
structure Divides (groups : List Group) (entries : List Entry) : Prop where
  keys : (groups.map key).Nodup
  members : ∀ g ∈ groups,
    g.members = entries.filter fun e => e.identifier.groupKey == g.key
  complete : ∀ e ∈ entries, e.identifier.groupKey ∈ groups.map key

/-- The group of a key with the entry behind its members. -/
def withMember (entry : Entry) : Option Group → Group
  | none => ⟨entry.identifier.groupKey, [entry]⟩
  | some g => { g with members := g.members ++ [entry] }

private theorem add_eq_exchange (entry : Entry) (groups : List Group) :
    add entry groups =
      Keyed.exchange key entry.identifier.groupKey (withMember entry) groups := by
  induction groups with
  | nil => rfl
  | cons g gs ih => rw [add, Keyed.exchange, ih, withMember]

/-- One more entry behind the others. -/
theorem Divides.add {groups : List Group} {entries : List Entry} (h : Divides groups entries)
    (entry : Entry) : Divides (Group.add entry groups) (entries ++ [entry]) := by
  have hkeys : (Group.add entry groups).map key =
      Keyed.withKey (groups.map key) entry.identifier.groupKey := by
    rw [add_eq_exchange]
    refine Keyed.keys_exchange (k := entry.identifier.groupKey) rfl ?_ groups
    intro g hk
    exact hk
  constructor
  case keys =>
    rw [hkeys]
    exact Keyed.nodup_withKey h.keys _
  case members =>
    intro g hg
    rw [add_eq_exchange] at hg
    rw [List.filter_append]
    rcases Keyed.mem_exchange h.keys hg with ⟨hm, hn⟩ | ⟨former, hm, hk, rfl⟩ | ⟨hn, rfl⟩
    · rw [← h.members g hm, List.filter_cons_of_neg (by simpa using Ne.symm hn), List.filter_nil,
        List.append_nil]
    · simp [withMember, h.members former hm, hk]
    · have hnone : entries.filter (fun e => e.identifier.groupKey == entry.identifier.groupKey) =
          [] := by
        refine List.filter_eq_nil_iff.mpr fun e he hkey => hn ?_
        rw [← eq_of_beq hkey]
        exact h.complete e he
      simp [withMember, hnone]
  case complete =>
    intro e he
    rw [hkeys, Keyed.mem_withKey]
    rcases List.mem_append.mp he with he | he
    · exact Or.inl (h.complete e he)
    · rw [List.mem_singleton.mp he]
      exact Or.inr rfl

/-- No entry is in two groups. -/
theorem Divides.eq_of_mem {groups : List Group} {entries : List Entry} (h : Divides groups entries)
    {a b : Group} (ha : a ∈ groups) (hb : b ∈ groups) {e : Entry} (hea : e ∈ a.members)
    (heb : e ∈ b.members) : a = b := by
  rw [h.members a ha, List.mem_filter] at hea
  rw [h.members b hb, List.mem_filter] at heb
  exact List.inj_on_of_nodup_map h.keys ha hb
    ((eq_of_beq hea.2).symm.trans (eq_of_beq heb.2))

/-- Members in one group are of one kind. -/
theorem Divides.kind_eq {groups : List Group} {entries : List Entry} (h : Divides groups entries)
    (hentries : ∀ e ∈ entries, e.identifier.isMember = true) {g : Group} (hg : g ∈ groups)
    {a b : Entry} (ha : a ∈ g.members) (hb : b ∈ g.members) :
    a.identifier.kind = b.identifier.kind := by
  rw [h.members g hg, List.mem_filter] at ha hb
  rw [← Identifier.take_groupKey (hentries a ha.1), ← Identifier.take_groupKey (hentries b hb.1),
    eq_of_beq ha.2, eq_of_beq hb.2]

theorem divides_ofEntries (entries : List Entry) : Divides (ofEntries entries) entries := by
  have hf (rest : List Entry) {groups : List Group} {former : List Entry}
      (h : Divides groups former) :
      Divides (rest.foldl (fun groups entry => Group.add entry groups) groups)
        (former ++ rest) := by
    induction rest generalizing groups former with
    | nil =>
      rw [List.append_nil]
      exact h
    | cons e es ih =>
      have hnext := ih (h.add e)
      rw [List.append_assoc] at hnext
      exact hnext
  have hnone : Divides [] [] :=
    ⟨List.nodup_nil, fun _ hg => absurd hg List.not_mem_nil, fun _ he => absurd he List.not_mem_nil⟩
  exact hf entries hnone

end Group
end ApiPages
