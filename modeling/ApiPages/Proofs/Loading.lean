import ApiPages.Proofs.Markup.Position
import ApiPages.Proofs.Order
import ApiPages.Proofs.Ownership
import Mathlib.Data.Set.Card

/-! Loading an export: its catalogue has the last record of every name, in the order in which the names
first come, and says how many records gave way to others. -/
namespace ApiPages

open Markup

/-- The entry is that of a record of the document: an element with the tag of records, at any depth,
that has a name which is not blank. -/
structure Entry.IsRecord (root : Element) (e : Entry) : Prop where
  stands : root.at? e.position = some e.element
  tag : e.element.tag = Catalog.recordTag
  name : e.element.attr? "name".toList = some e.identifier
  named : Text.isBlankText e.identifier = false

/-- The notice says that a record gave way to another of its name. -/
def Notice.isRepeatedMember : Notice → Bool
  | .repeatedMember _ => true
  | _ => false

namespace Catalog

private theorem mem_records {root : Element} {e : Entry} : e ∈ records root ↔ e.IsRecord root := by
  rw [records, List.mem_filterMap]
  constructor
  · rintro ⟨⟨position, element⟩, hmem, h⟩
    obtain ⟨_, rfl, hat, htag⟩ := Element.mem_occurrences.mp hmem
    dsimp only at h
    split at h
    · cases h
    · next hname =>
      obtain rfl := Option.some.inj h
      have hfound : element.attr? "name".toList = some (element.attr "name".toList) := by
        rw [Element.attr] at hname ⊢
        cases hattr : element.attr? "name".toList with
        | none =>
          rw [hattr] at hname
          exact absurd rfl hname
        | some name => rfl
      exact ⟨hat, htag, hfound, Bool.eq_false_iff.mpr hname⟩
  · intro h
    have hname : e.element.attr "name".toList = e.identifier := by rw [Element.attr, h.name]; rfl
    refine ⟨(e.position, e.element), ?_, ?_⟩
    · exact Element.mem_occurrences.mpr ⟨e.position, rfl, h.stands, h.tag⟩
    · dsimp only
      rw [hname, if_neg (Bool.eq_false_iff.mp h.named)]

/-- The records come in document order. -/
theorem pairwise_records (root : Element) :
    (records root).Pairwise fun a b => a.position < b.position := by
  refine (Element.pairwise_occurrences [] root).filterMap _ ?_
  rintro ⟨position, element⟩ ⟨position', element'⟩ hlt a ha b hb
  dsimp only at ha hb
  split at ha
  · cases ha
  · split at hb
    · cases hb
    · obtain rfl := Option.some.inj ha
      obtain rfl := Option.some.inj hb
      exact hlt

private theorem identifiers_ofDocument (root : Element) :
    (ofDocument root).identifiers = Keyed.firstKeys Entry.identifier (records root) := by
  have hf (entries kept : List Entry) :
      (entries.foldl (fun kept entry => put entry kept) kept).map Entry.identifier =
        entries.foldl (fun ks e => Keyed.withKey ks e.identifier) (kept.map Entry.identifier) := by
    induction entries generalizing kept with
    | nil => rfl
    | cons e es ih =>
      have hkeys := Keyed.keys_exchange (k := e.identifier) (f := fun _ => e) rfl
        (fun _ _ => rfl) kept
      rw [List.foldl_cons, List.foldl_cons, ih, put_eq_exchange, hkeys]
  exact hf (records root) []

/-- Under an identifier the catalogue has the last of its records. -/
theorem get?_ofDocument (root : Element) (identifier : Identifier) :
    (ofDocument root).get? identifier =
      (records root).reverse.find? fun e => e.identifier == identifier := by
  have hf (entries kept : List Entry) :
      (entries.foldl (fun kept entry => put entry kept) kept).find?
          (fun e => e.identifier == identifier) =
        (entries.reverse.find? fun e => e.identifier == identifier).or
          (kept.find? fun e => e.identifier == identifier) := by
    induction entries generalizing kept with
    | nil => rfl
    | cons e es ih =>
      rw [List.foldl_cons, ih, put_eq_exchange, Keyed.find?_exchange Entry.identifier, List.reverse_cons,
        List.find?_append, Option.or_assoc, List.find?_singleton]
      by_cases h : e.identifier = identifier
      · simp [h]
      · simp [h]
  exact (hf (records root) []).trans Option.or_none

theorem get?_ofDocument_eq_some_iff {root : Element} {identifier : Identifier} {e : Entry} :
    (ofDocument root).get? identifier = some e ↔
      e.IsRecord root ∧ e.identifier = identifier ∧
        ∀ other : Entry, other.IsRecord root → other.identifier = identifier →
          other.position ≤ e.position := by
  rw [get?_ofDocument, List.find?_eq_some_iff_append]
  have hrecords := pairwise_records root
  constructor
  · rintro ⟨he, behind, before, hsplit, hbehind⟩
    have hall : records root = before.reverse ++ e :: behind.reverse := by
      rw [← List.reverse_reverse (records root), hsplit]
      simp
    refine ⟨mem_records.mp (by simp [hall]), eq_of_beq he, fun other hother hid => ?_⟩
    rw [hall, List.pairwise_append] at hrecords
    have hmem := mem_records.mpr hother
    rw [hall, List.mem_append, List.mem_cons, List.mem_reverse, List.mem_reverse] at hmem
    rcases hmem with hmem | rfl | hmem
    · exact (hrecords.2.2 other (List.mem_reverse.mpr hmem) e List.mem_cons_self).le
    · exact le_refl _
    · simpa [hid] using hbehind other hmem
  · rintro ⟨he, rfl, hlast⟩
    obtain ⟨before, behind, hsplit⟩ := List.append_of_mem (mem_records.mpr he)
    refine ⟨beq_self_eq_true _, behind.reverse, before.reverse, by simp [hsplit], ?_⟩
    intro other hother
    rw [hsplit, List.pairwise_append, List.pairwise_cons] at hrecords
    have hmem := List.mem_reverse.mp hother
    have hrecord : other ∈ records root := by simp [hsplit, hmem]
    have hlt : e.position < other.position := hrecords.2.1.1 other hmem
    have hne : other.identifier ≠ e.identifier := fun hid =>
      absurd (hlast other (mem_records.mp hrecord) hid) (not_le_of_gt hlt)
    rw [beq_false_of_ne hne]
    rfl

/-- Every identifier but for its first time counts as repeated. -/
theorem length_repeated (seen ks is : List Identifier) (h : ∀ i, i ∈ seen ↔ i ∈ ks) :
    (repeated seen is).length + (is.foldl Keyed.withKey ks).length = ks.length + is.length := by
  induction is generalizing seen ks with
  | nil => exact Nat.zero_add _
  | cons i is ih =>
    rw [repeated, List.foldl_cons, Keyed.withKey, List.length_cons]
    by_cases hi : i ∈ ks
    · rw [if_pos hi, if_pos (List.contains_iff_mem.mpr ((h i).mpr hi)), List.length_cons,
        Nat.add_right_comm, ih seen ks h]
      rfl
    · have hseen : ¬ seen.contains i = true := fun hc => hi ((h i).mp (List.contains_iff_mem.mp hc))
      have hnext : ∀ j, j ∈ i :: seen ↔ j ∈ ks ++ [i] := by
        intro j
        rw [List.mem_cons, List.mem_append, List.mem_singleton, h, or_comm]
      rw [if_neg hi, if_neg hseen, ih _ _ hnext, List.length_append]
      exact Nat.add_right_comm _ _ _

private theorem length_repeated_records (root : Element) :
    ((loadingNotices root).filter Notice.isRepeatedMember).length + (ofDocument root).entries.length =
      (records root).length := by
  have hentries : (ofDocument root).entries.length =
      (((records root).map Entry.identifier).foldl Keyed.withKey []).length := by
    rw [List.foldl_map, ← List.length_map Entry.identifier]
    exact congrArg List.length (identifiers_ofDocument root)
  have hnotices (is : List Identifier) :
      (is.map Notice.repeatedMember).filter Notice.isRepeatedMember =
        is.map Notice.repeatedMember := by
    refine List.filter_eq_self.mpr fun notice hn => ?_
    obtain ⟨_, -, rfl⟩ := List.mem_map.mp hn
    rfl
  have hlast (n : Nat) : [Notice.membersLoaded n].filter Notice.isRepeatedMember = [] := rfl
  have hcount := length_repeated [] [] ((records root).map Entry.identifier) fun _ => Iff.rfl
  rw [List.length_map, List.length_nil, Nat.zero_add] at hcount
  rw [loadingNotices, List.filter_append, hnotices, hlast, List.append_nil, List.length_map,
    hentries, hcount]

/-- No two records stand at one place. -/
theorem ncard_records (root : Element) :
    {position | ∃ e : Entry, e.IsRecord root ∧ e.position = position}.ncard =
      (records root).length := by
  have hnodup : ((records root).map Entry.position).Nodup := by
    refine List.pairwise_map.mpr ((pairwise_records root).imp ?_)
    exact fun hlt => hlt.ne
  have hset : {position | ∃ e : Entry, e.IsRecord root ∧ e.position = position} =
      (((records root).map Entry.position).toFinset : Set Element.Position) := by
    ext position
    simp [mem_records]
  rw [hset, Set.ncard_coe_finset, List.toFinset_card_of_nodup hnodup, List.length_map]

/-- The types in strictly increasing order of their ids. -/
theorem pairwise_types (root : Element) :
    (ofDocument root).types.Pairwise fun a b => a.identifier.id < b.identifier.id := by
  have hsorted : (ofDocument root).types.Pairwise fun a b =>
      Text.le a.identifier.id b.identifier.id = true := by
    refine pairwise_sortBy (fun a b => ?_) (fun a b c => ?_) _
    · exact Text.le_total a.identifier.id b.identifier.id
    · exact Text.le_trans a.identifier.id b.identifier.id c.identifier.id
  refine (hsorted.and (nodup_types root)).imp_of_mem fun ha hb hab => ?_
  refine Text.lt_of_le_of_ne hab.1 fun hid => hab.2 ?_
  obtain ⟨ha, hta⟩ := mem_types.mp ha
  obtain ⟨hb, htb⟩ := mem_types.mp hb
  refine eq_of_identifier_eq ha hb ?_
  rw [Identifier.eq_of_isType hta, Identifier.eq_of_isType htb, hid]

/-- What the catalogue of a document holds, told by the records of the document. -/
structure HoldsRecords (root : Element) (catalog : Catalog) : Prop where
  mem_iff : ∀ identifier, identifier ∈ catalog.identifiers ↔
    ∃ e : Entry, e.IsRecord root ∧ e.identifier = identifier
  last : ∀ identifier e, catalog.get? identifier = some e ↔
    e.IsRecord root ∧ e.identifier = identifier ∧
      ∀ other : Entry, other.IsRecord root → other.identifier = identifier →
        other.position ≤ e.position
  nodup : catalog.identifiers.Nodup
  /-- An identifier comes before another one when its first record comes before all of the other. -/
  order : catalog.identifiers.Pairwise fun a b =>
    ∃ first : Entry, first.IsRecord root ∧ first.identifier = a ∧
      ∀ other : Entry, other.IsRecord root → other.identifier = b → first.position < other.position
  mem_types : ∀ e, e ∈ catalog.types ↔ e ∈ catalog.entries ∧ e.identifier.kind = ['T']
  types : catalog.types.Pairwise fun a b => a.identifier.id < b.identifier.id

/-- Of the records with one name the last is kept, in the place of the first, and every other leaves a
notice. -/
theorem last_records_are_held (root : Element) :
    HoldsRecords root (ofDocument root) ∧
      ((loadingNotices root).filter Notice.isRepeatedMember).length +
          (ofDocument root).entries.length =
        {position | ∃ e : Entry, e.IsRecord root ∧ e.position = position}.ncard := by
  rw [ncard_records]
  refine ⟨?_, length_repeated_records root⟩
  constructor
  case mem_iff =>
    intro identifier
    rw [identifiers_ofDocument, Keyed.mem_firstKeys]
    simp only [mem_records]
  case last => exact fun _ _ => get?_ofDocument_eq_some_iff
  case nodup => exact nodup_identifiers root
  case order =>
    rw [identifiers_ofDocument]
    have hfirst := Keyed.pairwise_firstKeys Entry.identifier (pairwise_records root)
    simpa only [mem_records] using hfirst
  case mem_types =>
    intro e
    rw [Catalog.mem_types, Identifier.isType, beq_iff_eq]
  case types => exact pairwise_types root

end Catalog
end ApiPages
