import ApiPages.Catalog
import ApiPages.Proofs.Keyed
import Mathlib.Data.List.Basic

/-! What a catalogue holds: every identifier once, and in the lists of types and members exactly the
entries that belong there. Grouping keeps all members. -/
namespace ApiPages.Catalog

open Markup

theorem put_eq_exchange (entry : Entry) (entries : List Entry) :
    put entry entries =
      Keyed.exchange Entry.identifier entry.identifier (fun _ => entry) entries := by
  induction entries with
  | nil => rfl
  | cons e es ih => rw [put, Keyed.exchange, ih]

private theorem nodup_put {entries : List Entry} (h : (entries.map Entry.identifier).Nodup)
    (entry : Entry) : ((put entry entries).map Entry.identifier).Nodup := by
  have hkeys := Keyed.keys_exchange (k := entry.identifier) (f := fun _ => entry) rfl
    (fun _ _ => rfl) entries
  rw [put_eq_exchange, hkeys]
  exact Keyed.nodup_withKey h _

/-- No identifier stands twice in the catalogue of a document. -/
theorem nodup_identifiers (root : Element) : (ofDocument root).identifiers.Nodup := by
  have hf (entries kept : List Entry) (h : (kept.map Entry.identifier).Nodup) :
      ((entries.foldl (fun kept entry => put entry kept) kept).map Entry.identifier).Nodup := by
    induction entries generalizing kept with
    | nil => exact h
    | cons e es ih => exact ih _ (nodup_put h e)
  exact hf (records root) [] List.nodup_nil

/-- In the catalogue of a document an identifier stands for one entry. -/
theorem eq_of_identifier_eq {root : Element} {a b : Entry} (ha : a ∈ (ofDocument root).entries)
    (hb : b ∈ (ofDocument root).entries) (h : a.identifier = b.identifier) : a = b :=
  List.inj_on_of_nodup_map (nodup_identifiers root) ha hb h

theorem mem_of_get? {catalog : Catalog} {identifier : Identifier} {e : Entry}
    (h : catalog.get? identifier = some e) : e ∈ catalog.entries :=
  List.mem_of_find?_eq_some h

private theorem mem_sortById {entries : List Entry} {e : Entry} : e ∈ sortById entries ↔ e ∈ entries :=
  (sortBy_perm _ entries).mem_iff

theorem mem_types {catalog : Catalog} {e : Entry} :
    e ∈ catalog.types ↔ e ∈ catalog.entries ∧ e.identifier.isType = true := by
  rw [types, mem_sortById, List.mem_filter]

theorem mem_membersOf {catalog : Catalog} {type : Identifier} {e : Entry} :
    e ∈ catalog.membersOf type ↔ e ∈ catalog.entries ∧ isMemberOf type e = true := by
  rw [membersOf, mem_sortById, List.mem_filter]

theorem isMemberOf_iff {type : Identifier} {e : Entry} :
    isMemberOf type e = true ↔ e.identifier.isMember = true ∧
      type.id ++ ['.'] <+: e.identifier.id ∧
      Identifier.containingType e.identifier = 'T' :: ':' :: type.id := by
  simp [isMemberOf, and_assoc]

end Catalog

namespace Group

private theorem members_add (entry : Entry) (groups : List Group) :
    ((add entry groups).flatMap members).Perm (entry :: groups.flatMap members) := by
  induction groups with
  | nil => exact .refl _
  | cons g gs ih =>
    unfold add
    split
    · simp only [List.flatMap_cons]
      rw [List.append_assoc]
      exact List.perm_middle
    · simp only [List.flatMap_cons]
      exact (ih.append_left _).trans List.perm_middle

/-- The groups together hold the entries, each as often as it was there. -/
theorem members_ofEntries (entries : List Entry) :
    ((ofEntries entries).flatMap members).Perm entries := by
  have hf (groups : List Group) :
      ((entries.foldl (fun groups entry => add entry groups) groups).flatMap members).Perm
        (groups.flatMap members ++ entries) := by
    induction entries generalizing groups with
    | nil => simp
    | cons e es ih =>
      refine (ih (add e groups)).trans ?_
      exact ((members_add e groups).append_right es).trans List.perm_middle.symm
  exact hf []

theorem exists_of_mem {entries : List Entry} {e : Entry} (h : e ∈ entries) :
    ∃ g ∈ ofEntries entries, e ∈ g.members :=
  List.mem_flatMap.mp ((members_ofEntries entries).mem_iff.mpr h)

end ApiPages.Group
