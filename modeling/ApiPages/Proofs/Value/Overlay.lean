import Mathlib.Data.List.Nodup
import ApiPages.Value.Overlay

/-! What stands under a key, or along a path of keys, after one mapping is laid over another. -/
namespace ApiPages

/-- A text is a key of its own. -/
theorem Scalar.key_eq_text_iff {s : Scalar} {t : Text} : s.key = (Scalar.text t).key ↔ s = .text t := by
  refine ⟨fun h => ?_, fun h => h ▸ rfl⟩
  have htext : (Scalar.text t).key = .other (.text t) := rfl
  rw [htext, key.eq_def] at h
  split at h
  · cases h
  · cases h
  · split at h
    · split at h <;> cases h
    · cases h
  · split at h <;> cases h
  · exact Key.other.inj h

namespace Entries

/-- The keys, each of them as it counts. -/
def keys (entries : Entries) : List Key := entries.map fun entry => entry.1.key

theorem mem_keys_text_iff {t : Text} {entries : Entries} :
    (Scalar.text t).key ∈ entries.keys ↔ .text t ∈ entries.map Prod.fst := by
  rw [keys, List.mem_map, List.mem_map]
  exact exists_congr fun entry => and_congr_right fun _ => Scalar.key_eq_text_iff

private theorem get?_cons (key : Scalar) (entry : Scalar × Value) (rest : Entries) :
    get? key (entry :: rest) = if entry.1.key = key.key then some entry.2 else get? key rest := rfl

theorem get?_put (key : Scalar) (value : Value) (entries : Entries) (k : Scalar) :
    (put key value entries).get? k = if key.key = k.key then some value else entries.get? k := by
  induction entries with
  | nil => rfl
  | cons entry rest ih =>
    rw [put]
    by_cases hfirst : entry.1.key = key.key
    · rw [if_pos hfirst, get?_cons, get?_cons, hfirst]
      split <;> rfl
    · rw [if_neg hfirst, get?_cons, get?_cons, ih]
      by_cases h : entry.1.key = k.key
      · rw [if_pos h, if_pos h, if_neg fun he => hfirst (h.trans he.symm)]
      · rw [if_neg h, if_neg h]

private theorem get?_congr {key other : Scalar} (h : key.key = other.key) (entries : Entries) :
    entries.get? key = entries.get? other := by
  induction entries with
  | nil => rfl
  | cons entry rest ih => rw [get?_cons, get?_cons, h, ih]

/-- A key that is there stays as it is written, however it is written when a value is put under it. -/
theorem put_congr {key other : Scalar} (h : key.key = other.key) (value : Value) {entries : Entries}
    (hmem : key.key ∈ entries.keys) : put key value entries = put other value entries := by
  induction entries with
  | nil => cases hmem
  | cons entry rest ih =>
    rw [put, put, h]
    split
    · rfl
    · next hfirst =>
      have hne : key.key ≠ entry.1.key := fun he => hfirst (he.symm.trans h)
      rw [ih ((List.mem_cons.mp hmem).resolve_left hne)]

private theorem put_put (key : Scalar) (value former : Value) (entries : Entries) :
    put key value (put key former entries) = put key value entries := by
  induction entries with
  | nil => simp [put]
  | cons entry rest ih =>
    by_cases h : entry.1.key = key.key
    · simp [put, h]
    · simp [put, h, ih]

/-- Values put under two keys can be put in either order, once one of the keys is there. -/
theorem put_comm {key other : Scalar} (hne : other.key ≠ key.key) (value value' : Value)
    {entries : Entries} (hkey : key.key ∈ entries.keys) :
    put other value' (put key value entries) = put key value (put other value' entries) := by
  induction entries with
  | nil => cases hkey
  | cons entry rest ih =>
    by_cases hfirst : entry.1.key = key.key
    · have hother : entry.1.key ≠ other.key := fun h => hne (h.symm.trans hfirst)
      simp [put, hfirst, hne.symm]
    · have hrest : key.key ∈ keys rest := (List.mem_cons.mp hkey).resolve_left (Ne.symm hfirst)
      by_cases hother : entry.1.key = other.key
      · simp [put, hother, hne]
      · simp [put, hfirst, hother, ih hrest]

private theorem mem_keys_put {k : Key} {entries : Entries} (h : k ∈ entries.keys) (other : Scalar)
    (value : Value) : k ∈ (put other value entries).keys := by
  induction entries with
  | nil => cases h
  | cons entry rest ih =>
    rw [put]
    split
    · exact h
    · rcases List.mem_cons.mp h with rfl | h
      · exact List.mem_cons_self
      · exact List.mem_cons_of_mem _ (ih h)

private theorem forall_mem_put {P : Scalar × Value → Prop} {key : Scalar} {value : Value} {entries : Entries}
    (hentries : ∀ entry ∈ entries, P entry) (hvalue : ∀ k : Scalar, k.key = key.key → P (k, value)) :
    ∀ entry ∈ put key value entries, P entry := by
  induction entries with
  | nil => exact List.forall_mem_singleton.mpr (hvalue key rfl)
  | cons first rest ih =>
    obtain ⟨hfirst, hrest⟩ := List.forall_mem_cons.mp hentries
    rw [put]
    split
    · next hkey => exact List.forall_mem_cons.mpr ⟨hvalue first.1 hkey, hrest⟩
    · exact List.forall_mem_cons.mpr ⟨hfirst, ih hrest⟩

/-- What is put under a key stands in the place of what was found there. -/
theorem put_eq_of_get? {key : Scalar} {former : Value} {entries : Entries}
    (h : entries.get? key = some former) :
    ∃ before k after, entries = before ++ (k, former) :: after ∧
      ∀ value, put key value entries = before ++ (k, value) :: after := by
  induction entries with
  | nil => cases h
  | cons entry rest ih =>
    rw [get?_cons] at h
    by_cases hkey : entry.1.key = key.key
    · rw [if_pos hkey] at h
      obtain rfl := Option.some.inj h
      exact ⟨[], entry.1, rest, rfl, fun value => if_pos hkey⟩
    · rw [if_neg hkey] at h
      obtain ⟨before, k, after, hrest, hput⟩ := ih h
      refine ⟨entry :: before, k, after, congrArg (entry :: ·) hrest, fun value => ?_⟩
      rw [put, if_neg hkey, hput]
      rfl

theorem mem_of_get? {entries : Entries} {key : Scalar} {value : Value}
    (h : entries.get? key = some value) : ∃ k : Scalar, k.key = key.key ∧ (k, value) ∈ entries := by
  induction entries with
  | nil => cases h
  | cons entry rest ih =>
    rw [get?_cons] at h
    split at h
    · next hkey =>
      obtain rfl := Option.some.inj h
      exact ⟨entry.1, hkey, List.mem_cons_self⟩
    · obtain ⟨k, hk, hmem⟩ := ih h
      exact ⟨k, hk, List.mem_cons_of_mem entry hmem⟩

theorem isSome_get?_iff {entries : Entries} {key : Scalar} :
    (entries.get? key).isSome ↔ key.key ∈ entries.keys := by
  induction entries with
  | nil => simp [get?, keys]
  | cons entry rest ih =>
    rw [get?_cons, keys, List.map_cons, List.mem_cons]
    by_cases h : entry.1.key = key.key
    · rw [if_pos h]
      exact iff_of_true rfl (Or.inl h.symm)
    · rw [if_neg h, ih]
      exact (or_iff_right (Ne.symm h)).symm

theorem get?_of_not_mem {entries : Entries} {key : Scalar} (h : key.key ∉ entries.keys) :
    entries.get? key = none :=
  Option.not_isSome_iff_eq_none.mp (mt isSome_get?_iff.mp h)

/-- No key stands twice, not even written in two ways. -/
def DistinctKeys (entries : Entries) : Prop := entries.keys.Nodup

instance (entries : Entries) : Decidable (DistinctKeys entries) :=
  inferInstanceAs (Decidable (List.Nodup _))

theorem DistinctKeys.nodup_map_fst {entries : Entries} (h : entries.DistinctKeys) :
    (entries.map Prod.fst).Nodup := by
  refine List.Nodup.of_map Scalar.key ?_
  rwa [List.map_map]

theorem DistinctKeys.get?_iff {entries : Entries} (h : entries.DistinctKeys) {key : Scalar}
    {value : Value} :
    entries.get? key = some value ↔ ∃ k : Scalar, k.key = key.key ∧ (k, value) ∈ entries := by
  refine ⟨mem_of_get?, fun hmem => ?_⟩
  obtain ⟨k, hk, hmem⟩ := hmem
  induction entries with
  | nil => cases hmem
  | cons entry rest ih =>
    obtain ⟨hfirst, hrest⟩ := List.nodup_cons.mp h
    rw [get?_cons]
    rcases List.mem_cons.mp hmem with rfl | hmem
    · exact if_pos hk
    · have hne : entry.1.key ≠ key.key := fun he =>
        hfirst (List.mem_map.mpr ⟨(k, value), hmem, hk.trans he.symm⟩)
      rw [if_neg hne]
      exact ih hrest hmem

end Entries

namespace Value

/-- Where the update or what is there is no mapping, the update stands as it is. -/
theorem overlay_eq_self {base : Option Value} {update : Value}
    (h : (∀ entries, base ≠ some (.mapping entries)) ∨ ∀ entries, update ≠ .mapping entries) :
    overlay base update = update := by
  cases update with
  | mapping changes =>
    obtain h | h := h
    · rw [overlay]
      exact h
    · exact absurd rfl (h changes)
  | _ => rfl

/-- Key by key, an update with distinct keys is laid over what stands under the same key. -/
theorem get?_overlayEntries (base : Entries) {update : Entries}
    (h : update.DistinctKeys) (key : Scalar) :
    (overlayEntries base update).get? key =
      ((update.get? key).map (overlay (base.get? key))).or (base.get? key) := by
  induction update generalizing base with
  | nil =>
    rw [overlayEntries]
    rfl
  | cons entry rest ih =>
    obtain ⟨hk, hrest⟩ := List.nodup_cons.mp h
    rw [overlayEntries, ih _ hrest, Entries.get?_put, Entries.get?_cons]
    by_cases he : entry.1.key = key.key
    · have hnone : Entries.get? key rest = none := Entries.get?_of_not_mem (he ▸ hk)
      have hsame : base.get? entry.1 = base.get? key := Entries.get?_congr he base
      rw [hnone, if_pos he, if_pos he, hsame]
      rfl
    · rw [if_neg he, if_neg he]

/-- Under a key where mappings never meet, the update's value replaces what is there. -/
theorem get?_overlayEntries_of_replaced {base update : Entries} (h : update.DistinctKeys)
    {key : Scalar} (hkey : (∀ inner, base.get? key ≠ some (.mapping inner)) ∨
      ∀ inner, update.get? key ≠ some (.mapping inner)) :
    (overlayEntries base update).get? key = (update.get? key).or (base.get? key) := by
  rw [get?_overlayEntries base h]
  cases hvalue : update.get? key with
  | none => rfl
  | some value =>
    rw [Option.map_some, overlay_eq_self]
    refine hkey.imp_right fun hupdate inner hinner => ?_
    exact hupdate inner (hinner ▸ hvalue)

theorem overlayEntries_append (base update update' : Entries) :
    overlayEntries base (update ++ update') = overlayEntries (overlayEntries base update) update' := by
  induction update generalizing base with
  | nil => rw [List.nil_append, overlayEntries]
  | cons entry rest ih =>
    rw [List.cons_append, overlayEntries, overlayEntries]
    exact ih _

theorem mem_keys_overlayEntries {k : Key} {base : Entries} (h : k ∈ base.keys) (update : Entries) :
    k ∈ (overlayEntries base update).keys := by
  induction update generalizing base with
  | nil => exact h
  | cons entry rest ih =>
    rw [overlayEntries]
    exact ih (Entries.mem_keys_put h _ _)

theorem get?_overlayEntries_of_not_mem {key : Scalar} {update : Entries}
    (h : key.key ∉ update.keys) (base : Entries) :
    (overlayEntries base update).get? key = base.get? key := by
  induction update generalizing base with
  | nil => rw [overlayEntries]
  | cons entry rest ih =>
    obtain ⟨hne, hrest⟩ := List.ne_and_not_mem_of_not_mem_cons h
    rw [overlayEntries, ih hrest, Entries.get?_put, if_neg (Ne.symm hne)]

/-- An update is laid over a value put under another key as if it were not there. -/
theorem overlayEntries_put {key : Scalar} {base update : Entries} (hkey : key.key ∈ base.keys)
    (hupdate : key.key ∉ update.keys) (value : Value) :
    overlayEntries (Entries.put key value base) update =
      Entries.put key value (overlayEntries base update) := by
  induction update generalizing base with
  | nil => rw [overlayEntries, overlayEntries]
  | cons entry rest ih =>
    obtain ⟨hne, hrest⟩ := List.ne_and_not_mem_of_not_mem_cons hupdate
    rw [overlayEntries, overlayEntries, Entries.get?_put, if_neg hne,
      Entries.put_comm (Ne.symm hne) _ _ hkey, ih (Entries.mem_keys_put hkey _ _) hrest]

/-- A mapping laid over nothing stands as it is. -/
theorem overlayEntries_put_null {key : Scalar} {base update inner : Entries}
    (hkey : key.key ∈ base.keys) (hdistinct : update.DistinctKeys)
    (hinner : update.get? key = some (.mapping inner)) :
    overlayEntries (Entries.put key .null base) update =
      Entries.put key (.mapping inner) (overlayEntries base update) := by
  induction update generalizing base with
  | nil => cases hinner
  | cons entry rest ih =>
    obtain ⟨hfirst, hrest⟩ := List.nodup_cons.mp hdistinct
    rw [Entries.get?_cons] at hinner
    rw [overlayEntries, overlayEntries, Entries.get?_put]
    by_cases he : entry.1.key = key.key
    · rw [if_pos he] at hinner
      have hvalue : entry.2 = .mapping inner := Option.some.inj hinner
      have hnull : overlay (some .null) (.mapping inner) = .mapping inner :=
        overlay_eq_self (Or.inl (by simp [null]))
      have habsent : key.key ∉ Entries.keys rest := he ▸ hfirst
      have hlaid (former : Value) : overlayEntries (Entries.put entry.1 former base) rest =
          Entries.put key former (overlayEntries base rest) := by
        rw [Entries.put_congr he former (he ▸ hkey), overlayEntries_put hkey habsent]
      have hput : Entries.put entry.1 (.mapping inner) (Entries.put key .null base) =
          Entries.put entry.1 (.mapping inner) base := by
        have hnulled := Entries.mem_keys_put hkey key .null
        rw [Entries.put_congr he _ (he ▸ hnulled), Entries.put_congr he _ (he ▸ hkey), Entries.put_put]
      rw [if_pos he.symm, hvalue, hnull, hput, hlaid, hlaid, Entries.put_put]
    · rw [if_neg he] at hinner
      rw [if_neg (Ne.symm he), Entries.put_comm he _ _ hkey,
        ih (Entries.mem_keys_put hkey _ _) hrest hinner]

/-- What holds of every entry, and of every value laid over another, holds of all entries behind the
overlaying. -/
theorem forall_mem_overlayEntries {P : Scalar × Value → Prop} {base update : Entries}
    (hbase : ∀ entry ∈ base, P entry)
    (hupdate : ∀ entry ∈ update, ∀ k : Scalar, k.key = entry.1.key →
      ∀ former, P (k, overlay former entry.2)) :
    ∀ entry ∈ overlayEntries base update, P entry := by
  induction update generalizing base with
  | nil => exact hbase
  | cons first rest ih =>
    obtain ⟨hfirst, hrest⟩ := List.forall_mem_cons.mp hupdate
    rw [overlayEntries]
    exact ih (Entries.forall_mem_put hbase fun k hk => hfirst k hk _) hrest

/-- The entries of a mapping; nothing else has any. -/
def entries : Value → Entries
  | .mapping entries => entries
  | _ => []

/-- What stands at the end of a path of keys. -/
def at? : List Scalar → Value → Option Value
  | [], value => some value
  | key :: keys, value => (value.entries.get? key).bind (at? keys)

theorem bind_at?_nil (value : Option Value) : value.bind (at? []) = value := by
  cases value <;> rfl

end Value
end ApiPages
