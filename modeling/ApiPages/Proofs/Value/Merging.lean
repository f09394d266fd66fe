import ApiPages.Proofs.Value.Overlay

/-! One nested mapping laid over another, path by path: what stands at the end of a path of keys, in which
order the keys come, and that a mapping laid over twice is as good as laid over once. -/
namespace ApiPages

namespace Entries

/-- The keys as they are written. -/
theorem map_fst_put (key : Scalar) (value : Value) (entries : Entries) :
    (put key value entries).map Prod.fst =
      if key.key ∈ entries.keys then entries.map Prod.fst else entries.map Prod.fst ++ [key] := by
  induction entries with
  | nil => rfl
  | cons entry rest ih =>
    have hmem : key.key ∈ keys (entry :: rest) ↔ key.key = entry.1.key ∨ key.key ∈ keys rest :=
      List.mem_cons
    rw [put]
    by_cases h : entry.1.key = key.key
    · rw [if_pos h, if_pos (hmem.mpr (Or.inl h.symm))]
      rfl
    · have hrest : key.key ∈ keys (entry :: rest) ↔ key.key ∈ keys rest :=
        hmem.trans (or_iff_right (Ne.symm h))
      rw [if_neg h, List.map_cons, ih, apply_ite (List.cons entry.1)]
      exact (if_congr hrest rfl rfl).symm

/-- One and the truth value are one key, which stays as it was first written. -/
example (former value : Value) : put (.bool true) value [(.int 1, former)] = [(.int 1, value)] := rfl

private theorem put_of_get? {key : Scalar} {value : Value} {entries : Entries}
    (h : entries.get? key = some value) : put key value entries = entries := by
  obtain ⟨_, _, _, hsplit, hput⟩ := put_eq_of_get? h
  rw [hput, ← hsplit]

end Entries

namespace Value

/-! ### Paths -/

/-- No key stands twice in a mapping, neither in the value nor along any path of keys below it. -/
inductive IsKeyed : Value → Prop
  | mapping {entries : Entries} : entries.DistinctKeys → (∀ entry ∈ entries, IsKeyed entry.2) →
      IsKeyed (.mapping entries)
  | other {value : Value} : (∀ entries, value ≠ .mapping entries) → IsKeyed value

private theorem at?_append (path rest : List Scalar) (value : Value) :
    at? (path ++ rest) value = (at? path value).bind (at? rest) := by
  induction path generalizing value with
  | nil => rfl
  | cons key keys ih =>
    rw [List.cons_append, at?, at?, Option.bind_assoc]
    exact congrArg _ (funext ih)

theorem IsKeyed.at? {update value : Value} (h : update.IsKeyed) {path : List Scalar}
    (hat : at? path update = some value) : value.IsKeyed := by
  induction path generalizing update with
  | nil => exact Option.some.inj hat ▸ h
  | cons key keys ih =>
    obtain ⟨inner, hget, hinner⟩ := Option.bind_eq_some_iff.mp hat
    obtain ⟨_, -, hmem⟩ := Entries.mem_of_get? hget
    cases h with
    | mapping _ hentries => exact ih (hentries _ hmem) hinner
    | other hother =>
      cases update with
      | mapping entries => exact absurd rfl (hother entries)
      | _ => cases hmem

private theorem distinctKeys_of_isKeyed {entries : Entries} (h : (mapping entries).IsKeyed) :
    Entries.DistinctKeys entries := by
  cases h with
  | mapping hdistinct _ => exact hdistinct
  | other hother => exact absurd rfl (hother entries)

/-! ### What stands at the end of a path -/

private theorem exists_overlay_mapping (base : Option Value) (changes : Entries) :
    ∃ laid, overlay base (.mapping changes) = .mapping laid := by
  by_cases hbase : ∃ entries, base = some (.mapping entries)
  · obtain ⟨entries, rfl⟩ := hbase
    exact ⟨overlayEntries entries changes, by rw [overlay]⟩
  · exact ⟨changes, overlay_eq_self (Or.inl fun entries he => hbase ⟨entries, he⟩)⟩

private theorem get?_overlay (base : Option Value) {changes : Entries} (h : changes.DistinctKeys)
    (key : Scalar) :
    (overlay base (.mapping changes)).entries.get? key =
      ((changes.get? key).map (overlay (base.bind (at? [key])))).or (base.bind (at? [key])) := by
  by_cases hbase : ∃ entries, base = some (.mapping entries)
  · obtain ⟨entries, rfl⟩ := hbase
    have hbelow : (some (mapping entries)).bind (at? [key]) = Entries.get? key entries :=
      bind_at?_nil (Entries.get? key entries)
    rw [hbelow, overlay]
    exact get?_overlayEntries entries h key
  · have hbelow : base.bind (at? [key]) = none := by
      rcases base with _ | (_ | _ | entries | _ | _)
      case some.mapping => exact absurd ⟨entries, rfl⟩ hbase
      all_goals rfl
    have hself : overlay none = id :=
      funext fun _ => overlay_eq_self (Or.inl fun _ => (Option.some_ne_none _).symm)
    rw [hbelow, overlay_eq_self (Or.inl fun entries he => hbase ⟨entries, he⟩), hself, Option.map_id,
      Option.or_none]
    rfl

/-- Where the update has a value, it is laid over what the base has there. -/
theorem at?_overlay {update value : Value} (h : update.IsKeyed) (base : Option Value)
    {path : List Scalar} (hat : at? path update = some value) :
    at? path (overlay base update) = some (overlay (base.bind (at? path)) value) := by
  induction path generalizing base update with
  | nil =>
    obtain rfl := Option.some.inj hat
    rw [bind_at?_nil]
    rfl
  | cons key keys ih =>
    obtain ⟨inner, hget, hinner⟩ := Option.bind_eq_some_iff.mp hat
    cases h with
    | @mapping changes hdistinct hentries =>
      change changes.get? key = some inner at hget
      obtain ⟨_, -, hmem⟩ := Entries.mem_of_get? hget
      have hkeyed := hentries _ hmem
      have hpath : base.bind (at? (key :: keys)) = (base.bind (at? [key])).bind (at? keys) := by
        rw [Option.bind_assoc]
        exact congrArg _ (funext fun value => at?_append [key] keys value)
      have hfound := get?_overlay base hdistinct key
      rw [hget, Option.map_some, Option.some_or] at hfound
      rw [at?, hfound, Option.bind_some, ih hkeyed _ hinner, hpath]
    | other hother =>
      cases update with
      | mapping entries => exact absurd rfl (hother entries)
      | _ => cases hget

/-- Below a mapping of the update that lacks a key, everything is as in the base. -/
theorem at?_overlay_of_missing {update : Value} (h : update.IsKeyed) (base : Option Value)
    {path : List Scalar} {changes : Entries} (hat : at? path update = some (.mapping changes))
    {key : Scalar} (hkey : changes.get? key = none) (rest : List Scalar) :
    at? (path ++ key :: rest) (overlay base update) = base.bind (at? (path ++ key :: rest)) := by
  have hdistinct := distinctKeys_of_isKeyed (h.at? hat)
  have hsplit (value : Value) : at? (path ++ key :: rest) value =
      ((at? path value).bind (at? [key])).bind (at? rest) := by
    rw [at?_append, Option.bind_assoc]
    exact congrArg _ (funext fun value => at?_append [key] rest value)
  have hbase : base.bind (at? (path ++ key :: rest)) =
      ((base.bind (at? path)).bind (at? [key])).bind (at? rest) := by
    rw [Option.bind_assoc, Option.bind_assoc]
    exact congrArg _ (funext fun value => (hsplit value).trans (Option.bind_assoc ..))
  have hget : at? [key] (overlay (base.bind (at? path)) (.mapping changes)) =
      (base.bind (at? path)).bind (at? [key]) := by
    rw [at?, bind_at?_nil, get?_overlay _ hdistinct, hkey]
    rfl
  rw [hsplit, at?_overlay h base hat, Option.bind_some, hget, hbase]

/-! ### The order of keys -/

/-- A key counts as new that the base does not have, however it is written there. -/
theorem map_fst_overlayEntries (base : Entries) {update : Entries} (h : update.DistinctKeys) :
    (overlayEntries base update).map Prod.fst =
      base.map Prod.fst ++ (update.map Prod.fst).filter fun key => (base.get? key).isNone := by
  induction update generalizing base with
  | nil => rw [overlayEntries, List.map_nil, List.filter_nil, List.append_nil]
  | cons entry rest ih =>
    obtain ⟨hfirst, hrest⟩ := List.nodup_cons.mp h
    have hnew : (rest.map Prod.fst).filter (fun key =>
          ((Entries.put entry.1 (overlay (base.get? entry.1) entry.2) base).get? key).isNone) =
        (rest.map Prod.fst).filter fun key => (base.get? key).isNone := by
      refine List.filter_congr fun key hmem => ?_
      have hne : entry.1.key ≠ key.key := by
        intro he
        obtain ⟨other, hother, rfl⟩ := List.mem_map.mp hmem
        exact hfirst (List.mem_map.mpr ⟨other, hother, he.symm⟩)
      rw [Entries.get?_put, if_neg hne]
    rw [overlayEntries, ih _ hrest, hnew, Entries.map_fst_put, List.map_cons]
    by_cases hkey : entry.1.key ∈ base.keys
    · have hthere : ¬(base.get? entry.1).isNone = true := by
        rw [Option.isNone_iff_eq_none, ← Option.not_isSome_iff_eq_none, not_not]
        exact Entries.isSome_get?_iff.mpr hkey
      rw [if_pos hkey, List.filter_cons, if_neg hthere]
    · have habsent : (base.get? entry.1).isNone = true := by
        rw [Entries.get?_of_not_mem hkey]
        rfl
      rw [if_neg hkey, List.filter_cons, if_pos habsent, List.append_assoc]
      rfl

/-! ### Laying over twice -/

/-- Nothing changes when everything in the update was laid over before. -/
theorem overlayEntries_eq_self {laid update : Entries}
    (h : ∀ entry ∈ update, ∃ value, laid.get? entry.1 = some value ∧
      overlay (some value) entry.2 = value) : overlayEntries laid update = laid := by
  induction update with
  | nil => rw [overlayEntries]
  | cons entry rest ih =>
    obtain ⟨⟨value, hget, hvalue⟩, hrest⟩ := List.forall_mem_cons.mp h
    rw [overlayEntries, hget, hvalue, Entries.put_of_get? hget, ih hrest]

private theorem overlay_overlay {update : Value} (h : update.IsKeyed) (base : Option Value) :
    overlay (some (overlay base update)) update = overlay base update := by
  induction h generalizing base with
  | other hother => rw [overlay_eq_self (Or.inr hother), overlay_eq_self (Or.inr hother)]
  | @mapping changes hdistinct _ ih =>
    obtain ⟨laid, hlaid⟩ := exists_overlay_mapping base changes
    have hself : overlayEntries laid changes = laid := by
      refine overlayEntries_eq_self fun entry hmem =>
        ⟨_, ?_, ih entry hmem (base.bind (at? [entry.1]))⟩
      have hget := get?_overlay base hdistinct entry.1
      rw [hlaid, hdistinct.get?_iff.mpr ⟨entry.1, rfl, hmem⟩] at hget
      exact hget
    rw [hlaid, overlay, hself]

/-! ### The law -/

/-- What a mapping is, path by path, that comes from laying an update over a base. -/
structure IsLaidOver (base update merged : Value) : Prop where
  /-- Where the update has a value that does not meet a mapping, or is none, the value stands as it is. -/
  replaced : ∀ path value, at? path update = some value →
    (∀ entries, value ≠ .mapping entries) ∨ (∀ entries, at? path base ≠ some (.mapping entries)) →
    at? path merged = some value
  /-- Where a mapping of the update lacks the next key, all that follows is as in the base. -/
  kept : ∀ path (changes : Entries) key rest, at? path update = some (.mapping changes) →
    changes.get? key = none →
    at? (path ++ key :: rest) merged = at? (path ++ key :: rest) base
  /-- Where two mappings meet, the keys of the base come first, as they stood, and then the new ones. -/
  ordered : ∀ path (entries changes : Entries), at? path base = some (.mapping entries) →
    at? path update = some (.mapping changes) →
    ∃ laid : Entries, at? path merged = some (.mapping laid) ∧ laid.map Prod.fst =
      entries.map Prod.fst ++ (changes.map Prod.fst).filter fun key => (entries.get? key).isNone

private theorem isLaidOver_overlay {update : Value} (h : update.IsKeyed) (base : Value) :
    IsLaidOver base update (overlay (some base) update) where
  replaced path value hat hmeets := by
    rw [at?_overlay h _ hat, Option.bind_some, overlay_eq_self hmeets.symm]
  kept path changes key rest hat hkey := at?_overlay_of_missing h (some base) hat hkey rest
  ordered path entries changes hbase hat := by
    have hmerged := at?_overlay h (some base) hat
    rw [Option.bind_some, hbase, overlay] at hmerged
    exact ⟨_, hmerged, map_fst_overlayEntries entries (distinctKeys_of_isKeyed (h.at? hat))⟩

/-- Any mapping can be laid over any other. The outcome is told path by path; an empty update changes
nothing, and neither does the same update laid over again. -/
theorem mappings_merge_by_paths (base : Entries) {update : Entries}
    (h : (mapping update).IsKeyed) :
    ∃ merged : Entries, deepMerge (.mapping base) (.mapping update) = .ok (.mapping merged) ∧
      IsLaidOver (.mapping base) (.mapping update) (.mapping merged) ∧
      deepMerge (.mapping base) (.mapping []) = .ok (.mapping base) ∧
      deepMerge (.mapping merged) (.mapping update) = .ok (.mapping merged) := by
  have hlaid : overlay (some (mapping base)) (.mapping update) =
      .mapping (overlayEntries base update) := by
    rw [overlay]
  have htwice := overlay_overlay h (some (mapping base))
  rw [hlaid, overlay] at htwice
  have hpaths := isLaidOver_overlay h (.mapping base)
  rw [hlaid] at hpaths
  refine ⟨overlayEntries base update, rfl, hpaths, ?_, congrArg Except.ok htwice⟩
  rw [deepMerge, overlayEntries]

theorem mappings_merge_by_paths_with_shapes_apart :
    let key (c : Char) : Scalar := .text [c]
    let base : Entries := [(key 'a', .mapping [(key 'x', .int 1), (key 'y', .list [])]),
      (key 'b', .int 2)]
    let update : Entries := [(key 'c', .null),
      (key 'a', .mapping [(key 'z', .int 3), (key 'y', .mapping [])]), (key 'b', .mapping [])]
    (mapping update).IsKeyed ∧
      ∃ merged : Entries, deepMerge (.mapping base) (.mapping update) = .ok (.mapping merged) ∧
        at? [key 'a', key 'x'] (.mapping merged) = some (.int 1) ∧
        at? [key 'a', key 'y'] (.mapping merged) = some (.mapping []) ∧
        at? [key 'b'] (.mapping merged) = some (.mapping []) ∧
        merged.map Prod.fst = [key 'a', key 'b', key 'c'] ∧
        deepMerge (.mapping merged) (.mapping update) = .ok (.mapping merged) := by
  intro key base update
  have hempty : (mapping []).IsKeyed := .mapping (by decide) (fun _ => nofun)
  have hscalar (s : Scalar) : (scalar s).IsKeyed := .other (fun _ => nofun)
  have hinner : ∀ entry ∈ ([(key 'z', .int 3), (key 'y', .mapping [])] : Entries), entry.2.IsKeyed :=
    List.forall_mem_cons.mpr ⟨hscalar _, List.forall_mem_singleton.mpr hempty⟩
  have hkeyed : (mapping update).IsKeyed := by
    refine .mapping (by decide) (List.forall_mem_cons.mpr ⟨hscalar _, ?_⟩)
    exact List.forall_mem_cons.mpr ⟨.mapping (by decide) hinner, List.forall_mem_singleton.mpr hempty⟩
  obtain ⟨merged, hmerged, hlaid, -, htwice⟩ := mappings_merge_by_paths base hkeyed
  refine ⟨hkeyed, merged, hmerged, ?_, ?_, ?_, ?_, htwice⟩
  · exact hlaid.kept [key 'a'] _ (key 'x') [] rfl rfl
  · exact hlaid.replaced [key 'a', key 'y'] _ rfl (Or.inr fun _ => nofun)
  · exact hlaid.replaced [key 'b'] _ rfl (Or.inr fun _ => nofun)
  · obtain ⟨laid, hat, hkeys⟩ := hlaid.ordered [] _ _ rfl rfl
    cases hat
    exact hkeys

end Value
end ApiPages
