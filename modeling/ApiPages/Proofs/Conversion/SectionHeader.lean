import ApiPages.Digest
import ApiPages.Proofs.Conversion.Precedence
import ApiPages.Proofs.Value.JsonShape

/-! What the header of a section with nothing below it changes in the configuration that a run works
from: the defaults of the section are gone, and only what the request gives stands in it. -/
namespace ApiPages.Configuration

variable {request : Request} {part : Text} {before after : Entries}

private theorem part_mem_default (h : part ∈ [renderKey, outputKey]) :
    (Scalar.text part).key ∈ default.entries.keys := by
  rcases List.mem_pair.mp h with rfl | rfl <;> decide

private theorem get?_settings (h : part ∈ [renderKey, outputKey]) :
    request.settings.entries.get? (.text part) = some (.mapping (request.entriesUnder part)) := by
  rw [Request.settings_eq]
  rcases List.mem_pair.mp h with rfl | rfl <;> rfl

/-- With the header, the section holds what the request gives and nothing else. -/
theorem effective_header (request : Request) (hpart : part ∈ [renderKey, outputKey])
    (habsent : .text part ∉ (before ++ after).map Prod.fst) :
    effective request (before ++ (.text part, .null) :: after) =
      Entries.put (.text part) (.mapping (request.entriesUnder part))
        (effective request (before ++ after)) := by
  have hafter : (Scalar.text part).key ∉ after.keys := fun h =>
    habsent (List.map_append ▸ List.mem_append_right _ (Entries.mem_keys_text_iff.mp h))
  have hbefore := Value.mem_keys_overlayEntries (part_mem_default hpart) before
  rw [effective, effective, Value.overlayEntries_append, Value.overlayEntries_append,
    Value.overlayEntries]
  change Value.overlayEntries (Value.overlayEntries (Entries.put _ .null _) after) _ = _
  rw [Value.overlayEntries_put hbefore hafter]
  exact Value.overlayEntries_put_null (Value.mem_keys_overlayEntries hbefore after)
    (distinctKeys_settings request) (get?_settings hpart)

/-- Without the header, the section holds what the request gives over the defaults. -/
theorem get?_effective_absent (hpart : part ∈ [renderKey, outputKey]) {entries : Entries}
    (habsent : .text part ∉ entries.map Prod.fst) :
    (effective request entries).get? (.text part) = some (.mapping (Value.overlayEntries
      (setting default.entries part).entries (request.entriesUnder part))) := by
  rw [effective, Value.get?_overlayEntries _ (distinctKeys_settings request),
    get?_settings hpart, Value.get?_overlayEntries_of_not_mem (mt Entries.mem_keys_text_iff.mp habsent),
    get?_default_part hpart]
  rfl

private theorem setting_effective_absent (hpart : part ∈ [renderKey, outputKey]) {entries : Entries}
    (habsent : .text part ∉ entries.map Prod.fst) :
    setting (effective request entries) part = .mapping (Value.overlayEntries
      (setting default.entries part).entries (request.entriesUnder part)) := by
  rw [setting, get?_effective_absent hpart habsent, Option.getD_some]

private theorem setting_put (key other : Text) (value : Value) (entries : Entries) :
    setting (Entries.put (.text key) value entries) other =
      if other = key then value else setting entries other := by
  rw [setting, Entries.get?_put, setting]
  simp only [Scalar.key_eq_text_iff, Scalar.text.injEq, eq_comm]
  split <;> rfl

/-- In a section without the header a setting that the request does not give has its default. -/
theorem get?_section_absent (hpart : part ∈ [renderKey, outputKey]) (key : Scalar) :
    (Value.overlayEntries (setting default.entries part).entries (request.entriesUnder part)).get?
        key =
      ((request.entriesUnder part).get? key).or
        ((setting default.entries part).entries.get? key) := by
  refine Value.get?_overlayEntries_of_replaced (request.distinctKeys_entriesUnder part) (Or.inl ?_)
  intro inner hinner
  obtain ⟨s, hs⟩ := exists_scalar_of_default hpart hinner
  simp at hs

/-- The options are the same from a section with and without its defaults. -/
theorem optionsOfSection_default (request : Request) :
    optionsOfSection (Value.overlayEntries (setting default.entries renderKey).entries
        (request.entriesUnder renderKey)) =
      optionsOfSection (request.entriesUnder renderKey) := by
  have hsetting (key : Text) :
      setting (Value.overlayEntries (setting default.entries renderKey).entries
          (request.entriesUnder renderKey)) key =
        ((request.entriesUnder renderKey).get? (.text key)).getD
          (setting (setting default.entries renderKey).entries key) := by
    rw [setting, get?_section_absent List.mem_cons_self]
    cases (request.entriesUnder renderKey).get? (.text key) <;> rfl
  have hgiven (key : Text) : setting (request.entriesUnder renderKey) key =
      ((request.entriesUnder renderKey).get? (.text key)).getD .null := rfl
  -- Where nothing is given, the default and the absence of a setting count for the same.
  have hroot (value : Option Value) :
      value.getD (setting (setting default.entries renderKey).entries Options.rootKey) =
        value.getD .null := by
    cases value <;> rfl
  have hlanguage (value : Option Value) :
      (if (value.getD (setting (setting default.entries renderKey).entries
          Options.languageKey)).isTrue then
        value.getD (setting (setting default.entries renderKey).entries Options.languageKey)
        else .text Options.defaultLanguage) =
      if (value.getD .null).isTrue then value.getD .null else .text Options.defaultLanguage := by
    cases value <;> rfl
  have htrim (value : Option Value) :
      (value.getD (setting (setting default.entries renderKey).entries Options.trimKey)).isTrue =
        (value.getD .null).isTrue := by
    cases value <;> rfl
  rw [optionsOfSection, optionsOfSection]
  simp only [hsetting, hgiven, hroot, hlanguage, htrim]
  cases (request.entriesUnder renderKey).get? (.text Options.styleKey) <;> rfl

/-- With or without the header the options are the same. -/
theorem options_header (request : Request) (hpart : part ∈ [renderKey, outputKey])
    (habsent : .text part ∉ (before ++ after).map Prod.fst) :
    options (.mapping (effective request (before ++ (.text part, .null) :: after))) =
      options (.mapping (effective request (before ++ after))) := by
  rw [effective_header request hpart habsent, options, options, setting_put]
  by_cases hrender : renderKey = part
  · subst hrender
    rw [if_pos rfl, setting_effective_absent hpart habsent]
    exact (optionsOfSection_default request).symm
  · rw [if_neg hrender]

private theorem outputSettings_eq (entries : Entries) :
    outputSettings (.mapping entries) = (setting entries outputKey).entries := by
  rw [outputSettings]
  cases setting entries outputKey <;> rfl

/-- With the header of the other section the settings of the output are the same; with its own
header they are those that the request gives. -/
theorem outputSettings_header (request : Request) (hpart : part ∈ [renderKey, outputKey])
    (habsent : .text part ∉ (before ++ after).map Prod.fst) :
    outputSettings (.mapping (effective request (before ++ (.text part, .null) :: after))) =
      if part = outputKey then request.entriesUnder outputKey
      else outputSettings (.mapping (effective request (before ++ after))) := by
  rw [effective_header request hpart habsent, outputSettings_eq, outputSettings_eq, setting_put]
  by_cases houtput : part = outputKey
  · subst houtput
    rw [if_pos rfl, if_pos rfl]
    rfl
  · rw [if_neg (Ne.symm houtput), if_neg houtput]

private theorem entriesUnder_output (request : Request) : request.entriesUnder outputKey =
    if request.single then [(.text singleKey, .bool true)] else [] := by
  have hchoices : (Choice.all.filter fun choice => choice.part = outputKey) = [.single] := by decide
  rw [Request.entriesUnder, hchoices]
  cases hsingle : request.single <;> simp [Request.given?, hsingle, Choice.key]

/-- The header of the output takes away its mode, unless the request asks for a single document. -/
theorem singleDocument?_header (request : Request) (hpart : part ∈ [renderKey, outputKey])
    (habsent : .text part ∉ (before ++ after).map Prod.fst) :
    singleDocument? (.mapping (effective request (before ++ (.text part, .null) :: after))) =
      if part = outputKey ∧ request.single = false then none
      else singleDocument? (.mapping (effective request (before ++ after))) := by
  rw [singleDocument?, outputSettings_header request hpart habsent, singleDocument?,
    outputSettings_eq]
  by_cases houtput : part = outputKey
  · subst houtput
    rw [if_pos rfl, setting_effective_absent hpart habsent, Value.entries,
      get?_section_absent hpart, entriesUnder_output]
    cases request.single <;> rfl
  · rw [if_neg houtput, if_neg fun h => houtput h.1]

theorem reportPath_header (request : Request) (hpart : part ∈ [renderKey, outputKey])
    (habsent : .text part ∉ (before ++ after).map Prod.fst) :
    reportPath (.mapping (effective request (before ++ (.text part, .null) :: after))) =
      reportPath (.mapping (effective request (before ++ after))) := by
  rw [reportPath, outputSettings_header request hpart habsent, reportPath, outputSettings_eq]
  by_cases houtput : part = outputKey
  · subst houtput
    rw [if_pos rfl, setting_effective_absent hpart habsent, Value.entries, setting, setting,
      get?_section_absent hpart, entriesUnder_output]
    cases request.single <;> rfl
  · rw [if_neg houtput]

/-- A mapping of named values that can be written can be written. -/
theorem isSome_canonicalJson?_of_texts {entries : Entries}
    (h : ∀ entry ∈ entries, (∃ t, entry.1 = .text t) ∧ ∃ t, entry.2.WrittenAs t) :
    (Value.mapping entries).canonicalJson?.isSome = true := by
  refine (Value.isSome_canonicalJson?_mapping entries).mpr ⟨fun entry hentry => ?_, fun _ => ?_, ?_⟩
  · exact Option.isSome_iff_exists.mpr (h entry hentry).2
  · intro key hkey first hfirst
    obtain ⟨entry, hentry, rfl⟩ := List.mem_map.mp hkey
    obtain ⟨entry', hentry', rfl⟩ := List.mem_map.mp (List.mem_of_mem_head? hfirst)
    obtain ⟨t, ht⟩ := (h entry hentry).1
    obtain ⟨u, hu⟩ := (h entry' hentry').1
    rw [ht, hu]
    rfl
  · intro key hkey
    obtain ⟨entry, hentry, rfl⟩ := List.mem_map.mp hkey
    obtain ⟨t, ht⟩ := (h entry hentry).1
    rw [ht]
    rfl

private theorem written_default (hpart : part ∈ [renderKey, outputKey]) :
    ∀ entry ∈ (setting default.entries part).entries,
      (∃ t, entry.1 = .text t) ∧ ∃ t, entry.2.WrittenAs t := by
  rcases List.mem_pair.mp hpart with rfl | rfl
  · exact List.forall_mem_cons.mpr ⟨⟨⟨_, rfl⟩, _, rfl⟩,
      List.forall_mem_cons.mpr ⟨⟨⟨_, rfl⟩, _, rfl⟩,
        List.forall_mem_cons.mpr ⟨⟨⟨_, rfl⟩, _, rfl⟩,
          List.forall_mem_singleton.mpr ⟨⟨_, rfl⟩, _, rfl⟩⟩⟩⟩
  · exact List.forall_mem_cons.mpr ⟨⟨⟨_, rfl⟩, _, rfl⟩,
      List.forall_mem_singleton.mpr ⟨⟨_, rfl⟩, _, rfl⟩⟩

/-- What the request gives in a section is text or truth. -/
theorem written_entriesUnder (request : Request) (part : Text) :
    ∀ entry ∈ request.entriesUnder part,
      (∃ t, entry.1 = .text t) ∧ ∃ s, entry.2 = .scalar s ∧ ∃ t, (Value.scalar s).WrittenAs t := by
  rintro ⟨key, value⟩ hentry
  obtain ⟨choice, -, hgiven, rfl⟩ := Request.mem_entriesUnder.mp hentry
  obtain ⟨s, rfl⟩ := Request.exists_scalar_of_given? hgiven
  exact ⟨⟨choice.key, rfl⟩, s, rfl, _, rfl⟩

/-- With or without the header there is a digest. -/
theorem isSome_configHash?_header (request : Request) (hpart : part ∈ [renderKey, outputKey])
    (habsent : .text part ∉ (before ++ after).map Prod.fst) :
    (configHash? (.mapping (effective request (before ++ (.text part, .null) :: after)))).isSome =
      (configHash? (.mapping (effective request (before ++ after)))).isSome := by
  have hgiven := written_entriesUnder request part
  have hheader : (Value.mapping (request.entriesUnder part)).canonicalJson?.isSome = true := by
    refine isSome_canonicalJson?_of_texts fun entry hentry => ?_
    obtain ⟨hkey, s, hs, hwritten⟩ := hgiven entry hentry
    exact ⟨hkey, hs ▸ hwritten⟩
  have habsentSection : (Value.mapping (Value.overlayEntries (setting default.entries part).entries
      (request.entriesUnder part))).canonicalJson?.isSome = true := by
    refine isSome_canonicalJson?_of_texts
      (Value.forall_mem_overlayEntries (written_default hpart) fun entry hentry key hsame _ => ?_)
    obtain ⟨⟨t, ht⟩, s, hs, hwritten⟩ := hgiven entry hentry
    rw [ht] at hsame
    rw [hs]
    exact ⟨⟨t, Scalar.key_eq_text_iff.mp hsame⟩, hwritten⟩
  obtain ⟨front, _, back, hold, hput⟩ :=
    Entries.put_eq_of_get? (get?_effective_absent hpart habsent)
  rw [effective_header request hpart habsent, configHash?, configHash?, Option.isSome_map,
    Option.isSome_map, Bool.eq_iff_iff, Value.isSome_canonicalJson?_mapping,
    Value.isSome_canonicalJson?_mapping, hput, hold]
  simp only [List.forall_mem_append, List.forall_mem_cons, hheader, habsentSection, List.map_append,
    List.map_cons]

end ApiPages.Configuration
