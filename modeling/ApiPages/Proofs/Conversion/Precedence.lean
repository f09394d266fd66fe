import ApiPages.Program
import ApiPages.Proofs.Conversion.Plan
import ApiPages.Proofs.Value.Equality
import ApiPages.Proofs.Value.Overlay

/-! Which of the arguments, the file and the defaults a setting is taken from, and that laying them
over one another changes nothing else that the file spells. -/
namespace ApiPages

/-- A setting that the arguments can decide. -/
inductive Choice where
  | fileNames
  | rootNamespace
  | codeLanguage
  | trimsRoot
  | single
  deriving DecidableEq

namespace Choice

def all : List Choice := [.fileNames, .rootNamespace, .codeLanguage, .trimsRoot, .single]

/-- The section under which a configuration has the setting. -/
def part : Choice → Text
  | .single => Configuration.outputKey
  | _ => Configuration.renderKey

def key : Choice → Text
  | .fileNames => Options.styleKey
  | .rootNamespace => Options.rootKey
  | .codeLanguage => Options.languageKey
  | .trimsRoot => Options.trimKey
  | .single => Configuration.singleKey

def path (choice : Choice) : List Scalar := [.text choice.part, .text choice.key]

def fallback : Choice → Value
  | .fileNames => .text "verbatim".toList
  | .rootNamespace => .null
  | .codeLanguage => .text "csharp".toList
  | .trimsRoot => .bool false
  | .single => .bool false

private theorem mem_all (choice : Choice) : choice ∈ all := by
  cases choice <;> decide

private theorem nodup_all : all.Nodup := by decide

private theorem key_injective : Function.Injective key := by
  intro a b h
  have hall : ∀ a ∈ all, ∀ b ∈ all, a.key = b.key → a = b := by decide
  exact hall a (mem_all a) b (mem_all b) h

end Choice

namespace Request

/-- What a request gives for a setting. A flag that nothing follows can only give what is true. -/
def given? (request : Request) : Choice → Option Value
  | .fileNames => request.fileNames.map Value.text
  | .rootNamespace => request.rootNamespace.map Value.text
  | .codeLanguage => request.codeLanguage.map Value.text
  | .trimsRoot => if request.trimsRoot then some (.bool true) else none
  | .single => if request.single then some (.bool true) else none

theorem exists_scalar_of_given? {request : Request} {choice : Choice} {value : Value}
    (h : request.given? choice = some value) : ∃ s, value = .scalar s := by
  have hmap (t : Option Text) (ht : t.map Value.text = some value) : ∃ s, value = .scalar s := by
    obtain ⟨u, -, rfl⟩ := Option.map_eq_some_iff.mp ht
    exact ⟨.text u, rfl⟩
  have hflag (b : Bool) (hb : (if b then some (Value.bool true) else none) = some value) :
      ∃ s, value = .scalar s := by
    cases b with
    | false => simp at hb
    | true => exact ⟨.bool true, (Option.some.inj hb).symm⟩
  cases choice with
  | fileNames => exact hmap _ h
  | rootNamespace => exact hmap _ h
  | codeLanguage => exact hmap _ h
  | trimsRoot => exact hflag _ h
  | single => exact hflag _ h

/-- What a request gives for the settings of a section, by their keys. -/
def entriesUnder (request : Request) (part : Text) : Entries :=
  (Choice.all.filter fun choice => choice.part = part).filterMap fun choice =>
    (request.given? choice).map fun value => (.text choice.key, value)

theorem settings_eq (request : Request) : request.settings = .mapping [
    (.text Configuration.renderKey, .mapping (request.entriesUnder Configuration.renderKey)),
    (.text Configuration.outputKey, .mapping (request.entriesUnder Configuration.outputKey))] := by
  have hrender : (Choice.all.filter fun choice => choice.part = Configuration.renderKey) =
      [.fileNames, .rootNamespace, .codeLanguage, .trimsRoot] := by decide
  have houtput : (Choice.all.filter fun choice => choice.part = Configuration.outputKey) =
      [.single] := by decide
  have hgiven (key : Text) (value : Option Value) :
      (given key value).map (fun entry => (Scalar.text entry.1, entry.2)) =
        (value.map fun value => (Scalar.text key, value)).toList := by
    cases value <;> rfl
  rw [entriesUnder, entriesUnder, hrender, houtput, List.filterMap_eq_flatMap_toList,
    List.filterMap_eq_flatMap_toList]
  simp [settings, Value.record, hgiven, given?, Choice.key]

theorem mem_entriesUnder {request : Request} {part : Text} {key : Scalar} {value : Value} :
    (key, value) ∈ request.entriesUnder part ↔
      ∃ choice : Choice, choice.part = part ∧ request.given? choice = some value ∧
        key = .text choice.key := by
  simp only [entriesUnder, List.mem_filterMap, List.mem_filter, Option.map_eq_some_iff,
    decide_eq_true_eq, Prod.mk.injEq]
  constructor
  · rintro ⟨choice, ⟨-, hpart⟩, v, hv, rfl, rfl⟩
    exact ⟨choice, hpart, hv, rfl⟩
  · rintro ⟨choice, hpart, hv, rfl⟩
    exact ⟨choice, ⟨choice.mem_all, hpart⟩, value, hv, rfl, rfl⟩

theorem distinctKeys_entriesUnder (request : Request) (part : Text) :
    (request.entriesUnder part).DistinctKeys := by
  rw [Entries.DistinctKeys, Entries.keys, entriesUnder, List.map_filterMap]
  refine List.Nodup.filterMap ?_ (Choice.nodup_all.filter _)
  intro a b key ha hb
  simp only [Option.map_map, Option.mem_def, Option.map_eq_some_iff, Function.comp_apply] at ha hb
  obtain ⟨_, -, ha⟩ := ha
  obtain ⟨_, -, hb⟩ := hb
  exact Choice.key_injective (Scalar.text.inj (Scalar.key_eq_text_iff.mp (ha.trans hb.symm)))

end Request

namespace Configuration

theorem get?_default_part {part : Text} (h : part ∈ [renderKey, outputKey]) :
    default.entries.get? (.text part) =
      some (.mapping (setting default.entries part).entries) := by
  rcases List.mem_pair.mp h with rfl | rfl <;> rfl

theorem exists_scalar_of_default {part : Text} (h : part ∈ [renderKey, outputKey]) {key : Scalar}
    {value : Value} (hvalue : (setting default.entries part).entries.get? key = some value) :
    ∃ s, value = .scalar s := by
  obtain ⟨key, -, hmem⟩ := Entries.mem_of_get? hvalue
  rcases List.mem_pair.mp h with rfl | rfl
  · have hrender : (key, value) ∈ [(Scalar.text Options.styleKey, Value.text "verbatim".toList),
        (.text Options.rootKey, .null), (.text Options.languageKey, .text "csharp".toList),
        (.text Options.trimKey, .bool false)] := hmem
    simp only [List.mem_cons, Prod.mk.injEq, List.not_mem_nil, or_false] at hrender
    rcases hrender with ⟨-, rfl⟩ | ⟨-, rfl⟩ | ⟨-, rfl⟩ | ⟨-, rfl⟩ <;> exact ⟨_, rfl⟩
  · have houtput : (key, value) ∈ [(Scalar.text singleKey, Value.bool false),
        (.text reportKey, .null)] := hmem
    simp only [List.mem_cons, Prod.mk.injEq, List.not_mem_nil, or_false] at houtput
    rcases houtput with ⟨-, rfl⟩ | ⟨-, rfl⟩ <;> exact ⟨_, rfl⟩

/-- The defaults with the file laid over them, and the request over both. -/
def effective (request : Request) (entries : Entries) : Entries :=
  Value.overlayEntries (Value.overlayEntries default.entries entries) request.settings.entries

theorem configured_ofSettings (request : Request) (entries : Entries) :
    (ofSettings (.mapping entries)).map request.configured =
      .ok (.mapping (effective request entries)) := by
  rw [effective, Request.settings_eq]
  change Except.ok (request.configured (.mapping (Value.overlayEntries default.entries entries))) = _
  rw [Request.configured, Request.settings_eq]
  rfl

theorem distinctKeys_settings (request : Request) : request.settings.entries.DistinctKeys := by
  rw [Request.settings_eq]
  change [(Scalar.text renderKey).key, (Scalar.text outputKey).key].Nodup
  decide

variable {request : Request} {entries : Entries}

end Configuration

namespace Conversion

open ApiPages.Configuration

end Conversion
end ApiPages
