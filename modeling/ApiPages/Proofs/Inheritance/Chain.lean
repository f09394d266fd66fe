import ApiPages.Inheritance
import ApiPages.Proofs.Catalog
import Mathlib.Data.List.Chain
import Mathlib.Data.List.Perm.Subperm

/-! Chains of sources: the rule that finds them needs no limit on its steps, because every step adds
an identifier of the catalogue to those seen. -/
namespace ApiPages

/-- The strategy names only entries of the catalogue. -/
def Strategy.StaysIn (strategy : Strategy) (catalog : Catalog) : Prop :=
  ∀ e source, strategy catalog e = some source → source ∈ catalog.entries

theorem Strategy.heuristic_staysIn (catalog : Catalog) : Strategy.heuristic.StaysIn catalog := by
  intro e source h
  unfold heuristic at h
  split at h
  · next found hf =>
    cases h
    split at hf
    · cases hf
    · exact Catalog.mem_of_get? hf
  · obtain ⟨candidate, _, hc⟩ := List.exists_of_findSome?_eq_some h
    exact Catalog.mem_of_get? (Option.filter_eq_some_iff.mp hc).1

namespace Inheritance

open Markup

section
variable (strategy : Strategy) (catalog : Catalog)

/-- The sources behind an entry when some identifiers were seen before, as the rule gives them
without a limit on its steps. -/
inductive Follows : List Identifier → Entry → List Entry → Prop
  /-- An entry that does not inherit ends the chain. -/
  | own {seen e} : inheritsAny e = false → Follows seen e []
  /-- So does one whose source is missing or was seen before. -/
  | stuck {seen e} : inheritsAny e = true →
      (∀ source, strategy catalog e = some source → source.identifier ∈ e.identifier :: seen) →
      Follows seen e []
  | next {seen e source rest} : inheritsAny e = true → strategy catalog e = some source →
      source.identifier ∉ e.identifier :: seen → Follows (e.identifier :: seen) source rest →
      Follows seen e (source :: rest)

/-- The documentation of an entry, by the rule that merges the documentation of its source into its
own. -/
inductive Documents : List Identifier → Entry → Element → Prop
  | own {seen e} : inheritsAny e = false → Documents seen e e.element
  | stuck {seen e} : inheritsAny e = true →
      (∀ source, strategy catalog e = some source → source.identifier ∈ e.identifier :: seen) →
      Documents seen e e.element
  | merged {seen e source inherited} : inheritsAny e = true →
      strategy catalog e = some source → source.identifier ∉ e.identifier :: seen →
      Documents (e.identifier :: seen) source inherited →
      Documents seen e (merge e.element inherited)

/-- An entry and those from which it inherits in turn: no identifier comes twice, each one is the
source of the one before, and the last one does not inherit, or its source is missing or in the
chain already. -/
structure IsChainOf (e : Entry) (chain : List Entry) : Prop where
  starts : chain.head? = some e
  distinct : (chain.map Entry.identifier).Nodup
  linked : chain.IsChain fun heir source =>
    inheritsAny heir = true ∧ strategy catalog heir = some source
  ends : ∀ last, chain.getLast? = some last →
    inheritsAny last = false ∨ strategy catalog last = none ∨
      ∃ source ∈ chain, strategy catalog last = some source

end

variable {strategy : Strategy} {catalog : Catalog}

/-- As long as the steps outnumber the identifiers that were not seen, the limit is not met. -/
theorem follows_sourcesWithin (hs : strategy.StaysIn catalog) (fuel : Nat) {seen : List Identifier}
    {e : Entry} (hn : (e.identifier :: seen).Nodup)
    (hsub : e.identifier :: seen ⊆ catalog.identifiers)
    (hf : catalog.entries.length < fuel + seen.length) :
    Follows strategy catalog seen e (sourcesWithin strategy catalog fuel seen e) := by
  induction fuel generalizing seen e with
  | zero =>
    have hl := (List.subperm_of_subset hn hsub).length_le
    simp only [List.length_cons, Catalog.identifiers, List.length_map] at hl
    omega
  | succ fuel ih =>
    rw [sourcesWithin]
    cases hi : inheritsAny e with
    | false => exact .own hi
    | true =>
      cases hc : strategy catalog e with
      | none => exact .stuck hi (by simp [hc])
      | some source =>
        by_cases hm : source.identifier ∈ e.identifier :: seen
        · have hseen : (e.identifier :: seen).contains source.identifier = true :=
            List.contains_iff_mem.mpr hm
          simp only [Bool.not_true, Bool.false_eq_true, if_false, hseen, if_true]
          refine .stuck hi ?_
          intro other ho
          rw [hc] at ho
          cases ho
          exact hm
        · have hseen : ¬ (e.identifier :: seen).contains source.identifier = true :=
            fun h => hm (List.contains_iff_mem.mp h)
          simp only [Bool.not_true, Bool.false_eq_true, if_false, hseen]
          have hsource : source.identifier ∈ catalog.identifiers :=
            List.mem_map_of_mem (hs e source hc)
          refine .next hi hc hm (ih (List.nodup_cons.mpr ⟨hm, hn⟩) ?_ ?_)
          · exact List.cons_subset.mpr ⟨hsource, hsub⟩
          · simp only [List.length_cons]
            omega

theorem follows_sources (hs : strategy.StaysIn catalog) {e : Entry} (he : e ∈ catalog.entries) :
    Follows strategy catalog [] e (sources strategy catalog e) := by
  refine follows_sourcesWithin hs _ (List.nodup_singleton _) ?_ (by simp)
  exact List.cons_subset.mpr ⟨List.mem_map_of_mem he, List.nil_subset _⟩

theorem Follows.documents {seen : List Identifier} {e : Entry} {rest : List Entry}
    (h : Follows strategy catalog seen e rest) :
    Documents strategy catalog seen e (mergeAll e.element (rest.map Entry.element)) := by
  induction h with
  | own hi => exact .own hi
  | stuck hi hc => exact .stuck hi hc
  | next hi hc hm _ ih => exact .merged hi hc hm ih

/-- The rule gives an entry no second documentation. -/
theorem Documents.unique {seen : List Identifier} {e : Entry} {a b : Element}
    (ha : Documents strategy catalog seen e a) (hb : Documents strategy catalog seen e b) :
    a = b := by
  induction ha generalizing b with
  | own hi =>
    cases hb with
    | own _ => rfl
    | stuck _ _ => rfl
    | merged hi' => simp [hi] at hi'
  | stuck hi hc =>
    cases hb with
    | own _ => rfl
    | stuck _ _ => rfl
    | merged _ hc' hm => exact absurd (hc _ hc') hm
  | merged hi hc hm _ ih =>
    cases hb with
    | own hi' => simp [hi'] at hi
    | stuck _ hc' => exact absurd (hc' _ hc) hm
    | merged _ hc' _ hd =>
      rw [hc] at hc'
      cases hc'
      rw [ih hd]

private theorem Follows.distinct {seen : List Identifier} {e : Entry} {rest : List Entry}
    (h : Follows strategy catalog seen e rest) (he : e.identifier ∉ seen) :
    ((e :: rest).map Entry.identifier).Nodup ∧
      ∀ i ∈ (e :: rest).map Entry.identifier, i ∉ seen := by
  induction h with
  | own _ => simpa using he
  | stuck _ _ => simpa using he
  | next _ _ hm _ ih =>
    obtain ⟨hnodup, hfresh⟩ := ih hm
    refine ⟨List.nodup_cons.mpr ⟨fun hin => hfresh _ hin List.mem_cons_self, hnodup⟩, ?_⟩
    intro i hi
    rcases List.mem_cons.mp hi with rfl | hi
    · exact he
    · exact fun hseen => hfresh i hi (List.mem_cons_of_mem _ hseen)

private theorem Follows.linked {seen : List Identifier} {e : Entry} {rest : List Entry}
    (h : Follows strategy catalog seen e rest) :
    (e :: rest).IsChain fun heir source =>
      inheritsAny heir = true ∧ strategy catalog heir = some source := by
  induction h with
  | own _ => exact .singleton _
  | stuck _ _ => exact .singleton _
  | next hi hc _ _ ih => exact .cons_cons ⟨hi, hc⟩ ih

theorem Follows.ends {seen : List Identifier} {e : Entry} {rest : List Entry}
    (h : Follows strategy catalog seen e rest) {last : Entry}
    (hl : (e :: rest).getLast? = some last) :
    inheritsAny last = false ∨ ∀ source, strategy catalog last = some source →
      source.identifier ∈ (e :: rest).map Entry.identifier ∨ source.identifier ∈ seen := by
  induction h with
  | own hi =>
    cases hl
    exact Or.inl hi
  | stuck _ hc =>
    cases hl
    refine Or.inr fun source hs => ?_
    rcases List.mem_cons.mp (hc source hs) with he | hm
    · exact Or.inl (List.mem_singleton.mpr he)
    · exact Or.inr hm
  | next _ _ _ _ ih =>
    rw [List.getLast?_cons_cons] at hl
    rcases ih hl with hi | hc
    · exact Or.inl hi
    · refine Or.inr fun source hs => ?_
      rcases hc source hs with hm | hm
      · exact Or.inl (List.mem_cons_of_mem _ hm)
      · rcases List.mem_cons.mp hm with he | hm
        · rw [he]
          exact Or.inl List.mem_cons_self
        · exact Or.inr hm

theorem Follows.subset (hs : strategy.StaysIn catalog) {seen : List Identifier} {e : Entry}
    {rest : List Entry} (h : Follows strategy catalog seen e rest) : rest ⊆ catalog.entries := by
  induction h with
  | own _ => exact List.nil_subset _
  | stuck _ _ => exact List.nil_subset _
  | next _ hc _ _ ih => exact List.cons_subset.mpr ⟨hs _ _ hc, ih⟩

/-- In the catalogue of a document every entry has its chain, and its sources are the rest of it. -/
theorem isChainOf_sources {root : Element} (hs : strategy.StaysIn (Catalog.ofDocument root))
    {e : Entry} (he : e ∈ (Catalog.ofDocument root).entries) :
    IsChainOf strategy (Catalog.ofDocument root) e
      (e :: sources strategy (Catalog.ofDocument root) e) := by
  have hf := follows_sources hs he
  refine ⟨rfl, (hf.distinct List.not_mem_nil).1, hf.linked, ?_⟩
  intro last hl
  rcases hf.ends hl with hi | hc
  · exact Or.inl hi
  · cases hsource : strategy (Catalog.ofDocument root) last with
    | none => exact Or.inr (Or.inl rfl)
    | some source =>
      have hm := (hc source hsource).resolve_right List.not_mem_nil
      obtain ⟨other, ho, hid⟩ := List.mem_map.mp hm
      have hin : other ∈ (Catalog.ofDocument root).entries :=
        List.cons_subset.mpr ⟨he, hf.subset hs⟩ ho
      rw [Catalog.eq_of_identifier_eq hin (hs _ _ hsource) hid] at ho
      exact Or.inr (Or.inr ⟨source, ho, rfl⟩)

end Inheritance
end ApiPages
