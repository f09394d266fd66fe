import ApiPages.Proofs.Inheritance.Chain
import ApiPages.Proofs.Inheritance.Merge

/-! The nearest source wins: what an entry shows of each section is what the first entry of its
chain shows that has the section. -/
namespace ApiPages.Inheritance

open Markup

/-- The content takes every section from the nearest element of a chain that has it, and is what the
first element of the chain has, with sections from the others behind it. -/
structure NearestWins (own : Element) (others : List Element) (content : Element) : Prop where
  /-- Sections of which there is one are there when any element has one. -/
  single : ∀ tag ∈ singleSections,
    content.child? tag = (own :: others).findSome? (·.child? tag)
  /-- Sections with names are found for each name on its own. -/
  first : ∀ tag ∈ namedSections, ∀ name,
    (named content tag name).head? = (own :: others).findSome? fun e => (named e tag name).head?
  /-- A name that is not documented by the first element comes once, when it comes at all. -/
  once : ∀ tag ∈ namedSections, ∀ name, named own tag name = [] →
    named content tag name = (others.findSome? fun e => (named e tag name).head?).toList
  /-- Lists of sections are not mixed. -/
  list : ∀ tag ∈ listSections, content.childrenNamed tag =
    (((own :: others).map (·.childrenNamed tag)).find? (· ≠ [])).getD []
  kept : ∃ added, content = own.append added ∧
    ∀ e ∈ added, e.tag ∈ singleSections ++ namedSections ++ listSections

private theorem nearestWins_own (own : Element) : NearestWins own [] own := by
  refine ⟨fun tag _ => ?_, fun tag _ name => ?_, fun tag _ name hown => ?_, fun tag _ => ?_, ?_⟩
  · rw [List.findSome?_singleton]
  · rw [List.findSome?_singleton]
  · exact hown
  · cases h : own.childrenNamed tag <;> simp [h]
  · refine ⟨[], ?_, fun e he => absurd he List.not_mem_nil⟩
    rw [Element.append, List.append_nil]
    cases own
    rfl

private theorem findSome?_cons_or {α β : Type} (f : α → Option β) (x : α) (xs : List α) :
    (x :: xs).findSome? f = (f x).or (xs.findSome? f) := by
  rw [List.findSome?_cons]
  cases f x <;> rfl

private theorem firstFilled_cons {α : Type} (row : List α) (rows : List (List α)) :
    ((row :: rows).find? (· ≠ [])).getD [] =
      if row = [] then (rows.find? (· ≠ [])).getD [] else row := by
  cases row <;> rfl

/-- One merge puts one element in front of the chain. -/
theorem NearestWins.merge {own source inherited : Element} {others : List Element}
    (h : NearestWins source others inherited) :
    NearestWins own (source :: others) (merge own inherited) := by
  refine ⟨fun tag ht => ?_, fun tag ht name => ?_, fun tag ht name hown => ?_, fun tag ht => ?_, ?_⟩
  · rw [child?_merge ht, h.single tag ht, findSome?_cons_or _ own]
  · rw [named_merge ht, findSome?_cons_or _ own, ← h.first tag ht name]
    by_cases hown : named own tag name = []
    · rw [if_pos hown, hown]
      cases (named inherited tag name).head? <;> rfl
    · rw [if_neg hown]
      obtain ⟨e, es, he⟩ := List.exists_cons_of_ne_nil hown
      rw [he]
      rfl
  · rw [named_merge ht, if_pos hown, h.first tag ht name]
  · rw [childrenNamed_merge_list ht, h.list tag ht]
    exact (firstFilled_cons _ _).symm
  · exact ⟨takenOver own inherited, rfl, fun e he => tag_takenOver he⟩

/-- Merging along a chain, from its end to its beginning, lets the nearest element win. -/
theorem nearestWins_mergeAll (own : Element) (others : List Element) :
    NearestWins own others (mergeAll own others) := by
  induction others generalizing own with
  | nil => exact nearestWins_own own
  | cons source rest ih => exact (ih source).merge

/-- Every entry of a document has a documentation, and only one, by the rule that follows sources
until one repeats. The rule visits a chain of entries, and in what it gives the nearest entry of the
chain wins. -/
theorem nearest_source_wins (root : Element) :
    Strategy.heuristic.StaysIn (Catalog.ofDocument root) ∧
    ∀ strategy : Strategy, strategy.StaysIn (Catalog.ofDocument root) →
    ∀ e ∈ (Catalog.ofDocument root).entries,
      let catalog := Catalog.ofDocument root
      let others := sources strategy catalog e
      (∀ c, Documents strategy catalog [] e c ↔ c = content strategy catalog e) ∧
      Follows strategy catalog [] e others ∧
      IsChainOf strategy catalog e (e :: others) ∧
      NearestWins e.element (others.map Entry.element) (content strategy catalog e) := by
  refine ⟨Strategy.heuristic_staysIn _, fun strategy hs e he => ?_⟩
  intro catalog others
  have hf : Follows strategy catalog [] e others := follows_sources hs he
  have hd : Documents strategy catalog [] e (content strategy catalog e) := hf.documents
  refine ⟨fun c => ⟨fun hc => hc.unique hd, ?_⟩, hf, isChainOf_sources hs he,
    nearestWins_mergeAll _ _⟩
  rintro rfl
  exact hd

/-- A record with a mark that names its source, and with further sections. -/
def inheriting (name source : String) (sections : List (String × String × String)) : Element :=
  ⟨Catalog.recordTag, [("name".toList, name.toList)], [],
    ⟨Strategy.inheritTag, [("cref".toList, source.toList)], [], [], []⟩ ::
      sections.map fun (tag, name, text) =>
        ⟨tag.toList, [("name".toList, name.toList)], text.toList, [], []⟩, []⟩

/-- Three records, each of which inherits from the next, and the last from the first. -/
def circle : Element :=
  ⟨"doc".toList, [], [],
    [inheriting "M:A.F" "M:B.F" [("param", "x", "a")],
      inheriting "M:B.F" "M:C.F" [("summary", "", "b")],
      inheriting "M:C.F" "M:A.F"
        [("summary", "", "c"), ("returns", "", "c"), ("param", "x", "c"), ("param", "y", "c")]],
    []⟩

private theorem circle_entries :
    (Catalog.ofDocument circle).entries = Catalog.records circle := rfl

theorem nearest_source_wins_in_circle :
    let catalog := Catalog.ofDocument circle
    let strategy := Strategy.heuristic
    ∃ e ∈ catalog.entries, strategy.StaysIn catalog ∧
      (e :: sources strategy catalog e).map Entry.identifier =
        ["M:A.F".toList, "M:B.F".toList, "M:C.F".toList] ∧
      IsChainOf strategy catalog e (e :: sources strategy catalog e) ∧
      ((content strategy catalog e).child? "summary".toList).map (·.text) = some ['b'] ∧
      ((content strategy catalog e).child? "returns".toList).map (·.text) = some ['c'] ∧
      (named (content strategy catalog e) "param".toList ['x']).map (·.text) = [['a']] ∧
      (named (content strategy catalog e) "param".toList ['y']).map (·.text) = [['c']] := by
  intro catalog strategy
  have he : (Catalog.records circle)[0] ∈ catalog.entries := by
    show _ ∈ (Catalog.ofDocument circle).entries
    rw [circle_entries]
    exact List.getElem_mem _
  obtain ⟨hs, hall⟩ := nearest_source_wins circle
  obtain ⟨_, _, hchain, hwins⟩ := hall strategy hs _ he
  have hsources : sources strategy catalog (Catalog.records circle)[0] =
      [(Catalog.records circle)[1], (Catalog.records circle)[2]] := rfl
  rw [hsources] at hwins
  refine ⟨_, he, hs, by decide +kernel, hchain, ?_, ?_, by decide +kernel, ?_⟩
  · rw [hwins.single _ (by decide)]
    decide +kernel
  · rw [hwins.single _ (by decide)]
    decide +kernel
  · rw [hwins.once _ (by decide) _ (by decide +kernel)]
    decide +kernel

end ApiPages.Inheritance
