import ApiPages.Inheritance
import Mathlib.Data.List.Basic

/-! What merging adds: for every tag, the sections of that tag behind those that are there already.
A chain of merges then gives each section to the nearest element that has it. -/
namespace ApiPages.Inheritance

open Markup

/-- The sections of a tag with one name. -/
def named (e : Element) (tag name : Text) : List Element :=
  (e.childrenNamed tag).filter fun section_ => section_.attr "name".toList == name

theorem child?_eq_head? (e : Element) (tag : Text) : e.child? tag = (e.childrenNamed tag).head? :=
  List.head?_filter.symm

theorem hasChild_eq (e : Element) (tag : Text) :
    e.hasChild tag = !(e.childrenNamed tag).isEmpty := by
  rw [Element.hasChild, child?_eq_head?]
  cases e.childrenNamed tag <;> rfl

private theorem tag_of_mem_childrenNamed {e section_ : Element} {tag : Text}
    (h : section_ ∈ e.childrenNamed tag) : section_.tag = tag :=
  eq_of_beq (List.mem_filter.mp h).2

private theorem mem_of_mem_firstOfEachName {present : List Text} {sections : List Element}
    {e : Element} (h : e ∈ firstOfEachName present sections) : e ∈ sections := by
  induction sections generalizing present with
  | nil => cases h
  | cons s ss ih =>
    simp only [firstOfEachName] at h
    split at h
    · exact List.mem_cons_of_mem _ (ih h)
    · rcases List.mem_cons.mp h with rfl | h
      · exact List.mem_cons_self
      · exact List.mem_cons_of_mem _ (ih h)

theorem tag_missingSingle {into source e : Element} {tag : Text}
    (h : e ∈ missingSingle into source tag) : e.tag = tag := by
  unfold missingSingle at h
  split at h
  · cases h
  · rw [Option.mem_toList, child?_eq_head?] at h
    exact tag_of_mem_childrenNamed (List.mem_of_head? h)

theorem tag_missingNamed {into source e : Element} {tag : Text}
    (h : e ∈ missingNamed into source tag) : e.tag = tag :=
  tag_of_mem_childrenNamed (mem_of_mem_firstOfEachName h)

theorem tag_missingList {into source e : Element} {tag : Text}
    (h : e ∈ missingList into source tag) : e.tag = tag := by
  unfold missingList at h
  split at h
  · cases h
  · exact tag_of_mem_childrenNamed h

theorem tag_takenOver {into source e : Element} (h : e ∈ takenOver into source) :
    e.tag ∈ singleSections ++ namedSections ++ listSections := by
  rw [takenOver, List.mem_append, List.mem_append] at h
  rw [List.mem_append, List.mem_append]
  rcases h with (h | h) | h
  · obtain ⟨tag, ht, he⟩ := List.mem_flatMap.mp h
    exact Or.inl (Or.inl (tag_missingSingle he ▸ ht))
  · obtain ⟨tag, ht, he⟩ := List.mem_flatMap.mp h
    exact Or.inl (Or.inr (tag_missingNamed he ▸ ht))
  · obtain ⟨tag, ht, he⟩ := List.mem_flatMap.mp h
    exact Or.inr (tag_missingList he ▸ ht)

/-- Of rows that hold sections of one tag each, a tag picks its own row. -/
private theorem filter_flatMap {f : Text → List Element} (hf : ∀ t, ∀ e ∈ f t, e.tag = t)
    {tags : List Text} (hn : tags.Nodup) (tag : Text) :
    (tags.flatMap f).filter (·.tag == tag) = if tag ∈ tags then f tag else [] := by
  induction tags with
  | nil => rfl
  | cons t ts ih =>
    obtain ⟨ht, hts⟩ := List.nodup_cons.mp hn
    rw [List.flatMap_cons, List.filter_append, ih hts]
    by_cases he : tag = t
    · subst he
      have hself : (f tag).filter (·.tag == tag) = f tag :=
        List.filter_eq_self.mpr fun e h => beq_iff_eq.mpr (hf tag e h)
      rw [hself, if_neg ht, List.append_nil, if_pos List.mem_cons_self]
    · have hnone : (f t).filter (·.tag == tag) = [] := by
        refine List.filter_eq_nil_iff.mpr fun e h hc => he ?_
        rw [← eq_of_beq hc, hf t e h]
      rw [hnone, List.nil_append]
      by_cases hm : tag ∈ ts
      · rw [if_pos hm, if_pos (List.mem_cons_of_mem _ hm)]
      · rw [if_neg hm, if_neg]
        intro hc
        rcases List.mem_cons.mp hc with h | h
        · exact he h
        · exact hm h

/-- The sections of a tag after merging: those of the element itself, then what it takes over. -/
theorem childrenNamed_merge (into source : Element) (tag : Text) :
    (merge into source).childrenNamed tag = into.childrenNamed tag ++
      ((if tag ∈ singleSections then missingSingle into source tag else []) ++
        (if tag ∈ namedSections then missingNamed into source tag else []) ++
        (if tag ∈ listSections then missingList into source tag else [])) := by
  have h : (merge into source).childrenNamed tag =
      into.childrenNamed tag ++ (takenOver into source).filter (·.tag == tag) :=
    List.filter_append _ _
  rw [h, takenOver, List.filter_append, List.filter_append,
    filter_flatMap (fun _ _ => tag_missingSingle) (by decide),
    filter_flatMap (fun _ _ => tag_missingNamed) (by decide),
    filter_flatMap (fun _ _ => tag_missingList) (by decide)]

private theorem section_kinds :
    (∀ tag ∈ singleSections, tag ∉ namedSections ∧ tag ∉ listSections) ∧
      (∀ tag ∈ namedSections, tag ∉ singleSections ∧ tag ∉ listSections) ∧
      ∀ tag ∈ listSections, tag ∉ singleSections ∧ tag ∉ namedSections := by
  decide

/-- A section of which there is one comes from the element itself or else from the source. -/
theorem child?_merge {tag : Text} (ht : tag ∈ singleSections) (into source : Element) :
    (merge into source).child? tag = (into.child? tag).or (source.child? tag) := by
  obtain ⟨hn, hl⟩ := section_kinds.1 tag ht
  rw [child?_eq_head?, childrenNamed_merge, if_pos ht, if_neg hn, if_neg hl, List.append_nil,
    List.append_nil, missingSingle, hasChild_eq, child?_eq_head? into]
  cases into.childrenNamed tag with
  | nil => cases source.child? tag <;> rfl
  | cons e es => rfl

/-- A list of sections comes as a whole from the element itself or else from the source. -/
theorem childrenNamed_merge_list {tag : Text} (ht : tag ∈ listSections) (into source : Element) :
    (merge into source).childrenNamed tag =
      if into.childrenNamed tag = [] then source.childrenNamed tag else into.childrenNamed tag := by
  obtain ⟨hs, hn⟩ := section_kinds.2.2 tag ht
  rw [childrenNamed_merge, if_neg hs, if_neg hn, if_pos ht, missingList, hasChild_eq]
  cases into.childrenNamed tag <;> simp

theorem childrenNamed_merge_named {tag : Text} (ht : tag ∈ namedSections) (into source : Element) :
    (merge into source).childrenNamed tag =
      into.childrenNamed tag ++ missingNamed into source tag := by
  obtain ⟨hs, hl⟩ := section_kinds.2.1 tag ht
  rw [childrenNamed_merge, if_neg hs, if_pos ht, if_neg hl, List.nil_append, List.append_nil]

/-- Of each name that is not present the first section is kept, and no other one. -/
theorem filter_firstOfEachName (present : List Text) (sections : List Element) (name : Text) :
    (firstOfEachName present sections).filter (fun e => e.attr "name".toList == name) =
      if name ∈ present then []
      else (sections.find? fun e => e.attr "name".toList == name).toList := by
  induction sections generalizing present with
  | nil => simp [firstOfEachName]
  | cons e es ih =>
    simp only [firstOfEachName, List.find?_cons]
    by_cases hp : present.contains (e.attr "name".toList) = true
    · rw [if_pos hp, ih]
      have hm : e.attr "name".toList ∈ present := List.contains_iff_mem.mp hp
      by_cases hname : name ∈ present
      · rw [if_pos hname, if_pos hname]
      · have hne : (e.attr "name".toList == name) = false :=
          beq_eq_false_iff_ne.mpr fun h => hname (h ▸ hm)
        rw [if_neg hname, if_neg hname, hne]
    · rw [if_neg hp, List.filter_cons, ih]
      have hm : e.attr "name".toList ∉ present := fun h => hp (List.contains_iff_mem.mpr h)
      by_cases hname : e.attr "name".toList = name
      · subst hname
        rw [if_pos (beq_self_eq_true _), if_pos List.mem_cons_self, if_neg hm, beq_self_eq_true]
        rfl
      · rw [if_neg (fun h => hname (eq_of_beq h)), beq_eq_false_iff_ne.mpr hname]
        by_cases hin : name ∈ present
        · rw [if_pos (List.mem_cons_of_mem _ hin), if_pos hin]
        · rw [if_neg hin, if_neg]
          exact fun h => (List.mem_cons.mp h).elim (Ne.symm hname) hin

/-- The sections of a name after merging: those of the element itself, or else the first one of the
source. -/
theorem named_merge {tag : Text} (ht : tag ∈ namedSections) (into source : Element)
    (name : Text) :
    named (merge into source) tag name =
      if named into tag name = [] then (named source tag name).head?.toList
      else named into tag name := by
  have hpresent : name ∈ (into.childrenNamed tag).map (fun e => e.attr "name".toList) ↔
      named into tag name ≠ [] := by
    rw [named, Ne, List.filter_eq_nil_iff, List.mem_map]
    push Not
    simp
  rw [named, childrenNamed_merge_named ht, List.filter_append, missingNamed, filter_firstOfEachName,
    ← List.head?_filter]
  by_cases hown : named into tag name = []
  · rw [if_neg (fun h => hpresent.mp h hown), if_pos hown]
    show named into tag name ++ _ = _
    rw [hown]
    rfl
  · rw [if_pos (hpresent.mpr hown), if_neg hown, List.append_nil]
    rfl

end ApiPages.Inheritance
