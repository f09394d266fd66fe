import ApiPages.Proofs.Inheritance.InTurn
import ApiPages.Render.Sections

/-! Merging of three elements: whether the first two are merged first or the last two, each section is
found alike, though the children may stand in another order between the tags. -/
namespace ApiPages.Inheritance

open Markup

/-- Sections that were picked already are picked again alike, when no fewer names are present. -/
theorem firstOfEachName_firstOfEachName {p q : List Text} (h : q ⊆ p) (sections : List Element) :
    firstOfEachName p (firstOfEachName q sections) = firstOfEachName p sections := by
  induction sections generalizing p q with
  | nil => rfl
  | cons s ss ih =>
    rw [firstOfEachName, firstOfEachName]
    by_cases hq : nameOf s ∈ q
    · rw [if_pos (List.contains_iff_mem.mpr hq), if_pos (List.contains_iff_mem.mpr (h hq)), ih h]
    · rw [if_neg fun hc => hq (List.contains_iff_mem.mp hc), firstOfEachName]
      by_cases hp : nameOf s ∈ p
      · rw [if_pos (List.contains_iff_mem.mpr hp), if_pos (List.contains_iff_mem.mpr hp),
          ih (List.cons_subset.mpr ⟨hp, h⟩)]
      · have hn : ¬ p.contains (nameOf s) = true := fun hc => hp (List.contains_iff_mem.mp hc)
        rw [if_neg hn, if_neg hn, ih (List.cons_subset_cons _ h)]

/-- No name is new or lost when sections of which only the first of each name are picked are put behind
others. -/
theorem mem_names_firstOfEachName {present : List Text} {sections : List Element} {name : Text} :
    name ∈ (firstOfEachName present sections).map nameOf ++ present ↔
      name ∈ sections.map nameOf ++ present := by
  induction sections generalizing present with
  | nil => rfl
  | cons s ss ih =>
    rw [firstOfEachName]
    by_cases hs : nameOf s ∈ present
    · rw [if_pos (List.contains_iff_mem.mpr hs), ih, List.map_cons, List.cons_append, List.mem_cons]
      constructor
      · exact Or.inr
      · rintro (rfl | h)
        · exact List.mem_append_right _ hs
        · exact h
    · rw [if_neg fun hc => hs (List.contains_iff_mem.mp hc)]
      have hrest := @ih (nameOf s :: present)
      simp only [List.map_cons, List.cons_append, List.mem_cons, List.mem_append] at hrest ⊢
      grind

section
variable (a b c : Element)

/-- Of each name the parameters come from the first of the three elements that has it, and in their
order. -/
theorem childrenNamed_merge_merge_named {tag : Text} (ht : tag ∈ namedSections) :
    (merge (merge a b) c).childrenNamed tag = (merge a (merge b c)).childrenNamed tag := by
  have hab : (merge a b).childrenNamed tag = a.childrenNamed tag ++ missingNamed a b tag :=
    childrenNamed_merge_named ht a b
  have hbc : (merge b c).childrenNamed tag = b.childrenNamed tag ++ missingNamed b c tag :=
    childrenNamed_merge_named ht b c
  have hright : missingNamed a (merge b c) tag = missingNamed a b tag ++
      firstOfEachName ((b.childrenNamed tag).map nameOf ++ (a.childrenNamed tag).map nameOf)
        (missingNamed b c tag) := by
    rw [missingNamed, hbc]
    exact firstOfEachName_append _ _ _
  have hnames : (b.childrenNamed tag).map nameOf ⊆
      (b.childrenNamed tag).map nameOf ++ (a.childrenNamed tag).map nameOf :=
    List.subset_append_left _ _
  calc (merge (merge a b) c).childrenNamed tag
      = a.childrenNamed tag ++ missingNamed a b tag ++ missingNamed (merge a b) c tag := by
        rw [childrenNamed_merge_named ht, hab]
    _ = a.childrenNamed tag ++ missingNamed a b tag ++
          firstOfEachName ((b.childrenNamed tag).map nameOf ++ (a.childrenNamed tag).map nameOf)
            (c.childrenNamed tag) := by
        congr 1
        rw [missingNamed, hab]
        refine firstOfEachName_congr (fun name => ?_) _
        rw [← mem_names_firstOfEachName, List.map_append, List.mem_append, List.mem_append, or_comm]
        rfl
    _ = a.childrenNamed tag ++ missingNamed a b tag ++
          firstOfEachName ((b.childrenNamed tag).map nameOf ++ (a.childrenNamed tag).map nameOf)
            (missingNamed b c tag) := by
        congr 1
        exact (firstOfEachName_firstOfEachName hnames _).symm
    _ = a.childrenNamed tag ++ missingNamed a (merge b c) tag := by
        rw [hright, List.append_assoc]
    _ = (merge a (merge b c)).childrenNamed tag := (childrenNamed_merge_named ht a _).symm

/-- A list of sections comes from the first of the three elements that has any. -/
theorem childrenNamed_merge_merge_list {tag : Text} (ht : tag ∈ listSections) :
    (merge (merge a b) c).childrenNamed tag = (merge a (merge b c)).childrenNamed tag := by
  simp only [childrenNamed_merge_list ht]
  by_cases ha : a.childrenNamed tag = []
  · simp only [if_pos ha]
  · simp only [if_neg ha]

private theorem child?_merge_merge {tag : Text} (ht : tag ∈ singleSections) :
    (merge (merge a b) c).child? tag = (merge a (merge b c)).child? tag := by
  simp only [child?_merge ht, Option.or_assoc]

end

/-- The sections of a member show of each tag only what is looked up under it. -/
theorem memberSections_congr (style : Render.LinkStyle) {x y : Element}
    (hsingle : ∀ tag ∈ singleSections, x.child? tag = y.child? tag)
    (hrows : ∀ tag ∈ namedSections ++ listSections, x.childrenNamed tag = y.childrenNamed tag) :
    Render.memberSections style x = Render.memberSections style y := by
  have hsummary := hsingle "summary".toList (by decide)
  have hremarks := hsingle "remarks".toList (by decide)
  have hreturns := hsingle "returns".toList (by decide)
  have hvalue := hsingle "value".toList (by decide)
  have hparam := hrows "param".toList (by decide)
  have htypeparam := hrows "typeparam".toList (by decide)
  have hexception := hrows "exception".toList (by decide)
  have hseealso := hrows "seealso".toList (by decide)
  have hexample := hrows "example".toList (by decide)
  simp only [Render.memberSections, Render.textSection, Render.exceptions, Render.examples,
    Render.seeAlso, hsummary, hremarks, hreturns, hvalue, hparam, htypeparam, hexception, hseealso,
    hexample]

/-- Merging is associative section by section: whether an element is merged with a second one and then
with a third, or with what the second one becomes by merging with the third, it has the same parameters,
type parameters, exceptions, see-also references and examples in the same order, the same first summary,
remarks, returns and value, and so the same sections as a member. -/
theorem merging_is_associative_by_section (a b c : Element) :
    let left := merge (merge a b) c
    let right := merge a (merge b c)
    (∀ tag ∈ ["param".toList, "typeparam".toList, "exception".toList, "seealso".toList,
        "example".toList], left.childrenNamed tag = right.childrenNamed tag) ∧
    (∀ tag ∈ ["summary".toList, "remarks".toList, "returns".toList, "value".toList],
      left.child? tag = right.child? tag) ∧
    ∀ style, Render.memberSections style left = Render.memberSections style right := by
  intro left right
  have hrows : ∀ tag ∈ namedSections ++ listSections,
      left.childrenNamed tag = right.childrenNamed tag := by
    intro tag ht
    rcases List.mem_append.mp ht with ht | ht
    · exact childrenNamed_merge_merge_named a b c ht
    · exact childrenNamed_merge_merge_list a b c ht
  have hsingle : ∀ tag ∈ singleSections, left.child? tag = right.child? tag :=
    fun tag ht => child?_merge_merge a b c ht
  exact ⟨hrows, hsingle, fun style => memberSections_congr style hsingle hrows⟩

/-- An element with sections that have no text and no children: tags and names. -/
def sectioned (sections : List (String × String)) : Element :=
  ⟨"member".toList, [], [],
    sections.map fun (tag, name) => ⟨tag.toList, [("name".toList, name.toList)], [], [], []⟩, []⟩

/-- The children stand in another order, and yet each section is found alike. -/
theorem merging_is_associative_by_section_in_another_order :
    let a := sectioned [("param", "x")]
    let b := sectioned [("summary", "1"), ("summary", "2"), ("param", "y"), ("param", "y")]
    let c := sectioned [("summary", "3"), ("returns", "3"), ("param", "x"), ("param", "z")]
    let left := merge (merge a b) c
    let right := merge a (merge b c)
    left.children.map (fun s => (s.tag, nameOf s)) ≠ right.children.map (fun s => (s.tag, nameOf s)) ∧
    "param".toList ∈ namedSections ∧ "summary".toList ∈ singleSections ∧
    left.childrenNamed "param".toList = right.childrenNamed "param".toList ∧
    (right.childrenNamed "param".toList).map nameOf = [['x'], ['y'], ['z']] ∧
    left.child? "summary".toList = right.child? "summary".toList ∧
    (right.child? "summary".toList).map nameOf = some ['1'] ∧
    Render.memberSections ⟨.default, false⟩ left = Render.memberSections ⟨.default, false⟩ right := by
  intro a b c left right
  obtain ⟨hrows, hsingle, hsections⟩ := merging_is_associative_by_section a b c
  exact ⟨by decide +kernel, by decide, by decide, hrows _ (by decide), by decide +kernel,
    hsingle _ (by decide), by decide +kernel, hsections _⟩

end ApiPages.Inheritance
