import ApiPages.Proofs.Inheritance.Merge
import Mathlib.Data.List.Induction

/-! Merging one section after another: each is looked up in the element as those before it have left
it. This comes to the same as taking over at once all that was missing at the beginning, since what is
added for one tag or name is never looked up for another. -/
namespace ApiPages.Inheritance

open Markup

/-- The name of a section, empty when it has none. -/
abbrev nameOf (section_ : Element) : Text := section_.attr "name".toList

/-- The sections that are the first of their name, in their order. -/
def firsts (sections : List Element) : List Element :=
  (sections.zipIdx.filter fun placed =>
    (sections.take placed.2).all fun earlier => nameOf earlier ≠ nameOf placed.1).map Prod.fst

/-- The first section of a tag is added to an element that has none. -/
def takeSingle (source into : Element) (tag : Text) : Element :=
  if into.hasChild tag then into else into.append (source.child? tag).toList

/-- The sections of a tag are added one by one, each to an element that has none of its name yet. -/
def takeNamed (source into : Element) (tag : Text) : Element :=
  (source.childrenNamed tag).foldl (fun e s =>
    if (e.childrenNamed tag).any (nameOf · == nameOf s) then e else e.append [s]) into

/-- All sections of a tag are added to an element that has none. -/
def takeList (source into : Element) (tag : Text) : Element :=
  if into.hasChild tag then into else into.append (source.childrenNamed tag)

/-- The tags are taken in turn, each from the element as the tags before have left it. -/
def mergeInTurn (into source : Element) : Element :=
  listSections.foldl (takeList source)
    (namedSections.foldl (takeNamed source) (singleSections.foldl (takeSingle source) into))

theorem append_nil (e : Element) : e.append [] = e := by
  obtain ⟨tag, attributes, text, children, tail⟩ := e
  rw [Element.append, List.append_nil]

private theorem append_append (e : Element) (xs ys : List Element) :
    (e.append xs).append ys = e.append (xs ++ ys) := by
  rw [Element.append, Element.append, Element.append, List.append_assoc]

private theorem childrenNamed_append (e : Element) (more : List Element) (tag : Text) :
    (e.append more).childrenNamed tag = e.childrenNamed tag ++ more.filter (·.tag == tag) :=
  List.filter_append _ _

private theorem childrenNamed_append_of_ne {e : Element} {more : List Element} {tag : Text}
    (h : ∀ s ∈ more, s.tag ≠ tag) : (e.append more).childrenNamed tag = e.childrenNamed tag := by
  rw [childrenNamed_append, List.filter_eq_nil_iff.mpr fun s hs => by simpa using h s hs,
    List.append_nil]

/-! ### Names -/

theorem firstOfEachName_congr {p q : List Text} (h : ∀ name, name ∈ p ↔ name ∈ q)
    (sections : List Element) : firstOfEachName p sections = firstOfEachName q sections := by
  induction sections generalizing p q with
  | nil => rfl
  | cons s ss ih =>
    have hs : p.contains (nameOf s) = q.contains (nameOf s) := by
      rw [Bool.eq_iff_iff, List.contains_iff_mem, List.contains_iff_mem, h]
    simp only [firstOfEachName, hs, ih h]
    rw [ih (p := nameOf s :: p) (q := nameOf s :: q) fun name => by simp [h]]

/-- Of the sections behind others, those are first whose names the others do not have. -/
theorem firstOfEachName_append (present : List Text) (xs ys : List Element) :
    firstOfEachName present (xs ++ ys) =
      firstOfEachName present xs ++ firstOfEachName (xs.map nameOf ++ present) ys := by
  induction xs generalizing present with
  | nil => rfl
  | cons x xs ih =>
    simp only [List.cons_append, firstOfEachName, List.map_cons]
    by_cases hx : nameOf x ∈ present
    · rw [if_pos (List.contains_iff_mem.mpr hx), if_pos (List.contains_iff_mem.mpr hx), ih]
      congr 1
      refine firstOfEachName_congr (fun name => ?_) ys
      simp only [List.mem_append, List.mem_cons]
      grind
    · have hn : ¬ present.contains (nameOf x) = true := fun h => hx (List.contains_iff_mem.mp h)
      rw [if_neg hn, if_neg hn, ih, List.cons_append]
      congr 2
      refine firstOfEachName_congr (fun name => ?_) ys
      simp only [List.mem_append, List.mem_cons]
      grind

private theorem firsts_concat (sections : List Element) (s : Element) :
    firsts (sections ++ [s]) =
      firsts sections ++ if ∀ e ∈ sections, nameOf e ≠ nameOf s then [s] else [] := by
  have hfront : sections.zipIdx.filter (fun placed =>
        ((sections ++ [s]).take placed.2).all fun earlier => nameOf earlier ≠ nameOf placed.1) =
      sections.zipIdx.filter fun placed =>
        (sections.take placed.2).all fun earlier => nameOf earlier ≠ nameOf placed.1 := by
    refine List.filter_congr fun placed hp => ?_
    have hlt : placed.2 < 0 + sections.length := List.snd_lt_add_of_mem_zipIdx hp
    rw [List.take_append_of_le_length (by omega)]
  have hlast : ((sections ++ [s]).take (0 + sections.length)).all
      (fun earlier => decide (nameOf earlier ≠ nameOf s)) = true ↔
      ∀ e ∈ sections, nameOf e ≠ nameOf s := by
    simp
  rw [firsts, List.zipIdx_append, List.filter_append, hfront, List.map_append, List.zipIdx_singleton,
    List.filter_cons]
  congr 1
  by_cases h : ∀ e ∈ sections, nameOf e ≠ nameOf s
  · rw [if_pos (hlast.mpr h), if_pos h]
    rfl
  · rw [if_neg fun hall => h (hlast.mp hall), if_neg h]
    rfl

/-- Exactly the first sections of their names are kept, as far as their names are not present. -/
theorem firstOfEachName_eq_filter (present : List Text) (sections : List Element) :
    firstOfEachName present sections = (firsts sections).filter fun s => nameOf s ∉ present := by
  induction sections using List.reverseRecOn with
  | nil => rfl
  | append_singleton ss s ih =>
    rw [firstOfEachName_append, firsts_concat, List.filter_append, ih]
    congr 1
    simp only [firstOfEachName, List.contains_iff_mem, List.mem_append, List.mem_map]
    by_cases hp : nameOf s ∈ present
    · rw [if_pos (Or.inr hp)]
      split <;> simp [hp]
    · by_cases hs : ∀ e ∈ ss, nameOf e ≠ nameOf s
      · rw [if_neg (by rintro (⟨e, he, hn⟩ | h) <;> [exact hs e he hn; exact hp h]), if_pos hs]
        simp [hp]
      · rw [if_neg hs, if_pos]
        · rfl
        · push Not at hs
          exact Or.inl hs

/-! ### One tag after another -/

/-- Taking one tag after another adds what is missing for each at the beginning, when what is missing
for a tag has that tag and depends on the sections of that tag only. -/
theorem foldl_take {take : Element → Text → Element} {missing : Element → Text → List Element}
    (htake : ∀ e tag, take e tag = e.append (missing e tag))
    (htag : ∀ e tag, ∀ s ∈ missing e tag, s.tag = tag)
    (hlocal : ∀ e e' tag, e.childrenNamed tag = e'.childrenNamed tag → missing e tag = missing e' tag)
    {tags : List Text} (hn : tags.Nodup) (into : Element) :
    tags.foldl take into = into.append (tags.flatMap (missing into)) := by
  induction tags generalizing into with
  | nil => exact (append_nil into).symm
  | cons tag tags ih =>
    obtain ⟨htags, hn⟩ := List.nodup_cons.mp hn
    have hkept : ∀ t ∈ tags, missing (into.append (missing into tag)) t = missing into t := by
      intro t ht
      refine hlocal _ _ t (childrenNamed_append_of_ne fun s hs he => htags ?_)
      rw [← htag into tag s hs, he]
      exact ht
    rw [List.foldl_cons, htake, ih hn, append_append, List.flatMap_cons, List.flatMap_congr hkept]

private theorem takeSingle_eq (source into : Element) (tag : Text) :
    takeSingle source into tag = into.append (missingSingle into source tag) := by
  rw [takeSingle, missingSingle]
  split
  · exact (append_nil into).symm
  · rfl

private theorem takeList_eq (source into : Element) (tag : Text) :
    takeList source into tag = into.append (missingList into source tag) := by
  rw [takeList, missingList]
  split
  · exact (append_nil into).symm
  · rfl

private theorem takeNamed_eq (source into : Element) (tag : Text) :
    takeNamed source into tag = into.append (missingNamed into source tag) := by
  have hall : ∀ s ∈ source.childrenNamed tag, s.tag = tag :=
    fun s hs => eq_of_beq (List.mem_filter.mp hs).2
  rw [takeNamed, missingNamed]
  generalize source.childrenNamed tag = sections at hall
  induction sections generalizing into with
  | nil => exact (append_nil into).symm
  | cons s ss ih =>
    obtain ⟨hs, hss⟩ := List.forall_mem_cons.mp hall
    have hpresent : (into.childrenNamed tag).any (nameOf · == nameOf s) =
        ((into.childrenNamed tag).map nameOf).contains (nameOf s) := by
      rw [Bool.eq_iff_iff, List.contains_iff_mem, List.mem_map]
      simp
    rw [List.foldl_cons, hpresent, firstOfEachName]
    split
    · exact ih into hss
    · -- The section that was just added is among those that the next ones are compared with.
      have hnames : (into.append [s]).childrenNamed tag = into.childrenNamed tag ++ [s] := by
        rw [childrenNamed_append, List.filter_singleton, hs, beq_self_eq_true]
        rfl
      rw [ih _ hss, hnames, append_append, List.singleton_append]
      congr 2
      refine firstOfEachName_congr (fun name => ?_) ss
      simp [or_comm]

private theorem missingSingle_congr {e e' : Element} {tag : Text} (source : Element)
    (h : e.childrenNamed tag = e'.childrenNamed tag) :
    missingSingle e source tag = missingSingle e' source tag := by
  rw [missingSingle, missingSingle, hasChild_eq, hasChild_eq, h]

private theorem missingNamed_congr {e e' : Element} {tag : Text} (source : Element)
    (h : e.childrenNamed tag = e'.childrenNamed tag) :
    missingNamed e source tag = missingNamed e' source tag := by
  rw [missingNamed, missingNamed, h]

private theorem missingList_congr {e e' : Element} {tag : Text} (source : Element)
    (h : e.childrenNamed tag = e'.childrenNamed tag) :
    missingList e source tag = missingList e' source tag := by
  rw [missingList, missingList, hasChild_eq, hasChild_eq, h]

/-- What the tags before have added has none of the tags to come. -/
private theorem flatMap_append {missing : Element → Text → List Element}
    (hlocal : ∀ e e' tag, e.childrenNamed tag = e'.childrenNamed tag → missing e tag = missing e' tag)
    {tags others : List Text} (hother : ∀ tag ∈ tags, tag ∉ others) {more : List Element}
    (hmore : ∀ s ∈ more, s.tag ∈ others) (into : Element) :
    tags.flatMap (missing (into.append more)) = tags.flatMap (missing into) := by
  refine List.flatMap_congr fun tag ht => hlocal _ _ tag (childrenNamed_append_of_ne ?_)
  rintro s hs rfl
  exact hother _ ht (hmore s hs)

/-- Every lookup in the element as it is by then finds what it would have found at the beginning. -/
theorem mergeInTurn_eq (into source : Element) : mergeInTurn into source = merge into source := by
  have hsingle : ∀ s ∈ singleSections.flatMap (missingSingle into source),
      s.tag ∈ singleSections := by
    intro s hs
    obtain ⟨tag, ht, hs⟩ := List.mem_flatMap.mp hs
    exact tag_missingSingle hs ▸ ht
  have hnamed : ∀ s ∈ namedSections.flatMap (missingNamed into source), s.tag ∈ namedSections := by
    intro s hs
    obtain ⟨tag, ht, hs⟩ := List.mem_flatMap.mp hs
    exact tag_missingNamed hs ▸ ht
  have hboth : ∀ s ∈ singleSections.flatMap (missingSingle into source) ++
      namedSections.flatMap (missingNamed into source), s.tag ∈ singleSections ++ namedSections := by
    intro s hs
    exact List.mem_append.mpr ((List.mem_append.mp hs).imp (hsingle s) (hnamed s))
  rw [mergeInTurn,
    foldl_take (takeSingle_eq source) (fun _ _ _ => tag_missingSingle)
      (fun _ _ _ => missingSingle_congr source) (by decide),
    foldl_take (takeNamed_eq source) (fun _ _ _ => tag_missingNamed)
      (fun _ _ _ => missingNamed_congr source) (by decide),
    foldl_take (takeList_eq source) (fun _ _ _ => tag_missingList)
      (fun _ _ _ => missingList_congr source) (by decide),
    flatMap_append (fun _ _ _ => missingNamed_congr source) (by decide) hsingle,
    append_append into, flatMap_append (fun _ _ _ => missingList_congr source) (by decide) hboth,
    append_append]
  rfl

/-! ### A second time -/

private theorem firstOfEachName_eq_nil {present : List Text} {sections : List Element}
    (h : ∀ s ∈ sections, nameOf s ∈ present) : firstOfEachName present sections = [] := by
  induction sections with
  | nil => rfl
  | cons s ss ih =>
    obtain ⟨hs, hss⟩ := List.forall_mem_cons.mp h
    rw [firstOfEachName, if_pos (List.contains_iff_mem.mpr hs), ih hss]

/-- A merged element has every section that the source has. -/
theorem takenOver_merge (into source : Element) : takenOver (merge into source) source = [] := by
  have hsingle : ∀ tag ∈ singleSections, missingSingle (merge into source) source tag = [] := by
    intro tag ht
    rw [missingSingle, Element.hasChild, child?_merge ht]
    cases source.child? tag <;> cases into.child? tag <;> rfl
  have hnamed : ∀ tag ∈ namedSections, missingNamed (merge into source) source tag = [] := by
    intro tag ht
    refine firstOfEachName_eq_nil fun s hs => ?_
    have hfound : named (merge into source) tag (nameOf s) ≠ [] := by
      rw [named_merge ht]
      split
      · have hm : s ∈ named source tag (nameOf s) := List.mem_filter.mpr ⟨hs, beq_self_eq_true _⟩
        obtain ⟨e, es, he⟩ := List.exists_cons_of_ne_nil (List.ne_nil_of_mem hm)
        rw [he]
        exact List.cons_ne_nil _ _
      · assumption
    obtain ⟨e, he⟩ := List.exists_mem_of_ne_nil _ hfound
    obtain ⟨hm, hname⟩ := List.mem_filter.mp he
    exact List.mem_map.mpr ⟨e, hm, eq_of_beq hname⟩
  have hlist : ∀ tag ∈ listSections, missingList (merge into source) source tag = [] := by
    intro tag ht
    rw [missingList, hasChild_eq, childrenNamed_merge_list ht]
    cases source.childrenNamed tag <;> cases into.childrenNamed tag <;> simp
  rw [takenOver, List.flatMap_eq_nil_iff.mpr hsingle, List.flatMap_eq_nil_iff.mpr hnamed,
    List.flatMap_eq_nil_iff.mpr hlist]
  rfl

private theorem merge_merge_self (into source : Element) :
    merge (merge into source) source = merge into source := by
  rw [merge, takenOver_merge, append_nil]

/-- Merging keeps an element and its children as they are. Behind these it puts, tag by tag, what the
element does not have: of summary, remarks, returns and value the first one of the source, of parameters
and type parameters the first one of each name that is missing, and of exceptions, see-also references
and examples all of them. The same comes out when every section is looked up in the element as those
before have left it, and merging again with the same source changes nothing. -/
theorem merging_adds_what_is_missing (into source : Element) :
    let merged := merge into source
    merged = mergeInTurn into source ∧
    (merged.tag = into.tag ∧ merged.attributes = into.attributes ∧ merged.text = into.text ∧
      merged.tail = into.tail) ∧
    merged.children = into.children ++
      ((["summary", "remarks", "returns", "value"].flatMap fun tag =>
          if into.childrenNamed tag.toList = [] then (source.childrenNamed tag.toList).take 1 else []) ++
        (["param", "typeparam"].flatMap fun tag =>
          (firsts (source.childrenNamed tag.toList)).filter fun s =>
            (into.childrenNamed tag.toList).all fun own => nameOf own ≠ nameOf s) ++
        (["exception", "seealso", "example"].flatMap fun tag =>
          if into.childrenNamed tag.toList = [] then source.childrenNamed tag.toList else [])) ∧
    merge merged source = merged := by
  intro merged
  refine ⟨(mergeInTurn_eq into source).symm, ⟨rfl, rfl, rfl, rfl⟩, ?_, merge_merge_self into source⟩
  have hsingle (tag : Text) : missingSingle into source tag =
      if into.childrenNamed tag = [] then (source.childrenNamed tag).take 1 else [] := by
    rw [missingSingle, hasChild_eq, child?_eq_head?]
    cases into.childrenNamed tag <;> cases source.childrenNamed tag <;> rfl
  have hnamed (tag : Text) : missingNamed into source tag =
      (firsts (source.childrenNamed tag)).filter fun s =>
        (into.childrenNamed tag).all fun own => nameOf own ≠ nameOf s := by
    rw [missingNamed, firstOfEachName_eq_filter]
    refine List.filter_congr fun s _ => ?_
    rw [Bool.eq_iff_iff, List.all_eq_true, decide_eq_true_iff]
    simp only [List.mem_map, not_exists, not_and, decide_eq_true_iff, ne_eq]
  have hlist (tag : Text) : missingList into source tag =
      if into.childrenNamed tag = [] then source.childrenNamed tag else [] := by
    rw [missingList, hasChild_eq]
    cases into.childrenNamed tag <;> rfl
  show into.children ++ takenOver into source = _
  simp only [takenOver, singleSections, namedSections, listSections, List.flatMap_cons,
    List.flatMap_nil, hsingle, hnamed, hlist]

end ApiPages.Inheritance
