import ApiPages.Proofs.Signature.Shortening
import Mathlib.Logic.Relation

/-! Labels of texts whose brackets are well nested: their angle brackets are well nested as well, and the
shortening finds in every part of the text what it looks for. -/
namespace ApiPages.Signature

/-- The brackets that open something in a signature with angle brackets for braces. -/
def signatureOpeners : List Char := ['<', '(', '[']

variable {raw : Text}

theorem nested_reference_iff {openers : List Char} :
    Nested openers (reference raw) ↔ Nested openers (bracesToAngles raw) := by
  obtain ⟨front, back, hangles, hfront, hback⟩ := exists_blanks_around_reference raw
  rw [hangles]
  exact (nested_between (fun c hc => neutral_of_isBlank (hfront c hc))
    fun c hc => neutral_of_isBlank (hback c hc)).symm

/-- Without braces, the other brackets are all there are. -/
theorem not_bracket_of_neutral {c : Char} (hopen : c ≠ '{') (hclose : c ≠ '}')
    (hc : Neutral signatureOpeners c) : isOpener c = false ∧ isCloser c = false := by
  have hpairs : ∀ p ∈ bracketPairs, (p.1 = '{' ∨ ¬ Neutral signatureOpeners p.1) ∧
      (p.2 = '}' ∨ ¬ Neutral signatureOpeners p.2) := by decide
  refine not_bracket_of_ne fun p hp => ⟨?_, ?_⟩
  · rintro rfl
    exact (hpairs p hp).1.elim hopen fun hn => hn hc
  · rintro rfl
    exact (hpairs p hp).2.elim hclose fun hn => hn hc

/-- In a well nested text the list of arguments is closed, and all parts are well nested. -/
theorem nested_parts (h : Nested signatureOpeners (bracesToAngles raw)) :
    form raw ≠ .broken ∧ ∀ t ∈ (form raw).parts, Nested signatureOpeners (bracesToAngles t) := by
  have hpartner : partner? signatureOpeners '<' = some '>' := rfl
  have hreference : Nested signatureOpeners (reference raw) := nested_reference_iff.mpr h
  have hexpanded : Nested signatureOpeners (expandArity (reference raw)) :=
    nested_expandArity_iff.mpr hreference
  have hangles : ∀ t ∈ (form raw).parts, bracesToAngles t = t := fun t => bracesToAngles_part
  have hfound := found_form raw
  generalize form raw = f at hfound hangles
  cases hfound with
  | @byReference referent hmark =>
    refine ⟨nofun, List.forall_mem_singleton.mpr ?_⟩
    have hneutral : ∀ c ∈ ['@'], Neutral signatureOpeners c :=
      List.forall_mem_singleton.mpr (by decide)
    have hmarked : Nested signatureOpeners ([] ++ referent ++ ['@']) ↔
        Nested signatureOpeners referent := nested_between (List.forall_mem_nil _) hneutral
    rw [hangles referent (List.mem_singleton_self referent)]
    rw [hmark] at hreference
    exact hmarked.mp hreference
  | plain => exact ⟨nofun, fun _ ht => nomatch ht⟩
  | @broken before rest _ hbroken =>
    exact absurd hbroken (hexpanded.enclosed_ne_unclosed hpartner before rest)
  | @generic name inside rest _ hclosed =>
    have hinside : Nested signatureOpeners inside :=
      hexpanded.inside_of_enclosed hpartner hclosed
    have hbraces := not_mem_expandArity_reference raw
    have hcovers : ∀ c ∈ inside, Neutral signatureOpeners c → isOpener c = false ∧ isCloser c = false := by
      intro c hc
      have hmem := (enclosed_eq_closed hclosed).2.1 c hc
      refine not_bracket_of_neutral ?_ ?_
      · rintro rfl
        exact hbraces.1 hmem
      · rintro rfl
        exact hbraces.2 hmem
    refine ⟨nofun, fun t ht => ?_⟩
    rw [hangles t ht]
    change t ∈ splitTopLevel (· = ',') inside at ht
    rw [splitTopLevel] at ht
    split at ht
    · cases ht
    · obtain ⟨piece, hpiece, rfl⟩ := List.mem_map.mp ht
      exact nested_trim_iff.mpr (hinside.of_mem_pieces hcovers piece hpiece)

/-- The texts on which the shortening of a text goes on. -/
def GoesOnWith (raw t : Text) : Prop := t ∈ (form raw).parts

private theorem nested_of_reaches (h : Nested signatureOpeners (bracesToAngles raw)) {t : Text}
    (ht : Relation.ReflTransGen GoesOnWith raw t) : Nested signatureOpeners (bracesToAngles t) := by
  induction ht with
  | refl => exact h
  | tail _ hpart ih => exact (nested_parts ih).2 _ hpart

/-- The text has no braces, and its angle brackets are well nested. -/
structure HasNestedAngles (t : Text) : Prop where
  noBraces : '{' ∉ t ∧ '}' ∉ t
  angles : Nested ['<'] t

theorem HasNestedAngles.append {t u : Text} (ht : HasNestedAngles t) (hu : HasNestedAngles u) :
    HasNestedAngles (t ++ u) where
  noBraces := by
    rw [List.mem_append, List.mem_append, not_or, not_or]
    exact ⟨⟨ht.noBraces.1, hu.noBraces.1⟩, ht.noBraces.2, hu.noBraces.2⟩
  angles := ht.angles.append hu.angles

theorem HasNestedAngles.enclose {t : Text} (ht : HasNestedAngles t) :
    HasNestedAngles ('<' :: t ++ ['>']) where
  noBraces := by
    obtain ⟨hopen, hclose⟩ := ht.noBraces
    simp [hopen, hclose]
  angles := .enclose rfl ht.angles .nil

private theorem hasNestedAngles_join {ts : List Text} (h : ∀ t ∈ ts, HasNestedAngles t) :
    HasNestedAngles (Text.join ", ".toList ts) where
  noBraces := by
    constructor <;> intro hm
    · rcases Text.mem_join hm with hm | ⟨t, ht, hm⟩
      · exact absurd hm (by decide)
      · exact (h t ht).noBraces.1 hm
    · rcases Text.mem_join hm with hm | ⟨t, ht, hm⟩
      · exact absurd hm (by decide)
      · exact (h t ht).noBraces.2 hm
  angles := nested_join (Text.of_all rfl) fun t ht => (h t ht).angles

/-- Names keep their freedom from brackets when they are shortened. -/
theorem hasNestedAngles_shortHead {name : Text} (hbraces : '{' ∉ name ∧ '}' ∉ name)
    (hangles : '<' ∉ name ∧ '>' ∉ name) : HasNestedAngles (shortHead name) where
  noBraces := ⟨fun h => (mem_shortHead h).elim hbraces.1 (by decide),
    fun h => (mem_shortHead h).elim hbraces.2 (by decide)⟩
  angles := nested_of_forall fun c hc => by
    refine (neutral_singleton_iff rfl).mpr ⟨?_, ?_⟩
    · rintro rfl
      exact (mem_shortHead hc).elim hangles.1 (by decide)
    · rintro rfl
      exact (mem_shortHead hc).elim hangles.2 (by decide)

/-- From labels of the parts with well nested angle brackets a label of that kind is made. -/
theorem hasNestedAngles_label (h : Nested signatureOpeners (bracesToAngles raw))
    (hparts : ∀ t ∈ (form raw).parts, HasNestedAngles (shorten t)) :
    HasNestedAngles ((form raw).label shorten raw) := by
  have hexpanded : Nested ['<'] (expandArity (reference raw)) := by
    refine @Nested.of_subset signatureOpeners _ ['<'] (by decide) ?_
    exact nested_expandArity_iff.mpr (nested_reference_iff.mpr h)
  have hbraces := not_mem_expandArity_reference raw
  have hnot := (nested_parts h).1
  have hfound := found_form raw
  generalize form raw = f at hfound hparts hnot
  cases hfound with
  | @byReference referent _ =>
    have hword : HasNestedAngles "ref ".toList := ⟨by decide, by decide⟩
    exact hword.append (hparts referent (List.mem_singleton_self referent))
  | plain _ hplain =>
    exact hasNestedAngles_shortHead hbraces ⟨hplain, hexpanded.closer_not_mem rfl hplain⟩
  | broken => exact absurd rfl hnot
  | @generic name inside rest _ hclosed =>
    obtain ⟨hsplit, hname⟩ := eq_of_enclosed_closed hclosed
    obtain ⟨hmem, -, hrest⟩ := enclosed_eq_closed hclosed
    rw [hsplit, nested_around_iff rfl hname (nested_of_enclosed rfl hclosed)] at hexpanded
    have hhead : HasNestedAngles (shortHead name) :=
      hasNestedAngles_shortHead ⟨fun h => hbraces.1 (hmem _ h), fun h => hbraces.2 (hmem _ h)⟩
        ⟨hname, hexpanded.1⟩
    have harguments : HasNestedAngles
        (Text.join ", ".toList ((splitTopLevel (· = ',') inside).map shorten)) :=
      hasNestedAngles_join (List.forall_mem_map.mpr hparts)
    have hbehind : HasNestedAngles rest :=
      ⟨⟨fun h => hbraces.1 (hrest _ h), fun h => hbraces.2 (hrest _ h)⟩, hexpanded.2⟩
    have hlabel := (hhead.append harguments.enclose).append hbehind
    simp only [List.append_assoc, List.cons_append, List.nil_append] at hlabel
    simpa only [Form.label, List.append_assoc, List.cons_append] using hlabel

private theorem hasNestedAngles_shorten (h : Nested signatureOpeners (bracesToAngles raw)) :
    HasNestedAngles (shorten raw) := by
  induction raw using shorten_induct with
  | h raw ih =>
    rw [shorten_eq]
    exact hasNestedAngles_label h fun t ht => ih t ht ((nested_parts h).2 t ht)

/-- The label of a text with well nested brackets has no braces, its angle brackets are well nested, and
there are as many that open as there are that close. On whatever texts the shortening goes on, each is
parsed: the label is made from its parts, and none is given back because a bracket is not closed. -/
theorem labels_of_nested_texts_are_nested (h : Nested signatureOpeners (bracesToAngles raw)) :
    ('{' ∉ shorten raw ∧ '}' ∉ shorten raw) ∧ Nested ['<'] (shorten raw) ∧
      (shorten raw).count '<' = (shorten raw).count '>' ∧
      ∀ t, Relation.ReflTransGen GoesOnWith raw t →
        shorten t = (form t).label shorten t ∧ form t ≠ .broken := by
  obtain ⟨hbraces, hangles⟩ := hasNestedAngles_shorten h
  refine ⟨hbraces, hangles, hangles.count_eq rfl, fun t ht => ⟨shorten_eq t, ?_⟩⟩
  exact (nested_parts (nested_of_reaches h ht)).1

/-- A dictionary with tuples in it, passed by reference. The tuple loses its opening bracket together with
the namespace behind it. -/
def dictionaryOfTuples : Text :=
  " Ns.Dictionary`2\x7bSystem.String,(Ns.List\x7b``0\x7d,System.Int32[])\x7d.Inner`1[,]@ ".toList

theorem labels_of_nested_texts_are_nested_with_tuples :
    Nested signatureOpeners (bracesToAngles dictionaryOfTuples) ∧
      ('{' ∉ shorten dictionaryOfTuples ∧ '}' ∉ shorten dictionaryOfTuples) ∧
      Nested ['<'] (shorten dictionaryOfTuples) ∧
      (shorten dictionaryOfTuples).count '<' = (shorten dictionaryOfTuples).count '>' ∧
      ∀ t, Relation.ReflTransGen GoesOnWith dictionaryOfTuples t →
        shorten t = (form t).label shorten t ∧ form t ≠ .broken := by
  have h : Nested signatureOpeners (bracesToAngles dictionaryOfTuples) := by decide +kernel
  exact ⟨h, labels_of_nested_texts_are_nested h⟩

end ApiPages.Signature
