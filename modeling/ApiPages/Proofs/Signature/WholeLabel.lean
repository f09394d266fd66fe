import ApiPages.Proofs.Signature.Segments

/-! When the label of a constructed type shortens every argument. Shortening takes away no blank and brings
in no dot, so what the labels have more or less of shows which arguments were left as they are
written. -/
namespace ApiPages.Signature

private theorem Path.label_word (p : Path) : ∀ c ∈ p.label, isWordChar c = true := by
  rw [Path.label]
  split
  · exact p.last.word
  · next n _ =>
    cases hl : typeAliases.lookup (n.text ++ '.' :: p.last.text) with
    | none => exact p.last.word
    | some keyword => exact (keyword_word (Keyed.mem_of_lookup_eq_some hl)).2

namespace ConstructedType

/-! ### References that are shortened as a whole -/

/-- The reference begins with a name that only says where the type stands. -/
def isQualified : ConstructedType → Bool
  | .around _ [] _ => true
  | _ => false

mutual

/-- With the labels of its arguments the reference reads as it is written: no list has two arguments, and
no argument is qualified. -/
def readsAlike : ConstructedType → Bool
  | .innermost _ arguments => allReadAlike arguments
  | .around _ arguments inner => allReadAlike arguments && readsAlike inner

def allReadAlike : List ConstructedType → Bool
  | [] => true
  | [t] => !isQualified t && readsAlike t
  | _ :: _ :: _ => false

end

mutual

/-- Wherever a list of arguments is followed by more segments, these read as they are written. -/
def isWhole : ConstructedType → Bool
  | .innermost _ arguments => allWhole arguments
  | .around _ [] inner => isWhole inner
  | .around _ (t :: ts) inner => allWhole (t :: ts) && readsAlike inner

def allWhole : List ConstructedType → Bool
  | [] => true
  | t :: ts => isWhole t && allWhole ts

end

private theorem isWhole_around {arguments : List ConstructedType} (h : arguments ≠ []) (name : Name)
    (inner : ConstructedType) :
    isWhole (.around name arguments inner) = (allWhole arguments && readsAlike inner) := by
  obtain ⟨t, ts, rfl⟩ := List.exists_cons_of_ne_nil h
  rw [isWhole]

/-- Behind no other names, what is not qualified begins its label with its own name. -/
theorem label_of_not_isQualified {t : ConstructedType} (h : t.isQualified = false) :
    t.label true [] = t.segments true := by
  have hname (name : Name) : (Path.mk [] name).label = name.text := rfl
  cases t with
  | innermost name arguments => rw [label, segments, hname]
  | around name arguments inner =>
    have hne : arguments ≠ [] := by
      rintro rfl
      cases h
    rw [label_around hne, segments, hname, if_pos rfl]

private theorem segments_of_readsAlike {t : ConstructedType} (h : t.readsAlike = true) :
    t.segments true = t.write .angled := by
  have hlist {ts : List ConstructedType}
      (ih : ∀ t ∈ ts, t.readsAlike = true → t.segments true = t.write .angled)
      (h : allReadAlike ts = true) :
      Spelling.shown.enclose (labels true ts) = Spelling.angled.enclose (writeAll .angled ts) := by
    match ts with
    | [] => rfl
    | [t] =>
      rw [allReadAlike, Bool.and_eq_true, Bool.not_eq_true'] at h
      have ht : t.label true [] = t.write .angled :=
        (label_of_not_isQualified h.1).trans (ih t List.mem_cons_self h.2)
      rw [labels, labels, ht]
      rfl
    | _ :: _ :: _ => cases h
  induction t using induct with
  | innermost name arguments ih =>
    rw [readsAlike] at h
    rw [segments, hlist ih h, write]
  | around name arguments inner ih ihinner =>
    rw [readsAlike, Bool.and_eq_true] at h
    rw [segments, hlist ih h.1, ihinner h.2, write]

private theorem label_of_isWhole {t : ConstructedType} (h : t.isWhole = true) (outer : List Name) :
    t.label false outer = t.label true outer := by
  have hlist {ts : List ConstructedType}
      (ih : ∀ t ∈ ts, t.isWhole = true → ∀ outer, t.label false outer = t.label true outer)
      (h : allWhole ts = true) : labels false ts = labels true ts := by
    induction ts with
    | nil => rfl
    | cons t ts ihts =>
      obtain ⟨iht, ih⟩ := List.forall_mem_cons.mp ih
      rw [allWhole, Bool.and_eq_true] at h
      rw [labels, labels, iht h.1, ihts ih h.2]
  induction t using induct generalizing outer with
  | innermost name arguments ih =>
    rw [isWhole] at h
    rw [label, label, hlist ih h]
  | around name arguments inner ih ihinner =>
    by_cases hne : arguments = []
    · subst hne
      rw [isWhole] at h
      rw [label, label, ihinner h]
    · rw [isWhole_around hne, Bool.and_eq_true] at h
      rw [label_around hne, label_around hne, hlist ih h.1, if_neg Bool.false_ne_true, if_pos rfl,
        segments_of_readsAlike h.2]

/-! ### Blanks and dots -/

/-- Blanks are counted for a text, and dots against it. Shortening takes no blank away and brings no dot
in. -/
def surplus (t : Text) : Int := (t.count ' ' : Int) - t.count '.'

private theorem surplus_append (t u : Text) : surplus (t ++ u) = surplus t + surplus u := by
  simp only [surplus, List.count_append]
  omega

private theorem surplus_dot (t : Text) : surplus ('.' :: t) = surplus t - 1 := by
  have hdot : surplus ['.'] = -1 := by decide
  have happend := surplus_append ['.'] t
  rw [List.singleton_append] at happend
  omega

private theorem surplus_of_word {t : Text} (h : ∀ c ∈ t, isWordChar c = true) : surplus t = 0 := by
  have hblank : ' ' ∉ t := fun hm => absurd (h _ hm) (by decide)
  have hdot : '.' ∉ t := fun hm => absurd (h _ hm) (by decide)
  rw [surplus, List.count_eq_zero_of_not_mem hblank, List.count_eq_zero_of_not_mem hdot]
  rfl

private theorem surplus_enclose {s : Spelling} (ho : s.opening = '<') (hc : s.closing = '>')
    (ts : List Text) : surplus (s.enclose ts) = surplus (Text.join s.separator ts) := by
  have hopen : surplus ['<'] = 0 := by decide
  have hclose : surplus ['>'] = 0 := by decide
  by_cases hne : ts = []
  · subst hne
    rfl
  · have hsplit := s.enclose_of_ne_nil hne []
    rw [List.append_nil, ho, hc, ← List.singleton_append] at hsplit
    rw [hsplit, surplus_append, surplus_append, hopen, hclose]
    omega

private theorem surplus_join {separator t : Text} {ts : List Text} (h : ts ≠ []) :
    surplus (Text.join separator (t :: ts)) =
      surplus t + surplus separator + surplus (Text.join separator ts) := by
  rw [Text.join_cons h, surplus_append, surplus_append]

/-- What is at least lacking when the condition does not hold. -/
def lack (b : Bool) : Int := if b then 0 else 1

private theorem lack_and_le (a b : Bool) : lack (a && b) ≤ lack a + lack b := by
  cases a <;> cases b <;> decide

private theorem lack_nonneg (b : Bool) : 0 ≤ lack b := by
  cases b <;> decide

section
variable {ts : List ConstructedType}

private theorem writeAll_ne_nil (h : ts ≠ []) (s : Spelling) : writeAll s ts ≠ [] := by
  rw [writeAll_eq_map]
  exact fun hn => h (List.map_eq_nil_iff.mp hn)

private theorem labels_ne_nil (h : ts ≠ []) (whole : Bool) : labels whole ts ≠ [] := by
  rw [labels_eq_map]
  exact fun hn => h (List.map_eq_nil_iff.mp hn)

private theorem surplus_separator :
    surplus Spelling.angled.separator = 0 ∧ surplus Spelling.shown.separator = 1 := by
  decide

private theorem surplus_join_le (h : ∀ t ∈ ts, surplus (t.write .angled) ≤ surplus (t.label true [])) :
    surplus (Text.join Spelling.angled.separator (writeAll .angled ts)) ≤
      surplus (Text.join Spelling.shown.separator (labels true ts)) := by
  obtain ⟨hcomma, hblank⟩ := surplus_separator
  induction ts with
  | nil => exact Int.le_refl _
  | cons t ts ih =>
    obtain ⟨ht, hts⟩ := List.forall_mem_cons.mp h
    rw [writeAll, labels]
    by_cases hne : ts = []
    · subst hne
      exact ht
    · have hrest := ih hts
      rw [surplus_join (writeAll_ne_nil hne _), surplus_join (labels_ne_nil hne _)]
      omega

private theorem surplus_alike
    (h : ∀ t ∈ ts, surplus (t.write .angled) + lack (!t.isQualified && t.readsAlike) ≤
      surplus (t.label true [])) :
    surplus (Spelling.angled.enclose (writeAll .angled ts)) + lack (allReadAlike ts) ≤
      surplus (Spelling.shown.enclose (labels true ts)) := by
  have hless : ∀ t ∈ ts, surplus (t.write .angled) ≤ surplus (t.label true []) := by
    intro t ht
    have hnonneg := lack_nonneg (!t.isQualified && t.readsAlike)
    have hle := h t ht
    omega
  rw [surplus_enclose rfl rfl, surplus_enclose rfl rfl]
  match ts with
  | [] => decide
  | [t] => exact h t List.mem_cons_self
  | t :: u :: ts =>
    -- The blank behind the first comma makes up for what is lacking.
    obtain ⟨ht, hrest⟩ := List.forall_mem_cons.mp hless
    obtain ⟨hcomma, hblank⟩ := surplus_separator
    have hjoin := surplus_join_le hrest
    have hlack : lack (allReadAlike (t :: u :: ts)) = 1 := rfl
    have hne : u :: ts ≠ [] := List.cons_ne_nil u ts
    rw [writeAll, labels, surplus_join (writeAll_ne_nil hne _), surplus_join (labels_ne_nil hne _)]
    omega

private theorem surplus_whole
    (h : ∀ t ∈ ts, surplus (t.label false []) + lack t.isWhole ≤ surplus (t.label true [])) :
    surplus (Spelling.shown.enclose (labels false ts)) + lack (allWhole ts) ≤
      surplus (Spelling.shown.enclose (labels true ts)) := by
  rw [surplus_enclose rfl rfl, surplus_enclose rfl rfl]
  induction ts with
  | nil => decide
  | cons t ts ih =>
    obtain ⟨ht, hts⟩ := List.forall_mem_cons.mp h
    have hand := lack_and_le t.isWhole (allWhole ts)
    rw [allWhole, labels, labels]
    by_cases hne : ts = []
    · subst hne
      have hnone : lack (allWhole []) = 0 := rfl
      rw [labels, labels, Text.join, Text.join]
      omega
    · have hrest := ih hts
      rw [surplus_join (labels_ne_nil hne _), surplus_join (labels_ne_nil hne _)]
      omega

end

/-- A label has no fewer blanks and no more dots than what is written, and as many of them only if it reads
alike. -/
theorem surplus_write_le (t : ConstructedType) :
    (∀ outer, surplus (t.write .angled) + lack (!t.isQualified && t.readsAlike) ≤
        surplus (t.label true outer)) ∧
      surplus (t.write .angled) + lack t.readsAlike ≤ surplus (t.segments true) := by
  have hname (name : Name) : surplus name.text = 0 := surplus_of_word name.word
  have hlabel (path : Path) : surplus path.label = 0 := surplus_of_word path.label_word
  induction t using induct with
  | innermost name arguments ih =>
    have hlist := surplus_alike fun t ht => (ih t ht).1 []
    have hplain : (innermost name arguments).isQualified = false := rfl
    refine ⟨fun outer => ?_, ?_⟩
    · rw [hplain, readsAlike, Bool.not_false, Bool.true_and, write, label, surplus_append,
        surplus_append, hname, hlabel]
      omega
    · rw [readsAlike, write, segments, surplus_append, surplus_append, hname]
      omega
  | around name arguments inner ih ihinner =>
    obtain ⟨ihlabel, ihsegments⟩ := ihinner
    have hlist := surplus_alike fun t ht => (ih t ht).1 []
    have hand := lack_and_le (allReadAlike arguments) inner.readsAlike
    refine ⟨fun outer => ?_, ?_⟩
    · by_cases hne : arguments = []
      · subst hne
        have hnone : surplus (Spelling.angled.enclose (writeAll .angled [])) = 0 := rfl
        have hqualified : (around name [] inner).isQualified = true := rfl
        have hmissing : lack false = 1 := rfl
        have hinner := ihlabel (outer ++ [name])
        have hnonneg := lack_nonneg (!inner.isQualified && inner.readsAlike)
        rw [hqualified, Bool.not_true, Bool.false_and, write, label, surplus_append, surplus_append,
          surplus_dot, hname, hnone]
        omega
      · have hplain : (around name arguments inner).isQualified = false := by
          obtain ⟨t, ts, rfl⟩ := List.exists_cons_of_ne_nil hne
          rfl
        rw [hplain, readsAlike, Bool.not_false, Bool.true_and, write, label_around hne, if_pos rfl,
          surplus_append, surplus_append, surplus_append, surplus_append, surplus_dot, surplus_dot,
          hname, hlabel]
        omega
    · rw [readsAlike, write, segments, surplus_append, surplus_append, surplus_append, surplus_append,
        surplus_dot, surplus_dot, hname]
      omega

private theorem surplus_label_le (t : ConstructedType) (outer : List Name) :
    surplus (t.label false outer) + lack t.isWhole ≤ surplus (t.label true outer) := by
  induction t using induct generalizing outer with
  | innermost name arguments ih =>
    have hlist := surplus_whole fun t ht => ih t ht []
    rw [isWhole, label, label, surplus_append, surplus_append]
    omega
  | around name arguments inner ih ihinner =>
    by_cases hne : arguments = []
    · subst hne
      rw [isWhole, label, label]
      exact ihinner (outer ++ [name])
    · have hlist := surplus_whole fun t ht => ih t ht []
      have hsegments := inner.surplus_write_le.2
      have hand := lack_and_le (allWhole arguments) inner.readsAlike
      rw [isWhole_around hne, label_around hne, label_around hne, if_neg Bool.false_ne_true,
        if_pos rfl, surplus_append, surplus_append, surplus_append, surplus_append, surplus_dot,
        surplus_dot]
      omega

/-- The arguments of the first list are shortened, and the segments behind it stay. This shortens every
argument exactly when no list behind has two arguments and no argument there is qualified. -/
theorem only_first_arguments_are_shortened (t : ConstructedType) :
    shorten (t.write .source) = t.label false [] ∧
      (shorten (t.write .source) = t.label true [] ↔ t.isWhole = true) := by
  refine ⟨t.shorten_source, ?_⟩
  rw [t.shorten_source]
  refine ⟨fun h => ?_, fun h => label_of_isWhole h []⟩
  have hle := t.surplus_label_le []
  rw [h] at hle
  cases hwhole : t.isWhole with
  | true => rfl
  | false =>
    have hmissing : lack false = 1 := rfl
    rw [hwhole] at hle
    omega

/-- A reference to a type inside another, with an argument for each. -/
def innerOfOuter : ConstructedType :=
  let framework : Name := ⟨"System".toList, by decide, Text.of_all rfl⟩
  .around ⟨"Outer".toList, by decide, Text.of_all rfl⟩
    [.around framework [] (.innermost ⟨"Int32".toList, by decide, Text.of_all rfl⟩ [])]
    (.innermost ⟨"Inner".toList, by decide, Text.of_all rfl⟩
      [.around framework [] (.innermost ⟨"String".toList, by decide, Text.of_all rfl⟩ [])])

/-- The argument of the inner type keeps its full name. -/
theorem inner_arguments_are_not_shortened :
    innerOfOuter.write .source = "Outer\x7bSystem.Int32\x7d.Inner\x7bSystem.String\x7d".toList ∧
      innerOfOuter.label true [] = "Outer<int>.Inner<string>".toList ∧
      shorten (innerOfOuter.write .source) = "Outer<int>.Inner<System.String>".toList ∧
      shorten (innerOfOuter.write .source) ≠ innerOfOuter.label true [] := by
  have hwritten : innerOfOuter.write .source =
      "Outer\x7bSystem.Int32\x7d.Inner\x7bSystem.String\x7d".toList := by decide
  have hlabel : innerOfOuter.label true [] = "Outer<int>.Inner<string>".toList := by decide
  have hshown : shorten (innerOfOuter.write .source) = "Outer<int>.Inner<System.String>".toList := by
    rw [hwritten]
    decide +kernel
  refine ⟨hwritten, hlabel, hshown, ?_⟩
  rw [hshown, hlabel]
  decide

end ConstructedType
end ApiPages.Signature
