import ApiPages.Proofs.Signature.Character
import ApiPages.Proofs.Signature.Expansion
import ApiPages.Proofs.Signature.Nested

/-! Shortening without fuel: what it finds in a text, on which texts it goes on, and that these are ever
shorter. The label has the characters of the text, and else only those of labels. -/
namespace ApiPages.Signature

/-! ### One level -/

/-- What the shortening of a text finds in it. -/
inductive Form where
  /-- A mark at the end, behind the type that is passed by reference. -/
  | byReference (referent : Text)
  /-- No list of arguments. -/
  | plain (name : Text)
  /-- A list of arguments that is not closed. -/
  | broken
  /-- A list of arguments, with what stands before and behind it. -/
  | generic (name : Text) (arguments : List Text) (rest : Text)

def form (raw : Text) : Form :=
  match byReference? (reference raw) with
  | some referent => .byReference referent
  | none =>
    match enclosed '<' '>' (expandArity (reference raw)) with
    | .absent => .plain (expandArity (reference raw))
    | .unclosed _ _ => .broken
    | .closed name arguments rest => .generic name (splitTopLevel (· = ',') arguments) rest

namespace Form

/-- The texts that are shortened in turn. -/
def parts : Form → List Text
  | byReference referent => [referent]
  | plain _ => []
  | broken => []
  | generic _ arguments _ => arguments

/-- The label of a text of this form, from the labels of its parts. -/
def label (shortened : Text → Text) (raw : Text) : Form → Text
  | byReference referent => "ref ".toList ++ shortened referent
  | plain name => shortHead name
  | broken => raw
  | generic name arguments rest =>
    shortHead name ++ '<' :: Text.join ", ".toList (arguments.map shortened) ++ '>' :: rest

private theorem label_congr {shortened shortened' : Text → Text} {f : Form}
    (h : ∀ t ∈ f.parts, shortened t = shortened' t) (raw : Text) :
    f.label shortened raw = f.label shortened' raw := by
  cases f with
  | byReference referent =>
    have hreferent : shortened referent = shortened' referent :=
      h referent (List.mem_singleton_self referent)
    rw [label, label, hreferent]
  | plain name => rfl
  | broken => rfl
  | generic name arguments rest =>
    have harguments : arguments.map shortened = arguments.map shortened' := List.map_congr_left h
    rw [label, label, harguments]

end Form

private theorem shortenWithin_succ (fuel : Nat) (raw : Text) :
    shortenWithin (fuel + 1) raw = (form raw).label (shortenWithin fuel) raw := by
  rw [shortenWithin, form]
  simp only [reference]
  cases byReference? (bracesToAngles (Text.trim raw)) with
  | some referent => rfl
  | none =>
    cases enclosed '<' '>' (expandArity (bracesToAngles (Text.trim raw))) <;> rfl

/-! ### What each form says about the text -/

/-- What is known of a text when its form is. -/
inductive Found (raw : Text) : Form → Prop
  | byReference {referent} : reference raw = referent ++ ['@'] → Found raw (.byReference referent)
  | plain : byReference? (reference raw) = none → '<' ∉ expandArity (reference raw) →
      Found raw (.plain (expandArity (reference raw)))
  | broken {before rest} : byReference? (reference raw) = none →
      enclosed '<' '>' (expandArity (reference raw)) = .unclosed before rest → Found raw .broken
  | generic {name inside rest} : byReference? (reference raw) = none →
      enclosed '<' '>' (expandArity (reference raw)) = .closed name inside rest →
      Found raw (.generic name (splitTopLevel (· = ',') inside) rest)

theorem found_form (raw : Text) : Found raw (form raw) := by
  rw [form]
  cases hmark : byReference? (reference raw) with
  | some referent => exact .byReference (byReference?_eq_some.mp hmark)
  | none =>
    cases henclosed : enclosed '<' '>' (expandArity (reference raw)) with
    | absent =>
      refine .plain hmark (Text.cutFirst_eq_none_iff.mp ?_)
      rw [enclosed] at henclosed
      split at henclosed
      · next hcut => exact hcut
      · split at henclosed <;> cases henclosed
    | unclosed before rest => exact .broken hmark henclosed
    | closed name inside rest => exact .generic hmark henclosed

theorem Found.form_eq {raw : Text} {f : Form} (h : Found raw f) : form raw = f := by
  rw [form]
  cases h with
  | byReference hreference => rw [byReference?_eq_some.mpr hreference]
  | plain hmark hn =>
    rw [hmark]
    simp only [enclosed, Text.cutFirst_eq_none_iff.mpr hn]
  | broken hmark henclosed => simp only [hmark, henclosed]
  | generic hmark henclosed => simp only [hmark, henclosed]

/-- A part of a text is what stands before the mark for references, or an argument in the first list. -/
theorem cases_of_mem_parts {raw t : Text} (ht : t ∈ (form raw).parts) :
    reference raw = t ++ ['@'] ∨ ∃ name inside rest, byReference? (reference raw) = none ∧
      enclosed '<' '>' (expandArity (reference raw)) = .closed name inside rest ∧
      t ∈ splitTopLevel (· = ',') inside := by
  have hfound := found_form raw
  generalize form raw = f at ht hfound
  cases hfound with
  | byReference hreference =>
    obtain rfl := List.mem_singleton.mp ht
    exact Or.inl hreference
  | plain => cases ht
  | broken => cases ht
  | generic hmark henclosed => exact Or.inr ⟨_, _, _, hmark, henclosed, ht⟩

/-! ### Parts are shorter -/

theorem exists_blanks_around_reference (raw : Text) :
    ∃ front back, bracesToAngles raw = front ++ reference raw ++ back ∧
      (∀ c ∈ front, Text.isBlank c = true) ∧ ∀ c ∈ back, Text.isBlank c = true := by
  have hblanks {t : Text} (h : ∀ c ∈ t, Text.isBlank c = true) : bracesToAngles t = t :=
    bracesToAngles_eq_self (fun hm => absurd (h _ hm) (by decide)) fun hm => absurd (h _ hm) (by decide)
  obtain ⟨front, back, hsplit, hfront, hback⟩ := Text.exists_blanks_around_trim raw
  refine ⟨front, back, ?_, hfront, hback⟩
  have hangles : bracesToAngles (front ++ Text.trim raw ++ back) = front ++ reference raw ++ back := by
    rw [bracesToAngles_append, bracesToAngles_append, hblanks hfront, hblanks hback]
    rfl
  rw [← hsplit] at hangles
  exact hangles

theorem not_mem_expandArity_reference (raw : Text) :
    '{' ∉ expandArity (reference raw) ∧ '}' ∉ expandArity (reference raw) := by
  obtain ⟨hopen, hclose⟩ := not_mem_bracesToAngles (Text.trim raw)
  exact ⟨fun h => (mem_expandArity h).elim hopen (by decide),
    fun h => (mem_expandArity h).elim hclose (by decide)⟩

private theorem not_mem_parts {raw t : Text} (ht : t ∈ (form raw).parts) : '{' ∉ t ∧ '}' ∉ t := by
  rcases cases_of_mem_parts ht with hreference | ⟨name, inside, rest, -, henclosed, ht⟩
  · have hbraces : '{' ∉ reference raw ∧ '}' ∉ reference raw := not_mem_bracesToAngles (Text.trim raw)
    rw [hreference] at hbraces
    exact ⟨fun h => hbraces.1 (List.mem_append_left _ h),
      fun h => hbraces.2 (List.mem_append_left _ h)⟩
  · have hbraces := not_mem_expandArity_reference raw
    have hinside {c : Char} (hc : c ∈ t) : c ∈ expandArity (reference raw) :=
      (enclosed_eq_closed henclosed).2.1 c (mem_of_mem_splitTopLevel ht hc)
    exact ⟨fun h => hbraces.1 (hinside h), fun h => hbraces.2 (hinside h)⟩

theorem bracesToAngles_part {raw t : Text} (ht : t ∈ (form raw).parts) : bracesToAngles t = t :=
  bracesToAngles_eq_self (not_mem_parts ht).1 (not_mem_parts ht).2

/-- The length of a text with its markers expanded. -/
def size (raw : Text) : Nat := (expandArity (bracesToAngles raw)).length

theorem length_expandArity_reference_le (raw : Text) :
    (expandArity (reference raw)).length ≤ size raw := by
  obtain ⟨front, back, hangles, hfront, hback⟩ := exists_blanks_around_reference raw
  rw [size, hangles, expandArity_between_blanks hfront hback, List.length_append, List.length_append]
  omega

/-- An argument is expanded as it stands, and shorter than the expanded text with the brackets around it. -/
theorem length_argument_lt {raw name inside rest t : Text}
    (h : enclosed '<' '>' (expandArity (reference raw)) = .closed name inside rest)
    (ht : t ∈ splitTopLevel (· = ',') inside) :
    expandArity t = t ∧ t.length < (expandArity (reference raw)).length := by
  have hsplit := (eq_of_enclosed_closed h).1
  have hinside : IsExpanded inside := by
    have hwhole := isExpanded_expandArity (reference raw)
    rw [hsplit, isExpanded_append_cons (by decide) (by decide +kernel),
      isExpanded_append_cons (by decide) (by decide +kernel)] at hwhole
    exact hwhole.2.1
  have hpiece := (infix_of_mem_splitTopLevel ht).length_le
  refine ⟨expandArity_of_isExpanded (hinside.of_mem_splitTopLevel ht), ?_⟩
  rw [hsplit, List.length_append, List.length_cons, List.length_append]
  omega

theorem size_lt_of_mem_parts {raw t : Text} (ht : t ∈ (form raw).parts) : size t < size raw := by
  have hle := length_expandArity_reference_le raw
  rw [size, bracesToAngles_part ht]
  rcases cases_of_mem_parts ht with hreference | ⟨name, inside, rest, -, henclosed, ht⟩
  · have hstop : IsStop '@' := ⟨by decide, by decide +kernel, by decide, by decide⟩
    rw [hreference, hstop.expandArity_append, List.length_append] at hle
    exact Nat.lt_of_lt_of_le (Nat.lt_add_of_pos_right (Nat.succ_pos _)) hle
  · obtain ⟨hsame, hlt⟩ := length_argument_lt henclosed ht
    rw [hsame]
    omega

/-! ### Without fuel -/

private theorem shortenWithin_of_size_lt {raw : Text} {fuel fuel' : Nat} (hfuel : size raw < fuel)
    (hfuel' : size raw < fuel') : shortenWithin fuel raw = shortenWithin fuel' raw := by
  induction fuel generalizing raw fuel' with
  | zero => omega
  | succ fuel ih =>
    obtain ⟨less, rfl⟩ := Nat.exists_eq_succ_of_ne_zero (n := fuel') (by omega)
    rw [shortenWithin_succ, Nat.succ_eq_add_one, shortenWithin_succ]
    refine Form.label_congr (fun t ht => ?_) raw
    have hlt := size_lt_of_mem_parts ht
    exact ih (by omega) (by omega)

/-- The label of a text is made of those of its parts. -/
theorem shorten_eq (raw : Text) : shorten raw = (form raw).label shorten raw := by
  rw [shorten, shortenWithin_succ]
  refine Form.label_congr (fun t ht => ?_) raw
  exact shortenWithin_of_size_lt (size_lt_of_mem_parts ht) (Nat.lt_succ_self _)

/-- What holds of a text once it holds of its parts holds of every text. -/
theorem shorten_induct {P : Text → Prop} (h : ∀ raw, (∀ t ∈ (form raw).parts, P t) → P raw)
    (raw : Text) : P raw := by
  induction hn : size raw using Nat.strong_induction_on generalizing raw with
  | _ n ih =>
    subst hn
    exact h raw fun t ht => ih (size t) (size_lt_of_mem_parts ht) t rfl

/-! ### The characters of a label -/

private theorem mem_reference {raw : Text} {c : Char} (h : c ∈ reference raw) :
    c ∈ raw ∨ isLabelChar c = true :=
  (mem_bracesToAngles h).imp_left Text.mem_trim

private theorem mem_expandArity_reference {raw : Text} {c : Char} (h : c ∈ expandArity (reference raw)) :
    c ∈ raw ∨ isLabelChar c = true :=
  (mem_expandArity h).elim mem_reference Or.inr

private theorem mem_of_mem_parts {raw t : Text} {c : Char} (ht : t ∈ (form raw).parts) (hc : c ∈ t) :
    c ∈ raw ∨ isLabelChar c = true := by
  rcases cases_of_mem_parts ht with hreference | ⟨name, inside, rest, -, henclosed, ht⟩
  · refine mem_reference ?_
    rw [hreference]
    exact List.mem_append_left _ hc
  · have hinside := mem_of_mem_splitTopLevel ht hc
    exact mem_expandArity_reference ((enclosed_eq_closed henclosed).2.1 c hinside)

theorem mem_shorten {raw : Text} {c : Char} (h : c ∈ shorten raw) :
    c ∈ raw ∨ isLabelChar c = true := by
  have hsigns : ∀ c ∈ "ref ".toList ++ ", <>".toList, isLabelChar c = true := Text.of_all rfl
  induction raw using shorten_induct generalizing c with
  | _ raw ih =>
    have hpart {t : Text} (ht : t ∈ (form raw).parts) (hc : c ∈ shorten t) :
        c ∈ raw ∨ isLabelChar c = true := (ih t ht hc).elim (mem_of_mem_parts ht) Or.inr
    have hhead {name : Text} (hname : c ∈ name → c ∈ expandArity (reference raw))
        (hc : c ∈ shortHead name) : c ∈ raw ∨ isLabelChar c = true :=
      (mem_shortHead hc).elim (fun hc => mem_expandArity_reference (hname hc))
        fun hword => Or.inr (isLabelChar_of_isWordChar hword)
    rw [shorten_eq] at h
    have hfound := found_form raw
    generalize form raw = f at h hpart hfound
    cases hfound with
    | @byReference referent =>
      rcases List.mem_append.mp h with h | h
      · exact Or.inr (hsigns c (List.mem_append_left _ h))
      · exact hpart (List.mem_singleton_self referent) h
    | plain => exact hhead id h
    | broken => exact Or.inl h
    | @generic name inside rest _ henclosed =>
      obtain ⟨hname, -, hrest⟩ := enclosed_eq_closed henclosed
      rw [Form.label, List.mem_append, List.mem_append, List.mem_cons, List.mem_cons] at h
      rcases h with (h | rfl | h) | rfl | h
      · exact hhead (hname c) h
      · exact Or.inr rfl
      · rcases Text.mem_join h with h | ⟨label, hl, hc⟩
        · exact Or.inr (hsigns c (List.mem_append_right _ (List.mem_append_left ['<', '>'] h)))
        · obtain ⟨argument, ha, rfl⟩ := List.mem_map.mp hl
          exact hpart ha hc
      · exact Or.inr rfl
      · exact mem_expandArity_reference (hrest c h)

end ApiPages.Signature
