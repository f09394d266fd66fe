import ApiPages.Proofs.Signature.Alias
import ApiPages.Proofs.Signature.Balance
import Mathlib.Algebra.Order.BigOperators.Group.List
import Mathlib.Algebra.Order.Group.Nat

/-! Texts whose angle brackets do not match: when they come back unchanged, and where the brackets stand
that are overlooked when they do not. -/
namespace ApiPages.Signature

/-! ### What shortening brings in -/

/-- Shortening brings in no such character. -/
def Foreign (c : Char) : Prop := isWordChar c = false ∧ c ∉ ['<', '>', ',', ' ']

instance (c : Char) : Decidable (Foreign c) := inferInstanceAs (Decidable (_ ∧ _))

variable {c : Char}

theorem Foreign.not_mem (hc : Foreign c) {t : Text}
    (h : ∀ d ∈ t, isWordChar d = true ∨ d ∈ ['<', '>', ',', ' ']) : c ∉ t := by
  intro hm
  rcases h c hm with hword | hsign
  · rw [hc.1] at hword
    cases hword
  · exact hc.2 hsign

private theorem count_exchange_le {old new : Char} (h : c ≠ new) (t : Text) :
    (Text.exchange old new t).count c ≤ t.count c := by
  induction t with
  | nil => exact Nat.le_refl _
  | cons d ds ih =>
    rw [Text.exchange, List.map_cons, List.count_cons, List.count_cons]
    refine Nat.add_le_add ih ?_
    by_cases hd : d = old
    · simp [hd, h.symm]
    · simp [hd]

/-- A pass for markers keeps or drops what its images do not have. -/
theorem MarkerRule.Rewrites.count_le {rule : MarkerRule} (himage : ∀ m, c ∉ rule.image m)
    {before : Option Char} {t out : Text} (h : rule.Rewrites before t out) :
    out.count c ≤ t.count c := by
  induction h with
  | nil => exact Nat.le_refl _
  | keep _ _ ih => exact (List.count_cons).trans_le ((Nat.add_le_add_right ih _).trans_eq List.count_cons.symm)
  | @replace before m rest out _ _ _ _ ih =>
    rw [List.count_append, List.count_append, List.count_eq_zero.mpr (himage m), Nat.zero_add]
    exact Nat.le_add_left_of_le ih

/-- A pass that changes anything replaces a marker, which has a backtick. -/
theorem MarkerRule.Rewrites.eq_or_count_lt {rule : MarkerRule} (hrule : rule.ForShort)
    {before : Option Char} {t out : Text} (h : rule.Rewrites before t out) :
    out = t ∨ out.count '`' < t.count '`' := by
  induction h with
  | nil => exact Or.inl rfl
  | @keep before d rest out _ _ ih =>
    refine ih.imp (congrArg (d :: ·)) fun hlt => ?_
    rw [List.count_cons, List.count_cons]
    exact Nat.add_lt_add_right hlt _
  | @replace before m rest out hm _ _ hrest _ =>
    have hticks : 0 < m.text.count '`' := by
      rw [Marker.text, List.count_append, List.count_replicate_self]
      exact Nat.add_pos_left hm.ticks _
    have hle := hrest.count_le hrule.image
    refine Or.inr ?_
    rw [List.count_append, List.count_append, List.count_eq_zero.mpr (hrule.image m)]
    omega

/-- Expansion drops a backtick, or nothing is to be expanded. -/
theorem expandArity_eq_or_count_lt (t : Text) :
    expandArity t = t ∨ (expandArity t).count '`' < t.count '`' := by
  have hpass {rule : MarkerRule} (hrule : rule.ForShort) {t u : Text}
      (h : u = t ∨ u.count '`' < t.count '`') :
      rule.apply u = t ∨ (rule.apply u).count '`' < t.count '`' := by
    rcases (rule.rewrites_applyFrom u none).eq_or_count_lt hrule with he | hlt
    · rw [MarkerRule.apply, he]
      exact h
    · rcases h with rfl | h
      · exact Or.inr hlt
      · exact Or.inr (Nat.lt_trans hlt h)
  exact hpass forShort_arityRule (hpass forShort_redundantRule (hpass forShort_placeholderRule (Or.inl rfl)))

private theorem count_expandArity_le (hc : Foreign c) (t : Text) : (expandArity t).count c ≤ t.count c := by
  have hsigns : ['<', ',', '>'] ⊆ ['<', '>', ',', ' '] := by decide
  have hname (n : Nat) : c ∉ parameterName n :=
    hc.not_mem fun _ hm => Or.inl (isWordChar_of_mem_parameterName hm)
  have hnames (n : Nat) : c ∉ parameterNames n :=
    hc.not_mem fun _ hm => (mem_parameterNames hm).imp_right fun hsign => hsigns hsign
  calc (expandArity t).count c
      ≤ (redundantRule.apply (placeholderRule.apply t)).count c :=
        (arityRule.rewrites_applyFrom _ none).count_le fun m => hnames m.value
    _ ≤ (placeholderRule.apply t).count c :=
        (redundantRule.rewrites_applyFrom _ none).count_le fun _ => List.not_mem_nil
    _ ≤ t.count c := (placeholderRule.rewrites_applyFrom t none).count_le fun m => hname (m.value + 1)

private theorem count_applyAliasesFrom_le (hc : Foreign c) (skip : Nat) (inWord : Bool) (t : Text) :
    (applyAliasesFrom skip inWord t).count c ≤ t.count c := by
  induction t generalizing skip inWord with
  | nil => cases skip <;> exact Nat.le_refl _
  | cons d ds ih =>
    cases skip with
    | succ skip => exact Nat.le_trans (ih skip _) (List.count_le_count_cons)
    | zero =>
      rw [applyAliasesFrom]
      split
      · next name keyword ha =>
        have hkeyword : c ∉ keyword := by
          split at ha
          · cases ha
          · have hwords := (keyword_word (List.mem_of_find?_eq_some ha)).2
            exact hc.not_mem fun d hd => Or.inl (hwords d hd)
        rw [List.count_append, List.count_eq_zero.mpr hkeyword, Nat.zero_add]
        exact Nat.le_trans (ih _ _) (List.count_le_count_cons)
      · rw [List.count_cons, List.count_cons]
        exact Nat.add_le_add_right (ih 0 _) _

private theorem count_shortHead_le (hc : Foreign c) (name : Text) : (shortHead name).count c ≤ name.count c :=
  Nat.le_trans ((Text.suffix_afterLast '.' _).sublist.count_le c)
    (count_applyAliasesFrom_le hc 0 false name)

private theorem count_reference_le (hc : Foreign c) (raw : Text) : (reference raw).count c ≤ raw.count c := by
  have hangles : c ≠ '<' ∧ c ≠ '>' := by
    refine ⟨?_, ?_⟩ <;> rintro rfl <;> exact hc.2 (by decide)
  calc (reference raw).count c
      ≤ (Text.exchange '{' '<' (Text.trim raw)).count c := count_exchange_le hangles.2 _
    _ ≤ (Text.trim raw).count c := count_exchange_le hangles.1 _
    _ ≤ raw.count c := (Text.infix_trim raw).sublist.count_le c

/-- In the labels of arguments nothing foreign is there more often than in the text of the arguments. -/
theorem count_arguments_le (hc : Foreign c) {inside : Text}
    (h : ∀ t ∈ splitTopLevel (· = ',') inside, (shorten t).count c ≤ t.count c) :
    (Text.join ", ".toList ((splitTopLevel (· = ',') inside).map shorten)).count c ≤ inside.count c := by
  have hsigns : c ∉ ", ".toList ∧ c ∉ [','] :=
    ⟨hc.not_mem (Text.of_all rfl), hc.not_mem (Text.of_all rfl)⟩
  have hjoin {separator : Text} (hs : c ∉ separator) (ts : List Text) :
      (Text.join separator ts).count c = (ts.map (List.count c)).sum := by
    induction ts with
    | nil => rfl
    | cons t ts ih =>
      by_cases hts : ts = []
      · simp [hts, Text.join]
      · rw [Text.join_cons hts, List.count_append, List.count_append, List.count_eq_zero.mpr hs, ih,
          List.map_cons, List.sum_cons, Nat.add_zero]
  rw [hjoin hsigns.1, List.map_map]
  calc ((splitTopLevel (· = ',') inside).map (List.count c ∘ shorten)).sum
      ≤ ((splitTopLevel (· = ',') inside).map (List.count c)).sum := List.sum_le_sum h
    _ ≤ ((pieces (· = ',') 0 inside).map (List.count c)).sum := by
        rw [splitTopLevel]
        split
        · exact Nat.zero_le _
        · rw [List.map_map]
          exact List.sum_le_sum fun piece _ => (Text.infix_trim piece).sublist.count_le c
    _ = inside.count c := by rw [← hjoin hsigns.2, join_pieces]

private theorem count_generic_label_le (hc : Foreign c) {inside : Text}
    (h : ∀ t ∈ splitTopLevel (· = ',') inside, (shorten t).count c ≤ t.count c)
    (raw name rest : Text) :
    (Form.label shorten raw (.generic name (splitTopLevel (· = ',') inside) rest)).count c ≤
      (name ++ '<' :: (inside ++ '>' :: rest)).count c := by
  have hhead := count_shortHead_le hc name
  have harguments := count_arguments_le hc h
  simp only [Form.label, List.count_append, List.count_cons]
  omega

private theorem count_shorten_le (hc : Foreign c) (raw : Text) : (shorten raw).count c ≤ raw.count c := by
  induction raw using shorten_induct with
  | h raw ih =>
    have hreference := count_reference_le hc raw
    have hexpanded := Nat.le_trans (count_expandArity_le hc (reference raw)) hreference
    have hfound := found_form raw
    rw [shorten_eq]
    generalize form raw = f at hfound ih
    cases hfound with
    | @byReference referent hmark =>
      have hword : c ∉ "ref ".toList := hc.not_mem (Text.of_all rfl)
      have hreferent := ih referent (List.mem_singleton_self referent)
      rw [hmark, List.count_append] at hreference
      rw [Form.label, List.count_append, List.count_eq_zero.mpr hword]
      omega
    | plain _ _ => exact Nat.le_trans (count_shortHead_le hc _) hexpanded
    | broken => exact Nat.le_refl _
    | @generic name inside rest _ hclosed =>
      rw [(eq_of_enclosed_closed hclosed).1] at hexpanded
      exact Nat.le_trans (count_generic_label_le hc ih raw name rest) hexpanded

/-! ### Texts that come back -/

/-- The text is parsed, and there is nothing in it to shorten: no blanks at its ends, no braces, no markers
to expand, no dot in the name before the first list, and the arguments in the list are the labels of
arguments. -/
def IsOwnLabel (raw : Text) : Prop :=
  reference raw = raw ∧ expandArity raw = raw ∧
    match form raw with
    | .plain name => '.' ∉ name
    | .generic name arguments rest => '.' ∉ name ∧
        raw = name ++ '<' :: Text.join ", ".toList (arguments.map shorten) ++ '>' :: rest
    | _ => False

variable {raw : Text}

private theorem IsOwnLabel.shorten_eq_self (h : IsOwnLabel raw) : shorten raw = raw := by
  obtain ⟨hreference, hexpanded, hform⟩ := h
  have hfound := found_form raw
  rw [shorten_eq]
  generalize form raw = f at hfound hform
  cases hfound with
  | byReference => exact hform.elim
  | plain => rw [Form.label, shortHead_of_not_mem hform, hreference, hexpanded]
  | broken => exact hform.elim
  | generic =>
    rw [Form.label, shortHead_of_not_mem hform.1]
    exact hform.2.symm

/-- A text with a mark for references never comes back, because the mark is gone. -/
theorem shorten_byReference_ne {referent : Text} (h : form raw = .byReference referent) :
    shorten raw ≠ raw := by
  intro he
  have hmark : reference raw = referent ++ ['@'] := by
    have hfound := found_form raw
    rw [h] at hfound
    cases hfound with
    | byReference hmark => exact hmark
  have hlabel : raw = "ref ".toList ++ shorten referent := by
    have heq := shorten_eq raw
    rw [he, h] at heq
    exact heq
  have hcount := congrArg (List.count '@') hlabel
  have hreferent := count_shorten_le (c := '@') (by decide) referent
  have hreference := count_reference_le (c := '@') (by decide) raw
  have hword : List.count '@' "ref ".toList = 0 := by decide
  rw [List.count_append] at hcount
  rw [hmark, List.count_append, List.count_singleton_self] at hreference
  omega

/-- When nothing foreign was lost, the text was only trimmed before it was looked at. -/
theorem reference_eq_trim (h : ∀ c, Foreign c → raw.count c ≤ (expandArity (reference raw)).count c) :
    reference raw = Text.trim raw ∧ expandArity (Text.trim raw) = Text.trim raw := by
  have hbrace {c : Char} (hc : Foreign c) (hn : c ∉ expandArity (reference raw)) : c ∉ Text.trim raw := by
    have hle := h c hc
    rw [List.count_eq_zero.mpr hn] at hle
    exact fun hm => List.count_eq_zero.mp (Nat.le_zero.mp hle) (Text.mem_trim hm)
  have hbraces := not_mem_expandArity_reference raw
  have hreference : reference raw = Text.trim raw :=
    bracesToAngles_eq_self (hbrace (by decide) hbraces.1) (hbrace (by decide) hbraces.2)
  refine ⟨hreference, ?_⟩
  rw [← hreference]
  refine (expandArity_eq_or_count_lt (reference raw)).resolve_right fun hlt => ?_
  have hticks := h '`' (by decide)
  have hlooked := count_reference_le (c := '`') (by decide) raw
  omega

private theorem trim_eq_self_of_same_ends (hfirst : raw.head? = (Text.trim raw).head?)
    (hlast : raw.getLast? = (Text.trim raw).getLast?) : Text.trim raw = raw := by
  refine Text.trim_eq_self_of_ends (fun c hc => ?_) (fun c hc => ?_)
  · rw [hfirst] at hc
    exact Text.isBlank_head?_trim hc
  · rw [hlast] at hc
    exact Text.isBlank_getLast?_trim hc

/-- A text that has the head and the end of what is left of it without blanks around has none. -/
private theorem trim_eq_self_of_lists {name inside labels rest : Text}
    (htrim : Text.trim raw = name ++ '<' :: inside ++ '>' :: rest)
    (hraw : raw = name ++ '<' :: labels ++ '>' :: rest) : Text.trim raw = raw := by
  have hhead (within : Text) : (name ++ '<' :: within ++ '>' :: rest).head? =
      (name ++ ['<']).head? := by
    cases name <;> rfl
  have hlast (front : Text) : (front ++ '>' :: rest).getLast? = ('>' :: rest).getLast? :=
    List.getLast?_append_of_ne_nil front (List.cons_ne_nil _ _)
  refine trim_eq_self_of_same_ends ?_ ?_
  · rw [htrim, hhead]
    exact (congrArg List.head? hraw).trans (hhead labels)
  · rw [htrim, hlast]
    exact (congrArg List.getLast? hraw).trans (hlast _)

private theorem isOwnLabel_of_shorten_eq_self (hparsed : form raw ≠ .broken) (he : shorten raw = raw) :
    IsOwnLabel raw := by
  have hlabel : raw = (form raw).label shorten raw := he.symm.trans (shorten_eq raw)
  have hmarked := @shorten_byReference_ne raw
  have hfound := found_form raw
  rw [IsOwnLabel]
  generalize form raw = f at hparsed hlabel hmarked hfound
  cases hfound with
  | byReference => exact absurd he (hmarked rfl)
  | broken => exact absurd rfl hparsed
  | plain _ _ =>
    rw [Form.label] at hlabel
    obtain ⟨hreference, hexpanded⟩ := reference_eq_trim fun c hc => by
      have hcount := count_shortHead_le hc (expandArity (reference raw))
      rwa [← hlabel] at hcount
    rw [hreference, hexpanded] at hlabel ⊢
    have hdot : '.' ∉ Text.trim raw := by
      intro hm
      have hmem := Text.mem_trim hm
      rw [hlabel] at hmem
      exact dot_not_mem_shortHead _ hmem
    have htrim : Text.trim raw = raw := by
      rw [shortHead_of_not_mem hdot] at hlabel
      exact hlabel.symm
    rw [htrim] at hexpanded ⊢
    exact ⟨rfl, hexpanded, htrim ▸ hdot⟩
  | @generic name inside rest _ hclosed =>
    have hsplit := (eq_of_enclosed_closed hclosed).1
    have hparts {c : Char} (hc : Foreign c) : ∀ t ∈ splitTopLevel (· = ',') inside,
        (shorten t).count c ≤ t.count c := fun t _ => count_shorten_le hc t
    obtain ⟨hreference, hexpanded⟩ := reference_eq_trim fun c hc => by
      have hcount := count_generic_label_le hc (hparts hc) raw name rest
      rwa [← hlabel, ← hsplit] at hcount
    rw [hreference, hexpanded] at hsplit
    rw [Form.label] at hlabel
    have hdot : '.' ∉ name := by
      -- The head of the label has no dot, and the rest of it none more than the text has there.
      have hforeign : Foreign '.' := by decide
      have htrim := (Text.infix_trim raw).sublist.count_le '.'
      have hcount := congrArg (List.count '.') hlabel
      have harguments := count_arguments_le hforeign (hparts hforeign)
      rw [hsplit] at htrim
      simp only [List.count_append, List.count_cons,
        List.count_eq_zero.mpr (dot_not_mem_shortHead name)] at htrim hcount
      exact List.count_eq_zero.mp (by omega)
    rw [shortHead_of_not_mem hdot] at hlabel
    have htrim : Text.trim raw = raw :=
      trim_eq_self_of_lists (by simpa using hsplit) (by simpa using hlabel)
    rw [htrim] at hreference hexpanded
    exact ⟨hreference, hexpanded, hdot, hlabel⟩

/-- A text that is parsed comes back unchanged exactly if there is nothing in it to shorten. -/
theorem shorten_eq_self_iff : shorten raw = raw ↔ form raw = .broken ∨ IsOwnLabel raw := by
  constructor
  · intro he
    by_cases hbroken : form raw = .broken
    · exact Or.inl hbroken
    · exact Or.inr (isOwnLabel_of_shorten_eq_self hbroken he)
  · rintro (hbroken | hown)
    · rw [shorten_eq, hbroken]
      rfl
    · exact hown.shorten_eq_self

/-! ### Brackets that are overlooked -/

/-- Where the angle brackets of a text of this form do not match. A text that is not closed is no such
text. -/
def Form.Overlooks : Form → Prop
  | byReference referent => ¬ Nested ['<'] (bracesToAngles referent)
  | plain name => '>' ∈ name
  | broken => False
  | generic name _ rest => '>' ∈ name ∨ ¬ Nested ['<'] rest

private theorem nested_iff_closer_not_mem {t : Text} (h : '<' ∉ t) : Nested ['<'] t ↔ '>' ∉ t := by
  refine ⟨fun hn => hn.closer_not_mem rfl h, fun hn => nested_of_forall fun c hc => ?_⟩
  refine (neutral_singleton_iff rfl).mpr ⟨?_, ?_⟩ <;> rintro rfl <;> contradiction

/-- The angle brackets of a text match exactly if its first list is closed and no bracket is overlooked. -/
theorem nested_iff_form (raw : Text) :
    Nested ['<'] (bracesToAngles raw) ↔ form raw ≠ .broken ∧ ¬ (form raw).Overlooks := by
  have hangles : ∀ t ∈ (form raw).parts, bracesToAngles t = t := fun t => bracesToAngles_part
  have hfound := found_form raw
  rw [← nested_reference_iff, ← nested_expandArity_iff]
  generalize form raw = f at hfound hangles
  cases hfound with
  | @byReference referent hmark =>
    have hmarked : Nested ['<'] ([] ++ referent ++ ['@']) ↔ Nested ['<'] referent :=
      nested_between (List.forall_mem_nil _) (List.forall_mem_singleton.mpr (by decide))
    rw [nested_expandArity_iff, hmark, Form.Overlooks, hangles referent (List.mem_singleton_self referent),
      not_not]
    exact hmarked.trans (and_iff_right nofun).symm
  | plain _ hplain =>
    rw [nested_iff_closer_not_mem hplain]
    exact (and_iff_right nofun).symm
  | broken _ hbroken =>
    have hpartner : partner? ['<'] '<' = some '>' := rfl
    exact iff_of_false (fun hn => hn.enclosed_ne_unclosed hpartner _ _ hbroken) fun hn => hn.1 rfl
  | generic _ hclosed =>
    obtain ⟨hsplit, hname⟩ := eq_of_enclosed_closed hclosed
    rw [hsplit, nested_around_iff rfl hname (nested_of_enclosed rfl hclosed), Form.Overlooks, not_or,
      not_not]
    exact (and_iff_right nofun).symm

/-- A text whose angle brackets do not match comes back unchanged when its first list of arguments is not
closed, or when there is nothing in it to shorten, and in no other case. If the first list is closed, or
there is none, the brackets that do not match stand before or behind it, or in front of a mark for
references. -/
theorem unbalanced_texts_come_back_when_not_closed (h : ¬ Nested ['<'] (bracesToAngles raw)) :
    (shorten raw = raw ↔ form raw = .broken ∨ IsOwnLabel raw) ∧
      (form raw = .broken ∨ (form raw).Overlooks) := by
  refine ⟨shorten_eq_self_iff, ?_⟩
  rw [nested_iff_form, not_and_or, not_not, not_not] at h
  exact h

/-- A list of arguments that is closed once more than it is opened. -/
def closedTwice : Text := "Ns.Foo\x7bBar\x7d\x7d".toList

theorem closedTwice_comes_back_when_not_closed :
    ¬ Nested ['<'] (bracesToAngles closedTwice) ∧
      (shorten closedTwice = closedTwice ↔ form closedTwice = .broken ∨ IsOwnLabel closedTwice) ∧
      (form closedTwice = .broken ∨ (form closedTwice).Overlooks) := by
  have h : ¬ Nested ['<'] (bracesToAngles closedTwice) := by decide +kernel
  exact ⟨h, unbalanced_texts_come_back_when_not_closed h⟩

/-- A closing bracket with nothing to close, and an open list with a mark for references behind it, do not
keep a text from being shortened. -/
theorem unbalanced_texts_are_shortened :
    (¬ Nested ['<'] (bracesToAngles "Ns.Foo>".toList) ∧ shorten "Ns.Foo>".toList = "Foo>".toList) ∧
      ¬ Nested ['<'] (bracesToAngles "Foo\x7bBar@".toList) ∧
      shorten "Foo\x7bBar@".toList = "ref Foo<Bar".toList := by
  decide +kernel

end ApiPages.Signature
