import ApiPages.Proofs.Signature.Bracket
import ApiPages.Proofs.Signature.Writing

/-! The expansion of markers is complete: the markers it leaves have more than two backticks, and a text
that has no others is left alone. It can be done part by part, between characters that no rule reads
across. -/
namespace ApiPages.Signature

open Marker (ticks? ticks?_of_ne ticks?_backtick_cons ticks?_backtick_backtick)

/-! ### The markers of a text -/

/-- Every marker in the text has the property, which may depend on the character before it and on the
number of its backticks. -/
def MarkersSatisfy (P : Option Char → Nat → Prop) : Option Char → Text → Prop
  | _, [] => True
  | before, c :: cs =>
    (before ≠ some '`' → ∀ n ∈ ticks? (c :: cs), P before n) ∧ MarkersSatisfy P (some c) cs

section
variable {P Q : Option Char → Nat → Prop}

private theorem markersSatisfy_cons_of_ne {c : Char} (hc : c ≠ '`') (before : Option Char) (cs : Text) :
    MarkersSatisfy P before (c :: cs) ↔ MarkersSatisfy P (some c) cs := by
  rw [MarkersSatisfy, ticks?_of_ne hc]
  exact and_iff_right fun _ _ h => nomatch h

private theorem markersSatisfy_append {t : Text} (h : '`' ∉ t) (before : Option Char) (rest : Text) :
    MarkersSatisfy P before (t ++ rest) ↔ MarkersSatisfy P (t.getLast?.or before) rest := by
  induction t generalizing before with
  | nil => rfl
  | cons c cs ih =>
    rw [List.mem_cons, not_or] at h
    rw [List.cons_append, markersSatisfy_cons_of_ne (Ne.symm h.1), ih h.2, getLast?_cons_or]

private theorem MarkersSatisfy.of_append {before : Option Char} {t rest : Text}
    (h : MarkersSatisfy P before (t ++ rest)) : MarkersSatisfy P (t.getLast?.or before) rest := by
  induction t generalizing before with
  | nil => exact h
  | cons c cs ih =>
    rw [getLast?_cons_or]
    exact ih h.2

/-- At a character that is no part of a marker the text can be taken apart. -/
theorem markersSatisfy_append_cons {c : Char} (hc : c ≠ '`') (hd : Text.isDigit c = false)
    (before : Option Char) (t u : Text) :
    MarkersSatisfy P before (t ++ c :: u) ↔
      MarkersSatisfy P before t ∧ MarkersSatisfy P (some c) u := by
  induction t generalizing before with
  | nil =>
    rw [List.nil_append, markersSatisfy_cons_of_ne hc]
    exact (and_iff_right trivial).symm
  | cons d ds ih =>
    have hticks : ticks? (d :: ds ++ c :: u) = ticks? (d :: ds) := by
      rw [ticks?, Marker.read?_append_cons hc hd]
      rfl
    rw [List.cons_append] at hticks ⊢
    rw [MarkersSatisfy, hticks, ih, ← and_assoc]
    rfl

/-- Every marker may stand behind any character. -/
theorem markersSatisfy_any (t : Text) (before : Option Char) :
    MarkersSatisfy (fun _ _ => True) before t := by
  induction t generalizing before with
  | nil => trivial
  | cons c cs ih => exact ⟨fun _ _ _ => trivial, ih (some c)⟩

end

/-! ### What a pass leaves -/

namespace MarkerRule

/-- The rule is one for markers of one or two backticks, and brings in none. -/
structure ForShort (rule : MarkerRule) : Prop where
  ticks : ∀ {before m rest}, rule.applies before m rest = true → m.ticks ≤ 2
  before : ∀ {before m rest}, rule.applies before m rest = true → before ≠ some '`'
  image : ∀ m, '`' ∉ rule.image m

variable {rule : MarkerRule}

/-- A run of backticks to which the rule did not apply at its beginning is left as it is, with its
digits. -/
theorem Rewrites.ticks?_backtick (hrule : rule.ForShort) {rest out : Text}
    (h : rule.Rewrites (some '`') rest out) : ticks? ('`' :: out) = ticks? ('`' :: rest) := by
  induction rest generalizing out with
  | nil =>
    rw [h.eq_applyFrom, applyFrom]
  | cons c cs ih =>
    rw [h.eq_applyFrom]
    have hnone : rule.find? (some '`') (c :: cs) = none := by
      refine Option.filter_eq_none_iff.mpr fun m _ happlies => ?_
      exact hrule.before happlies rfl
    have hpass := rule.rewrites_applyFrom cs (some c)
    rw [rule.applyFrom_cons hnone]
    by_cases hc : c = '`'
    · rw [hc] at hpass ⊢
      rw [ticks?_backtick_backtick, ticks?_backtick_backtick, ih hpass]
    · rw [ticks?_backtick_cons hc, ticks?_backtick_cons hc]

/-- What a pass makes of the markers of a text. `R` relates the character before a place of the text
and the one before the same place of what comes out. -/
theorem Rewrites.markersSatisfy {P Q : Option Char → Nat → Prop}
    {R : Option Char → Option Char → Prop} (hrule : rule.ForShort)
    (hsame : ∀ c, R (some c) (some c))
    (hbehind : ∀ {before before' m rest}, R before before' → m.IsReadable →
      rule.applies before m rest = true →
      R m.digits.getLast? ((rule.image m).getLast?.or before'))
    (hkept : ∀ {before before' m rest}, R before before' → before' ≠ some '`' →
      P before m.ticks → rule.applies before m rest = false → Q before' m.ticks)
    (htick : ∀ {before}, R (some '`') before → before = some '`')
    {before before' : Option Char} {t out : Text} (h : rule.Rewrites before t out)
    (hmatch : R before before') (ht : MarkersSatisfy P before t) :
    MarkersSatisfy Q before' out := by
  induction h generalizing before' with
  | nil => trivial
  | @keep before c rest out hfind hrest ih =>
    refine ⟨fun hnot n hn => ?_, ih (hsame c) ht.2⟩
    have hc : c = '`' := by
      by_contra hc
      rw [ticks?_of_ne hc] at hn
      cases hn
    subst hc
    rw [hrest.ticks?_backtick hrule] at hn
    have hbefore : before ≠ some '`' := by
      rintro rfl
      exact hnot (htick hmatch)
    have hP := ht.1 hbefore n hn
    obtain ⟨m, hread, rfl⟩ := Option.map_eq_some_iff.mp hn
    rw [find?, hread, Option.filter_some] at hfind
    have happlies : rule.applies before m (('`' :: rest).drop m.length) = false := by
      split at hfind
      · cases hfind
      · next happlies => exact Bool.eq_false_iff.mpr happlies
    exact hkept hmatch hnot hP happlies
  | @replace before m rest out hm _ happlies _ ih =>
    rw [markersSatisfy_append (hrule.image m)]
    refine ih (hbehind hmatch hm happlies) ?_
    have hrest := ht.of_append
    rw [Marker.getLast?_text hm] at hrest
    obtain ⟨last, hlast, _⟩ := hm.exists_last
    rw [hlast] at hrest ⊢
    exact hrest

theorem ForShort.find?_eq_none (hrule : rule.ForShort) {before : Option Char} {c : Char} {cs : Text}
    (h : MarkersSatisfy (fun _ n => 2 < n) before (c :: cs)) : rule.find? before (c :: cs) = none := by
  refine Option.filter_eq_none_iff.mpr fun m hread happlies => ?_
  have hticks : ticks? (c :: cs) = some m.ticks := by
    rw [ticks?, hread]
    rfl
  exact Nat.not_lt_of_le (hrule.ticks happlies) (h.1 (hrule.before happlies) _ hticks)

/-- A text with long markers only is left alone. -/
theorem ForShort.applyFrom_eq_self (hrule : rule.ForShort) {before : Option Char} {t : Text}
    (h : MarkersSatisfy (fun _ n => 2 < n) before t) : rule.applyFrom 0 before t = t := by
  induction t generalizing before with
  | nil => rw [applyFrom]
  | cons c cs ih => rw [rule.applyFrom_cons (hrule.find?_eq_none h), ih h.2]

end MarkerRule

/-! ### The three rules -/

private theorem ne_backtick_of_afterName {before : Option Char} (h : afterName before = true) :
    before ≠ some '`' := by
  rintro rfl
  exact absurd h (by decide)

theorem forShort_placeholderRule : placeholderRule.ForShort where
  ticks h := by simp_all [placeholderRule]
  before h := by simp_all [placeholderRule]
  image _ h := absurd (isWordChar_of_mem_parameterName h) (by decide)

theorem forShort_redundantRule : redundantRule.ForShort where
  ticks h := by simp_all [redundantRule]
  before h := ne_backtick_of_afterName (by simp_all [redundantRule])
  image _ := List.not_mem_nil

theorem forShort_arityRule : arityRule.ForShort where
  ticks h := by simp_all [arityRule]
  before h := ne_backtick_of_afterName (by simp_all [arityRule])
  image _ h := (mem_parameterNames h).elim (fun h => absurd h (by decide)) (by decide)

/-- In front of a marker nothing else stands than it did, or a name. -/
def KeepsName (before before' : Option Char) : Prop :=
  (before = some '`' → before' = some '`') ∧ (afterName before = true → afterName before' = true)

/-- The markers of a text that have at most two backticks stand behind names. -/
def ShortBehindNames : Option Char → Text → Prop :=
  MarkersSatisfy fun before n => afterName before = true ∨ 2 < n

private theorem shortBehindNames_placeholders (t : Text) :
    ShortBehindNames none (placeholderRule.apply t) := by
  refine (placeholderRule.rewrites_applyFrom t none).markersSatisfy (R := KeepsName)
    (P := fun _ _ => True) forShort_placeholderRule (fun c => ⟨id, id⟩) ?_ ?_ (fun h => h.1 rfl)
    ⟨id, id⟩ (markersSatisfy_any t none)
  · intro before before' m rest _ hm _
    obtain ⟨last, hlast, hdigit⟩ := hm.exists_last
    obtain ⟨c, hc⟩ : ∃ c, (placeholderRule.image m).getLast? = some c :=
      ⟨_, List.getLast?_eq_some_getLast (List.cons_ne_nil _ _)⟩
    rw [hlast, hc]
    refine ⟨fun h => ?_, fun _ => isWordChar_of_mem_parameterName (List.mem_of_getLast? hc)⟩
    exact absurd (Option.some.inj h) (Marker.ne_backtick_of_isDigit hdigit)
  · intro before before' m rest hmatch hnot _ happlies
    by_cases hname : afterName before = true
    · exact Or.inl (hmatch.2 hname)
    · have hbefore : before ≠ some '`' := fun h => hnot (hmatch.1 h)
      refine Or.inr (Nat.lt_of_not_le fun hle => ?_)
      simp [placeholderRule, hname, hbefore, hle] at happlies

private theorem shortBehindNames_redundant {t : Text} (h : ShortBehindNames none t) :
    ShortBehindNames none (redundantRule.apply t) := by
  refine (redundantRule.rewrites_applyFrom t none).markersSatisfy (R := KeepsName)
    forShort_redundantRule (fun c => ⟨id, id⟩) ?_ ?_ (fun h => h.1 rfl) ⟨id, id⟩ h
  · intro before before' m rest hmatch hm happlies
    obtain ⟨last, hlast, hdigit⟩ := hm.exists_last
    have hname : afterName before = true := by
      simp_all [redundantRule]
    rw [hlast]
    refine ⟨fun h => ?_, fun _ => hmatch.2 hname⟩
    exact absurd (Option.some.inj h) (Marker.ne_backtick_of_isDigit hdigit)
  · intro before before' m rest hmatch _ hP _
    exact hP.imp_left hmatch.2

/-- Every marker in the text has more than two backticks. -/
def IsExpanded (t : Text) : Prop := MarkersSatisfy (fun _ n => 2 < n) none t

private theorem isExpanded_arity {t : Text} (h : ShortBehindNames none t) :
    IsExpanded (arityRule.apply t) := by
  refine (arityRule.rewrites_applyFrom t none).markersSatisfy
    (R := fun before before' => before = some '`' → before' = some '`')
    forShort_arityRule (fun _ => id) ?_ ?_ (fun h => h rfl) id h
  · intro before before' m rest _ hm _ hlast
    obtain ⟨last, hdigits, hdigit⟩ := hm.exists_last
    rw [hdigits] at hlast
    exact absurd (Option.some.inj hlast) (Marker.ne_backtick_of_isDigit hdigit)
  · intro before before' m rest _ _ hP happlies
    refine hP.elim (fun hname => Nat.lt_of_not_le fun hle => ?_) id
    simp [arityRule, hname, hle] at happlies

theorem isExpanded_expandArity (t : Text) : IsExpanded (expandArity t) :=
  isExpanded_arity (shortBehindNames_redundant (shortBehindNames_placeholders t))

theorem expandArity_of_isExpanded {t : Text} (h : IsExpanded t) : expandArity t = t := by
  rw [expandArity, MarkerRule.apply, MarkerRule.apply, MarkerRule.apply,
    forShort_placeholderRule.applyFrom_eq_self h, forShort_redundantRule.applyFrom_eq_self h,
    forShort_arityRule.applyFrom_eq_self h]

/-! ### Part by part -/

/-- No rule for markers reads across the character. -/
structure IsStop (c : Char) : Prop where
  backtick : c ≠ '`'
  digit : Text.isDigit c = false
  word : isWordChar c = false
  angle : c ≠ '<'

section
variable {c : Char}

theorem IsStop.cutsAt_placeholderRule (h : IsStop c) : placeholderRule.CutsAt c where
  backtick := h.backtick
  digit := h.digit
  before m rest := by
    have hc : (some c != some '`') = true := by simp [h.backtick]
    have hnone : (none != some '`') = true := rfl
    simp [placeholderRule, afterName, h.word, hc, hnone]
  behind _ _ _ _ := rfl

theorem IsStop.cutsAt_redundantRule (h : IsStop c) : redundantRule.CutsAt c where
  backtick := h.backtick
  digit := h.digit
  before m rest := by simp [redundantRule, afterName, h.word]
  behind before m rest more := by
    cases rest with
    | nil => simp [redundantRule, h.angle]
    | cons d ds => rfl

theorem IsStop.cutsAt_arityRule (h : IsStop c) : arityRule.CutsAt c where
  backtick := h.backtick
  digit := h.digit
  before m rest := by simp [arityRule, afterName, h.word]
  behind _ _ _ _ := rfl

theorem IsStop.expandArity_append (h : IsStop c) (t u : Text) :
    expandArity (t ++ c :: u) = expandArity t ++ c :: expandArity u := by
  have hplaceholder := h.cutsAt_placeholderRule.applyFrom_append none t u
  have hredundant := h.cutsAt_redundantRule.applyFrom_append none (placeholderRule.apply t)
    (placeholderRule.apply u)
  rw [expandArity, MarkerRule.apply, MarkerRule.apply, MarkerRule.apply, hplaceholder]
  exact (congrArg (arityRule.applyFrom 0 none) hredundant).trans
    (h.cutsAt_arityRule.applyFrom_append none _ _)

theorem isStop_of_isBlank (h : Text.isBlank c = true) : IsStop c where
  backtick := by
    rintro rfl
    exact absurd h (by decide)
  digit := Text.isDigit_of_isBlank h
  word := by
    refine Bool.eq_false_iff.mpr fun hword => ?_
    rw [(isPlain_cases (isPlain_of_isWordChar hword)).1] at h
    cases h
  angle := by
    rintro rfl
    exact absurd h (by decide)

end

theorem expandArity_between_blanks {front back : Text} (hfront : ∀ c ∈ front, Text.isBlank c = true)
    (hback : ∀ c ∈ back, Text.isBlank c = true) (t : Text) :
    expandArity (front ++ t ++ back) = front ++ expandArity t ++ back := by
  rw [List.append_assoc, List.append_assoc]
  induction front with
  | nil =>
    cases back with
    | nil =>
      rw [List.append_nil, List.append_nil]
      rfl
    | cons c cs =>
      have hcs : '`' ∉ cs := fun h =>
        (isStop_of_isBlank (hback _ (List.mem_cons_of_mem c h))).backtick rfl
      rw [List.nil_append, List.nil_append,
        (isStop_of_isBlank (hback c List.mem_cons_self)).expandArity_append,
        expandArity_of_not_mem hcs]
  | cons c cs ih =>
    have hc := isStop_of_isBlank (hfront c List.mem_cons_self)
    rw [List.cons_append, ← List.nil_append (c :: (cs ++ (t ++ back))), hc.expandArity_append,
      ih fun d hd => hfront d (List.mem_cons_of_mem c hd)]
    rfl

/-- Wherever an expanded text is taken apart, the parts are expanded. -/
theorem isExpanded_append_cons {c : Char} (hc : c ≠ '`') (hd : Text.isDigit c = false) (t u : Text) :
    IsExpanded (t ++ c :: u) ↔ IsExpanded t ∧ IsExpanded u := by
  rw [IsExpanded, markersSatisfy_append_cons hc hd]
  refine and_congr_right fun _ => ?_
  cases u with
  | nil => rfl
  | cons d ds =>
    rw [IsExpanded, MarkersSatisfy, MarkersSatisfy]
    simp [hc]

private theorem isExpanded_join {separator : Char} (hc : separator ≠ '`')
    (hd : Text.isDigit separator = false) {ts : List Text} :
    IsExpanded (Text.join [separator] ts) ↔ ∀ t ∈ ts, IsExpanded t := by
  induction ts with
  | nil => simp [Text.join, IsExpanded, MarkersSatisfy]
  | cons t ts ih =>
    rw [List.forall_mem_cons]
    by_cases hts : ts = []
    · subst hts
      simp [Text.join]
    · rw [Text.join_cons hts, List.append_assoc, List.singleton_append,
        isExpanded_append_cons hc hd, ih]

theorem IsExpanded.trim {t : Text} (h : IsExpanded t) : IsExpanded (Text.trim t) := by
  obtain ⟨front, back, hsplit, hfront, hback⟩ := Text.exists_blanks_around_trim t
  rw [hsplit] at h
  generalize Text.trim t = middle at h
  have hbehind : IsExpanded (middle ++ back) := by
    clear hsplit
    induction front with
    | nil => exact h
    | cons c cs ih =>
      have hc := isStop_of_isBlank (hfront c List.mem_cons_self)
      exact ih (fun d hd => hfront d (List.mem_cons_of_mem c hd))
        ((isExpanded_append_cons hc.backtick hc.digit [] _).mp h).2
  cases back with
  | nil => rwa [List.append_nil] at hbehind
  | cons c cs =>
    have hc := isStop_of_isBlank (hback c List.mem_cons_self)
    exact ((isExpanded_append_cons hc.backtick hc.digit middle cs).mp hbehind).1

theorem IsExpanded.of_mem_splitTopLevel {t piece : Text} (h : IsExpanded t)
    (hp : piece ∈ splitTopLevel (· = ',') t) : IsExpanded piece := by
  rw [splitTopLevel] at hp
  split at hp
  · cases hp
  · obtain ⟨whole, hw, rfl⟩ := List.mem_map.mp hp
    rw [← join_pieces ',' 0 t] at h
    exact ((isExpanded_join (by decide) (by decide)).mp h whole hw).trim

end ApiPages.Signature
