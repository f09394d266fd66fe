import ApiPages.Proofs.Signature.Expansion
import Mathlib.Algebra.Group.Nat.Defs

/-! When the expansion of markers fails: at the first marker that is replaced with a number beyond the limit.
That takes a backtick with very many digits behind it, and the characters between which texts are taken apart
change nothing. -/
namespace ApiPages.Signature

open Marker (IsReadable EndsDigits ticks?)
open Text (DigitError digitLimit checkReading checkWriting)

/-- Somewhere in the text a backtick stands before so many digits that their number, or the next one, may be
beyond the limit. -/
def HasLongMarker (t : Text) : Prop :=
  ∃ digits, '`' :: digits <:+: t ∧ digitLimit ≤ digits.length ∧ ∀ c ∈ digits, Text.isDigit c = true

namespace Marker

private theorem digits_infix_text {m : Marker} (hm : m.IsReadable) : '`' :: m.digits <:+: m.text := by
  obtain ⟨ticks, hticks⟩ := Nat.exists_eq_succ_of_ne_zero (Nat.ne_of_gt hm.ticks)
  rw [text, hticks, Nat.succ_eq_add_one, List.replicate_succ', List.append_assoc]
  exact (List.suffix_append _ _).isInfix

private theorem digits_length_lt {m : Marker} (hm : m.IsReadable) {t : Text} (hlong : ¬ HasLongMarker t)
    (ht : '`' :: m.digits <:+: t) : m.digits.length < digitLimit :=
  Nat.lt_of_not_le fun hle => hlong ⟨m.digits, ht, hle, hm.decimal⟩

end Marker

/-! ### Replaced markers -/

namespace MarkerRule

variable (rule : MarkerRule)

/-- The markers that the rule replaces from a place on. -/
def replacedFrom (rule : MarkerRule) : Nat → Option Char → Text → List Marker
  | _, _, [] => []
  | skip + 1, _, c :: cs => rule.replacedFrom skip (some c) cs
  | 0, before, c :: cs =>
    match rule.find? before (c :: cs) with
    | some m => m :: rule.replacedFrom (m.length - 1) (some c) cs
    | none => rule.replacedFrom 0 (some c) cs

def replaced (rule : MarkerRule) (t : Text) : List Marker := rule.replacedFrom 0 none t

/-- The rule can be carried out when the check of every marker that it replaces succeeds. -/
theorem attemptFrom_eq (skip : Nat) (before : Option Char) (t : Text) :
    rule.attemptFrom skip before t =
      ((rule.replacedFrom skip before t).forM rule.check).map fun _ => rule.applyFrom skip before t := by
  induction t generalizing skip before with
  | nil => cases skip <;> rfl
  | cons c cs ih =>
    cases skip with
    | succ skip => exact ih skip (some c)
    | zero =>
      rw [attemptFrom, replacedFrom, applyFrom]
      cases rule.find? before (c :: cs) with
      | none =>
        simp only [ih]
        cases (rule.replacedFrom 0 (some c) cs).forM rule.check <;> rfl
      | some m =>
        have hboth : (m :: rule.replacedFrom (m.length - 1) (some c) cs).forM rule.check =
            rule.check m >>= fun _ => (rule.replacedFrom (m.length - 1) (some c) cs).forM rule.check := rfl
        simp only [ih, hboth]
        cases rule.check m with
        | error => rfl
        | ok => cases (rule.replacedFrom (m.length - 1) (some c) cs).forM rule.check <;> rfl

private theorem replacedFrom_cons {before : Option Char} {c : Char} {cs : Text}
    (h : rule.find? before (c :: cs) = none) :
    rule.replacedFrom 0 before (c :: cs) = rule.replacedFrom 0 (some c) cs := by
  rw [replacedFrom, h]

private theorem replacedFrom_length (skipped : Text) (before : Option Char) (rest : Text) :
    rule.replacedFrom skipped.length before (skipped ++ rest) =
      rule.replacedFrom 0 (skipped.getLast?.or before) rest := by
  induction skipped generalizing before with
  | nil => rfl
  | cons c cs ih => rw [List.length_cons, List.cons_append, replacedFrom, ih, getLast?_cons_or]

theorem replacedFrom_text {m : Marker} (hm : m.IsReadable) {rest : Text} (hrest : EndsDigits rest)
    {before : Option Char} (happlies : rule.applies before m rest = true) :
    rule.replacedFrom 0 before (m.text ++ rest) = m :: rule.replacedFrom 0 m.digits.getLast? rest := by
  have hfind := rule.find?_text hm hrest before
  have hlast := Marker.getLast?_text hm
  have hlength := m.length_text
  rw [if_pos happlies] at hfind
  cases htext : m.text with
  | nil => exact absurd (List.append_eq_nil_iff.mp htext).2 hm.digits
  | cons c cs =>
    rw [htext] at hfind hlast hlength
    have hskip : m.length - 1 = cs.length := by
      rw [← hlength, List.length_cons, Nat.add_sub_cancel]
    rw [List.cons_append] at hfind ⊢
    rw [replacedFrom, hfind]
    simp only [hskip]
    rw [rule.replacedFrom_length, ← hlast, ← getLast?_cons_or c cs none, Option.or_none]

variable {rule}

/-- A marker that is replaced stands in the text. -/
theorem Rewrites.infix_of_mem_replacedFrom {before : Option Char} {t out : Text}
    (h : rule.Rewrites before t out) {m : Marker} (hm : m ∈ rule.replacedFrom 0 before t) :
    m.IsReadable ∧ '`' :: m.digits <:+: t := by
  induction h with
  | nil => cases hm
  | keep hfind _ ih =>
    rw [rule.replacedFrom_cons hfind] at hm
    exact (ih hm).imp_right fun hwithin => hwithin.trans (List.suffix_cons _ _).isInfix
  | replace hread hrest happlies _ ih =>
    rw [rule.replacedFrom_text hread hrest happlies] at hm
    rcases List.mem_cons.mp hm with rfl | hm
    · exact ⟨hread, (Marker.digits_infix_text hread).trans (List.prefix_append _ _).isInfix⟩
    · exact (ih hm).imp_right fun hwithin => hwithin.trans (List.suffix_append _ _).isInfix

private theorem infix_of_mem_replaced {t : Text} {m : Marker} (hm : m ∈ rule.replaced t) :
    m.IsReadable ∧ '`' :: m.digits <:+: t :=
  (rule.rewrites_applyFrom t none).infix_of_mem_replacedFrom hm

private theorem replaced_of_not_mem {t : Text} (h : '`' ∉ t) : rule.replaced t = [] := by
  refine List.eq_nil_iff_forall_not_mem.mpr fun m hm => h ?_
  exact (infix_of_mem_replaced hm).2.subset List.mem_cons_self

private theorem CutsAt.replacedFrom_behind {c : Char} (hc : rule.CutsAt c) (t : Text) :
    rule.replacedFrom 0 (some c) t = rule.replacedFrom 0 none t := by
  cases t with
  | nil => rfl
  | cons d ds =>
    have hfind : rule.find? (some c) (d :: ds) = rule.find? none (d :: ds) := by
      simp only [find?, hc.before]
    rw [replacedFrom, replacedFrom, hfind]

private theorem CutsAt.replaced_append {c : Char} (hc : rule.CutsAt c) (t u : Text) :
    rule.replaced (t ++ c :: u) = rule.replaced t ++ rule.replaced u := by
  have hfrom {before : Option Char} {out : Text} (h : rule.Rewrites before t out) :
      rule.replacedFrom 0 before (t ++ c :: u) = rule.replacedFrom 0 before t ++ rule.replaced u := by
    induction h with
    | nil =>
      rw [List.nil_append, rule.replacedFrom_cons (rule.find?_of_ne hc.backtick _ _),
        hc.replacedFrom_behind]
      rfl
    | @keep before d rest out hfind _ ih =>
      have hfind' := hc.find?_append before (d :: rest) u
      rw [hfind] at hfind'
      rw [rule.replacedFrom_cons hfind, ← ih, List.cons_append]
      exact rule.replacedFrom_cons hfind'
    | @replace before m rest out hm hrest happlies _ ih =>
      have hends : EndsDigits (rest ++ c :: u) := by
        cases rest with
        | nil => exact fun d hd => Option.some.inj hd ▸ hc.digit
        | cons d ds => exact hrest
      have happlies' := hc.behind before m rest u
      rw [happlies] at happlies'
      rw [List.append_assoc, rule.replacedFrom_text hm hends happlies',
        rule.replacedFrom_text hm hrest happlies, ih, List.cons_append]
  exact hfrom (rule.rewrites_applyFrom t none)

/-- In a text with long markers only there is nothing to replace. -/
theorem ForShort.replacedFrom_eq_nil (hrule : rule.ForShort) {before : Option Char} {t : Text}
    (h : MarkersSatisfy (fun _ n => 2 < n) before t) : rule.replacedFrom 0 before t = [] := by
  induction t generalizing before with
  | nil => rfl
  | cons c cs ih => rw [rule.replacedFrom_cons (hrule.find?_eq_none h), ih h.2]

/-- No image, and nothing that comes behind one, begins with a digit. -/
def EndsRuns (rule : MarkerRule) : Prop :=
  ∀ {before m rest out last}, rule.applies before m rest = true → rule.Rewrites last rest out →
    EndsDigits (rule.image m ++ out)

/-- Digits that stand behind a place after a pass stood there before it. -/
theorem Rewrites.prefix_of_digits (hends : rule.EndsRuns) {before : Option Char} {t out digits : Text}
    (h : rule.Rewrites before t out) (hdigits : ∀ c ∈ digits, Text.isDigit c = true)
    (hstart : digits <+: out) : digits <+: t := by
  induction h generalizing digits with
  | nil => exact hstart
  | keep _ _ ih =>
    cases digits with
    | nil => exact List.nil_prefix
    | cons d ds =>
      rw [List.cons_prefix_cons] at hstart ⊢
      exact hstart.imp_right (ih (List.forall_mem_cons.mp hdigits).2)
  | replace _ _ happlies hrest =>
    cases digits with
    | nil => exact List.nil_prefix
    | cons d ds =>
      obtain ⟨more, hmore⟩ := hstart
      have hnot := hends happlies hrest d (by rw [← hmore]; rfl)
      rw [(List.forall_mem_cons.mp hdigits).1] at hnot
      cases hnot

/-- A pass makes no markers out of others. -/
theorem Rewrites.infix_of_digits (hrule : rule.ForShort) (hends : rule.EndsRuns)
    {before : Option Char} {t out digits : Text} (h : rule.Rewrites before t out)
    (hdigits : ∀ c ∈ digits, Text.isDigit c = true) (hwithin : '`' :: digits <:+: out) :
    '`' :: digits <:+: t := by
  induction h with
  | nil => exact hwithin
  | keep _ hrest ih =>
    rcases List.infix_cons_iff.mp hwithin with hstart | hlater
    · rw [List.cons_prefix_cons] at hstart
      obtain ⟨rfl, hstart⟩ := hstart
      have hsame := hrest.prefix_of_digits hends hdigits hstart
      exact (List.cons_prefix_cons.mpr ⟨rfl, hsame⟩).isInfix
    · exact (ih hlater).trans (List.suffix_cons _ _).isInfix
  | @replace _ m _ _ _ _ _ _ ih =>
    -- No backtick stands in an image, so the marker is behind it.
    have himage {s : Text} (hs : s <:+: rule.image m) : '`' ∉ s := fun hm => hrule.image m (hs.subset hm)
    rcases List.infix_append_iff.mp hwithin with hwhole | hlater | ⟨front, back, hsplit, hfront, hback⟩
    · exact absurd List.mem_cons_self (himage hwhole)
    · exact (ih hlater).trans (List.suffix_append _ _).isInfix
    · cases front with
      | nil =>
        rw [List.nil_append] at hsplit
        exact (ih (hsplit ▸ hback.isInfix)).trans (List.suffix_append _ _).isInfix
      | cons d ds =>
        rw [List.cons_append, List.cons.injEq] at hsplit
        exact absurd (hsplit.1 ▸ List.mem_cons_self) (himage hfront.isInfix)

end MarkerRule

private theorem HasLongMarker.of_apply {rule : MarkerRule} (hrule : rule.ForShort) (hends : rule.EndsRuns)
    {t : Text} (h : HasLongMarker (rule.apply t)) : HasLongMarker t := by
  obtain ⟨digits, hwithin, hlong, hdigits⟩ := h
  exact ⟨digits, (rule.rewrites_applyFrom t none).infix_of_digits hrule hends hdigits hwithin, hlong,
    hdigits⟩

/-! ### The expansion -/

private theorem endsRuns_placeholderRule : placeholderRule.EndsRuns := by
  intro _ _ _ _ _ _ _ c hc
  have hfirst : c = 'T' := (Option.some.inj hc).symm
  rw [hfirst]
  decide +kernel

private theorem endsRuns_redundantRule : redundantRule.EndsRuns := by
  intro before m rest out last happlies hrest
  have hangle : rest.head? = some '<' := by
    simp only [redundantRule, Bool.and_eq_true, beq_iff_eq] at happlies
    exact happlies.2
  obtain ⟨more, rfl⟩ := List.head?_eq_some_iff.mp hangle
  rw [hrest.eq_applyFrom, redundantRule.applyFrom_cons (redundantRule.find?_of_ne (by decide) _ _)]
  intro c hc
  have hfirst : c = '<' := (Option.some.inj hc).symm
  rw [hfirst]
  decide +kernel

/-- The text in which the last of the three rules looks for markers. -/
def withoutRedundant (t : Text) : Text := redundantRule.apply (placeholderRule.apply t)

private theorem HasLongMarker.of_withoutRedundant {t : Text} (h : HasLongMarker (withoutRedundant t)) :
    HasLongMarker t :=
  (h.of_apply forShort_redundantRule endsRuns_redundantRule).of_apply forShort_placeholderRule
    endsRuns_placeholderRule

/-- Whether no marker that is replaced has a number beyond the limit. -/
def numbersFit (t : Text) : Except DigitError Unit := do
  (placeholderRule.replaced t).forM placeholderRule.check
  (arityRule.replaced (withoutRedundant t)).forM arityRule.check

private theorem forM_eq_ok {check : Marker → Except DigitError Unit} {ms : List Marker}
    (h : ∀ m ∈ ms, check m = .ok ()) : ms.forM check = .ok () := by
  induction ms with
  | nil => rfl
  | cons m ms ih =>
    have hboth : (m :: ms).forM check = check m >>= fun _ => ms.forM check := rfl
    rw [List.forall_mem_cons] at h
    rw [hboth, h.1]
    exact ih h.2

theorem expandArity?_eq (t : Text) : expandArity? t = (numbersFit t).map fun _ => expandArity t := by
  have hredundant (u : Text) : redundantRule.attempt u = .ok (redundantRule.apply u) := by
    have hchecks : (redundantRule.replacedFrom 0 none u).forM redundantRule.check = .ok () :=
      forM_eq_ok fun _ _ => rfl
    rw [MarkerRule.attempt, redundantRule.attemptFrom_eq, hchecks]
    rfl
  have harity (u : Text) : arityRule.attempt u =
      ((arityRule.replaced u).forM arityRule.check).map fun _ => arityRule.apply u :=
    arityRule.attemptFrom_eq 0 none u
  have hplaceholder : placeholderRule.attempt t =
      ((placeholderRule.replaced t).forM placeholderRule.check).map fun _ => placeholderRule.apply t :=
    placeholderRule.attemptFrom_eq 0 none t
  rw [expandArity?, numbersFit, hplaceholder]
  cases (placeholderRule.replaced t).forM placeholderRule.check with
  | error => rfl
  | ok =>
    show redundantRule.attempt (placeholderRule.apply t) >>= arityRule.attempt = _
    rw [hredundant]
    exact harity _

/-! ### What does not matter -/

theorem numbersFit_of_isExpanded {t : Text} (h : IsExpanded t) : numbersFit t = .ok () := by
  have hsame : withoutRedundant t = t := by
    rw [withoutRedundant, MarkerRule.apply, MarkerRule.apply,
      forShort_placeholderRule.applyFrom_eq_self h, forShort_redundantRule.applyFrom_eq_self h]
  rw [numbersFit, hsame, MarkerRule.replaced, MarkerRule.replaced,
    forShort_placeholderRule.replacedFrom_eq_nil h, forShort_arityRule.replacedFrom_eq_nil h]
  rfl

section
variable {c : Char}

private theorem IsStop.withoutRedundant_append (h : IsStop c) (t u : Text) :
    withoutRedundant (t ++ c :: u) = withoutRedundant t ++ c :: withoutRedundant u := by
  rw [withoutRedundant, MarkerRule.apply, MarkerRule.apply, h.cutsAt_placeholderRule.applyFrom_append]
  exact h.cutsAt_redundantRule.applyFrom_append none _ _

/-- Behind a character that no rule reads across, a text without markers changes nothing. -/
theorem IsStop.numbersFit_append (h : IsStop c) {u : Text} (hu : '`' ∉ u) (t : Text) :
    numbersFit (t ++ c :: u) = numbersFit t := by
  have hsame : withoutRedundant u = u := by
    rw [withoutRedundant, MarkerRule.apply_of_not_mem _ hu, MarkerRule.apply_of_not_mem _ hu]
  rw [numbersFit, h.cutsAt_placeholderRule.replaced_append, h.withoutRedundant_append, hsame,
    h.cutsAt_arityRule.replaced_append, MarkerRule.replaced_of_not_mem hu,
    MarkerRule.replaced_of_not_mem hu, List.append_nil, List.append_nil]
  rfl

private theorem IsStop.numbersFit_cons (h : IsStop c) (t : Text) : numbersFit (c :: t) = numbersFit t := by
  have hplaceholder := h.cutsAt_placeholderRule.replaced_append [] t
  have hredundant := h.withoutRedundant_append [] t
  have harity := h.cutsAt_arityRule.replaced_append (withoutRedundant []) (withoutRedundant t)
  rw [← hredundant] at harity
  rw [List.nil_append] at hplaceholder harity
  rw [numbersFit, hplaceholder, harity]
  rfl

end

theorem numbersFit_between_blanks {front back : Text} (hfront : ∀ c ∈ front, Text.isBlank c = true)
    (hback : ∀ c ∈ back, Text.isBlank c = true) (t : Text) :
    numbersFit (front ++ t ++ back) = numbersFit t := by
  rw [List.append_assoc]
  induction front with
  | nil =>
    cases back with
    | nil => rw [List.append_nil, List.nil_append]
    | cons c cs =>
      have hcs : '`' ∉ cs := fun h =>
        (isStop_of_isBlank (hback _ (List.mem_cons_of_mem c h))).backtick rfl
      exact (isStop_of_isBlank (hback c List.mem_cons_self)).numbersFit_append hcs t
  | cons c cs ih =>
    rw [List.cons_append, (isStop_of_isBlank (hfront c List.mem_cons_self)).numbersFit_cons,
      ih fun d hd => hfront d (List.mem_cons_of_mem c hd)]

/-! ### Short numbers -/

private theorem digitsValue_lt (t : Text) : Text.digitsValue t < 10 ^ t.length := by
  have hdigit (c : Char) : (Text.digitValue? c).getD 0 < 10 := by
    cases hc : Text.digitValue? c with
    | none => decide
    | some d =>
      obtain ⟨start, _, hstart⟩ := List.exists_of_findSome?_eq_some hc
      split at hstart
      · next hin =>
        rw [Bool.and_eq_true, decide_eq_true_eq, decide_eq_true_eq] at hin
        rw [Option.getD_some, ← Option.some.inj hstart]
        omega
      · cases hstart
  induction t using List.reverseRecOn with
  | nil => decide
  | append_singleton t c ih =>
    have hc := hdigit c
    rw [Text.digitsValue] at ih ⊢
    rw [List.foldl_append, List.foldl_cons, List.foldl_nil, List.length_append, List.length_singleton,
      Nat.pow_succ]
    omega

/-- A number below the limit can be read, and the next one can be written. -/
theorem checks_of_length_lt {digits : Text} (h : digits.length < digitLimit) :
    checkReading digits = .ok () ∧ checkWriting (Text.digitsValue digits + 1) = .ok () := by
  have hlimit : 0 < digitLimit := Nat.lt_of_le_of_lt (Nat.zero_le _) h
  have hpow : 10 ^ digits.length < 10 ^ digitLimit := Nat.pow_lt_pow_right (by decide) h
  have hvalue := digitsValue_lt digits
  have hwritten : (Text.ofNat (Text.digitsValue digits + 1)).length ≤ digitLimit := by
    rw [Text.ofNat, Nat.toList_repr, Nat.length_toDigits_le_iff (by decide) hlimit]
    omega
  exact ⟨if_pos (Nat.le_of_lt h), if_pos hwritten⟩

/-- Only a backtick with very many digits behind it makes the expansion fail. -/
theorem numbersFit_of_not_hasLongMarker {t : Text} (h : ¬ HasLongMarker t) : numbersFit t = .ok () := by
  have hplaceholder : (placeholderRule.replaced t).forM placeholderRule.check = .ok () := by
    refine forM_eq_ok fun m hm => ?_
    obtain ⟨hread, hwithin⟩ := MarkerRule.infix_of_mem_replaced hm
    obtain ⟨hreading, hwriting⟩ := checks_of_length_lt (Marker.digits_length_lt hread h hwithin)
    show (do checkReading m.digits; checkWriting (m.value + 1)) = _
    rw [hreading]
    exact hwriting
  have harity : (arityRule.replaced (withoutRedundant t)).forM arityRule.check = .ok () := by
    refine forM_eq_ok fun m hm => ?_
    obtain ⟨hread, hwithin⟩ := MarkerRule.infix_of_mem_replaced hm
    have hlong : ¬ HasLongMarker (withoutRedundant t) := fun hlong => h hlong.of_withoutRedundant
    exact (checks_of_length_lt (Marker.digits_length_lt hread hlong hwithin)).1
  rw [numbersFit, hplaceholder]
  exact harity

end ApiPages.Signature
