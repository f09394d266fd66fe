import ApiPages.Proofs.Text.Digit
import ApiPages.Proofs.Text.Lines
import ApiPages.Signature.Arity
import Mathlib.Data.List.DropRight

/-! Markers in a text, and the rules for them as passes over it: every character is kept, or a marker
is replaced with its image. A pass reads nothing across a character that ends names and markers. -/
namespace ApiPages.Signature

/-! ### Names of parameters -/

theorem isWordChar_of_isDigit {c : Char} (h : c.isDigit = true) : isWordChar c = true := by
  simp [isWordChar, Char.isAlphanum, h]

theorem isWordChar_of_mem_parameterName {n : Nat} {c : Char} (h : c ∈ parameterName n) :
    isWordChar c = true := by
  rcases List.mem_cons.mp h with rfl | h
  · decide
  · exact isWordChar_of_isDigit (Text.isDigit_of_mem_ofNat h)

theorem mem_parameterNames {n : Nat} {c : Char} (h : c ∈ parameterNames n) :
    isWordChar c = true ∨ c ∈ ['<', ',', '>'] := by
  rcases List.mem_append.mp h with h | h
  · rcases List.mem_cons.mp h with rfl | h
    · exact Or.inr (by decide)
    · rcases Text.mem_join h with h | ⟨t, ht, hc⟩
      · rw [List.mem_singleton.mp h]
        exact Or.inr (by decide)
      · obtain ⟨i, _, rfl⟩ := List.mem_map.mp ht
        exact Or.inl (isWordChar_of_mem_parameterName hc)
  · rw [List.mem_singleton.mp h]
    exact Or.inr (by decide)

/-! ### Reading -/

namespace Marker

/-- The marker as it stands in a text. -/
def text (m : Marker) : Text := List.replicate m.ticks '`' ++ m.digits

/-- What is read as a marker has backticks and decimal digits. -/
structure IsReadable (m : Marker) : Prop where
  ticks : 0 < m.ticks
  digits : m.digits ≠ []
  decimal : ∀ c ∈ m.digits, Text.isDigit c = true

/-- No decimal digit comes first. -/
def EndsDigits (t : Text) : Prop := ∀ c ∈ t.head?, Text.isDigit c = false

theorem length_text (m : Marker) : m.text.length = m.length := by
  rw [text, List.length_append, List.length_replicate, length]

theorem mem_text {m : Marker} (hm : m.IsReadable) {c : Char} (h : c ∈ m.text) :
    c = '`' ∨ Text.isDigit c = true :=
  (List.mem_append.mp h).imp List.eq_of_mem_replicate (hm.decimal c)

theorem getLast?_text {m : Marker} (hm : m.IsReadable) : m.text.getLast? = m.digits.getLast? :=
  List.getLast?_append_of_ne_nil _ hm.digits

theorem ne_backtick_of_isDigit {c : Char} (h : Text.isDigit c = true) : c ≠ '`' := by
  rintro rfl
  exact absurd h (by decide)

theorem IsReadable.exists_last {m : Marker} (hm : m.IsReadable) :
    ∃ c, m.digits.getLast? = some c ∧ Text.isDigit c = true :=
  ⟨_, List.getLast?_eq_some_getLast hm.digits, hm.decimal _ (List.getLast_mem hm.digits)⟩

private theorem read?_text {m : Marker} (hm : m.IsReadable) {rest : Text} (hrest : EndsDigits rest) :
    read? (m.text ++ rest) = some m := by
  have hall : ∀ c ∈ List.replicate m.ticks '`', decide (c = '`') = true := by
    intro c hc
    rw [List.eq_of_mem_replicate hc]
    rfl
  obtain ⟨d, ds, hds⟩ := List.exists_cons_of_ne_nil hm.digits
  have hd : ¬ decide (d = '`') = true := by
    have hdigit := hm.decimal d (hds ▸ List.mem_cons_self)
    simpa using ne_backtick_of_isDigit hdigit
  have hticks : (m.digits ++ rest).takeWhile (· = '`') = [] := by
    rw [hds]
    exact List.takeWhile_cons_of_neg hd
  have hdigits : (m.digits ++ rest).dropWhile (· = '`') = m.digits ++ rest := by
    rw [hds]
    exact List.dropWhile_cons_of_neg hd
  have hend : rest.takeWhile Text.isDigit = [] := by
    cases rest with
    | nil => rfl
    | cons c cs => exact List.takeWhile_cons_of_neg (by simp [hrest c rfl])
  have hsome : ((List.replicate m.ticks '`').isEmpty || m.digits.isEmpty) = false := by
    rw [List.isEmpty_replicate, List.isEmpty_eq_false_iff.mpr hm.digits, Bool.or_false]
    exact decide_eq_false (Nat.ne_of_gt hm.ticks)
  rw [read?, text, List.append_assoc, List.takeWhile_append_of_pos hall,
    List.dropWhile_append_of_pos hall, hticks, hdigits, List.takeWhile_append_of_pos hm.decimal,
    hend, List.append_nil, List.append_nil]
  simp only [hsome]
  rw [if_neg Bool.false_ne_true, List.length_replicate]

/-- A text is read as a marker when one stands at its beginning, with all its digits. -/
theorem read?_eq_some_iff {t : Text} {m : Marker} :
    read? t = some m ↔ m.IsReadable ∧ ∃ rest, t = m.text ++ rest ∧ EndsDigits rest := by
  constructor
  · intro h
    simp only [read?] at h
    split at h
    · cases h
    · next hsome =>
      cases h
      rw [Bool.or_eq_true, not_or, List.isEmpty_iff, List.isEmpty_iff] at hsome
      obtain ⟨hticks, hdigits⟩ := hsome
      have hrun : List.replicate (t.takeWhile (· = '`')).length '`' = t.takeWhile (· = '`') := by
        refine (List.eq_replicate_of_mem fun c hc => ?_).symm
        have htick := List.mem_takeWhile_imp hc
        exact of_decide_eq_true htick
      refine ⟨⟨List.length_pos_of_ne_nil hticks, hdigits, fun c hc => List.mem_takeWhile_imp hc⟩,
        (t.dropWhile (· = '`')).dropWhile Text.isDigit, ?_, fun c hc => ?_⟩
      · rw [text, hrun, List.append_assoc, List.takeWhile_append_dropWhile,
          List.takeWhile_append_dropWhile]
      · have hnot := List.head?_dropWhile_not Text.isDigit (t.dropWhile (· = '`'))
        rw [Option.mem_def.mp hc] at hnot
        simpa using hnot
  · rintro ⟨hm, rest, rfl, hrest⟩
    exact read?_text hm hrest

private theorem read?_of_ne {c : Char} (hc : c ≠ '`') (t : Text) : read? (c :: t) = none := by
  rw [read?, List.takeWhile_cons_of_neg (by simpa using hc)]
  rfl

/-- A character that is no part of a marker hides what stands behind it. -/
theorem read?_append_cons {c : Char} (hc : c ≠ '`') (hd : Text.isDigit c = false) (t u : Text) :
    read? (t ++ c :: u) = read? t := by
  refine Option.ext fun m => ?_
  rw [read?_eq_some_iff, read?_eq_some_iff]
  refine and_congr_right fun hm => ⟨?_, ?_⟩
  · rintro ⟨rest, hsplit, hrest⟩
    have hnot : c ∉ m.text := by
      intro h
      rcases mem_text hm h with h | h
      · exact hc h
      · rw [hd] at h
        cases h
    rcases List.append_eq_append_iff.mp hsplit with ⟨more, htext, hmore⟩ | ⟨more, rfl, rfl⟩
    · cases more with
      | nil => exact ⟨[], by rw [htext, List.append_nil, List.append_nil], fun _ h => nomatch h⟩
      | cons d ds =>
        rw [List.cons_append, List.cons.injEq] at hmore
        rw [htext, ← hmore.1] at hnot
        exact absurd (List.mem_append_right t List.mem_cons_self) hnot
    · refine ⟨more, rfl, fun d h => hrest d ?_⟩
      rw [List.head?_append, Option.mem_def.mp h]
      rfl
  · rintro ⟨rest, rfl, hrest⟩
    refine ⟨rest ++ c :: u, List.append_assoc _ _ _, fun d h => ?_⟩
    cases rest with
    | nil => exact Option.some.inj h ▸ hd
    | cons d' ds => exact hrest d h

/-- The number of backticks of the marker that the text begins with. -/
def ticks? (t : Text) : Option Nat := (read? t).map Marker.ticks

theorem ticks?_of_ne {c : Char} (hc : c ≠ '`') (t : Text) : ticks? (c :: t) = none := by
  rw [ticks?, read?_of_ne hc]
  rfl

theorem ticks?_backtick_backtick (t : Text) :
    ticks? ('`' :: '`' :: t) = (ticks? ('`' :: t)).map (· + 1) := by
  have htake : ('`' :: t).takeWhile (· = '`') = '`' :: t.takeWhile (· = '`') :=
    List.takeWhile_cons_of_pos rfl
  have hdrop : ('`' :: t).dropWhile (· = '`') = t.dropWhile (· = '`') :=
    List.dropWhile_cons_of_pos rfl
  simp only [ticks?, read?, List.takeWhile_cons_of_pos, List.dropWhile_cons_of_pos, htake, hdrop,
    decide_true, List.isEmpty_cons, Bool.false_or]
  split <;> rfl

theorem ticks?_backtick_cons {c : Char} (hc : c ≠ '`') (t : Text) :
    ticks? ('`' :: c :: t) = if Text.isDigit c then some 1 else none := by
  have htake : (c :: t).takeWhile (· = '`') = [] := List.takeWhile_cons_of_neg (by simpa using hc)
  have hdrop : (c :: t).dropWhile (· = '`') = c :: t :=
    List.dropWhile_cons_of_neg (by simpa using hc)
  simp only [ticks?, read?, List.takeWhile_cons_of_pos, List.dropWhile_cons_of_pos, htake, hdrop,
    decide_true, List.isEmpty_cons, Bool.false_or, List.takeWhile_cons]
  cases Text.isDigit c <;> rfl

end Marker

/-! ### Passes -/

/-- The character before a place is the last one that was passed, or the one before all of them. -/
theorem getLast?_cons_or (c : Char) (cs : Text) (before : Option Char) :
    (c :: cs).getLast?.or before = cs.getLast?.or (some c) := by
  rw [List.getLast?_cons]
  cases cs.getLast? <;> rfl

namespace MarkerRule

open Marker

variable (rule : MarkerRule)

theorem applyFrom_cons {before : Option Char} {c : Char} {cs : Text}
    (h : rule.find? before (c :: cs) = none) :
    rule.applyFrom 0 before (c :: cs) = c :: rule.applyFrom 0 (some c) cs := by
  rw [applyFrom, h]

theorem find?_of_ne {c : Char} (hc : c ≠ '`') (before : Option Char) (cs : Text) :
    rule.find? before (c :: cs) = none := by
  rw [find?, read?_of_ne hc]
  rfl

theorem applyFrom_append {t : Text} (h : '`' ∉ t) (before : Option Char) (rest : Text) :
    rule.applyFrom 0 before (t ++ rest) =
      t ++ rule.applyFrom 0 (t.getLast?.or before) rest := by
  induction t generalizing before with
  | nil => rfl
  | cons c cs ih =>
    rw [List.mem_cons, not_or] at h
    rw [List.cons_append, rule.applyFrom_cons (rule.find?_of_ne (Ne.symm h.1) _ _), ih h.2,
      getLast?_cons_or]
    rfl

theorem apply_of_not_mem {t : Text} (h : '`' ∉ t) : rule.apply t = t := by
  have he := rule.applyFrom_append h none []
  rw [List.append_nil] at he
  rw [apply, he, applyFrom, List.append_nil]

theorem find?_text {m : Marker} (hm : m.IsReadable) {rest : Text} (hrest : EndsDigits rest)
    (before : Option Char) : rule.find? before (m.text ++ rest) =
      if rule.applies before m rest then some m else none := by
  rw [find?, read?_text hm hrest, Option.filter_some, List.drop_left' m.length_text]

private theorem applyFrom_length (skipped : Text) (before : Option Char) (rest : Text) :
    rule.applyFrom skipped.length before (skipped ++ rest) =
      rule.applyFrom 0 (skipped.getLast?.or before) rest := by
  induction skipped generalizing before with
  | nil => rfl
  | cons c cs ih =>
    rw [List.length_cons, List.cons_append, applyFrom, ih, getLast?_cons_or]

/-- A marker to which the rule applies is replaced, and the pass goes on behind it. -/
theorem applyFrom_text {m : Marker} (hm : m.IsReadable) {rest : Text} (hrest : EndsDigits rest)
    {before : Option Char} (happlies : rule.applies before m rest = true) :
    rule.applyFrom 0 before (m.text ++ rest) =
      rule.image m ++ rule.applyFrom 0 m.digits.getLast? rest := by
  have hfind := rule.find?_text hm hrest before
  have hlast := getLast?_text hm
  have hlength := m.length_text
  rw [if_pos happlies] at hfind
  cases htext : m.text with
  | nil => exact absurd (List.append_eq_nil_iff.mp htext).2 hm.digits
  | cons c cs =>
    rw [htext] at hfind hlast hlength
    have hskip : m.length - 1 = cs.length := by
      rw [← hlength, List.length_cons, Nat.add_sub_cancel]
    rw [List.cons_append, applyFrom]
    rw [List.cons_append] at hfind
    rw [hfind]
    simp only [hskip]
    rw [rule.applyFrom_length, ← hlast, ← getLast?_cons_or c cs none, Option.or_none]

/-- What a pass of the rule makes of a text behind a character: it keeps characters, and puts images in
the place of markers. -/
inductive Rewrites : Option Char → Text → Text → Prop
  | nil {before} : Rewrites before [] []
  | keep {before c rest out} : rule.find? before (c :: rest) = none → Rewrites (some c) rest out →
      Rewrites before (c :: rest) (c :: out)
  | replace {before m rest out} : m.IsReadable → EndsDigits rest →
      rule.applies before m rest = true → Rewrites m.digits.getLast? rest out →
      Rewrites before (m.text ++ rest) (rule.image m ++ out)

theorem rewrites_applyFrom (t : Text) (before : Option Char) :
    rule.Rewrites before t (rule.applyFrom 0 before t) := by
  -- A marker is taken as a whole, so the induction is on the length.
  induction hn : t.length using Nat.strong_induction_on generalizing t before with
  | _ n ih =>
    subst hn
    cases t with
    | nil => exact .nil
    | cons c cs =>
      cases hfind : rule.find? before (c :: cs) with
      | none =>
        rw [rule.applyFrom_cons hfind]
        exact .keep hfind (ih cs.length (Nat.lt_succ_self _) cs (some c) rfl)
      | some m =>
        rw [find?, Option.filter_eq_some_iff] at hfind
        obtain ⟨hread, happlies⟩ := hfind
        obtain ⟨hm, rest, hsplit, hrest⟩ := read?_eq_some_iff.mp hread
        have hpositive : 0 < m.text.length := by
          rw [m.length_text]
          exact Nat.add_pos_left hm.ticks _
        have hshorter : rest.length < (c :: cs).length := by
          rw [hsplit, List.length_append]
          exact Nat.lt_add_of_pos_left hpositive
        rw [hsplit, List.drop_left' m.length_text] at happlies
        rw [hsplit, rule.applyFrom_text hm hrest happlies]
        exact .replace hm hrest happlies (ih _ hshorter rest _ rfl)

variable {rule}

theorem Rewrites.eq_applyFrom {before : Option Char} {t out : Text}
    (h : rule.Rewrites before t out) : out = rule.applyFrom 0 before t := by
  induction h with
  | nil => rfl
  | keep hfind _ ih => rw [rule.applyFrom_cons hfind, ← ih]
  | replace hm hrest happlies _ ih => rw [rule.applyFrom_text hm hrest happlies, ← ih]

/-- For the rule it is the same whether the character stands at a place or the text begins or ends
there. -/
structure CutsAt (rule : MarkerRule) (c : Char) : Prop where
  backtick : c ≠ '`'
  digit : Text.isDigit c = false
  before : ∀ m rest, rule.applies (some c) m rest = rule.applies none m rest
  behind : ∀ before m rest more, rule.applies before m (rest ++ c :: more) =
    rule.applies before m rest

variable {c : Char}

theorem CutsAt.find?_append (hc : rule.CutsAt c) (before : Option Char) (t u : Text) :
    rule.find? before (t ++ c :: u) = rule.find? before t := by
  rw [find?, find?, read?_append_cons hc.backtick hc.digit]
  cases hread : read? t with
  | none => rfl
  | some m =>
    obtain ⟨-, rest, rfl, -⟩ := read?_eq_some_iff.mp hread
    rw [Option.filter_some, Option.filter_some, List.append_assoc,
      List.drop_left' m.length_text, List.drop_left' m.length_text, hc.behind]

private theorem CutsAt.applyFrom_behind (hc : rule.CutsAt c) (t : Text) :
    rule.applyFrom 0 (some c) t = rule.applyFrom 0 none t := by
  cases t with
  | nil => rfl
  | cons d ds =>
    have hfind : rule.find? (some c) (d :: ds) = rule.find? none (d :: ds) := by
      simp only [find?, hc.before]
    rw [applyFrom, applyFrom, hfind]

theorem CutsAt.applyFrom_append (hc : rule.CutsAt c) (before : Option Char) (t u : Text) :
    rule.applyFrom 0 before (t ++ c :: u) =
      rule.applyFrom 0 before t ++ c :: rule.applyFrom 0 none u := by
  have h := rule.rewrites_applyFrom t before
  generalize rule.applyFrom 0 before t = out at h
  induction h with
  | nil =>
    rw [List.nil_append, rule.applyFrom_cons (rule.find?_of_ne hc.backtick _ _),
      hc.applyFrom_behind]
    rfl
  | @keep before d rest out hfind hrest ih =>
    rw [← hc.find?_append before (d :: rest) u] at hfind
    rw [List.cons_append] at hfind ⊢
    rw [rule.applyFrom_cons hfind, ih]
    rfl
  | @replace before m rest out hm hrest happlies _ ih =>
    have hends : EndsDigits (rest ++ c :: u) := by
      cases rest with
      | nil => exact fun d hd => Option.some.inj hd ▸ hc.digit
      | cons d ds => exact hrest
    rw [← hc.behind before m rest u] at happlies
    rw [List.append_assoc, rule.applyFrom_text hm hends happlies, ih, List.append_assoc]

end MarkerRule

theorem expandArity_of_not_mem {t : Text} (h : '`' ∉ t) : expandArity t = t := by
  rw [expandArity, MarkerRule.apply_of_not_mem _ h, MarkerRule.apply_of_not_mem _ h,
    MarkerRule.apply_of_not_mem _ h]

end ApiPages.Signature
