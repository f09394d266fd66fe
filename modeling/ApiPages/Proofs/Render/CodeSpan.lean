import ApiPages.Render.Content
import Mathlib.Data.List.Basic

/-! Code spans: when a reader of Markdown finds one in what stands for inline code, and which elements
are shown as inline code. -/
namespace ApiPages.Render

open Markup Markdown

/-! ### Runs of backticks -/

def ticks (n : Nat) : Text := List.replicate n '`'

/-- The text has a run of so many backticks, with no further backtick at its sides. -/
def HasRun (t : Text) (n : Nat) : Prop :=
  0 < n ∧ ∃ i < t.length, (t.take i).getLast? ≠ some '`' ∧ (t.drop i).take n = ticks n ∧
    (t.drop (i + n)).head? ≠ some '`'

instance (t : Text) (n : Nat) : Decidable (HasRun t n) :=
  inferInstanceAs (Decidable (_ ∧ ∃ i < _, _))

/-- No backtick at the beginning of the text, and none at its end. -/
def Untouched (t : Text) : Prop := t.head? ≠ some '`' ∧ t.getLast? ≠ some '`'

instance (t : Text) : Decidable (Untouched t) := inferInstanceAs (Decidable (_ ∧ _))

/-- One code span that holds the text, which is one line and not empty. It stands between two runs of
backticks, the text has no run of the same length, and neither of the two is longer with backticks of
the text: there is a space between, or the text has none at its ends. -/
def IsCodeSpan (span t : Text) : Prop :=
  t ≠ [] ∧ '\n' ∉ t ∧ ∃ n pad, 0 < n ∧ span = ticks n ++ pad ++ t ++ pad ++ ticks n ∧ ¬ HasRun t n ∧
    (pad = [' '] ∨ pad = [] ∧ Untouched t)

private theorem HasRun.backtick_mem {t : Text} {n : Nat} (h : HasRun t n) : '`' ∈ t := by
  obtain ⟨hn, i, -, -, hrun, -⟩ := h
  have hm : '`' ∈ ticks n := List.mem_replicate.mpr ⟨Nat.ne_of_gt hn, rfl⟩
  rw [← hrun] at hm
  exact List.mem_of_mem_drop (List.mem_of_mem_take hm)

private theorem untouched_of_not_mem {t : Text} (h : '`' ∉ t) : Untouched t :=
  ⟨fun hf => h (List.mem_of_mem_head? hf), fun hl => h (List.mem_of_mem_getLast? hl)⟩

private theorem length_of_delimited {n : Nat} {pad t left right : Text}
    (h : left ++ t ++ right = ticks n ++ pad ++ t ++ pad ++ ticks n) :
    left.length + right.length = 2 * (n + pad.length) := by
  have hlength := congrArg List.length h
  simp only [List.length_append, ticks, List.length_replicate] at hlength
  omega

/-! ### The two ways to write inline code -/

/-- Inline code is written as code, or as the title of a reference that leads nowhere. -/
inductive Quoting where
  | code
  | title

def Quoting.write : Quoting → Text → Text
  | .code, t => inlineCode t
  | .title, t => Link.markdown ⟨t, none⟩

/-- The backticks of the text leave the delimiter alone that is written around it. -/
def Quoting.Suits : Quoting → Text → Prop
  | .code, t => ¬ HasRun t 2
  | .title, t => ¬ HasRun t 1 ∧ Untouched t

instance (quoting : Quoting) (t : Text) : Decidable (quoting.Suits t) :=
  match quoting with
  | .code => inferInstanceAs (Decidable (¬ _))
  | .title => inferInstanceAs (Decidable (¬ _ ∧ _))

section
variable {t : Text} (hne : t ≠ []) (hline : '\n' ∉ t)
include hne hline

private theorem isCodeSpan_single_iff : IsCodeSpan ('`' :: t ++ ['`']) t ↔ ¬ HasRun t 1 ∧ Untouched t := by
  constructor
  · rintro ⟨-, -, n, pad, hn, hspan, hrun, hpad⟩
    have hlength := @length_of_delimited _ _ _ ['`'] ['`'] hspan
    rw [List.length_singleton] at hlength
    have hone : n = 1 ∧ pad.length = 0 := by omega
    obtain ⟨rfl, hnil⟩ := hone
    rw [List.length_eq_zero_iff] at hnil
    subst hnil
    exact ⟨hrun, (hpad.resolve_left (List.cons_ne_nil _ _).symm).2⟩
  · rintro ⟨hrun, hends⟩
    exact ⟨hne, hline, 1, [], Nat.one_pos, by simp [ticks], hrun, Or.inr ⟨rfl, hends⟩⟩

private theorem isCodeSpan_double_iff : IsCodeSpan ("`` ".toList ++ t ++ " ``".toList) t ↔ ¬ HasRun t 2 := by
  constructor
  · rintro ⟨-, -, n, pad, hn, hspan, hrun, hpad⟩
    have hlength := length_of_delimited hspan
    have hsides : "`` ".toList.length + " ``".toList.length = 6 := by decide
    rcases hpad with rfl | ⟨rfl, -⟩
    · have htwo : n = 2 := by
        rw [hsides, List.length_singleton] at hlength
        omega
      rwa [htwo] at hrun
    · -- Without a space there would be three backticks, but the third character is a space.
      have hthree : n = 3 := by
        rw [hsides, List.length_nil] at hlength
        omega
      subst hthree
      have hthird := congrArg (·[2]?) hspan
      simp [ticks] at hthird
  · exact fun hrun => ⟨hne, hline, 2, [' '], Nat.two_pos, by simp [ticks], hrun, Or.inl rfl⟩

private theorem Quoting.isCodeSpan_iff (quoting : Quoting) :
    IsCodeSpan (quoting.write t) t ↔ quoting.Suits t := by
  cases quoting with
  | title => exact isCodeSpan_single_iff hne hline
  | code =>
    rw [write, inlineCode]
    split
    · exact isCodeSpan_double_iff hne hline
    · next hnone =>
      have hback : '`' ∉ t := by simpa using hnone
      have hruns (n : Nat) : ¬ HasRun t n := fun h => hback h.backtick_mem
      rw [isCodeSpan_single_iff hne hline]
      exact ⟨fun _ => hruns 2, fun _ => ⟨hruns 1, untouched_of_not_mem hback⟩⟩

end

/-! ### The elements shown as inline code -/

/-- What the code for a reference without a place says: the text of the element or else the title that
belongs to the reference. -/
def unresolvedTitle (style : LinkStyle) (e : Element) : Text :=
  let title := Text.collapse e.innerText
  if title.isEmpty then (style.resolve (e.attr "cref".toList)).title else title

/-- The element is shown as inline code of the text. -/
inductive IsShownAsCode (style : LinkStyle) (e : Element) : Quoting → Text → Prop
  | parameter : Kind.ofTag e.tag = .parameter → IsShownAsCode style e .code (e.attr "name".toList)
  | code : Kind.ofTag e.tag = .inlineCode → '\n' ∉ Text.trim e.innerText →
      IsShownAsCode style e .code (Text.trim e.innerText)
  | keyword : Kind.ofTag e.tag = .reference → e.attr "cref".toList = [] →
      e.attr "href".toList = [] → e.attr "langword".toList ≠ [] →
      IsShownAsCode style e .code (e.attr "langword".toList)
  | unresolved : Kind.ofTag e.tag = .reference → e.attr "cref".toList ≠ [] →
      (style.resolve (e.attr "cref".toList)).href = none →
      IsShownAsCode style e .title (unresolvedTitle style e)

private theorem reference_keyword {style : LinkStyle} {e : Element} (hcref : e.attr "cref".toList = [])
    (hhref : e.attr "href".toList = []) (hword : e.attr "langword".toList ≠ []) :
    reference style e = inlineCode (e.attr "langword".toList) := by
  have hgiven : (!(e.attr "langword".toList).isEmpty) = true := by simpa using hword
  rw [reference, hcref, hhref, hgiven]
  rfl

private theorem reference_unresolved {style : LinkStyle} {e : Element} (hcref : e.attr "cref".toList ≠ [])
    (hplace : (style.resolve (e.attr "cref".toList)).href = none) :
    reference style e = Quoting.title.write (unresolvedTitle style e) := by
  have hlink : (style.resolve (e.attr "cref".toList)) =
      ⟨(style.resolve (e.attr "cref".toList)).title, none⟩ := by rw [← hplace]
  have hgiven : (!(e.attr "cref".toList).isEmpty) = true := by simpa using hcref
  rw [reference, hgiven, if_pos rfl, hlink, unresolvedTitle]
  split <;> rfl

private theorem code_of_line {style : LinkStyle} {content : Text} (h : '\n' ∉ Text.trim content) :
    code style true content = inlineCode (Text.trim content) := by
  have hline : (Text.trim content).contains '\n' = false := by simpa using h
  rw [code, hline]
  rfl

theorem IsShownAsCode.element_eq {style : LinkStyle} {e : Element} {quoting : Quoting} {t : Text}
    (h : IsShownAsCode style e quoting t) : (element style false e).1 = quoting.write t := by
  obtain ⟨tag, attributes, text, inner, tail⟩ := e
  cases h with
  | parameter hkind => simp only [element, hkind, Quoting.write]
  | code hkind hline =>
    simp only [element, hkind]
    exact code_of_line hline
  | keyword hkind hcref hhref hword =>
    simp only [element, hkind]
    exact reference_keyword hcref hhref hword
  | unresolved hkind hcref hplace =>
    simp only [element, hkind]
    exact reference_unresolved hcref hplace

/-- Inline code of a text, whether it is written as code or as the title of a reference without a place,
is one code span that holds the text exactly when the backticks of the text suit the delimiter: code
must not have a run of two of them, such a title not a single one, nor any at its ends. This is what
elements are shown as that stand for inline code. -/
theorem code_spans_suit_their_delimiters {quoting : Quoting} {t : Text} (hne : t ≠ [])
    (hline : '\n' ∉ t) :
    (IsCodeSpan (quoting.write t) t ↔ quoting.Suits t) ∧
      ∀ style e, IsShownAsCode style e quoting t → (element style false e).1 = quoting.write t :=
  ⟨quoting.isCodeSpan_iff hne hline, fun _ _ h => h.element_eq⟩

def referenceTo (cref : String) : Element :=
  ⟨"see".toList, [("cref".toList, cref.toList)], [], [], []⟩

def inlineCodeOf (text : String) : Element := ⟨"c".toList, [], text.toList, [], []⟩

/-- Two backticks inside of an unresolved title, and one inside of code, are told apart from the
delimiters. -/
theorem code_spans_suit_their_delimiters_inside :
    let style : LinkStyle := ⟨.default, false⟩
    let title := "Map``2.Of".toList
    let code := "List`1".toList
    IsShownAsCode style (referenceTo "!:Map``2.Of") .title title ∧
    IsShownAsCode style (inlineCodeOf " List`1 ") .code code ∧
    IsCodeSpan (element style false (referenceTo "!:Map``2.Of")).1 title ∧
    IsCodeSpan (element style false (inlineCodeOf " List`1 ")).1 code := by
  intro style title code
  have htitle : IsShownAsCode style (referenceTo "!:Map``2.Of") .title title := by
    have hsaid : unresolvedTitle style (referenceTo "!:Map``2.Of") = title := by decide +kernel
    rw [← hsaid]
    exact .unresolved (by decide) (by decide) (by decide +kernel)
  have hcode : IsShownAsCode style (inlineCodeOf " List`1 ") .code code :=
    .code (by decide) (by decide)
  obtain ⟨hspan, hshown⟩ := @code_spans_suit_their_delimiters .title title (by decide) (by decide)
  obtain ⟨hspan', hshown'⟩ := @code_spans_suit_their_delimiters .code code (by decide) (by decide)
  rw [hshown style _ htitle, hshown' style _ hcode]
  exact ⟨htitle, hcode, hspan.mpr (by decide), hspan'.mpr (by decide)⟩

/-- One backtick in an unresolved title closes the code, and so do two in code. -/
theorem code_is_closed_inside :
    let style : LinkStyle := ⟨.default, false⟩
    let title := "List`1".toList
    let code := "``0".toList
    IsShownAsCode style (referenceTo "!:List`1") .title title ∧
    (element style false (referenceTo "!:List`1")).1 = "`List`1`".toList ∧
    ¬ IsCodeSpan (element style false (referenceTo "!:List`1")).1 title ∧
    IsShownAsCode style (inlineCodeOf "``0") .code code ∧
    (element style false (inlineCodeOf "``0")).1 = "`` ``0 ``".toList ∧
    ¬ IsCodeSpan (element style false (inlineCodeOf "``0")).1 code := by
  intro style title code
  have htitle : IsShownAsCode style (referenceTo "!:List`1") .title title := by
    have hsaid : unresolvedTitle style (referenceTo "!:List`1") = title := by decide +kernel
    rw [← hsaid]
    exact .unresolved (by decide) (by decide) (by decide +kernel)
  have hcode : IsShownAsCode style (inlineCodeOf "``0") .code code :=
    .code (by decide) (by decide)
  have hspan := @Quoting.isCodeSpan_iff title (by decide) (by decide) .title
  have hspan' := @Quoting.isCodeSpan_iff code (by decide) (by decide) .code
  refine ⟨htitle, htitle.element_eq, fun h => ?_, hcode, hcode.element_eq, fun h => ?_⟩
  · rw [htitle.element_eq] at h
    exact absurd (hspan.mp h) (by decide)
  · rw [hcode.element_eq] at h
    exact absurd (hspan'.mp h) (by decide)

end ApiPages.Render
