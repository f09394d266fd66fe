import ApiPages.Proofs.Prose.Span
import ApiPages.Proofs.Render.Paragraphs
import ApiPages.Proofs.Render.TableRows

/-! Inline code: where the code span of an element stands in the raw text of a section, what lists do to
it, and what is left of it in the prose. -/
namespace ApiPages

open Prose

/-! ### Spans in lists -/

namespace Render

open Markup Markdown

/-- What a list does to the texts of an item: it collapses them, and in a table it escapes bars. -/
inductive Wrap where
  | entry
  | cell
  deriving DecidableEq

def Wrap.apply : Wrap → Text → Text
  | entry => Text.collapse
  | cell => Markdown.cell

/-- A text behind the lists around it, of which the outermost comes first. -/
def wrapped (path : List Wrap) (t : Text) : Text := path.foldr Wrap.apply t

private theorem isSpan_escapeBars {span : Text} (hs : IsSpan span) : IsSpan (escapeBars span) := by
  obtain ⟨inside, rfl⟩ := hs
  refine ⟨escapeBars inside, ?_⟩
  rw [escapeBars_append]
  rfl

private theorem Wrap.isSpan_apply (wrap : Wrap) {span : Text} (hs : IsSpan span) :
    IsSpan (wrap.apply span) := by
  cases wrap with
  | entry => exact hs.collapse
  | cell => exact isSpan_escapeBars hs.collapse

theorem isSpan_wrapped {span : Text} (hs : IsSpan span) (path : List Wrap) :
    IsSpan (wrapped path span) := by
  induction path with
  | nil => exact hs
  | cons wrap path ih => exact wrap.isSpan_apply ih

/-! ### Spans that lists leave alone -/

private theorem Wrap.isBlank_of_mem_apply {wrap : Wrap} {t : Text} {c : Char} (h : c ∈ wrap.apply t) :
    c = ' ' ∨ Text.isBlank c = false := by
  have hsigns : ∀ c ∈ ['\\', '|'], Text.isBlank c = false := Text.of_all rfl
  cases wrap with
  | entry => exact Text.isBlank_of_mem_collapse h
  | cell =>
    rcases mem_escapeBars h with h | h
    · exact Text.isBlank_of_mem_collapse h
    · exact Or.inr (hsigns c h)

private theorem count_bar_collapse (t : Text) : (Text.collapse t).count '|' = t.count '|' := by
  have hvisible (u : Text) : (Text.visible u).count '|' = u.count '|' :=
    List.count_filter (by decide)
  rw [← hvisible, Text.visible_collapse, hvisible]

/-- The bars of a text stay, and every table around it adds a backslash for each of them. -/
theorem wrapped_bars (path : List Wrap) (t : Text) :
    (wrapped path t).count '|' = t.count '|' ∧
      (Text.visible (wrapped path t)).length =
        (Text.visible t).length + path.count .cell * t.count '|' := by
  induction path with
  | nil => simp [wrapped]
  | cons wrap path ih =>
    obtain ⟨hcount, hlength⟩ := ih
    have hwrapped : wrapped (wrap :: path) t = wrap.apply (wrapped path t) := rfl
    rw [hwrapped]
    cases wrap with
    | entry =>
      rw [Wrap.apply, count_bar_collapse, Text.visible_collapse, List.count_cons_of_ne (by decide)]
      exact ⟨hcount, hlength⟩
    | cell =>
      rw [Wrap.apply, cell_eq, count_bar_escapeBars, count_bar_collapse, length_visible_escapeBars,
        count_bar_collapse, Text.visible_collapse, List.count_cons_self, hcount, hlength, Nat.succ_mul,
        Nat.add_assoc]
      exact ⟨rfl, rfl⟩

/-- What leaves the span of a text as it is: that the text is neat, in lists that its blanks are
spaces, and in tables that it has no bar. -/
structure Survives (path : List Wrap) (t : Text) : Prop where
  neat : Neat t
  blank : path ≠ [] → ∀ c ∈ t, Text.isBlank c = true → c = ' '
  bar : .cell ∈ path → '|' ∉ t

theorem wrapped_eq_self {path : List Wrap} {t : Text} (h : ∀ wrap ∈ path, wrap.apply t = t) :
    wrapped path t = t := by
  induction path with
  | nil => rfl
  | cons wrap path ih =>
    obtain ⟨hwrap, hpath⟩ := List.forall_mem_cons.mp h
    show wrap.apply (wrapped path t) = t
    rw [ih hpath, hwrap]

/-- Collapsing twice and escaping change nothing in such a span. -/
theorem Survives.apply_eq_self {path : List Wrap} {t : Text} (h : Survives path t)
    (htrim : Text.trim t = t) :
    ∀ wrap ∈ path, wrap.apply ('`' :: t ++ ['`']) = '`' :: t ++ ['`'] := by
  intro wrap hm
  have hneat := (neat_span_iff htrim).mpr h.neat
  have hmem {c : Char} (hc : c ∈ '`' :: t ++ ['`']) : c = '`' ∨ c ∈ t := by
    simpa [or_comm, or_assoc] using hc
  have hcollapse : Text.collapse ('`' :: t ++ ['`']) = '`' :: t ++ ['`'] := by
    refine Text.collapse_eq_self (fun c hc hblank => ?_) hneat.single hneat.first hneat.last
    rcases hmem hc with rfl | hc
    · exact absurd hblank (by decide)
    · exact h.blank (List.ne_nil_of_mem hm) c hc hblank
  cases wrap with
  | entry => exact hcollapse
  | cell =>
    rw [Wrap.apply, cell_eq, hcollapse, escapeBars_eq_self]
    exact fun hbar => (hmem hbar).elim (by decide) (h.bar hm)

/-- Conversely, one of the clean-ups leaves its mark on every other span. -/
theorem tighten_tidy_wrapped_iff {path : List Wrap} {t : Text} (htrim : Text.trim t = t) :
    tighten (tidy (wrapped path ('`' :: t ++ ['`']))) = '`' :: t ++ ['`'] ↔ Survives path t := by
  constructor
  · intro h
    have hinside {c : Char} (hc : c ∈ t) : c ∈ '`' :: t ++ ['`'] :=
      List.mem_append_left _ (List.mem_cons_of_mem _ hc)
    refine ⟨?_, fun hpath c hc hblank => ?_, fun hcell hbar => ?_⟩
    · rw [← neat_span_iff htrim, ← h]
      exact (spaced_tidy _).tighten
    · obtain ⟨wrap, rest, rfl⟩ := List.exists_cons_of_ne_nil hpath
      have hm := hinside hc
      rw [← h] at hm
      rcases Text.mem_replaceRuns (Text.mem_trim (mem_tighten hm)) with hm | hm
      · exact (Wrap.isBlank_of_mem_apply hm).resolve_right (by simp [hblank])
      · exact hm
    · -- Nothing that can be seen is lost again, so a backslash before the bar would still be there.
      have hlength := (wrapped_bars path ('`' :: t ++ ['`'])).2
      rw [← visible_tidy, ← visible_tighten, h] at hlength
      have hnone : path.count .cell * ('`' :: t ++ ['`']).count '|' = 0 := by omega
      rcases Nat.mul_eq_zero.mp hnone with hnone | hnone
      · exact List.count_eq_zero.mp hnone hcell
      · exact List.count_eq_zero.mp hnone (hinside hbar)
  · intro h
    rw [wrapped_eq_self (h.apply_eq_self htrim), tighten_tidy_eq_self_iff, neat_span_iff htrim]
    exact h.neat

/-! ### Where an element stands -/

/-- The elements inside of the term or the description of an element. -/
inductive PartOf (e : Element) : List Element → Prop
  | part {tag found} : tag ∈ ["term".toList, "description".toList] → e.child? tag = some found →
      PartOf e found.children

/-- The elements that are shown for an item. -/
inductive ItemContent (item : Element) : List Element → Prop
  | part {es} : PartOf item es → ItemContent item es
  | whole : item.child? "term".toList = none → item.child? "description".toList = none →
      ItemContent item item.children

def Wrap.of (list : Element) : Wrap := if listType list = "table".toList then cell else entry

/-- The element stands among these elements or inside of them, where it is shown. With it come the raw
text before it, or before the list in which it is, and the lists around it. -/
inductive Stands (style : LinkStyle) (c : Element) : List Element → Text → List Wrap → Prop
  | here {es} : Stands style c (c :: es) [] []
  | behind {e es before path} : Stands style c es before path →
      Stands style c (e :: es) ((element style false e).1 ++ e.tail ++ before) path
  | paragraph {e es before path} : Kind.ofTag e.tag = .paragraph →
      Stands style c e.children before path →
      Stands style c (e :: es) ("\n\n".toList ++ e.text ++ before) path
  | other {e es before path} : Kind.ofTag e.tag = .other → Stands style c e.children before path →
      Stands style c (e :: es) (e.text ++ before) path
  | item {e es item inside before path} : Kind.ofTag e.tag = .list →
      item ∈ e.childrenNamed "item".toList → ItemContent item inside →
      Stands style c inside before path → Stands style c (e :: es) "\n\n".toList (Wrap.of e :: path)
  | title {e es header inside before path} : Kind.ofTag e.tag = .list →
      listType e = "table".toList → e.childrenNamed "item".toList ≠ [] →
      e.child? "listheader".toList = some header → PartOf header inside →
      Stands style c inside before path → Stands style c (e :: es) "\n\n".toList (.cell :: path)

/-! ### Where its span is written -/

variable (style : LinkStyle)

/-- The lines of a list. -/
def listLines (e : Element) : List Text :=
  if listType e = "table".toList then
    (tableTexts (header? style e.children) (items style e.children)).map rowLine
  else (entriesOf style e).map ListEntry.line

theorem rawList_eq {e : Element} (h : e.childrenNamed "item".toList ≠ []) :
    rawList style e = Text.unlines (listLines style e) := by
  have hne : items style e.children ≠ [] := by
    rw [items_eq_map, ne_eq, List.map_eq_nil_iff]
    exact h
  rw [listLines]
  split
  · next htable => rw [rawList, htable, list_table_eq _ hne]
  · next htable => exact list_eq_unlines htable _ _

theorem of_mem_listLines {e : Element} : ∀ l ∈ listLines style e, '\n' ∉ l ∧ IsProse l := by
  rw [listLines]
  split
  · exact List.forall_mem_map.mpr fun texts _ =>
      ⟨lineFeed_not_mem_rowLine texts, isProse_rowLine texts⟩
  · refine List.forall_mem_map.mpr fun entry hm => ?_
    have hwritten := isWritten_entriesOf style e entry hm
    exact ⟨hwritten.lineFeed_not_mem_line, hwritten.isProse⟩

/-- A text that an item or a header shows. -/
def Item.Shows (item : Item) (t : Text) : Prop := t <:+: item.term ∨ t <:+: item.description

private theorem Item.Shows.infix_line {item : Item} {t : Text} (h : item.Shows t) (hne : t ≠ []) :
    t <:+: item.line := by
  have hnil {u : Text} (hu : t <:+: u) : ¬ u.isEmpty = true := by
    rw [List.isEmpty_iff]
    exact hu.ne_nil hne
  rw [Item.line]
  rcases h with h | h
  · rw [if_neg (hnil h)]
    split
    · exact h
    · exact h.trans ⟨"**".toList, "** — ".toList ++ item.description, by simp⟩
  · split
    · exact h
    · rw [if_neg (hnil h)]
      exact h.trans (List.suffix_append _ _).isInfix

theorem shows_partsOf {e : Element} {inside : List Element} (h : PartOf e inside) {span : Text}
    (hs : IsSpan span) (hspan : span <:+: (children style false inside).1) :
    (partsOf style e).Shows (Text.collapse span) := by
  obtain @⟨tag, found, htag, hfound⟩ := h
  have hcollapsed : Text.collapse span <:+: collapsed style found :=
    hs.infix_collapse (hspan.trans (List.suffix_append _ _).isInfix)
  simp only [List.mem_cons, List.not_mem_nil, or_false] at htag
  rcases htag with rfl | rfl
  · exact Or.inl (by rw [partsOf, hfound]; exact hcollapsed)
  · exact Or.inr (by rw [partsOf, hfound]; exact hcollapsed)

theorem shows_itemOf {e : Element} {inside : List Element} (h : ItemContent e inside) {span : Text}
    (hs : IsSpan span) (hspan : span <:+: (children style false inside).1) :
    (itemOf style e).Shows (Text.collapse span) := by
  rw [itemOf]
  cases h with
  | part hpart =>
    have hhas : (e.hasChild "term".toList || e.hasChild "description".toList) = true := by
      obtain @⟨tag, found, htag, hfound⟩ := hpart
      simp only [List.mem_cons, List.not_mem_nil, or_false] at htag
      rcases htag with rfl | rfl
      · rw [Element.hasChild, hfound]
        rfl
      · rw [Element.hasChild, Element.hasChild, hfound]
        exact Bool.or_true _
    rw [if_pos hhas]
    exact shows_partsOf style hpart hs hspan
  | whole hterm hdescription =>
    have hnone : ¬ (e.hasChild "term".toList || e.hasChild "description".toList) = true := by
      rw [Element.hasChild, Element.hasChild, hterm, hdescription]
      exact Bool.false_ne_true
    rw [if_neg hnone]
    exact Or.inr (hs.infix_collapse (hspan.trans (List.suffix_append _ _).isInfix))

private theorem IsSpan.infix_cell {span t : Text} (hs : IsSpan span) (h : Text.collapse span <:+: t) :
    cell span <:+: cell t := by
  rw [cell_eq, cell_eq, ← collapse_collapse span]
  exact infix_escapeBars (hs.collapse.infix_collapse h)

private theorem infix_rowLine {t : Text} {texts : Text × Text}
    (h : t <:+: cell texts.1 ∨ t <:+: cell texts.2) : t <:+: rowLine texts := by
  rcases h with h | h
  · exact h.trans ⟨"| ".toList, " | ".toList ++ cell texts.2 ++ " |".toList, by
      simp [rowLine, tableRow, Text.join]⟩
  · exact h.trans ⟨"| ".toList ++ cell texts.1 ++ " | ".toList, " |".toList, by
      simp [rowLine, tableRow, Text.join]⟩

/-- An item that shows the span has it, as the list leaves it, on its line. -/
theorem exists_line_of_item {e item : Element} (hitem : item ∈ e.childrenNamed "item".toList)
    {span : Text} (hs : IsSpan span) (h : (itemOf style item).Shows (Text.collapse span)) :
    ∃ line ∈ listLines style e, (Wrap.of e).apply span <:+: line := by
  have hm : itemOf style item ∈ items style e.children := by
    rw [items_eq_map]
    exact List.mem_map_of_mem hitem
  rw [listLines, Wrap.of]
  split
  · refine ⟨rowLine ((itemOf style item).term, (itemOf style item).description), ?_, ?_⟩
    · refine List.mem_map_of_mem (List.mem_cons_of_mem _ (List.mem_cons_of_mem _ ?_))
      exact List.mem_map.mpr ⟨_, hm, rfl⟩
    · exact infix_rowLine (h.imp (IsSpan.infix_cell hs) (IsSpan.infix_cell hs))
  · obtain ⟨i, hi, hitem⟩ := List.getElem_of_mem hm
    refine ⟨ListEntry.line ⟨listMarker (listType e) i, (itemOf style item).line⟩, ?_, ?_⟩
    · refine List.mem_map_of_mem (List.mem_mapIdx.mpr ⟨i, hi, ?_⟩)
      rw [hitem]
    · have hline := h.infix_line hs.collapse.ne_nil
      exact hline.trans ⟨listMarker (listType e) i ++ [' '], [], by simp [ListEntry.line]⟩

theorem exists_line_of_title {e header : Element} (htable : listType e = "table".toList)
    (hheader : e.child? "listheader".toList = some header) {span : Text} (hs : IsSpan span)
    (h : (partsOf style header).Shows (Text.collapse span)) :
    ∃ line ∈ listLines style e, cell span <:+: line := by
  have hfound : header? style e.children = some (partsOf style header) := by
    have hfind : e.children.find? (·.tag == "listheader".toList) = some header := hheader
    rw [header?_eq_find?, hfind]
    rfl
  have hkept {t : Text} (ht : Text.collapse span <:+: t) : ¬ t.isEmpty = true := by
    rw [List.isEmpty_iff]
    exact ht.ne_nil hs.collapse.ne_nil
  rw [listLines, if_pos htable, hfound]
  refine ⟨_, List.mem_map_of_mem List.mem_cons_self, infix_rowLine ?_⟩
  rw [tableTitles]
  refine h.imp (fun ht => ?_) fun ht => ?_
  · simp only [Option.getD_some, if_neg (hkept ht)]
    exact IsSpan.infix_cell hs ht
  · simp only [Option.getD_some, if_neg (hkept ht)]
    exact IsSpan.infix_cell hs ht

theorem element_other {e : Element} (h : Kind.ofTag e.tag = .other) (pending : Bool) :
    (element style pending e).1 = raw style pending (some e) := by
  obtain ⟨tag, attributes, text, inner, tail⟩ := e
  simp only [element, h, raw]

/-- The span is written in a raw text behind what stands before: right there, or on one of the lines of
a list, which has no fences. -/
inductive Written (span : Text) : Text → Text → Prop
  | here {before after} : Written span before (before ++ span ++ after)
  | list {before lines after line} : line ∈ lines → span <:+: line →
      (∀ l ∈ lines, '\n' ∉ l ∧ isFenceLine l = false) →
      Written span (before ++ ['\n']) (before ++ '\n' :: Text.unlines lines ++ '\n' :: after)

namespace Written

variable {span before whole : Text}

theorem append (h : Written span before whole) (front back : Text) :
    Written span (front ++ before) (front ++ whole ++ back) := by
  cases h with
  | @here before after =>
    have hhere : Written span (front ++ before) ((front ++ before) ++ span ++ (after ++ back)) :=
      .here
    simpa using hhere
  | @list before lines after line hm hline hlines =>
    have hlist := @list span (front ++ before) lines (after ++ back) line hm hline hlines
    simpa using hlist

theorem isInfix (h : Written span before whole) : span <:+: whole := by
  cases h with
  | @here before after => exact List.infix_append _ _ _
  | @list before lines after line hm hline hlines =>
    have hpart : line <:+: Text.unlines lines := Text.infix_join _ hm
    exact (hline.trans hpart).trans ⟨before ++ ['\n'], '\n' :: after, by simp⟩

end Written

/-- What a line of a list holds stands in the raw text of the list. -/
theorem infix_list {e : Element} (hkind : Kind.ofTag e.tag = .list)
    (hitems : e.childrenNamed "item".toList ≠ []) {t : Text}
    (h : ∃ line ∈ listLines style e, t <:+: line) (es : List Element) (pending : Bool) :
    t <:+: (children style pending (e :: es)).1 := by
  obtain ⟨line, hm, hline⟩ := h
  have hlist : t <:+: rawList style e := by
    rw [rawList_eq style hitems]
    exact hline.trans (Text.infix_join _ hm)
  have hblock : rawList style e <:+: (element style pending e).1 := by
    rw [element_list style hkind]
    exact List.infix_append _ _ _
  rw [children_cons]
  exact (hlist.trans hblock).trans (List.prefix_append _ _).isInfix

/-- What is in the raw text of an element is there where the element stands, wrapped as the lists around
it do. -/
theorem Stands.infix_children {c : Element} {span : Text} (hs : IsSpan span)
    (hspan : span <:+: (element style false c).1) {es : List Element} {before : Text}
    {path : List Wrap} (h : Stands style c es before path) :
    wrapped path span <:+: (children style false es).1 := by
  induction h with
  | @here es =>
    rw [children_cons]
    exact hspan.trans (List.prefix_append _ _).isInfix
  | @behind e es before path h ih =>
    rw [children_cons, element_pending]
    exact ih.trans ((List.suffix_append e.tail _).trans (List.suffix_append _ _)).isInfix
  | @paragraph e es before path hkind h ih =>
    have hinside : wrapped path span <:+: raw style false (some e) :=
      ih.trans (List.suffix_append e.text _).isInfix
    rw [children_cons, element_paragraph style hkind]
    exact (hinside.trans (List.infix_append _ _ _)).trans (List.prefix_append _ _).isInfix
  | @other e es before path hkind h ih =>
    have hinside : wrapped path span <:+: raw style false (some e) :=
      ih.trans (List.suffix_append e.text _).isInfix
    rw [children_cons, element_other style hkind]
    exact hinside.trans (List.prefix_append _ _).isInfix
  | @item e es item inside before path hkind hitem hcontent h ih =>
    have hsw := isSpan_wrapped hs path
    exact infix_list style hkind (List.ne_nil_of_mem hitem)
      (exists_line_of_item style hitem hsw (shows_itemOf style hcontent hsw ih)) es false
  | @title e es header inside before path hkind htable hitems hheader hpart h ih =>
    have hsw := isSpan_wrapped hs path
    exact infix_list style hkind hitems
      (exists_line_of_title style htable hheader hsw (shows_partsOf style hpart hsw ih)) es false

private theorem written_list {e : Element} (hkind : Kind.ofTag e.tag = .list)
    (hitems : e.childrenNamed "item".toList ≠ []) {span : Text}
    (h : ∃ line ∈ listLines style e, span <:+: line) (es : List Element) :
    Written span "\n\n".toList (children style false (e :: es)).1 := by
  obtain ⟨line, hm, hline⟩ := h
  have hlines : ∀ l ∈ listLines style e, '\n' ∉ l ∧ isFenceLine l = false := by
    intro l hl
    obtain ⟨hfeed, hprose⟩ := of_mem_listLines style l hl
    exact ⟨hfeed, by rw [isFenceLine, ← isFence_tidy, hprose.noFence]⟩
  have hlist := @Written.list span ['\n'] (listLines style e)
    ('\n' :: (e.tail ++ (children style (element style false e).2 es).1)) line hm hline hlines
  have hraw : (children style false (e :: es)).1 =
      ['\n'] ++ '\n' :: Text.unlines (listLines style e) ++
        '\n' :: '\n' :: (e.tail ++ (children style (element style false e).2 es).1) := by
    simp only [children, element_list style hkind, block, rawList_eq style hitems]
    simp
  rw [hraw]
  exact hlist

/-- The span of an element is written where the element stands, wrapped as the lists around it do. -/
theorem Stands.written {c : Element} {span : Text} (hs : IsSpan span)
    (hspan : (element style false c).1 = span) {es : List Element} {before : Text}
    {path : List Wrap} (h : Stands style c es before path) :
    Written (wrapped path span) before (children style false es).1 := by
  induction h with
  | @here es =>
    have hhere : Written span []
        ([] ++ span ++ (c.tail ++ (children style (element style false c).2 es).1)) := .here
    simpa [children, hspan, wrapped] using hhere
  | @behind e es before path h ih =>
    have hbehind := ih.append ((element style false e).1 ++ e.tail) []
    simpa [children, element_pending] using hbehind
  | @paragraph e es before path hkind h ih =>
    have hinside := ih.append ("\n\n".toList ++ e.text)
      ("\n\n".toList ++ (e.tail ++ (children style false es).1))
    simpa [children, element_pending, element_paragraph style hkind, block, raw] using hinside
  | @other e es before path hkind h ih =>
    have hinside := ih.append e.text (e.tail ++ (children style false es).1)
    simpa [children, element_pending, element_other style hkind, raw] using hinside
  | @item e es item inside before path hkind hitem hcontent h ih =>
    have hsw := isSpan_wrapped hs path
    have hinside := h.infix_children style hs (hspan ▸ List.infix_rfl)
    exact written_list style hkind (List.ne_nil_of_mem hitem)
      (exists_line_of_item style hitem hsw (shows_itemOf style hcontent hsw hinside)) es
  | @title e es header inside before path hkind htable hitems hheader hpart h ih =>
    have hsw := isSpan_wrapped hs path
    have hinside := h.infix_children style hs (hspan ▸ List.infix_rfl)
    exact written_list style hkind hitems
      (exists_line_of_title style htable hheader hsw (shows_partsOf style hpart hsw hinside)) es

/-- The line with this number is no fence, and an even number of the lines before are. -/
def OutsideCode (t : Text) (number : Nat) : Prop :=
  ((Text.lines t).take number).countP isFenceLine % 2 = 0 ∧
    (Text.lines t)[number]?.any (fun line => !isFenceLine line) = true

instance (t : Text) (number : Nat) : Decidable (OutsideCode t number) :=
  inferInstanceAs (Decidable (_ ∧ _))

theorem OutsideCode.exists_line {t : Text} {number : Nat} (h : OutsideCode t number) :
    ∃ before line after, Text.lines t = before ++ line :: after ∧ before.length = number ∧
      before.countP isFenceLine % 2 = 0 ∧ isFenceLine line = false := by
  obtain ⟨hcount, hany⟩ := h
  obtain ⟨line, hline, hfence⟩ := (Option.any_eq_true _ _).mp hany
  obtain ⟨hlt, hget⟩ := List.getElem?_eq_some_iff.mp hline
  refine ⟨(Text.lines t).take number, line, (Text.lines t).drop (number + 1), ?_, ?_, hcount, ?_⟩
  · rw [← hget, List.getElem_cons_drop, List.take_append_drop]
  · exact List.length_take_of_le hlt.le
  · exact (Bool.not_eq_true' _).mp hfence

/-- The lines of a list stand behind those of the text before it, with no fence among them. -/
theorem exists_lines_of_list (before after : Text) {lines : List Text} {line : Text}
    (hm : line ∈ lines) (hall : ∀ l ∈ lines, '\n' ∉ l ∧ isFenceLine l = false) :
    ∃ earlier later,
      Text.lines (before ++ '\n' :: Text.unlines lines ++ '\n' :: after) =
        Text.lines before ++ earlier ++ line :: later ∧ earlier.countP isFenceLine = 0 := by
  have hunlines : Text.lines (Text.unlines lines) = lines :=
    Text.lines_unlines (fun l hl => (hall l hl).1) (List.ne_nil_of_mem hm)
  have hwhole : Text.lines (before ++ '\n' :: Text.unlines lines ++ '\n' :: after) =
      Text.lines before ++ (lines ++ Text.lines after) := by
    rw [List.append_assoc, List.cons_append, Text.lines_append, Text.lines_append, hunlines]
  obtain ⟨earlier, later, hsplit⟩ := List.append_of_mem hm
  refine ⟨earlier, later ++ Text.lines after, ?_, List.countP_eq_zero.mpr fun l hl => ?_⟩
  · rw [hwhole, hsplit]
    simp
  · have hplain := (hall l (hsplit ▸ List.mem_append_left _ hl)).2
    exact Bool.eq_false_iff.mp hplain

/-- Outside of code a span comes out of the prose as it would by itself. -/
theorem Written.infix_normalize {span before whole : Text} (hs : IsSpan span) (hline : '\n' ∉ span)
    (h : Written span before whole) (hout : OutsideCode whole (before.count '\n')) :
    tighten (tidy span) <:+: normalize whole := by
  obtain ⟨front, numbered, rest, hlines, hlength, hcount, hfence⟩ := hout.exists_line
  cases h with
  | @here before after =>
    obtain ⟨front', line, rest', hlines', hlength', hpart⟩ :=
      Text.exists_line_of_append hline before after
    rw [hlines] at hlines'
    obtain ⟨rfl, hrest⟩ := List.append_inj hlines' (hlength.trans hlength'.symm)
    obtain ⟨rfl, rfl⟩ := List.cons_eq_cons.mp hrest
    exact hs.infix_normalize hlines hcount hfence hpart
  | @list before lines after line hm hspan hall =>
    -- The line with the number is the first of the list, the one with the span may stand further down.
    obtain ⟨earlier, later, hsplit, hearlier⟩ := exists_lines_of_list before after hm hall
    have hnumber : front.length = (Text.lines before).length := by
      rw [hlength, Text.length_lines, List.count_append]
      rfl
    have hfront : front = Text.lines before := by
      have hsame := hlines.symm.trans hsplit
      rw [List.append_assoc] at hsame
      exact (List.append_inj hsame hnumber).1
    have hside : (Text.lines before ++ earlier).countP isFenceLine % 2 = 0 := by
      rw [List.countP_append, hearlier, ← hfront]
      exact hcount
    exact hs.infix_normalize hsplit hside (hall line hm).2 hspan

theorem lineFeed_not_mem_wrapped {t : Text} (h : '\n' ∉ t) (path : List Wrap) :
    '\n' ∉ wrapped path t := by
  cases path with
  | nil => exact h
  | cons wrap path =>
    intro hm
    exact (Wrap.isBlank_of_mem_apply hm).elim (by decide) (by decide)

private theorem element_inlineCode {c : Element} (h : Kind.ofTag c.tag = .inlineCode)
    (hline : '\n' ∉ Text.trim c.innerText) (hback : '`' ∉ Text.trim c.innerText) :
    (element style false c).1 = '`' :: Text.trim c.innerText ++ ['`'] := by
  have hcode : (element style false c).1 = code style true c.innerText := by
    obtain ⟨tag, attributes, text, inner, tail⟩ := c
    simp only [element, h]
    rfl
  rw [hcode, code, inlineCode]
  simp [hline, hback]

/-- Inline code is cleaned like the prose around it. Wherever its element stands in the text of a
section, outside of fenced code, the trimmed content stands in the prose between single backticks, but
behind what lists do to it, with runs of spaces and tabs as one space, and with no space before
punctuation. So it survives, character for character, exactly when these have nothing to do. -/
theorem inline_code_is_cleaned_as_prose {section_ c : Element} {before : Text} {path : List Wrap}
    (hkind : Kind.ofTag c.tag = .inlineCode) (hline : '\n' ∉ Text.trim c.innerText)
    (hback : '`' ∉ Text.trim c.innerText) (h : Stands style c section_.children before path)
    (hout : OutsideCode (raw style false (some section_)) ((section_.text ++ before).count '\n')) :
    let t := Text.trim c.innerText
    let span := '`' :: t ++ ['`']
    let shown := tighten (tidy (wrapped path span))
    shown <:+: prose style false (some section_) ∧ (shown = span ↔ Survives path t) ∧
      (Survives path t → span <:+: prose style false (some section_)) := by
  intro t span shown
  have hs : IsSpan span := ⟨t, rfl⟩
  have hspan : '\n' ∉ span := by simpa [span] using hline
  have hwritten := (h.written style hs (element_inlineCode style hkind hline hback)).append
    section_.text []
  rw [List.append_nil] at hwritten
  have hshown : shown <:+: prose style false (some section_) :=
    hwritten.infix_normalize (isSpan_wrapped hs path) (lineFeed_not_mem_wrapped hspan path) hout
  have hiff : shown = span ↔ Survives path t := tighten_tidy_wrapped_iff (Text.trim_trim _)
  exact ⟨hshown, hiff, fun hsurvives => hiff.mpr hsurvives ▸ hshown⟩

/-- Inline code that has nothing to clean. -/
def neatCode : Element := ⟨"c".toList, [], " x = 1 ".toList, [], " or".toList⟩

def paragraphOfCode : Element := ⟨"para".toList, [], "set ".toList, [neatCode], []⟩

/-- It stands in a paragraph, and in a table behind that. -/
def remarksWithInlineCode : Element :=
  ⟨"remarks".toList, [], "Use\n".toList, [paragraphOfCode,
    ⟨"list".toList, [("type".toList, "table".toList)], [],
      [⟨"item".toList, [], "in ".toList, [neatCode], []⟩], []⟩], []⟩

theorem inline_code_is_cleaned_as_prose_in_remarks :
    let style : LinkStyle := ⟨.default, false⟩
    let raw := raw style false (some remarksWithInlineCode)
    let inParagraph := "\n\n".toList ++ "set ".toList ++ []
    let inTable := (element style false paragraphOfCode).1 ++ [] ++ "\n\n".toList
    Stands style neatCode remarksWithInlineCode.children inParagraph [] ∧
    Stands style neatCode remarksWithInlineCode.children inTable [.cell] ∧
    OutsideCode raw (("Use\n".toList ++ inParagraph).count '\n') ∧
    OutsideCode raw (("Use\n".toList ++ inTable).count '\n') ∧
    Survives [] "x = 1".toList ∧ Survives [.cell] "x = 1".toList ∧
    "`x = 1`".toList <:+: prose style false (some remarksWithInlineCode) := by
  intro style raw inParagraph inTable
  have hkind : Kind.ofTag neatCode.tag = .inlineCode := by decide
  have hline : '\n' ∉ Text.trim neatCode.innerText := by decide
  have hback : '`' ∉ Text.trim neatCode.innerText := by decide
  have hparagraph : Stands style neatCode remarksWithInlineCode.children inParagraph [] :=
    .paragraph (by decide) .here
  have htable : Stands style neatCode remarksWithInlineCode.children inTable [.cell] := by
    refine .behind (.item (by decide) (List.mem_singleton_self _) (.whole rfl rfl) .here)
  have hout : OutsideCode raw (("Use\n".toList ++ inParagraph).count '\n') := by decide +kernel
  have hout' : OutsideCode raw (("Use\n".toList ++ inTable).count '\n') := by decide +kernel
  obtain ⟨-, hiff, hall⟩ :=
    inline_code_is_cleaned_as_prose style hkind hline hback hparagraph hout
  obtain ⟨-, hiff', -⟩ := inline_code_is_cleaned_as_prose style hkind hline hback htable hout'
  have hsurvives := hiff.mp (by decide +kernel)
  exact ⟨hparagraph, htable, hout, hout', hsurvives, hiff'.mp (by decide +kernel), hall hsurvives⟩

/-- Two spaces in inline code are one in the prose. -/
theorem spaces_in_code_are_collapsed :
    let style : LinkStyle := ⟨.default, false⟩
    let c : Element := ⟨"c".toList, [], "a  b".toList, [], []⟩
    let section_ : Element := ⟨"summary".toList, [], [], [c], []⟩
    Stands style c section_.children [] [] ∧ OutsideCode (raw style false (some section_)) 0 ∧
    Text.trim c.innerText = "a  b".toList ∧
    prose style false (some section_) = "`a b`".toList ∧
    ¬ "`a  b`".toList <:+: prose style false (some section_) := by
  intro style c section_
  exact ⟨.here, by decide +kernel, by decide, by decide +kernel, by decide +kernel⟩

end Render
end ApiPages
