import ApiPages.Proofs.Render.ListEntries

/-! Tables: a bar in a cell has a backslash before it, and the prose keeps the lines of a table and
the bars between its cells. -/
namespace ApiPages

/-- The bars with no backslash directly before them. `escaped` tells whether one stands before the
text. -/
def Text.unescapedBars (escaped : Bool) : Text → Nat
  | [] => 0
  | c :: cs => (if c = '|' && !escaped then 1 else 0) + unescapedBars (c = '\\') cs

namespace Text

private theorem unescapedBars_cons {c : Char} (hbar : c ≠ '|') (escaped : Bool) (t : Text) :
    unescapedBars escaped (c :: t) = unescapedBars (c = '\\') t := by
  simp [unescapedBars, hbar]

/-- Behind a character that is no bar it does not matter what stands before it. -/
theorem unescapedBars_append_cons {c : Char} (hbar : c ≠ '|') (escaped : Bool) (t u : Text) :
    unescapedBars escaped (t ++ c :: u) = unescapedBars escaped t + unescapedBars false (c :: u) := by
  induction t generalizing escaped with
  | nil =>
    rw [List.nil_append, unescapedBars_cons hbar, unescapedBars_cons hbar, unescapedBars,
      Nat.zero_add]
  | cons d ds ih => rw [List.cons_append, unescapedBars, unescapedBars, ih, Nat.add_assoc]

/-- A blank is neither a bar nor a backslash. -/
theorem unescapedBars_blank {c : Char} (hc : isBlank c = true) (escaped : Bool) (t : Text) :
    unescapedBars escaped (c :: t) = unescapedBars false t := by
  have hbar : c ≠ '|' := by
    rintro rfl
    exact absurd hc (by decide)
  have hback : c ≠ '\\' := by
    rintro rfl
    exact absurd hc (by decide)
  rw [unescapedBars_cons hbar, decide_eq_false hback]

private theorem unescapedBars_replaceRunsFrom {p : Char → Bool} (hp : ∀ c, p c = true → isBlank c = true)
    {escaped inRun : Bool} (h : inRun = true → escaped = false) (t : Text) :
    unescapedBars escaped (replaceRunsFrom p ' ' inRun t) = unescapedBars escaped t := by
  induction t generalizing escaped inRun with
  | nil => rfl
  | cons c cs ih =>
    have hspace : isBlank ' ' = true := by decide
    rw [replaceRunsFrom]
    by_cases hc : p c = true
    · rw [if_pos hc, unescapedBars_blank (hp c hc)]
      cases inRun with
      | true =>
        rw [if_pos rfl, h rfl]
        exact ih fun _ => rfl
      | false =>
        rw [if_neg Bool.false_ne_true, unescapedBars_blank hspace]
        exact ih fun _ => rfl
    · rw [if_neg hc, unescapedBars, unescapedBars, ih fun hf => by cases hf]

private theorem unescapedBars_replaceRuns {p : Char → Bool} (hp : ∀ c, p c = true → isBlank c = true)
    (escaped : Bool) (t : Text) :
    unescapedBars escaped (replaceRuns p ' ' t) = unescapedBars escaped t :=
  unescapedBars_replaceRunsFrom hp (fun hf => by cases hf) t

end Text

namespace Markdown

/-- A text in which each bar has a backslash before it. -/
def escapeBars (t : Text) : Text := t.flatMap fun c => if c = '|' then ['\\', '|'] else [c]

theorem cell_eq (t : Text) : cell t = escapeBars (Text.collapse t) := rfl

private theorem escapeBars_cons (c : Char) (t : Text) :
    escapeBars (c :: t) = (if c = '|' then ['\\', '|'] else [c]) ++ escapeBars t := rfl

theorem escapeBars_append (t u : Text) : escapeBars (t ++ u) = escapeBars t ++ escapeBars u :=
  List.flatMap_append

theorem infix_escapeBars {t u : Text} (h : t <:+: u) : escapeBars t <:+: escapeBars u := by
  obtain ⟨before, after, rfl⟩ := h
  rw [escapeBars_append, escapeBars_append]
  exact List.infix_append _ _ _

theorem escapeBars_eq_self {t : Text} (h : '|' ∉ t) : escapeBars t = t := by
  induction t with
  | nil => rfl
  | cons c cs ih =>
    rw [List.mem_cons, not_or] at h
    rw [escapeBars_cons, if_neg (Ne.symm h.1), ih h.2, List.singleton_append]

theorem mem_escapeBars {t : Text} {c : Char} (h : c ∈ escapeBars t) : c ∈ t ∨ c ∈ ['\\', '|'] := by
  obtain ⟨d, hd, hc⟩ := List.mem_flatMap.mp h
  split at hc
  · exact Or.inr hc
  · rw [List.mem_singleton.mp hc]
    exact Or.inl hd

private theorem unescapedBars_escapeBars (escaped : Bool) (t : Text) :
    Text.unescapedBars escaped (escapeBars t) = 0 := by
  induction t generalizing escaped with
  | nil => rfl
  | cons c cs ih =>
    rw [escapeBars_cons]
    by_cases hc : c = '|'
    · rw [if_pos hc, List.cons_append, List.singleton_append,
        Text.unescapedBars_cons (by decide), Text.unescapedBars, ih]
      rfl
    · rw [if_neg hc, List.singleton_append, Text.unescapedBars_cons hc, ih]

theorem count_bar_escapeBars (t : Text) : (escapeBars t).count '|' = t.count '|' := by
  induction t with
  | nil => rfl
  | cons c cs ih =>
    rw [escapeBars_cons, List.count_append, ih]
    by_cases hc : c = '|'
    · rw [if_pos hc, hc, List.count_cons_self, Nat.add_comm]
      rfl
    · rw [if_neg hc, List.count_cons_of_ne hc, List.count_cons_of_ne hc]
      exact Nat.zero_add _

/-- There is one more character to see for each bar. -/
theorem length_visible_escapeBars (t : Text) :
    (Text.visible (escapeBars t)).length = (Text.visible t).length + t.count '|' := by
  induction t with
  | nil => rfl
  | cons c cs ih =>
    have hsplit : c :: cs = [c] ++ cs := rfl
    rw [escapeBars_cons, hsplit, Text.visible_append, Text.visible_append, List.length_append,
      List.length_append, List.count_append, ih]
    by_cases hc : c = '|'
    · rw [if_pos hc, hc, List.count_singleton_self]
      have hbar : (Text.visible ['\\', '|']).length = 2 := by decide
      have hone : (Text.visible ['|']).length = 1 := by decide
      omega
    · have hnone : [c].count '|' = 0 := List.count_eq_zero.mpr (by simpa using Ne.symm hc)
      rw [if_neg hc, hnone]
      omega

private theorem lineFeed_not_mem_cell (t : Text) : '\n' ∉ cell t := by
  intro h
  rcases mem_escapeBars h with h | h
  · exact Text.lineFeed_not_mem_collapse t h
  · exact absurd h (by decide)

end Markdown

namespace Prose

open Text

/-- A space that is dropped stands before punctuation, which is no bar. -/
theorem unescapedBars_tighten (escaped : Bool) (t : Text) :
    unescapedBars escaped (tighten t) = unescapedBars escaped t := by
  induction t generalizing escaped with
  | nil => rfl
  | cons c cs ih =>
    simp only [tighten]
    split
    · next h =>
      obtain ⟨hspace, hany⟩ := Bool.and_eq_true_iff.mp h
      rw [of_decide_eq_true hspace, unescapedBars_blank (by decide), ← ih false]
      cases hrest : tighten cs with
      | nil => rfl
      | cons d ds =>
        rw [hrest] at hany
        have hbar : d ≠ '|' := by
          rintro rfl
          have htight : isTight '|' = true := hany
          exact absurd htight (by decide)
        rw [unescapedBars_cons hbar, unescapedBars_cons hbar]
    · rw [unescapedBars, unescapedBars, ih]

/-- Between two bars there is nothing to trim. -/
theorem tidy_between_bars (mid : Text) : tidy ('|' :: mid ++ ['|']) =
    replaceRuns (fun c => c = ' ' || c = '\t') ' ' ('|' :: mid ++ ['|']) := by
  rw [tidy, replaceRuns_enclosed (by decide), trim_enclosed (by decide)]

/-- A line between two bars is still one when it is tidied. -/
theorem exists_tidy_between_bars (mid : Text) :
    ∃ tidied, tidy ('|' :: mid ++ ['|']) = '|' :: tidied ++ ['|'] :=
  ⟨_, (tidy_between_bars mid).trans (replaceRuns_enclosed (by decide) mid)⟩

end Prose

namespace Render

open Markup Prose Markdown

/-- The line begins and ends with a bar, and has one more between: two cells. -/
structure IsTableRow (line : Text) : Prop where
  first : line.head? = some '|'
  last : line.getLast? = some '|'
  bars : Text.unescapedBars false line = 3

/-- The row of two texts. -/
def rowLine (texts : Text × Text) : Text := tableRow [cell texts.1, cell texts.2]

private theorem exists_rowLine_eq (texts : Text × Text) : ∃ mid, rowLine texts = '|' :: mid ++ ['|'] :=
  ⟨' ' :: (cell texts.1 ++ " | ".toList ++ cell texts.2) ++ [' '], by
    simp [rowLine, tableRow, Text.join]⟩

private theorem unescapedBars_rowLine (texts : Text × Text) :
    Text.unescapedBars false (rowLine texts) = 3 := by
  have hrow : rowLine texts =
      '|' :: ' ' :: (cell texts.1 ++ ' ' :: '|' :: ' ' :: (cell texts.2 ++ ' ' :: ['|'])) := by
    simp [rowLine, tableRow, Text.join]
  have hbar (t : Text) :
      Text.unescapedBars false ('|' :: ' ' :: t) = 1 + Text.unescapedBars false t := by
    rw [Text.unescapedBars, Text.unescapedBars_cons (by decide)]
    rfl
  have hcell (t u : Text) :
      Text.unescapedBars false (cell t ++ ' ' :: u) = Text.unescapedBars false u := by
    rw [Text.unescapedBars_append_cons (by decide), cell_eq, unescapedBars_escapeBars,
      Nat.zero_add, Text.unescapedBars_cons (by decide)]
    rfl
  rw [hrow, hbar, hcell, hbar, hcell]
  rfl

theorem lineFeed_not_mem_rowLine (texts : Text × Text) : '\n' ∉ rowLine texts := by
  simp [rowLine, tableRow, Text.join, lineFeed_not_mem_cell]

private theorem exists_tidy_rowLine (texts : Text × Text) :
    ∃ mid, tidy (rowLine texts) = '|' :: mid ++ ['|'] := by
  obtain ⟨mid, hmid⟩ := exists_rowLine_eq texts
  rw [hmid]
  exact exists_tidy_between_bars mid

theorem isProse_rowLine (texts : Text × Text) : IsProse (rowLine texts) := by
  obtain ⟨mid, hmid⟩ := exists_tidy_rowLine texts
  refine ⟨spaced_tidy _, ?_, ?_⟩ <;> rw [hmid]
  · exact List.cons_ne_nil _ _
  · rfl

/-- A row begins a line of its own, whatever is in its cells. -/
theorem joinsOn_rowLine (texts : Text × Text) : joinsOn (rowLine texts) = false := by
  obtain ⟨mid, hmid⟩ := exists_tidy_rowLine texts
  rw [joinsOn, hmid]
  rfl

private theorem unescapedBars_tidy_rowLine (texts : Text × Text) :
    Text.unescapedBars false (tidy (rowLine texts)) = 3 := by
  have hrow := unescapedBars_rowLine texts
  obtain ⟨mid, hmid⟩ := exists_rowLine_eq texts
  rw [hmid] at hrow ⊢
  rw [tidy_between_bars, Text.unescapedBars_replaceRuns fun _ => isBlank_of_isSpaceOrTab, hrow]

private theorem isTableRow_together (texts : Text × Text) : IsTableRow (together [rowLine texts]) := by
  obtain ⟨mid, hmid⟩ := exists_tidy_rowLine texts
  have hline : together [rowLine texts] = tighten (tidy (rowLine texts)) := rfl
  rw [hline]
  refine ⟨?_, ?_, ?_⟩
  · rw [hmid, List.cons_append, tighten_cons_of_ne (by decide)]
    rfl
  · rw [getLast?_tighten, hmid, List.getLast?_concat]
  · rw [unescapedBars_tighten, unescapedBars_tidy_rowLine]

/-- The titles of the two columns: those of the header, as far as it has them. -/
def tableTitles (header : Option Item) : Text × Text :=
  let titles := header.getD ⟨[], []⟩
  (if titles.term.isEmpty then "Term".toList else titles.term,
    if titles.description.isEmpty then "Description".toList else titles.description)

/-- The texts in the rows of a table: its titles, the dashes and its items. -/
def tableTexts (header : Option Item) (items : List Item) : List (Text × Text) :=
  tableTitles header :: ("---".toList, "---".toList) ::
    items.map fun item => (item.term, item.description)

theorem list_table_eq (header : Option Item) {items : List Item} (hne : items ≠ []) :
    list "table".toList header items = Text.unlines ((tableTexts header items).map rowLine) := by
  have hdashes : cell "---".toList = "---".toList := by decide
  have hrows : ¬ (items.map fun item => [item.term, item.description]).isEmpty = true := by
    simpa using hne
  rw [list, if_pos rfl, table, if_neg hrows, List.map_map]
  simp only [tableTexts, tableTitles, rowLine, List.map_cons, List.map_nil, List.map_map, hdashes,
    Function.comp_def]

variable (style : LinkStyle) {section_ e : Element}

private theorem lines_prose_table (h : HoldsOnly section_ e) (htype : listType e = "table".toList)
    (hitems : e.childrenNamed "item".toList ≠ []) (preferBlock : Bool) :
    Text.lines (prose style preferBlock (some section_)) =
      (tableTexts (header? style e.children) (items style e.children)).map
        fun texts => together [rowLine texts] := by
  have hne : items style e.children ≠ [] := by
    rw [ne_eq, ← List.length_eq_zero_iff, length_items, List.length_eq_zero_iff]
    exact hitems
  have hraw : rawList style e = Text.unlines
      ((tableTexts (header? style e.children) (items style e.children)).map rowLine) := by
    rw [rawList, htype, list_table_eq _ hne]
  rw [prose_of_holdsOnly style h hraw
    (List.forall_mem_map.mpr fun texts _ => lineFeed_not_mem_rowLine texts)
    (List.forall_mem_map.mpr fun texts _ => isProse_rowLine texts) (List.cons_ne_nil _ _)]
  exact lines_normalize_apart (fun texts _ => lineFeed_not_mem_rowLine texts)
    (fun texts _ => isProse_rowLine texts) (List.cons_ne_nil _ _)
    fun texts _ => joinsOn_rowLine texts

/-- A table keeps its shape in the prose of a section, whatever is in its header and its items: a line
for the titles, the line of dashes and a line for each item, each of them with two cells. -/
theorem tables_keep_their_shape (h : HoldsOnly section_ e) (htype : listType e = "table".toList)
    (hitems : e.childrenNamed "item".toList ≠ []) (preferBlock : Bool) :
    let lines := Text.lines (prose style preferBlock (some section_))
    lines.length = (e.childrenNamed "item".toList).length + 2 ∧
    lines[1]? = some "| --- | --- |".toList ∧ ∀ line ∈ lines, IsTableRow line := by
  intro lines
  have hlines : lines = (tableTexts (header? style e.children) (items style e.children)).map
      fun texts => together [rowLine texts] := lines_prose_table style h htype hitems preferBlock
  refine ⟨?_, ?_, ?_⟩
  · rw [hlines, List.length_map, tableTexts, List.length_cons, List.length_cons, List.length_map,
      length_items]
    rfl
  · have hdashes : together [rowLine ("---".toList, "---".toList)] = "| --- | --- |".toList := by
      decide
    rw [hlines]
    exact congrArg some hdashes
  · rw [hlines]
    exact List.forall_mem_map.mpr fun texts _ => isTableRow_together texts

/-- A table with a bar and a backslash in its cells, and a list in one of them. -/
def tableOfBars : Element :=
  let nested : Element := ⟨"list".toList, [], [],
    [⟨"item".toList, [], "x|y".toList, [], []⟩, ⟨"item".toList, [], "z".toList, [], []⟩], []⟩
  ⟨"list".toList, [("type".toList, "table".toList)], [],
    [⟨"listheader".toList, [], [], [⟨"term".toList, [], "|".toList, [], []⟩], []⟩,
      ⟨"item".toList, [], [], [⟨"term".toList, [], "a\\".toList, [], []⟩,
        ⟨"description".toList, [], "b\n\n c |d".toList, [nested], []⟩], []⟩,
      ⟨"item".toList, [], [], [], []⟩], []⟩

theorem tables_keep_their_shape_with_bars :
    let section_ : Element := ⟨"remarks".toList, [], " ".toList, [tableOfBars], []⟩
    let lines := Text.lines (prose ⟨.default, false⟩ true (some section_))
    HoldsOnly section_ tableOfBars ∧ listType tableOfBars = "table".toList ∧
    tableOfBars.childrenNamed "item".toList ≠ [] ∧
    lines = ["| \\| | Description |", "| --- | --- |",
      "| a\\ | b c \\|d - x\\|y - z |", "| | |"].map String.toList ∧
    lines.length = 4 ∧ ∀ line ∈ lines, IsTableRow line := by
  intro section_ lines
  have h : HoldsOnly section_ tableOfBars := ⟨rfl, by decide, by decide, by decide⟩
  have htype : listType tableOfBars = "table".toList := by decide
  have hitems : tableOfBars.childrenNamed "item".toList ≠ [] := by decide +kernel
  obtain ⟨hlength, -, hrows⟩ := tables_keep_their_shape ⟨.default, false⟩ h htype hitems true
  refine ⟨h, htype, hitems, ?_, hlength, hrows⟩
  decide +kernel

end Render
end ApiPages
