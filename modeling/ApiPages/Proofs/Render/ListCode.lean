import ApiPages.Proofs.Render.InlineCode
import ApiPages.Proofs.Text.Cut

/-! Code in lists: a fenced block that is put into an item loses its lines, because items are collapsed,
and with the line feeds also the other white space that prose has no room for. -/
namespace ApiPages.Render

open Markup Markdown Prose

variable (style : LinkStyle) {c e : Element} {es : List Element} {before : Text} {path : List Wrap}
  {span : Text}

/-! ### The line of a list -/

/-- The text stands on a line of a list, whose lines are no fences. -/
def OnListLine (t whole : Text) : Prop :=
  ∃ front lines back line, whole = front ++ '\n' :: Text.unlines lines ++ '\n' :: back ∧
    line ∈ lines ∧ t <:+: line ∧ ∀ l ∈ lines, '\n' ∉ l ∧ isFenceLine l = false

theorem OnListLine.append {t whole : Text} (h : OnListLine t whole) (front back : Text) :
    OnListLine t (front ++ whole ++ back) := by
  obtain ⟨front', lines, back', line, rfl, hm, hline, hall⟩ := h
  exact ⟨front ++ front', lines, back' ++ back, line, by simp, hm, hline, hall⟩

theorem OnListLine.exists_line {t whole : Text} (h : OnListLine t whole) :
    ∃ line ∈ Text.lines whole, isFenceLine line = false ∧ t <:+: line := by
  obtain ⟨front, lines, back, line, rfl, hm, hline, hall⟩ := h
  obtain ⟨earlier, later, hsplit, -⟩ := exists_lines_of_list front back hm hall
  refine ⟨line, ?_, (hall line hm).2, hline⟩
  rw [hsplit]
  exact List.mem_append_right _ List.mem_cons_self

private theorem onListLine_list (hkind : Kind.ofTag e.tag = .list)
    (hitems : e.childrenNamed "item".toList ≠ []) {t : Text}
    (h : ∃ line ∈ listLines style e, t <:+: line) (pending : Bool) :
    OnListLine t (element style pending e).1 := by
  obtain ⟨line, hm, hline⟩ := h
  refine ⟨['\n'], listLines style e, ['\n'], line, ?_, hm, hline, fun l hl => ?_⟩
  · rw [element_list style hkind, rawList_eq style hitems]
    simp [block]
  · obtain ⟨hfeed, hprose⟩ := of_mem_listLines style l hl
    exact ⟨hfeed, by rw [isFenceLine, ← isFence_tidy, hprose.noFence]⟩

/-- In a list, what is in the raw text of an element stands on one of the lines, wrapped as the lists around
it do. -/
theorem Stands.onListLine (hs : IsSpan span) (hspan : span <:+: (element style false c).1)
    (h : Stands style c es before path) (hpath : path ≠ []) (pending : Bool) :
    OnListLine (wrapped path span) (children style pending es).1 := by
  induction h generalizing pending with
  | here => exact absurd rfl hpath
  | @behind e es before path _ ih =>
    have hbehind := (ih hpath (element style pending e).2).append ((element style pending e).1 ++ e.tail) []
    rw [children_cons, ← List.append_assoc]
    rwa [List.append_nil] at hbehind
  | @paragraph e es before path hkind _ ih =>
    have hinside := (ih hpath pending).append ("\n\n".toList ++ e.text)
      ("\n\n".toList ++ (e.tail ++ (children style (element style pending e).2 es).1))
    rw [children_cons, element_paragraph style hkind]
    simpa [block, raw] using hinside
  | @other e es before path hkind _ ih =>
    have hinside := (ih hpath pending).append e.text
      (e.tail ++ (children style (element style pending e).2 es).1)
    rw [children_cons, element_other style hkind]
    simpa [raw] using hinside
  | @item e es item inside before path hkind hitem hcontent hinside _ =>
    have hsw := isSpan_wrapped hs path
    have hshows := shows_itemOf style hcontent hsw (hinside.infix_children style hs hspan)
    have hlist := onListLine_list style hkind (List.ne_nil_of_mem hitem)
      (exists_line_of_item style hitem hsw hshows) pending
    rw [children_cons]
    exact hlist.append [] _
  | @title e es header inside before path hkind htable hitems hheader hpart hinside _ =>
    have hsw := isSpan_wrapped hs path
    have hshows := shows_partsOf style hpart hsw (hinside.infix_children style hs hspan)
    have hlist := onListLine_list style hkind hitems
      (exists_line_of_title style htable hheader hsw hshows) pending
    rw [children_cons]
    exact hlist.append [] _

/-! ### The block on that line -/

private theorem element_code (h : Kind.ofTag c.tag = .code) (pending : Bool) :
    (element style pending c).1 = block (codeBlock style.options.language c.innerText) := by
  obtain ⟨tag, attributes, text, inner, tail⟩ := c
  simp only [element, h]
  rfl

/-- What stands between the first backtick and the last of a fenced block, with a space for every line
feed. -/
def flatCode (language code : Text) : Text :=
  Text.exchange '\n' ' '
    ("``".toList ++ language ++ '\n' :: Text.unlines (dropBlankEnds (Text.lines code)) ++ "\n``".toList)

private theorem isSpan_codeBlock (language code : Text) : IsSpan (codeBlock language code) :=
  ⟨"``".toList ++ language ++ '\n' :: Text.unlines (dropBlankEnds (Text.lines code)) ++ "\n``".toList, by
    simp [codeBlock]⟩

private theorem exchange_codeBlock (language code : Text) :
    Text.exchange '\n' ' ' (codeBlock language code) = '`' :: flatCode language code ++ ['`'] := by
  simp [codeBlock, flatCode, Text.exchange]

private theorem trim_flatCode (language code : Text) :
    Text.trim (flatCode language code) = flatCode language code := by
  have hends : flatCode language code = '`' :: Text.exchange '\n' ' '
      ("`".toList ++ language ++ '\n' :: Text.unlines (dropBlankEnds (Text.lines code)) ++
        "\n`".toList) ++ ['`'] := by
    simp [flatCode, Text.exchange]
  rw [hends]
  exact Text.trim_enclosed isBlank_backtick _

/-- A list makes no difference between the blanks of a text. -/
theorem wrapped_exchange (hpath : path ≠ []) (t : Text) :
    wrapped path (Text.exchange '\n' ' ' t) = wrapped path t := by
  obtain ⟨outer, wrap, rfl⟩ := (List.eq_nil_or_concat' path).resolve_left hpath
  have hcollapse : Text.collapse (Text.exchange '\n' ' ' t) = Text.collapse t :=
    Text.collapse_exchange (by decide) t
  have hwrap : wrap.apply (Text.exchange '\n' ' ' t) = wrap.apply t := by
    cases wrap with
    | entry => exact hcollapse
    | cell => rw [Wrap.apply, cell_eq, cell_eq, hcollapse]
  rw [wrapped, wrapped, List.foldr_append, List.foldr_append]
  exact congrArg (List.foldr Wrap.apply · outer) hwrap

/-- Lists that are no tables only collapse what is in them. -/
theorem wrapped_entries (hpath : path ≠ []) (hentries : ∀ wrap ∈ path, wrap = .entry) (t : Text) :
    wrapped path t = Text.collapse t := by
  induction path with
  | nil => exact absurd rfl hpath
  | cons wrap path ih =>
    obtain ⟨rfl, hrest⟩ := List.forall_mem_cons.mp hentries
    show Text.collapse (wrapped path t) = Text.collapse t
    by_cases hmore : path = []
    · rw [hmore]
      rfl
    · rw [ih hmore hrest, collapse_collapse]

/-- Code in a list does not keep its lines. Wherever its element stands in the items of a list, and also
in a list further inside, the whole block stands on one line of the prose: behind what the lists do to it,
which is to put a space for every run of blanks, and behind the clean-up of prose, unless the list stands
in code that is not closed. So the block comes out with a space for every line feed, and else as it was,
exactly when these have nothing more to do, and never with its lines. -/
theorem code_in_lists_is_put_on_one_line {section_ : Element} (hkind : Kind.ofTag c.tag = .code)
    (hpath : path ≠ []) (h : Stands style c section_.children before path) (preferBlock : Bool) :
    let code := flatCode style.options.language c.innerText
    let span := '`' :: code ++ ['`']
    let written := wrapped path (codeBlock style.options.language c.innerText)
    let prose := prose style preferBlock (some section_)
    '\n' ∉ written ∧ ((∀ wrap ∈ path, wrap = .entry) → written = Text.collapse span) ∧
    (written <:+: prose ∨ tighten (tidy written) <:+: prose) ∧
    (tighten (tidy written) = span ↔ Survives path code) ∧ (Survives path code → span <:+: prose) := by
  intro code span written prose
  have hs : IsSpan (codeBlock style.options.language c.innerText) := isSpan_codeBlock _ _
  have hflat : written = wrapped path span := by
    show wrapped path _ = wrapped path _
    rw [← wrapped_exchange hpath, exchange_codeBlock]
  have hfeed : '\n' ∉ written := by
    rw [hflat]
    refine lineFeed_not_mem_wrapped ?_ path
    have hnone : '\n' ∉ code := Text.not_mem_exchange (by decide) _
    simpa [span] using hnone
  have hspan : codeBlock style.options.language c.innerText <:+: (element style false c).1 := by
    rw [element_code style hkind]
    exact List.infix_append _ _ _
  have hlist : OnListLine written (raw style preferBlock (some section_)) := by
    have hwritten := (h.onListLine style hs hspan hpath preferBlock).append section_.text []
    rwa [List.append_nil] at hwritten
  obtain ⟨line, hm, hfence, hpart⟩ := hlist.exists_line
  have hprose : written <:+: prose ∨ tighten (tidy written) <:+: prose :=
    (isSpan_wrapped hs path).infix_normalize_of_mem hm hfence hpart
  have hiff : tighten (tidy written) = span ↔ Survives path code := by
    rw [hflat]
    exact tighten_tidy_wrapped_iff (trim_flatCode _ _)
  refine ⟨hfeed, fun hentries => ?_, hprose, hiff, fun hsurvives => ?_⟩
  · rw [hflat, wrapped_entries hpath hentries]
  · rcases hprose with hprose | hprose
    · rwa [hflat, wrapped_eq_self (hsurvives.apply_eq_self (trim_flatCode _ _))] at hprose
    · rwa [hiff.mpr hsurvives] at hprose

/-- Code of two lines. -/
def listedCode : Element := ⟨"code".toList, [], "\nx = 1;\ny = 2;\n".toList, [], ".".toList⟩

def bulletsOfCode : Element :=
  ⟨"list".toList, [("type".toList, "bullet".toList)], [],
    [⟨"item".toList, [], "set ".toList, [listedCode], []⟩], []⟩

/-- The list is in the description of an entry of another one. -/
def remarksWithListedCode : Element :=
  ⟨"remarks".toList, [], "Use\n".toList, [⟨"list".toList, [("type".toList, "number".toList)], [],
    [⟨"item".toList, [], [], [⟨"term".toList, [], "both".toList, [], []⟩,
      ⟨"description".toList, [], "as ".toList, [bulletsOfCode], []⟩], []⟩], []⟩], []⟩

theorem code_in_lists_is_put_on_one_line_in_remarks :
    let style : LinkStyle := ⟨.default, false⟩
    let path : List Wrap := [.entry, .entry]
    let prose := prose style true (some remarksWithListedCode)
    Stands style listedCode remarksWithListedCode.children "\n\n".toList path ∧
    flatCode style.options.language listedCode.innerText = "``csharp x = 1; y = 2; ``".toList ∧
    Survives path "``csharp x = 1; y = 2; ``".toList ∧
    "```csharp x = 1; y = 2; ```".toList <:+: prose := by
  intro style path prose
  have hkind : Kind.ofTag listedCode.tag = .code := by decide
  have hpath : path ≠ [] := List.cons_ne_nil _ _
  have hbullets : Stands style listedCode [bulletsOfCode] "\n\n".toList [.entry] :=
    .item (by decide) (List.mem_singleton_self _) (.whole rfl rfl) .here
  have hstands : Stands style listedCode remarksWithListedCode.children "\n\n".toList path :=
    .item (by decide) (List.mem_singleton_self _) (.part (@PartOf.part _ "description".toList _ (by decide) rfl))
      hbullets
  have hflat : flatCode style.options.language listedCode.innerText =
      "``csharp x = 1; y = 2; ``".toList := by decide +kernel
  have hall := code_in_lists_is_put_on_one_line style hkind hpath hstands true
  rw [hflat] at hall
  obtain ⟨-, -, -, hiff, hspan⟩ := hall
  have hsurvives : Survives path "``csharp x = 1; y = 2; ``".toList := hiff.mp (by decide +kernel)
  exact ⟨hstands, hflat, hsurvives, hspan hsurvives⟩

/-- Two lines of code are one line in a list, so no indentation makes them lines of the prose. -/
theorem code_in_lists_loses_its_lines :
    let style : LinkStyle := ⟨.default, false⟩
    let c : Element := ⟨"code".toList, [], "a\nb".toList, [], []⟩
    let item : Element := ⟨"item".toList, [], [], [c], []⟩
    let section_ : Element := ⟨"summary".toList, [], [], [⟨"list".toList, [], [], [item], []⟩], []⟩
    Stands style c section_.children "\n\n".toList [.entry] ∧
    dropBlankEnds (Text.lines c.innerText) = ["a".toList, "b".toList] ∧
    prose style false (some section_) = "- ```csharp a b ```".toList ∧
    ∀ indent : Text, ¬ [indent ++ "a".toList, indent ++ "b".toList] <:+:
      Text.lines (prose style false (some section_)) := by
  intro style c item section_
  have hstands : Stands style c section_.children "\n\n".toList [.entry] :=
    .item (by decide) (List.mem_singleton_self _) (.whole rfl rfl) .here
  have hprose : prose style false (some section_) = "- ```csharp a b ```".toList := by decide +kernel
  refine ⟨hstands, by decide, hprose, fun indent h => ?_⟩
  have hone : (Text.lines "- ```csharp a b ```".toList).length = 1 := by decide
  have htwo := h.length_le
  rw [hprose, hone] at htwo
  exact Nat.not_succ_le_self 1 htwo

end ApiPages.Render
