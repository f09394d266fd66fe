import ApiPages.Proofs.Prose.Gather
import ApiPages.Proofs.Prose.Idempotent
import ApiPages.Proofs.Text.Digit
import ApiPages.Render.Content

/-! Lists with hyphens or numbers: the entries that are written for a list, and the lines on which they
stand in the prose. -/
namespace ApiPages.Render

open Markup Prose

/-! ### What is written for a list -/

variable (style : LinkStyle)

/-- What is inside an element, on one line. -/
def collapsed (e : Element) : Text :=
  Text.collapse (e.text ++ (children style false e.children).1)

/-- The term and the description of an element, as far as it has them. -/
def partsOf (e : Element) : Item :=
  ⟨((e.child? "term".toList).map (collapsed style)).getD [],
    ((e.child? "description".toList).map (collapsed style)).getD []⟩

/-- The item for an element: its term and description, or else all that is inside. -/
def itemOf (e : Element) : Item :=
  if e.hasChild "term".toList || e.hasChild "description".toList then partsOf style e
  else ⟨[], collapsed style e⟩

private theorem inlineOf_eq_find? (tag : Text) (es : List Element) :
    inlineOf style tag es = (es.find? (·.tag == tag)).map (collapsed style) := by
  induction es with
  | nil => rw [inlineOf, List.find?_nil, Option.map_none]
  | cons e es ih =>
    obtain ⟨t, attributes, text, inner, tail⟩ := e
    rw [inlineOf, List.find?_cons]
    by_cases h : t = tag
    · simp only [h, if_true, beq_self_eq_true, Option.map_some, collapsed]
    · simp only [h, if_false, beq_eq_false_iff_ne.mpr h, ih]

/-- A list has an item for each of its elements of that name. -/
theorem items_eq_map (es : List Element) :
    items style es = (es.filter (·.tag == "item".toList)).map (itemOf style) := by
  induction es with
  | nil =>
    rw [items]
    rfl
  | cons e es ih =>
    obtain ⟨tag, attributes, text, inner, tail⟩ := e
    rw [items, List.filter_cons]
    by_cases h : tag = "item".toList
    · rw [if_pos h, if_pos (by simpa using h), List.map_cons, ih]
      refine congrArg (· :: _) ?_
      rw [inlineOf_eq_find?, inlineOf_eq_find?, itemOf, partsOf, Element.hasChild, Element.hasChild,
        Element.child?, Element.child?]
      cases inner.find? (·.tag == "term".toList) <;>
        cases inner.find? (·.tag == "description".toList) <;> rfl
    · rw [if_neg h, ih, if_neg (by simpa using h)]

theorem header?_eq_find? (es : List Element) :
    header? style es = (es.find? (·.tag == "listheader".toList)).map (partsOf style) := by
  induction es with
  | nil => rw [header?, List.find?_nil, Option.map_none]
  | cons e es ih =>
    obtain ⟨tag, attributes, text, inner, tail⟩ := e
    rw [header?, List.find?_cons]
    by_cases h : tag = "listheader".toList
    · simp only [h, if_true, beq_self_eq_true, Option.map_some, inlineOf_eq_find?]
      rfl
    · simp only [h, if_false, beq_eq_false_iff_ne.mpr h, ih]

theorem length_items (es : List Element) :
    (items style es).length = (es.filter (·.tag == "item".toList)).length := by
  rw [items_eq_map, List.length_map]

/-- Two texts of an item or a header, on one line each. -/
def Item.IsCollapsed (item : Item) : Prop :=
  ∃ term description, item = ⟨Text.collapse term, Text.collapse description⟩

private theorem isCollapsed_partsOf (e : Element) : (partsOf style e).IsCollapsed := by
  have hpart (part : Option Element) :
      ∃ t, (part.map (collapsed style)).getD [] = Text.collapse t := by
    cases part with
    | none => exact ⟨[], rfl⟩
    | some part => exact ⟨_, rfl⟩
  obtain ⟨term, hterm⟩ := hpart (e.child? "term".toList)
  obtain ⟨description, hdescription⟩ := hpart (e.child? "description".toList)
  exact ⟨term, description, by rw [partsOf, hterm, hdescription]⟩

private theorem isCollapsed_of_mem_items {es : List Element} :
    ∀ item ∈ items style es, item.IsCollapsed := by
  rw [items_eq_map]
  refine List.forall_mem_map.mpr fun e _ => ?_
  rw [itemOf]
  split
  · exact isCollapsed_partsOf style e
  · exact ⟨[], _, rfl⟩

namespace Item

private theorem IsCollapsed.spaced_line {item : Item} (h : item.IsCollapsed) : Spaced item.line := by
  obtain ⟨term, description, rfl⟩ := h
  have hbold : Spaced "**".toList := spaced_of_visible (Text.of_all rfl)
  have hdash : Spaced "—".toList := spaced_of_visible (Text.of_all rfl)
  have hterm := spaced_collapse term
  have hdescription := spaced_collapse description
  rw [line]
  split
  · exact hdescription
  · split
    · exact hterm
    · next hd =>
      have hne : Text.collapse description ≠ [] := by simpa using hd
      have htitle : Spaced ("**".toList ++ Text.collapse term ++ "**".toList) :=
        (hbold.append hterm).append hbold
      have hall := htitle.append_space (hdash.append_space hdescription (by decide) hne)
        (by simp) (by simp)
      simpa using hall

theorem IsCollapsed.lineFeed_not_mem_line {item : Item} (h : item.IsCollapsed) :
    '\n' ∉ item.line := by
  obtain ⟨term, description, rfl⟩ := h
  have hterm := Text.lineFeed_not_mem_collapse term
  have hdescription := Text.lineFeed_not_mem_collapse description
  rw [line]
  split
  · exact hdescription
  · split
    · exact hterm
    · simp [hterm, hdescription]

end Item

/-! ### Entries -/

/-- An entry of a list: what marks it, and its text. -/
structure ListEntry where
  marker : Text
  text : Text

def ListEntry.line (entry : ListEntry) : Text := entry.marker ++ ' ' :: entry.text

/-- The marker of the entry at an index: its number, or a hyphen. -/
def listMarker (type : Text) (index : Nat) : Text :=
  if type = "number".toList then Text.ofNat (index + 1) ++ ['.'] else ['-']

def listEntries (type : Text) (items : List Item) : List ListEntry :=
  items.mapIdx fun index item => ⟨listMarker type index, item.line⟩

private theorem getElem?_numberedLines (first : Nat) (items : List Item) (i : Nat) :
    (numberedLines first items)[i]? =
      items[i]?.map fun item => Text.ofNat (first + i) ++ ". ".toList ++ item.line := by
  induction items generalizing first i with
  | nil => rfl
  | cons item items ih =>
    cases i with
    | zero => rfl
    | succ i =>
      have hnext : first + 1 + i = first + (i + 1) := by omega
      rw [numberedLines, List.getElem?_cons_succ, List.getElem?_cons_succ, ih, hnext]

/-- A list that is no table has the lines of its entries. -/
theorem list_eq_unlines {type : Text} (htable : type ≠ "table".toList) (header : Option Item)
    (items : List Item) :
    list type header items = Text.unlines ((listEntries type items).map ListEntry.line) := by
  rw [list, if_neg htable]
  split
  · next hnumber =>
    have hmarker (i : Nat) : listMarker type i = Text.ofNat (i + 1) ++ ['.'] := if_pos hnumber
    congr 1
    refine List.ext_getElem? fun i => ?_
    rw [getElem?_numberedLines, listEntries, List.getElem?_map, List.getElem?_mapIdx]
    simp [ListEntry.line, hmarker, Function.comp_def, Nat.add_comm 1]
  · next hnumber =>
    have hmarker (i : Nat) : listMarker type i = ['-'] := if_neg hnumber
    congr 1
    refine List.ext_getElem? fun i => ?_
    rw [listEntries, List.getElem?_map, List.getElem?_map, List.getElem?_mapIdx]
    simp [ListEntry.line, hmarker, Function.comp_def]

private theorem marker_listMarker (type : Text) (i : Nat) : Marker (listMarker type i) := by
  rw [listMarker]
  split
  · refine .number (Text.ofNat_ne_nil _) fun c hc => ?_
    exact Text.isDigit_of_char (Text.isDigit_of_mem_ofNat hc)
  · exact .sign (by decide)

private theorem visible_listMarker (type : Text) (i : Nat) :
    ∀ c ∈ listMarker type i, Text.isBlank c = false := by
  have hsigns : ∀ c ∈ ['.', '-'], Text.isBlank c = false := Text.of_all rfl
  rw [listMarker]
  split
  · refine List.forall_mem_append.mpr ⟨fun c hc => ?_, fun c hc => ?_⟩
    · exact Text.isBlank_of_isDigit (Text.isDigit_of_mem_ofNat hc)
    · exact hsigns c (List.mem_cons.mpr (Or.inl (List.mem_singleton.mp hc)))
  · exact fun c hc => hsigns c (List.mem_cons_of_mem _ hc)

/-- What holds of the entries of every list. -/
structure ListEntry.IsWritten (entry : ListEntry) : Prop where
  marker : Marker entry.marker
  visible : ∀ c ∈ entry.marker, Text.isBlank c = false
  text : Spaced entry.text
  lineFeed : '\n' ∉ entry.text

private theorem isWritten_of_mem_listEntries {type : Text} {items : List Item}
    (h : ∀ item ∈ items, item.IsCollapsed) :
    ∀ entry ∈ listEntries type items, entry.IsWritten := by
  intro entry hm
  obtain ⟨i, hi, rfl⟩ := List.mem_mapIdx.mp hm
  have hitem := h items[i] (List.getElem_mem hi)
  exact ⟨marker_listMarker type i, visible_listMarker type i, hitem.spaced_line,
    hitem.lineFeed_not_mem_line⟩

namespace ListEntry

variable {entry : ListEntry}

/-- An entry without a text is its marker alone when it is tidied, and any other is left alone. -/
theorem IsWritten.tidy_line (h : entry.IsWritten) :
    tidy entry.line = if entry.text.isEmpty then entry.marker else entry.line := by
  have hmarker := spaced_of_visible h.visible
  rw [line]
  split
  · next hempty =>
    rw [List.isEmpty_iff.mp hempty]
    exact tidy_concat_space hmarker
  · next hne =>
    exact tidy_eq_self (hmarker.append_space h.text h.marker.ne_nil (by simpa using hne))

private theorem IsWritten.exists_tidy_line (h : entry.IsWritten) :
    ∃ rest, tidy entry.line = entry.marker ++ rest := by
  rw [h.tidy_line]
  split
  · exact ⟨[], (List.append_nil _).symm⟩
  · exact ⟨' ' :: entry.text, rfl⟩

theorem IsWritten.isProse (h : entry.IsWritten) : IsProse entry.line := by
  obtain ⟨rest, hrest⟩ := h.exists_tidy_line
  refine ⟨spaced_tidy entry.line, ?_, ?_⟩
  · rw [hrest]
    simp [h.marker.ne_nil]
  · rw [Bool.eq_false_iff, ne_eq, isFence_iff, hrest]
    obtain ⟨c, cs, hc⟩ := List.exists_cons_of_ne_nil h.marker.ne_nil
    have hback : '`' ∉ entry.marker := h.marker.not_mem (by decide) (by decide)
    intro hfence
    rw [hc, List.cons_append] at hfence
    have he : '`' = c := (List.cons_prefix_cons.mp hfence).1
    rw [hc, ← he] at hback
    exact hback List.mem_cons_self

/-- Without a text the marker is not followed by a space, and the line is read as prose. -/
theorem IsWritten.joinsOn_line (h : entry.IsWritten) :
    joinsOn entry.line = entry.text.isEmpty := by
  rw [joinsOn, h.tidy_line]
  cases hempty : entry.text.isEmpty with
  | true =>
    -- What is left is the marker, and a block starts with a bar or has a space behind its marker.
    have hbar : '|' ∉ entry.marker := h.marker.not_mem (by decide) (by decide)
    have hnone : startsBlock entry.marker = false := by
      rw [Bool.eq_false_iff, ne_eq, startsBlock_iff]
      rintro (⟨rest, he⟩ | ⟨marker, rest, -, he⟩)
      · exact hbar (he ▸ List.mem_cons_self)
      · exact h.marker.space_not_mem (he ▸ List.mem_append_right _ List.mem_cons_self)
    rw [if_pos rfl, hnone]
    rfl
  | false =>
    have hstarts : startsBlock entry.line = true :=
      startsBlock_iff.mpr (Or.inr ⟨entry.marker, entry.text, h.marker, rfl⟩)
    rw [if_neg Bool.false_ne_true, hstarts]
    rfl

theorem IsWritten.lineFeed_not_mem_line (h : entry.IsWritten) : '\n' ∉ entry.line := by
  have hmarker : '\n' ∉ entry.marker := h.marker.not_mem (by decide) (by decide)
  simp [line, hmarker, h.lineFeed]

/-- The line on which an entry stands, with others behind it, begins with its marker. -/
theorem IsWritten.begins_with_marker (h : entry.IsWritten) (more : List Text) :
    entry.marker <+: together (entry.line :: more) := by
  obtain ⟨rest, hrest⟩ := h.exists_tidy_line
  have hjoin : ∃ behind, Text.join [' '] ((entry.line :: more).map tidy) =
      entry.marker ++ behind := by
    rw [List.map_cons, hrest]
    cases more with
    | nil => exact ⟨rest, rfl⟩
    | cons l ls =>
      rw [List.map_cons, Text.join_cons_cons, List.append_assoc, List.append_assoc]
      exact ⟨_, rfl⟩
  obtain ⟨behind, hbehind⟩ := hjoin
  rw [together, hbehind, tighten_append h.marker.space_not_mem]
  exact List.prefix_append _ _

end ListEntry

/-! ### The prose of a section that is a list -/

/-- The section has nothing in it but a list, and blanks around it. -/
structure HoldsOnly (section_ list : Element) : Prop where
  children : section_.children = [list]
  kind : Kind.ofTag list.tag = .list
  before : Text.isBlankText section_.text = true
  behind : Text.isBlankText list.tail = true

def listType (list : Element) : Text := (list.attr? "type".toList).getD "bullet".toList

/-- The raw Markdown of a list element, without the blank lines around it. -/
def rawList (e : Element) : Text :=
  list (listType e) (header? style e.children) (items style e.children)

theorem element_list {e : Element} (h : Kind.ofTag e.tag = .list) (pending : Bool) :
    (element style pending e).1 = block (rawList style e) := by
  obtain ⟨tag, attributes, text, inner, tail⟩ := e
  simp only [element, h]
  rfl

variable {section_ e : Element}

/-- The prose of the section is the normal form of the lines of the list. -/
theorem prose_of_holdsOnly (h : HoldsOnly section_ e) {lines : List Text}
    (hlist : rawList style e = Text.unlines lines) (hline : ∀ l ∈ lines, '\n' ∉ l)
    (hprose : ∀ l ∈ lines, IsProse l) (hne : lines ≠ []) (preferBlock : Bool) :
    prose style preferBlock (some section_) = normalize (Text.unlines lines) := by
  have hraw : raw style preferBlock (some section_) =
      section_.text ++ block (Text.unlines lines) ++ e.tail := by
    simp only [raw, h.children, children, element_list style h.kind, hlist, List.append_nil,
      List.append_assoc]
  have hcode : endsInCode (Text.unlines lines) = false := endsInCode_of_prose hline hprose hne
  rw [prose, hraw, block, normalize_between_blanks h.before h.behind hcode]

/-- The entries of a list element. -/
def entriesOf (e : Element) : List ListEntry :=
  listEntries (listType e) (items style e.children)

private theorem length_entriesOf (e : Element) :
    (entriesOf style e).length = (e.childrenNamed "item".toList).length := by
  rw [entriesOf, listEntries, List.length_mapIdx, length_items]
  rfl

theorem isWritten_entriesOf (e : Element) : ∀ entry ∈ entriesOf style e, entry.IsWritten :=
  isWritten_of_mem_listEntries (isCollapsed_of_mem_items style)

/-- Entries stand on a line of the prose together when those behind the first are empty. -/
theorem lines_prose_entries (h : HoldsOnly section_ e) (htype : listType e ≠ "table".toList)
    (hitems : e.childrenNamed "item".toList ≠ []) (preferBlock : Bool) :
    Text.lines (prose style preferBlock (some section_)) =
      ((entriesOf style e).splitBy fun _ next => next.text.isEmpty).map
        fun group => together (group.map ListEntry.line) := by
  have hwritten := isWritten_entriesOf style e
  have hraw : rawList style e = Text.unlines ((entriesOf style e).map ListEntry.line) :=
    list_eq_unlines htype _ _
  have hne : entriesOf style e ≠ [] := by
    rw [ne_eq, ← List.length_eq_zero_iff, length_entriesOf, List.length_eq_zero_iff]
    exact hitems
  have hline : ∀ entry ∈ entriesOf style e, '\n' ∉ entry.line := fun entry hm =>
    (hwritten entry hm).lineFeed_not_mem_line
  have hprose : ∀ entry ∈ entriesOf style e, IsProse entry.line := fun entry hm =>
    (hwritten entry hm).isProse
  have hgathers := (gathers_splitBy (fun entry : ListEntry => entry.text.isEmpty)
    (entriesOf style e)).congr fun entry hm => ((hwritten entry hm).joinsOn_line).symm
  rw [prose_of_holdsOnly style h hraw (List.forall_mem_map.mpr hline)
    (List.forall_mem_map.mpr hprose) (by simpa using hne)]
  exact lines_normalize_gathers hline hprose hne hgathers

/-- How the entries of a list that is no table stand in the prose of a section. An entry begins a line
of its own, with its marker in front, when it is the first one or has a text; an empty one behind
another loses the space behind its marker and is joined to the line before. So there is a line for
each item exactly when none but the first is empty. -/
theorem list_entries_keep_their_lines (h : HoldsOnly section_ e)
    (htype : listType e ≠ "table".toList) (hitems : e.childrenNamed "item".toList ≠ [])
    (preferBlock : Bool) :
    let entries := entriesOf style e
    let groups := entries.splitBy fun _ next => next.text.isEmpty
    let lines := Text.lines (prose style preferBlock (some section_))
    entries.length = (e.childrenNamed "item".toList).length ∧
    lines = groups.map (fun group => together (group.map ListEntry.line)) ∧
    (∀ group ∈ groups, ∃ first rest, group = first :: rest ∧
      first.marker <+: together (group.map ListEntry.line)) ∧
    lines.length + entries.tail.countP (fun entry => entry.text.isEmpty) = entries.length ∧
    (List.Forall₂ (fun entry line => entry.marker <+: line) entries lines ↔
      ∀ entry ∈ entries.tail, entry.text ≠ []) := by
  intro entries groups lines
  have hlines : lines = groups.map fun group => together (group.map ListEntry.line) :=
    lines_prose_entries style h htype hitems preferBlock
  have hwritten : ∀ entry ∈ entries, entry.IsWritten := isWritten_entriesOf style e
  have hgathers : Gathers (fun entry => entry.text.isEmpty) entries groups := gathers_splitBy _ _
  have hcount : lines.length + entries.tail.countP (fun entry => entry.text.isEmpty) =
      entries.length := by
    rw [hlines, List.length_map]
    exact hgathers.length
  refine ⟨length_entriesOf style e, hlines, fun group hg => ?_, hcount, fun hall => ?_,
    fun hnone => ?_⟩
  · obtain ⟨hne, hm⟩ := hgathers.of_mem hg
    obtain ⟨first, rest, rfl⟩ := List.exists_cons_of_ne_nil hne
    exact ⟨first, rest, rfl, (hwritten first (hm first List.mem_cons_self)).begins_with_marker _⟩
  · have hnone : entries.tail.countP (fun entry => entry.text.isEmpty) = 0 := by
      have hlength := hall.length_eq
      omega
    intro entry hm hempty
    exact List.countP_eq_zero.mp hnone entry hm (List.isEmpty_iff.mpr hempty)
  · have hsingle : groups = entries.map fun entry => [entry] :=
      hgathers.eq_singletons fun entry hm => by simpa using hnone entry hm
    rw [hlines, hsingle, List.map_map, List.forall₂_map_right_iff, List.forall₂_same]
    exact fun entry hm => (hwritten entry hm).begins_with_marker []

/-- A list with numbers: an empty item, one with a term and a description, another empty one, and one
whose text begins with a point. -/
def numberedItems : Element :=
  let empty : Element := ⟨"item".toList, [], " ".toList, [], "\n".toList⟩
  let described : Element := ⟨"item".toList, [], [],
    [⟨"term".toList, [], "a\n b".toList, [], []⟩,
      ⟨"description".toList, [], "c".toList, [], []⟩], []⟩
  ⟨"list".toList, [("type".toList, "number".toList)], [],
    [empty, described, empty, ⟨"item".toList, [], ".d".toList, [], []⟩], "\n".toList⟩

theorem list_entries_keep_their_lines_numbered :
    let style : LinkStyle := ⟨.default, false⟩
    let section_ : Element := ⟨"summary".toList, [], "\n".toList, [numberedItems], []⟩
    let lines := Text.lines (prose style false (some section_))
    HoldsOnly section_ numberedItems ∧ listType numberedItems ≠ "table".toList ∧
    numberedItems.childrenNamed "item".toList ≠ [] ∧
    lines = ["1.", "2. **a b** — c 3.", "4..d"].map String.toList ∧
    lines.length + 1 = (numberedItems.childrenNamed "item".toList).length ∧
    ¬ List.Forall₂ (fun entry line => entry.marker <+: line) (entriesOf style numberedItems)
      lines := by
  intro style section_ lines
  have h : HoldsOnly section_ numberedItems := ⟨rfl, by decide, by decide, by decide⟩
  have htype : listType numberedItems ≠ "table".toList := by decide
  have hitems : numberedItems.childrenNamed "item".toList ≠ [] := by decide +kernel
  obtain ⟨hlength, hlines, -, hcount, hall⟩ :=
    list_entries_keep_their_lines style h htype hitems false
  have hempty : (entriesOf style numberedItems).tail.countP (fun entry => entry.text.isEmpty) =
      1 := by
    decide +kernel
  refine ⟨h, htype, hitems, hlines.trans (by decide +kernel), ?_, fun hf => ?_⟩
  · rw [hempty] at hcount
    exact hcount.trans hlength
  · have hsome : ¬ ∀ entry ∈ (entriesOf style numberedItems).tail, entry.text ≠ [] := by
      decide +kernel
    exact hsome (hall.mp hf)

/-- Behind an item with a text an empty one is no line of its own. -/
theorem empty_item_is_joined :
    let empty : Element := ⟨"item".toList, [], [], [], []⟩
    let e : Element :=
      ⟨"list".toList, [], [], [⟨"item".toList, [], "a".toList, [], []⟩, empty], []⟩
    let section_ : Element := ⟨"summary".toList, [], [], [e], []⟩
    HoldsOnly section_ e ∧ listType e = "bullet".toList ∧
    (e.childrenNamed "item".toList).length = 2 ∧
    Text.lines (prose ⟨.default, false⟩ false (some section_)) = ["- a -".toList] := by
  intro empty e section_
  exact ⟨⟨rfl, by decide, by decide, by decide⟩, by decide, by decide +kernel, by decide +kernel⟩

end ApiPages.Render
