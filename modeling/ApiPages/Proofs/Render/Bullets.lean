import ApiPages.Proofs.Render.Index
import ApiPages.Proofs.Render.Members

/-! Bullets: a text moved under a bullet line by line, and overloads, whose sections are those of a
member under its own heading. -/
namespace ApiPages

namespace Markdown

private theorem drop_indentLine (line : Text) : (indentLine line).drop 2 = line := by
  cases line <;> rfl

private theorem map_drop_indentLine (lines : List Text) :
    (lines.map indentLine).map (List.drop 2) = lines := by
  rw [List.map_map]
  exact (List.map_congr_left fun line _ => drop_indentLine line).trans (List.map_id lines)

/-- The line stands under a bullet: it is empty or begins with two spaces. -/
def IsIndented (line : Text) : Prop := line ≠ [] → "  ".toList <+: line

private theorem isIndented_indentLine (line : Text) : IsIndented (indentLine line) := by
  cases line with
  | nil => exact fun h => absurd rfl h
  | cons c cs => exact fun _ => ⟨c :: cs, rfl⟩

private theorem isIndented_of_mem_map {lines : List Text} :
    ∀ line ∈ lines.map indentLine, IsIndented line :=
  List.forall_mem_map.mpr fun line _ => isIndented_indentLine line

private theorem lineFeed_not_mem_indentLine {line : Text} (h : '\n' ∉ line) : '\n' ∉ indentLine line := by
  cases line with
  | nil => exact h
  | cons c cs => simpa [indentLine] using h

/-- The lines are those of a bullet with this text: the first has the mark of a bullet, the others
stand under it, and without these two characters they are the lines of the text. -/
structure IsBulletOf (t : Text) (parts : List Text) : Prop where
  first : ∃ line, parts.head? = some ("- ".toList ++ line)
  below : ∀ line ∈ parts.tail, IsIndented line
  lines : Text.lines (Text.unlines parts) = parts
  text : Text.unlines (parts.map (List.drop 2)) = t

private theorem isBulletOf_bullet (t : Text) : IsBulletOf t (bullet t) := by
  obtain ⟨first, rest, hlines⟩ := List.exists_cons_of_ne_nil (Text.splitOn_ne_nil '\n' t)
  have hlines : Text.lines t = first :: rest := hlines
  have hbullet : bullet t = ('-' :: ' ' :: first) :: rest.map indentLine := by rw [bullet, hlines]
  have hline : ∀ line ∈ first :: rest, '\n' ∉ line := fun line hm =>
    Text.lineFeed_not_mem_of_mem_lines (hlines ▸ hm)
  obtain ⟨hfirst, hrest⟩ := List.forall_mem_cons.mp hline
  rw [hbullet]
  refine ⟨⟨first, rfl⟩, isIndented_of_mem_map, ?_, ?_⟩
  · refine Text.lines_unlines (List.forall_mem_cons.mpr ⟨by simpa using hfirst, ?_⟩) (by simp)
    exact List.forall_mem_map.mpr fun line hm => lineFeed_not_mem_indentLine (hrest line hm)
  · rw [List.map_cons, map_drop_indentLine]
    show Text.unlines (first :: rest) = t
    rw [← hlines]
    exact Text.join_splitOn '\n' t

/-- The text of a described bullet is its label and its text, with a dash between them if there is
a text. -/
theorem isBulletOf_describedBullet (label t : Text) :
    ∃ dash ∈ [[], " — ".toList, " —\n\n".toList],
      IsBulletOf (label ++ dash ++ t) (describedBullet label t) := by
  rw [describedBullet]
  split
  · next hempty =>
    refine ⟨[], by simp, ?_⟩
    rw [List.isEmpty_iff.mp hempty, List.append_nil, List.append_nil]
    exact isBulletOf_bullet label
  · split
    · exact ⟨_, by simp, isBulletOf_bullet _⟩
    · exact ⟨_, by simp, isBulletOf_bullet _⟩

end Markdown

namespace Render

open Markdown

/-- The first line of a member that is a bullet: its mark and its heading. -/
def bulletHead (e : Entry) : Text :=
  "- ".toList ++ entryMark e ++ '`' :: e.identifier.memberHeader ++ ['`']

variable (ctx : Context)

private theorem lineFeed_not_mem_bulletHead {e : Entry} (h : '\n' ∉ e.identifier) :
    '\n' ∉ bulletHead e := by
  have hid : '\n' ∉ e.identifier.id := fun hm => h (Identifier.mem_of_mem_id hm)
  have hanchor := lineFeed_not_mem_memberAnchor hid
  have hheader : '\n' ∉ e.identifier.memberHeader := by
    intro hm
    rcases Identifier.mem_memberHeader hm with hm | hm
    · exact h hm
    · exact absurd hm (by decide)
  have hmark : '\n' ∉ entryMark e := lineFeed_not_mem_anchorMark hanchor
  unfold bulletHead
  simp only [List.mem_append, List.mem_cons, not_or]
  exact ⟨⟨⟨by decide, hmark⟩, by decide, hheader⟩, by decide⟩

private theorem bulletedMember_eq (e : Entry) : bulletedMember ctx e =
    bulletHead e :: [] :: ((memberDetails ctx e).flatMap Text.lines).map indentLine := by
  rw [List.map_flatMap]
  rfl

/-- Under the bullet of a member stand the lines of its sections, each of them indented. -/
theorem lines_below_bulletHead (e : Entry) :
    Text.lines (Text.unlines ((bulletedMember ctx e).drop 2)) =
      (Text.lines (Text.unlines (memberDetails ctx e))).map indentLine := by
  rw [bulletedMember_eq, List.drop_succ_cons, List.drop_succ_cons, List.drop_zero]
  by_cases hnone : memberDetails ctx e = []
  · rw [hnone]
    rfl
  · rw [Text.lines_unlines_eq_flatMap hnone, Text.lines_unlines]
    · refine List.forall_mem_map.mpr fun line hline => lineFeed_not_mem_indentLine ?_
      obtain ⟨t, -, hm⟩ := List.mem_flatMap.mp hline
      exact Text.lineFeed_not_mem_of_mem_lines hm
    · obtain ⟨t, ts, ht⟩ := List.exists_cons_of_ne_nil hnone
      rw [ht, List.flatMap_cons]
      simp [Text.lines, Text.splitOn_ne_nil]

private theorem lineFeed_not_mem_bulletedMember {e : Entry} (h : '\n' ∉ e.identifier) :
    ∀ line ∈ bulletedMember ctx e, '\n' ∉ line := by
  rw [bulletedMember_eq]
  refine List.forall_mem_cons.mpr ⟨lineFeed_not_mem_bulletHead h, ?_⟩
  refine List.forall_mem_cons.mpr ⟨List.not_mem_nil, ?_⟩
  refine List.forall_mem_map.mpr fun line hline => lineFeed_not_mem_indentLine ?_
  obtain ⟨t, -, hm⟩ := List.mem_flatMap.mp hline
  exact Text.lineFeed_not_mem_of_mem_lines hm

private theorem not_isBullet_indentLine (line : Text) : ¬ isBullet (indentLine line) = true := by
  cases line <;> exact Bool.false_ne_true

/-- Of the lines of a member that is a bullet, the first alone has the mark of a bullet. -/
theorem filter_isBullet_bulletedMember (e : Entry) :
    (bulletedMember ctx e).filter isBullet = [bulletHead e] := by
  have hbelow : (((memberDetails ctx e).flatMap Text.lines).map indentLine).filter isBullet = [] :=
    List.filter_eq_nil_iff.mpr (List.forall_mem_map.mpr fun line _ => not_isBullet_indentLine line)
  have hhead : isBullet (bulletHead e) = true := rfl
  have hempty : ¬ isBullet [] = true := Bool.false_ne_true
  rw [bulletedMember_eq, List.filter_cons_of_pos hhead, List.filter_cons_of_neg hempty, hbelow]

/-- The line begins a bullet or stands under one. -/
theorem isBullet_or_isIndented {e : Entry} :
    ∀ line ∈ bulletedMember ctx e, isBullet line = true ∨ IsIndented line := by
  rw [bulletedMember_eq]
  refine List.forall_mem_cons.mpr ⟨Or.inl rfl, ?_⟩
  refine List.forall_mem_cons.mpr ⟨Or.inr fun h => absurd rfl h, ?_⟩
  exact fun line hline => Or.inr (isIndented_of_mem_map line hline)

/-- The key of a group is that of its members, of which there are some. -/
theorem lineFeed_not_mem_key {type : Entry} {g : Group} (hg : g ∈ groups ctx type)
    (hoverloads : g.holdsOverloads = true) (h : ∀ e ∈ g.members, '\n' ∉ e.identifier) :
    '\n' ∉ g.key := by
  have hsome : 0 < (g.members.filter fun e => e.identifier.isMethod).length :=
    Nat.zero_lt_of_lt (of_decide_eq_true hoverloads)
  obtain ⟨e, he⟩ := List.exists_mem_of_length_pos hsome
  have hm : e ∈ g.members := List.mem_of_mem_filter he
  have hkey : e.identifier.groupKey = g.key := by
    rw [(divides_groups ctx type).members g hg] at hm
    exact eq_of_beq (List.mem_filter.mp hm).2
  rw [← hkey]
  exact fun hf => (Identifier.mem_groupKey hf).elim (h e hm) (by decide)

/-- The heading of overloads with their bullets below it. -/
theorem lines_group {type : Entry} {g : Group} (hg : g ∈ groups ctx type)
    (hoverloads : g.holdsOverloads = true) (h : ∀ e ∈ g.members, '\n' ∉ e.identifier) :
    Text.lines (Text.unlines (group ctx g)) =
      ("## ".toList ++ g.key) :: [] :: g.members.flatMap (bulletedMember ctx) := by
  have hgroup : group ctx g =
      ("## ".toList ++ g.key) :: [] :: g.members.flatMap (bulletedMember ctx) := by
    rw [group, if_pos (of_decide_eq_true hoverloads)]
  have hheading : '\n' ∉ "## ".toList ++ g.key := by
    rw [List.mem_append, not_or]
    exact ⟨by decide, lineFeed_not_mem_key ctx hg hoverloads h⟩
  rw [hgroup]
  refine Text.lines_unlines (List.forall_mem_cons.mpr ⟨hheading, ?_⟩) (List.cons_ne_nil _ _)
  refine List.forall_mem_cons.mpr ⟨List.not_mem_nil, fun line hline => ?_⟩
  obtain ⟨e, he, hm⟩ := List.mem_flatMap.mp hline
  exact lineFeed_not_mem_bulletedMember ctx (h e he) line hm

/-- Overloads are shown as other members are, two spaces further in. Below the bullet of one stand the
lines of its sections, those that its own heading would have below it. Below the heading of a group
there is a bullet for each of the overloads, its first line with the mark, and nothing else begins
where these begin. Bullets inside the sections are made the same way. -/
theorem overloads_are_indented :
    (∀ ctx e,
      let below := Text.lines (Text.unlines ((bulletedMember ctx e).drop 2))
      (member ctx e).drop 4 = memberDetails ctx e ∧
      (∀ line ∈ below, IsIndented line) ∧
      below.map (List.drop 2) = Text.lines (Text.unlines (memberDetails ctx e))) ∧
    (∀ ctx type, ∀ g ∈ groups ctx type, g.holdsOverloads = true →
      (∀ e ∈ g.members, '\n' ∉ e.identifier) →
        ∃ below, Text.lines (Text.unlines (group ctx g)) = ("## ".toList ++ g.key) :: below ∧
          (∀ line ∈ below, isBullet line = true ∨ IsIndented line) ∧
          below.filter isBullet = g.members.map bulletHead) ∧
    (∀ t, IsBulletOf t (bullet t)) ∧
    (∀ label t, ∃ dash ∈ [[], " — ".toList, " —\n\n".toList],
      IsBulletOf (label ++ dash ++ t) (describedBullet label t)) := by
  refine ⟨fun ctx e => ?_, ?_, isBulletOf_bullet, isBulletOf_describedBullet⟩
  · intro below
    have hbelow : below = (Text.lines (Text.unlines (memberDetails ctx e))).map indentLine :=
      lines_below_bulletHead ctx e
    rw [hbelow]
    exact ⟨rfl, isIndented_of_mem_map, map_drop_indentLine _⟩
  intro ctx type g hg hoverloads h
  refine ⟨_, lines_group ctx hg hoverloads h, ?_, ?_⟩
  · refine List.forall_mem_cons.mpr ⟨Or.inr fun h => absurd rfl h, fun line hline => ?_⟩
    obtain ⟨e, -, hm⟩ := List.mem_flatMap.mp hline
    exact isBullet_or_isIndented ctx line hm
  · have hempty : ¬ isBullet [] = true := Bool.false_ne_true
    rw [List.filter_cons_of_neg hempty, List.filter_flatMap]
    simp only [filter_isBullet_bulletedMember]
    exact List.map_eq_flatMap.symm

/-- A method with code in its summary. -/
def methodWithCode : Markup.Element :=
  ⟨Catalog.recordTag, [("name".toList, "M:A.B.F".toList)], [],
    [⟨"summary".toList, [], "Adds.".toList,
      [⟨"code".toList, [], "a\n\n  b".toList, [], []⟩], []⟩], []⟩

theorem overloads_are_indented_with_code :
    let root : Markup.Element := ⟨"doc".toList, [], [],
      [undocumented "T:A.B", methodWithCode, undocumented "M:A.B.F(System.Int32)"], []⟩
    let ctx := rendering root .default Strategy.heuristic false
    let e : Entry := ⟨"M:A.B.F".toList, methodWithCode, [1]⟩
    let g : Group := ⟨"Method: F".toList, [e, overloadsEntry 2 "M:A.B.F(System.Int32)"]⟩
    groups ctx (overloadsEntry 0 "T:A.B") = [g] ∧ g.holdsOverloads = true ∧
    (∀ e ∈ g.members, '\n' ∉ e.identifier) ∧
    (∃ below, Text.lines (Text.unlines (group ctx g)) = "## Method: F".toList :: below ∧
      below.filter isBullet =
        ["- <a id=\"a.b.f\"></a>`Method: F()`".toList,
          "- <a id=\"a.b.f(int)\"></a>`Method: F(int)`".toList]) ∧
    (Text.lines (Text.unlines ((bulletedMember ctx e).drop 2))).map (List.drop 2) =
      ["Adds.", "", "```csharp", "a", "", "  b", "```", ""].map String.toList := by
  intro root ctx e g
  have hgroups : groups ctx (overloadsEntry 0 "T:A.B") = [g] := rfl
  have hg : g ∈ groups ctx (overloadsEntry 0 "T:A.B") := hgroups ▸ List.mem_singleton_self g
  have hlines : ∀ e ∈ g.members, '\n' ∉ e.identifier := by decide +kernel
  obtain ⟨hdetails, hgroup, -⟩ := overloads_are_indented
  obtain ⟨below, hbelow, -, hbullets⟩ := hgroup ctx _ g hg rfl hlines
  refine ⟨hgroups, rfl, hlines, ⟨below, hbelow, hbullets.trans ?_⟩, (hdetails ctx e).2.2.trans ?_⟩
  · decide +kernel
  · decide +kernel

end Render
end ApiPages
