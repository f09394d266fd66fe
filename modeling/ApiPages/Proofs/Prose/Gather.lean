import ApiPages.Proofs.Prose.Blocks
import ApiPages.Proofs.Prose.Line
import ApiPages.Proofs.Prose.Paragraphs
import Mathlib.Data.List.SplitBy

/-! Lines of prose with nothing blank and no fence among them: the pass puts each line behind the one
before it, unless it starts a block. -/
namespace ApiPages.Prose

section Gathering

variable {α : Type} {joins : α → Bool}

/-- The groups go on as long as something joins, and a new one begins with what does not. -/
inductive Gathers (joins : α → Bool) : List α → List (List α) → Prop
  | nil : Gathers joins [] []
  | group {first rest more groups} : (∀ a ∈ rest, joins a = true) →
      (∀ a ∈ more.head?, joins a = false) → Gathers joins more groups →
      Gathers joins (first :: rest ++ more) ((first :: rest) :: groups)

theorem gathers_splitBy (joins : α → Bool) (as : List α) :
    Gathers joins as (as.splitBy fun _ next => joins next) := by
  -- A group is taken as a whole, so the induction is on the length.
  induction hn : as.length using Nat.strong_induction_on generalizing as with
  | _ n ih =>
    cases as with
    | nil => exact .nil
    | cons first tail =>
      have hjoined : ∀ a ∈ tail.takeWhile joins, joins a = true := fun a ha =>
        List.mem_takeWhile_imp ha
      have happart : ∀ a ∈ (tail.dropWhile joins).head?, joins a = false := by
        intro a ha
        have hnot := List.head?_dropWhile_not joins tail
        rw [ha] at hnot
        simpa using hnot
      have hgroup : (first :: tail.takeWhile joins).splitBy (fun _ next => joins next) =
          [first :: tail.takeWhile joins] := by
        refine List.splitBy_of_isChain (List.cons_ne_nil _ _) (List.Pairwise.isChain ?_)
        refine List.pairwise_cons.mpr ⟨hjoined, ?_⟩
        exact List.pairwise_of_forall_mem_list fun _ _ a ha => hjoined a ha
      have hsplit : first :: tail = (first :: tail.takeWhile joins) ++ tail.dropWhile joins := by
        rw [List.cons_append, List.takeWhile_append_dropWhile]
      have hshorter : (tail.dropWhile joins).length < n := by
        rw [← hn, List.length_cons]
        exact Nat.lt_succ_of_le (List.length_dropWhile_le _ _)
      rw [hsplit, List.splitBy_append fun _ _ a ha => happart a ha, hgroup]
      exact .group hjoined happart (ih _ hshorter _ rfl)

/-- Every element that joins, but for the first one, is a group less. -/
theorem Gathers.length {as : List α} {groups : List (List α)} (h : Gathers joins as groups) :
    groups.length + as.tail.countP joins = as.length := by
  induction h with
  | nil => rfl
  | @group first rest more groups hrest hmore hgroups ih =>
    have hcount : rest.countP joins = rest.length := List.countP_eq_length.mpr hrest
    have hmore : more.countP joins = more.tail.countP joins := by
      cases more with
      | nil => rfl
      | cons a as => exact List.countP_cons_of_neg (by simp [hmore a rfl])
    rw [List.cons_append, List.tail_cons, List.countP_append, hcount, hmore, List.length_cons,
      List.length_cons, List.length_append]
    omega

/-- Where nothing joins, every element is a group of its own. -/
theorem Gathers.eq_singletons {as : List α} {groups : List (List α)} (h : Gathers joins as groups)
    (hnone : ∀ a ∈ as.tail, joins a = false) : groups = as.map fun a => [a] := by
  induction h with
  | nil => rfl
  | @group first rest more groups hrest hmore hgroups ih =>
    rw [List.cons_append, List.tail_cons, List.forall_mem_append] at hnone
    have hnil : rest = [] := by
      refine List.eq_nil_iff_forall_not_mem.mpr fun a ha => ?_
      have ht := hrest a ha
      rw [hnone.1 a ha] at ht
      cases ht
    rw [ih fun a ha => hnone.2 a (List.mem_of_mem_tail ha), hnil]
    rfl

theorem Gathers.congr {joins' : α → Bool} {as : List α} {groups : List (List α)}
    (h : Gathers joins as groups) (he : ∀ a ∈ as, joins a = joins' a) : Gathers joins' as groups := by
  induction h with
  | nil => exact .nil
  | @group first rest more groups hrest hmore hgroups ih =>
    rw [List.cons_append, List.forall_mem_cons, List.forall_mem_append] at he
    obtain ⟨-, herest, hemore⟩ := he
    refine .group (fun a ha => ?_) (fun a ha => ?_) (ih hemore)
    · rw [← herest a ha, hrest a ha]
    · rw [← hemore a (List.mem_of_mem_head? ha), hmore a ha]

theorem Gathers.of_mem {as group : List α} {groups : List (List α)} (h : Gathers joins as groups)
    (hg : group ∈ groups) : group ≠ [] ∧ ∀ a ∈ group, a ∈ as := by
  induction h with
  | nil => cases hg
  | group hrest hmore hgroups ih =>
    rcases List.mem_cons.mp hg with rfl | hg
    · exact ⟨List.cons_ne_nil _ _, fun a ha => List.mem_append_left _ ha⟩
    · obtain ⟨hne, hm⟩ := ih hg
      exact ⟨hne, fun a ha => List.mem_append_right _ (hm a ha)⟩

theorem Gathers.ne_nil {as : List α} {groups : List (List α)} (h : Gathers joins as groups)
    (hne : as ≠ []) : groups ≠ [] := by
  cases h with
  | nil => exact absurd rfl hne
  | group => exact List.cons_ne_nil _ _

end Gathering

/-- A line of prose before it is tidied: it is not blank, and no fence. -/
def IsProse (line : Text) : Prop := Piece (tidy line)

/-- The raw lines of a paragraph as the one line that is written for them. -/
def together (lines : List Text) : Text := tighten (Text.join [' '] (lines.map tidy))

/-- The line stands behind the line before it: it is no list item and no table row. -/
def joinsOn (line : Text) : Bool := !startsBlock (tidy line)

private theorem paragraphLines_together {lines : List Text} (hne : lines ≠ []) :
    paragraphLines (lines.map tidy) = [together lines] := by
  rw [paragraphLines, if_neg (by simpa using hne), together]

variable {α : Type} {line : α → Text}

private theorem pass_prose {l : Text} (h : IsProse l) (open_ : Bool) (paragraph rest : List Text) :
    pass (.text open_ paragraph) (l :: rest) =
      if joinsOn l then pass (.text open_ (paragraph ++ [tidy l])) rest
      else paragraphLines paragraph ++
        pass (.text (open_ || !paragraph.isEmpty) [tidy l]) rest := by
  rw [joinsOn]
  cases hblock : startsBlock (tidy l) with
  | true => exact (Step.starts h.noFence h.ne_nil hblock).pass_cons rest
  | false => exact (Step.joins h.noFence h.ne_nil hblock).pass_cons rest

/-- Lines that join go into the paragraph. -/
theorem pass_joined {rest : List α} (hprose : ∀ a ∈ rest, IsProse (line a))
    (hjoined : ∀ a ∈ rest, joinsOn (line a) = true) (open_ : Bool) (paragraph more : List Text) :
    pass (.text open_ paragraph) (rest.map line ++ more) =
      pass (.text open_ (paragraph ++ (rest.map line).map tidy)) more := by
  induction rest generalizing paragraph with
  | nil =>
    rw [List.map_nil, List.map_nil, List.append_nil]
    rfl
  | cons a as ih =>
    obtain ⟨ha, has⟩ := List.forall_mem_cons.mp hprose
    obtain ⟨hja, hjas⟩ := List.forall_mem_cons.mp hjoined
    rw [List.map_cons, List.cons_append, pass_prose ha, if_pos hja, ih has hjas, List.map_cons,
      List.append_assoc]
    rfl

/-- A paragraph ends where a group that does not join it begins. -/
private theorem pass_behind {as : List α} {groups : List (List α)}
    (hprose : ∀ a ∈ as, IsProse (line a)) (h : Gathers (joinsOn ∘ line) as groups)
    (hfirst : ∀ a ∈ as.head?, joinsOn (line a) = false) {lines : List Text} (hne : lines ≠ [])
    (open_ : Bool) :
    pass (.text open_ (lines.map tidy)) (as.map line) =
      (lines :: groups.map (List.map line)).map together := by
  induction h generalizing lines open_ with
  | nil => exact paragraphLines_together hne
  | @group first rest more groups hrest hmore hgroups ih =>
    rw [List.cons_append, List.forall_mem_cons, List.forall_mem_append] at hprose
    obtain ⟨hp, hprest, hpmore⟩ := hprose
    have hstart : ¬ joinsOn (line first) = true := by simp [hfirst first rfl]
    have hgroup : (first :: rest).map line ≠ [] := by simp
    have hnext := ih hpmore hmore hgroup (open_ || !(lines.map tidy).isEmpty)
    rw [List.cons_append, List.map_cons, List.map_append, pass_prose hp, if_neg hstart,
      paragraphLines_together hne, pass_joined hprest hrest]
    rw [List.map_cons, List.map_cons] at hnext
    rw [List.singleton_append, List.singleton_append, hnext]
    rfl

/-- The pass writes one line for each group of lines. -/
theorem pass_gathers {as : List α} {groups : List (List α)}
    (hprose : ∀ a ∈ as, IsProse (line a)) (h : Gathers (joinsOn ∘ line) as groups) :
    pass (.text false []) (as.map line) = groups.map fun group => together (group.map line) := by
  cases h with
  | nil => rfl
  | @group first rest more groups hrest hmore hgroups =>
    rw [List.cons_append, List.forall_mem_cons, List.forall_mem_append] at hprose
    obtain ⟨hp, hprest, hpmore⟩ := hprose
    have hgroup : (first :: rest).map line ≠ [] := by simp
    have hnext := pass_behind hpmore hgroups hmore hgroup false
    have hfirst : pass (.text false []) (line first :: (rest.map line ++ more.map line)) =
        pass (.text false [tidy (line first)]) (rest.map line ++ more.map line) := by
      rw [pass_prose hp]
      split <;> rfl
    rw [List.cons_append, List.map_cons, List.map_append, hfirst, pass_joined hprest hrest]
    rw [List.map_cons, List.map_cons] at hnext
    rw [List.singleton_append, hnext, List.map_cons, List.map_map]
    rfl

private theorem piece_together {lines : List Text} (hprose : ∀ l ∈ lines, IsProse l) (hne : lines ≠ []) :
    Piece (together lines) := by
  refine (piece_join ?_ (by simpa using hne)).tighten.1
  exact List.forall_mem_map.mpr hprose

/-- The normal form of lines of prose has one line for each group of them. -/
theorem lines_normalize_gathers {as : List α} {groups : List (List α)}
    (hline : ∀ a ∈ as, '\n' ∉ line a) (hprose : ∀ a ∈ as, IsProse (line a)) (hne : as ≠ [])
    (h : Gathers (joinsOn ∘ line) as groups) :
    Text.lines (normalize (Text.unlines (as.map line))) =
      groups.map fun group => together (group.map line) := by
  have hlines : Text.lines (Text.unlines (as.map line)) = as.map line :=
    Text.lines_unlines (List.forall_mem_map.mpr hline) (by simpa using hne)
  have hfilled : ∀ l ∈ groups.map (fun group => together (group.map line)), l ≠ [] := by
    refine List.forall_mem_map.mpr fun group hg => ?_
    obtain ⟨hgne, hm⟩ := h.of_mem hg
    refine (piece_together ?_ (by simpa using hgne)).ne_nil
    exact List.forall_mem_map.mpr fun a ha => hprose a (hm a ha)
  have hne' : groups.map (fun group => together (group.map line)) ≠ [] := by
    simpa using h.ne_nil hne
  have hdrop : dropEmptyEnds (groups.map fun group => together (group.map line)) =
      groups.map fun group => together (group.map line) := by
    refine Filled.dropEmptyEnds ⟨⟨hne', fun hf => ?_⟩, fun hl => ?_⟩
    · exact hfilled [] (List.mem_of_mem_head? hf) rfl
    · exact hfilled [] (List.mem_of_mem_getLast? hl) rfl
  rw [lines_normalize, hlines, pass_gathers hprose h, hdrop]
  rw [hlines, pass_gathers hprose h, hdrop]
  exact hne'

/-- When every line starts a block, each is written on a line of its own. -/
theorem lines_normalize_apart {as : List α} (hline : ∀ a ∈ as, '\n' ∉ line a)
    (hprose : ∀ a ∈ as, IsProse (line a)) (hne : as ≠ [])
    (hstarts : ∀ a ∈ as, joinsOn (line a) = false) :
    Text.lines (normalize (Text.unlines (as.map line))) = as.map fun a => together [line a] := by
  have hgathers := gathers_splitBy (joinsOn ∘ line) as
  have hsingle := hgathers.eq_singletons fun a ha => hstarts a (List.mem_of_mem_tail ha)
  rw [hsingle] at hgathers
  rw [lines_normalize_gathers hline hprose hne hgathers, List.map_map]
  rfl

theorem endsInCode_of_prose {lines : List Text} (hline : ∀ l ∈ lines, '\n' ∉ l)
    (hprose : ∀ l ∈ lines, IsProse l) (hne : lines ≠ []) :
    endsInCode (Text.unlines lines) = false := by
  have hnone : lines.countP isFenceLine = 0 := by
    refine List.countP_eq_zero.mpr fun l hl => ?_
    rw [isFenceLine, ← isFence_tidy, (hprose l hl).noFence]
    exact Bool.false_ne_true
  rw [endsInCode, Text.lines_unlines hline hne, hnone]
  rfl

/-! ### Blanks around -/

private theorem tidy_eq_nil_iff {l : Text} : tidy l = [] ↔ Text.visible l = [] := by
  rw [← visible_tidy, ← Text.trim_eq_nil_iff, tidy, Text.trim_trim]

private theorem pass_blanks {lines : List Text} (h : ∀ l ∈ lines, tidy l = []) :
    pass (.text false []) lines = [] := by
  induction lines with
  | nil => rfl
  | cons l ls ih =>
    obtain ⟨hl, hls⟩ := List.forall_mem_cons.mp h
    rw [(Step.breaks hl).pass_cons, ih hls]
    rfl

private theorem tidy_of_mem_blank {t : Text} (h : Text.isBlankText t = true) :
    ∀ l ∈ Text.lines t, tidy l = [] := by
  intro l hl
  have hvisible : Text.visible t = [] :=
    Text.visible_eq_nil_iff.mpr (List.all_eq_true.mp h)
  rw [← Text.flatMap_visible_lines, List.flatMap_eq_nil_iff] at hvisible
  exact tidy_eq_nil_iff.mpr (hvisible l hl)

private theorem normalize_blank {t : Text} (h : Text.isBlankText t = true) : normalize t = [] := by
  rw [normalize, pass_blanks (tidy_of_mem_blank h)]
  rfl

private theorem endsInCode_blank {t : Text} (h : Text.isBlankText t = true) : endsInCode t = false := by
  have hnone : (Text.lines t).countP isFenceLine = 0 := by
    refine List.countP_eq_zero.mpr fun l hl => ?_
    rw [isFenceLine, ← isFence_tidy, tidy_of_mem_blank h l hl]
    exact Bool.false_ne_true
  rw [endsInCode, hnone]
  rfl

/-- Blanks before and behind a text that does not end inside of code leave no trace. -/
theorem normalize_between_blanks {a b t : Text} (ha : Text.isBlankText a = true)
    (hb : Text.isBlankText b = true) (ht : endsInCode t = false) :
    normalize (a ++ ("\n\n".toList ++ t ++ "\n\n".toList) ++ b) = normalize t := by
  have hsplit : a ++ ("\n\n".toList ++ t ++ "\n\n".toList) ++ b =
      a ++ "\n\n".toList ++ (t ++ "\n\n".toList ++ b) := by simp only [List.append_assoc]
  rw [hsplit, normalize_append (endsInCode_blank ha), normalize_append ht, normalize_blank ha,
    normalize_blank hb, paragraphs_empty_left, paragraphs_empty_right]

end ApiPages.Prose
