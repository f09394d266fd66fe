import ApiPages.Proofs.Text.Character
import ApiPages.Proofs.Text.Lines
import ApiPages.Proofs.Text.Runs
import ApiPages.Proofs.Text.Trim
import ApiPages.Prose

/-! The pass over the lines of a prose text: what it writes outside of fenced code ends where a
blank line belongs, and inside it copies. -/
namespace ApiPages.Prose

theorem isFence_iff {line : Text} : isFence line = true ↔ ['`', '`'] ++ ['`'] <+: line :=
  List.isPrefixOf_iff_prefix

theorem isBlank_of_isSpaceOrTab {c : Char} (h : (c = ' ' || c = '\t') = true) :
    Text.isBlank c = true := by
  rcases Bool.or_eq_true_iff.mp h with hs | ht
  · rw [of_decide_eq_true hs]
    decide
  · rw [of_decide_eq_true ht]
    decide

/-- Tidying a line makes a fence of it when trimming does. -/
theorem isFence_tidy (line : Text) : isFence (tidy line) = isFence (Text.trim line) := by
  have hnone : ∀ c ∈ ['`', '`'] ++ ['`'], (decide (c = ' ') || decide (c = '\t')) = false :=
    Text.of_all rfl
  rw [Bool.eq_iff_iff, isFence_iff, isFence_iff, tidy, Text.prefix_trim_iff (by decide),
    Text.prefix_trim_iff (by decide),
    Text.dropWhile_replaceRuns (fun _ => isBlank_of_isSpaceOrTab) (by decide)]
  constructor
  · exact Text.prefix_of_prefix_replaceRuns (by decide)
  · rintro ⟨rest, hrest⟩
    rw [← hrest, Text.replaceRuns_append hnone]
    exact List.prefix_append _ _

theorem isFence_append (rest : Text) : isFence (fence ++ rest) = true :=
  List.isPrefixOf_iff_prefix.mpr (List.prefix_append fence rest)

/-- An opening fence is tidy when its language is. -/
theorem tidy_opening {language : Text} (hend : Text.trimEnd language = language)
    (hruns : Text.replaceRuns (fun c => c = ' ' || c = '\t') ' ' language = language) :
    tidy (fence ++ language) = fence ++ language := by
  rw [tidy, Text.replaceRuns_append (Text.of_all rfl), hruns]
  show Text.trim ('`' :: '`' :: '`' :: language) = _
  rw [Text.trim_cons (by decide)]
  have he := Text.dropEndWhile_append_cons (p := Text.isBlank) (c := '`') (by decide)
    ['`', '`'] language
  rw [show Text.dropEndWhile Text.isBlank language = language from hend] at he
  exact he

theorem paragraphLines_nil : paragraphLines [] = [] := rfl

/-- What was written can be followed by a block: it ends in a blank line, or it is nothing and
stands at the beginning. -/
def EndsBlank (atStart : Bool) (written : List Text) : Prop :=
  written = [] ∧ atStart = true ∨ written.getLast? = some []

private theorem endsBlank_concat (atStart : Bool) (written : List Text) :
    EndsBlank atStart (written ++ [[]]) :=
  Or.inr List.getLast?_concat

/-- After the end of a paragraph a block can follow, whatever stood before. -/
theorem endsBlank_endParagraph {atStart open_ : Bool} {written : List Text}
    (h : open_ = false → EndsBlank atStart written) (paragraph : List Text) :
    EndsBlank atStart (written ++ endParagraph open_ paragraph) := by
  by_cases hb : (open_ || !paragraph.isEmpty) = true
  · rw [endParagraph, if_pos hb, ← List.append_assoc]
    exact endsBlank_concat _ _
  · obtain ⟨ho, hp⟩ := Bool.or_eq_false_iff.mp (Bool.eq_false_iff.mpr hb)
    rw [Bool.not_eq_false', List.isEmpty_iff] at hp
    subst hp
    rw [endParagraph, if_neg hb, paragraphLines_nil, List.append_nil, List.append_nil]
    exact h ho

/-- Over lines that are no fences a pass stays outside of code, and it knows whether a block could
follow what it wrote. -/
theorem pass_plain {ls : List Text} (h : ∀ l ∈ ls, isFence (Text.trim l) = false) (open_ : Bool)
    (paragraph rest : List Text) :
    ∃ written open' paragraph',
      pass (.text open_ paragraph) (ls ++ rest) = written ++ pass (.text open' paragraph') rest ∧
      ∀ atStart before, (open_ = false → EndsBlank atStart before) →
        open' = false → EndsBlank atStart (before ++ written) := by
  induction ls generalizing open_ paragraph with
  | nil =>
    refine ⟨[], open_, paragraph, rfl, fun atStart before hb ho => ?_⟩
    rw [List.append_nil]
    exact hb ho
  | cons l ls ih =>
    have hl : ¬ isFence (tidy l) = true := by
      rw [isFence_tidy, h l List.mem_cons_self]
      exact Bool.false_ne_true
    have hls : ∀ l ∈ ls, isFence (Text.trim l) = false :=
      fun m hm => h m (List.mem_cons_of_mem l hm)
    rw [List.cons_append, pass]
    simp only [if_neg hl]
    by_cases hempty : (tidy l).isEmpty = true
    · obtain ⟨written, o, p, he, hw⟩ := ih hls false []
      refine ⟨endParagraph open_ paragraph ++ written, o, p, ?_, fun atStart before hb ho => ?_⟩
      · rw [if_pos hempty, he, List.append_assoc]
      · rw [← List.append_assoc]
        exact hw atStart _ (fun _ => endsBlank_endParagraph hb paragraph) ho
    · by_cases hblock : startsBlock (tidy l) = true
      · obtain ⟨written, o, p, he, hw⟩ := ih hls (open_ || !paragraph.isEmpty) [tidy l]
        refine ⟨paragraphLines paragraph ++ written, o, p, ?_, fun atStart before hb ho => ?_⟩
        · rw [if_neg hempty, if_pos hblock, he, List.append_assoc]
        · rw [← List.append_assoc]
          refine hw atStart _ (fun hnone => ?_) ho
          obtain ⟨hclosed, hp⟩ := Bool.or_eq_false_iff.mp hnone
          rw [Bool.not_eq_false', List.isEmpty_iff] at hp
          subst hp
          rw [paragraphLines_nil, List.append_nil]
          exact hb hclosed
      · obtain ⟨written, o, p, he, hw⟩ := ih hls open_ (paragraph ++ [tidy l])
        refine ⟨written, o, p, ?_, hw⟩
        rw [if_neg hempty, if_neg hblock, he]

/-- Lines inside code are copied up to the closing fence, and a blank line is written behind it. -/
theorem pass_code {body : List Text} (h : ∀ l ∈ body, isFence (Text.trim l) = false)
    (rest : List Text) :
    pass .code (body ++ fence :: rest) = body ++ fence :: [] :: pass (.text false []) rest := by
  induction body with
  | nil =>
    have ht : Text.trim fence = fence := by decide
    have hf : isFence fence = true := by decide
    rw [List.nil_append, pass, ht, if_pos hf]
    rfl
  | cons l ls ih =>
    have hl : ¬ isFence (Text.trim l) = true := by
      rw [h l List.mem_cons_self]
      exact Bool.false_ne_true
    rw [List.cons_append, pass, if_neg hl, ih fun m hm => h m (List.mem_cons_of_mem l hm)]
    rfl

/-- A whole fenced block is copied, its fences included, with a blank line before and behind it. -/
theorem pass_block {opening : Text} (htidy : tidy opening = opening)
    (hopening : isFence opening = true) {body : List Text}
    (h : ∀ l ∈ body, isFence (Text.trim l) = false) (open_ : Bool)
    (paragraph rest : List Text) :
    pass (.text open_ paragraph) (opening :: body ++ fence :: rest) =
      endParagraph open_ paragraph ++
        (opening :: body ++ fence :: [] :: pass (.text false []) rest) := by
  rw [List.cons_append, pass]
  simp only [htidy, if_pos hopening, pass_code h]
  rfl

theorem mem_tighten {t : Text} {c : Char} (h : c ∈ tighten t) : c ∈ t := by
  induction t with
  | nil => cases h
  | cons d ds ih =>
    simp only [tighten] at h
    split at h
    · exact List.mem_cons_of_mem d (ih h)
    · rcases List.mem_cons.mp h with rfl | h
      · exact List.mem_cons_self
      · exact List.mem_cons_of_mem d (ih h)

private theorem lineFeed_not_mem_tidy {line : Text} (h : '\n' ∉ line) : '\n' ∉ tidy line := by
  intro hm
  rcases Text.mem_replaceRuns (Text.mem_trim hm) with hm | he
  · exact h hm
  · exact absurd he (by decide)

private theorem lineFeed_not_mem_paragraphLines {paragraph : List Text}
    (h : ∀ l ∈ paragraph, '\n' ∉ l) : ∀ l ∈ paragraphLines paragraph, '\n' ∉ l := by
  intro l hl
  unfold paragraphLines at hl
  split at hl
  · cases hl
  · rw [List.mem_singleton.mp hl]
    intro hm
    rcases Text.mem_join (mem_tighten hm) with hs | ⟨p, hp, hc⟩
    · exact absurd hs (by decide)
    · exact h p hp hc

private theorem lineFeed_not_mem_endParagraph {open_ : Bool} {paragraph : List Text}
    (h : ∀ l ∈ paragraph, '\n' ∉ l) : ∀ l ∈ endParagraph open_ paragraph, '\n' ∉ l := by
  intro l hl
  rcases List.mem_append.mp hl with hl | hl
  · exact lineFeed_not_mem_paragraphLines h l hl
  · split at hl
    · rw [List.mem_singleton.mp hl]
      exact List.not_mem_nil
    · cases hl

def State.paragraph : State → List Text
  | .code => []
  | .text _ paragraph => paragraph

theorem lineFeed_not_mem_pass {state : State} {ls : List Text}
    (hstate : ∀ l ∈ state.paragraph, '\n' ∉ l) (hls : ∀ l ∈ ls, '\n' ∉ l) :
    ∀ l ∈ pass state ls, '\n' ∉ l := by
  have hnone : ∀ l ∈ ([] : List Text), '\n' ∉ l := fun l hl => absurd hl List.not_mem_nil
  fun_induction pass state ls with
  | case1 =>
    intro l hl
    rw [List.mem_singleton.mp hl]
    decide
  | case2 open_ paragraph => exact lineFeed_not_mem_paragraphLines hstate
  | case3 line lines hf ih =>
    obtain ⟨hline, hrest⟩ := List.forall_mem_cons.mp hls
    refine List.forall_mem_cons.mpr ⟨fun hm => hline (Text.mem_trim hm), ?_⟩
    exact List.forall_mem_cons.mpr ⟨List.not_mem_nil, ih hnone hrest⟩
  | case4 line lines hf ih =>
    obtain ⟨hline, hrest⟩ := List.forall_mem_cons.mp hls
    exact List.forall_mem_cons.mpr ⟨hline, ih hstate hrest⟩
  | case5 open_ paragraph line lines tidied hf ih =>
    obtain ⟨hline, hrest⟩ := List.forall_mem_cons.mp hls
    refine List.forall_mem_append.mpr ⟨lineFeed_not_mem_endParagraph hstate, ?_⟩
    exact List.forall_mem_cons.mpr ⟨lineFeed_not_mem_tidy hline, ih hnone hrest⟩
  | case6 open_ paragraph line lines tidied hf hempty ih =>
    obtain ⟨hline, hrest⟩ := List.forall_mem_cons.mp hls
    exact List.forall_mem_append.mpr ⟨lineFeed_not_mem_endParagraph hstate, ih hnone hrest⟩
  | case7 open_ paragraph line lines tidied hf hempty hblock ih =>
    obtain ⟨hline, hrest⟩ := List.forall_mem_cons.mp hls
    have htidied : ∀ l ∈ [tidied], '\n' ∉ l :=
      List.forall_mem_singleton.mpr (lineFeed_not_mem_tidy hline)
    exact List.forall_mem_append.mpr ⟨lineFeed_not_mem_paragraphLines hstate, ih htidied hrest⟩
  | case8 open_ paragraph line lines tidied hf hempty hblock ih =>
    obtain ⟨hline, hrest⟩ := List.forall_mem_cons.mp hls
    have htidied : ∀ l ∈ [tidied], '\n' ∉ l :=
      List.forall_mem_singleton.mpr (lineFeed_not_mem_tidy hline)
    exact ih (List.forall_mem_append.mpr ⟨hstate, htidied⟩) hrest

end ApiPages.Prose
