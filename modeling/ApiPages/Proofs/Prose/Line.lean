import ApiPages.Proofs.Prose.Visible
import ApiPages.Proofs.Text.Collapse

/-! Lines of prose: what tidying makes of a line and tightening of a paragraph, and that both leave alone
what came out of them. -/
namespace ApiPages.Prose

/-- Single spaces in the middle only: no tab, no blank at an end, and no two spaces side by side. -/
structure Spaced (line : Text) : Prop where
  tab : '\t' ∉ line
  first : ∀ c ∈ line.head?, Text.isBlank c = false
  last : ∀ c ∈ line.getLast?, Text.isBlank c = false
  single : line.IsChain fun c d => c = ' ' → d ≠ ' '

/-- Such a line with no space directly before a point, a comma, a semicolon, a colon or a closing
bracket. -/
structure Neat (line : Text) : Prop extends Spaced line where
  tight : line.IsChain fun c d => c = ' ' → isTight d = false

/-- A line that can stand in a paragraph. -/
structure Piece (line : Text) : Prop extends Spaced line where
  ne_nil : line ≠ []
  noFence : isFence line = false

variable {line : Text}

private theorem Spaced.space_not_first (h : Spaced line) : ' ' ∉ line.head? := by
  have hblank : Text.isBlank ' ' = true := by decide
  exact fun hs => absurd hblank (by simp [h.first ' ' hs])

theorem Spaced.space_not_last (h : Spaced line) : ' ' ∉ line.getLast? := by
  have hblank : Text.isBlank ' ' = true := by decide
  exact fun hs => absurd hblank (by simp [h.last ' ' hs])

/-! ### Tidying -/

/-- Runs of blanks with the tab among them, replaced by spaces, and trimmed. -/
theorem spaced_trim_replaceRuns {p : Char → Bool} (hspace : p ' ' = true) (htab : p '\t' = true)
    (t : Text) : Spaced (Text.trim (Text.replaceRuns p ' ' t)) where
  tab h := by
    have ht := Text.not_of_mem_replaceRuns (by decide) (Text.mem_trim h)
    rw [htab] at ht
    cases ht
  first _ h := Text.isBlank_head?_trim h
  last _ h := Text.isBlank_getLast?_trim h
  single := by
    have hinfix : Text.trim (Text.replaceRuns p ' ' t) <:+: Text.replaceRuns p ' ' t :=
      (List.rdropWhile_prefix _ _).isInfix.trans (List.dropWhile_suffix _).isInfix
    obtain ⟨front, back, h⟩ := hinfix
    have hchain : (front ++ Text.trim (Text.replaceRuns p ' ' t) ++ back).IsChain
        fun c d => c = ' ' → d ≠ ' ' := by
      rw [h]
      exact Text.isChain_replaceRuns hspace t
    exact hchain.left_of_append.right_of_append

theorem spaced_tidy (line : Text) : Spaced (tidy line) :=
  spaced_trim_replaceRuns (by decide) (by decide) line

theorem spaced_collapse (t : Text) : Spaced (Text.collapse t) := by
  rw [Text.collapse_eq]
  exact spaced_trim_replaceRuns (by decide) (by decide) t

theorem collapse_collapse (t : Text) : Text.collapse (Text.collapse t) = Text.collapse t := by
  have h := spaced_collapse t
  refine Text.collapse_eq_self (fun c hc hblank => ?_) h.single h.first h.last
  exact (Text.isBlank_of_mem_collapse hc).resolve_right (by simp [hblank])

theorem tidy_eq_self (h : Spaced line) : tidy line = line := by
  have hruns : Text.replaceRuns (fun c => c = ' ' || c = '\t') ' ' line = line := by
    refine Text.replaceRuns_eq_self (fun c hc hp => ?_) h.single
    rcases Bool.or_eq_true_iff.mp hp with hs | ht
    · exact of_decide_eq_true hs
    · exact absurd (of_decide_eq_true ht ▸ hc) h.tab
  rw [tidy, hruns, Text.trim_eq_self_of_ends h.first h.last]

/-- A space at the end is dropped. -/
theorem tidy_concat_space (h : Spaced line) : tidy (line ++ [' ']) = line := by
  have hruns : Text.replaceRuns (fun c => c = ' ' || c = '\t') ' ' (line ++ [' ']) =
      line ++ [' '] := by
    refine Text.replaceRuns_eq_self (fun c hc hp => ?_) ?_
    · rcases Bool.or_eq_true_iff.mp hp with hs | ht
      · exact of_decide_eq_true hs
      · rw [of_decide_eq_true ht, List.mem_append, or_iff_right h.tab] at hc
        exact absurd hc (by decide)
    · exact List.isChain_append.mpr ⟨h.single, List.isChain_singleton _,
        fun c hc d _ he => absurd (he ▸ hc) h.space_not_last⟩
  rw [tidy, hruns, Text.trim_concat (by decide), Text.trim_eq_self_of_ends h.first h.last]

theorem isFenceLine_eq (h : Spaced line) : isFenceLine line = isFence line := by
  rw [isFenceLine, Text.trim_eq_self_of_ends h.first h.last]

private theorem piece_tidy (hf : isFence (tidy line) = false) (hempty : tidy line ≠ []) :
    Piece (tidy line) :=
  ⟨spaced_tidy line, hempty, hf⟩

theorem Spaced.isBlankText (h : Spaced line) (hne : line ≠ []) : Text.isBlankText line = false := by
  obtain ⟨c, cs, rfl⟩ := List.exists_cons_of_ne_nil hne
  rw [Text.isBlankText, List.all_cons, h.first c rfl, Bool.false_and]

/-! ### Joining -/

private theorem prefix_of_prefix_append_cons {start t u : Text} {c : Char} (hc : c ∉ start)
    (h : start <+: t ++ c :: u) : start <+: t := by
  have hcut : t ++ [c] <+: t ++ c :: u := ⟨u, by simp⟩
  rcases List.prefix_or_prefix_of_prefix h hcut with hp | hp
  · rcases List.prefix_concat_iff.mp hp with he | hp
    · exact absurd (he ▸ List.mem_append_right t List.mem_cons_self) hc
    · exact hp
  · exact absurd (hp.subset (List.mem_append_right t List.mem_cons_self)) hc

theorem spaced_of_visible {t : Text} (h : ∀ c ∈ t, Text.isBlank c = false) : Spaced t where
  tab ht := absurd (h '\t' ht) (by decide)
  first c hc := h c (List.mem_of_mem_head? hc)
  last c hc := h c (List.mem_of_mem_getLast? hc)
  single := by
    have hspace : Text.isBlank ' ' = true := by decide
    refine List.Pairwise.isChain (List.pairwise_of_forall_mem_list fun c hc d _ he => ?_)
    have hc := h c hc
    rw [he, hspace] at hc
    cases hc

theorem Spaced.append {a b : Text} (ha : Spaced a) (hb : Spaced b) : Spaced (a ++ b) where
  tab h := (List.mem_append.mp h).elim ha.tab hb.tab
  first c hc := by
    cases a with
    | nil => exact hb.first c hc
    | cons d ds => exact ha.first c hc
  last c hc := by
    by_cases hnil : b = []
    · rw [hnil, List.append_nil] at hc
      exact ha.last c hc
    · rw [List.getLast?_append_of_ne_nil _ hnil] at hc
      exact hb.last c hc
  single := List.isChain_append.mpr ⟨ha.single, hb.single,
    fun c hc d _ he => absurd (he ▸ hc) ha.space_not_last⟩

/-- Two lines with a space between them. -/
theorem Spaced.append_space {a b : Text} (ha : Spaced a) (hb : Spaced b) (hane : a ≠ [])
    (hbne : b ≠ []) : Spaced (a ++ ' ' :: b) where
  tab h := by
    rcases List.mem_append.mp h with h | h
    · exact ha.tab h
    · exact hb.tab (List.mem_of_ne_of_mem (by decide) h)
  first c hc := by
    rw [List.head?_append_of_ne_nil _ hane] at hc
    exact ha.first c hc
  last c hc := by
    rw [List.getLast?_append_of_ne_nil _ (by simp), List.getLast?_cons_of_ne_nil hbne] at hc
    exact hb.last c hc
  single := by
    refine List.isChain_append.mpr ⟨ha.single, List.isChain_cons.mpr ⟨fun d hd _ he => ?_,
      hb.single⟩, fun d hd _ _ he => ?_⟩
    · exact hb.space_not_first (he ▸ hd)
    · exact absurd (he ▸ hd) ha.space_not_last

theorem piece_join {lines : List Text} (h : ∀ l ∈ lines, Piece l) (hne : lines ≠ []) :
    Piece (Text.join [' '] lines) := by
  induction lines with
  | nil => exact absurd rfl hne
  | cons l ls ih =>
    obtain ⟨hl, hls⟩ := List.forall_mem_cons.mp h
    by_cases hnil : ls = []
    · subst hnil
      exact hl
    · have hj := ih hls hnil
      rw [Text.join_cons hnil, List.append_assoc, List.singleton_append]
      refine ⟨hl.toSpaced.append_space hj.toSpaced hl.ne_nil hj.ne_nil, by simp, ?_⟩
      have hstart := hl.noFence
      rw [Bool.eq_false_iff, ne_eq, isFence_iff] at hstart ⊢
      -- A fence that went on behind the first line would have a space inside.
      exact fun hp => hstart (prefix_of_prefix_append_cons (by decide) hp)

/-! ### Tightening -/

theorem tighten_cons_of_ne {c : Char} (hc : c ≠ ' ') (cs : Text) :
    tighten (c :: cs) = c :: tighten cs := by
  simp [tighten, hc]

private theorem head?_tighten {t : Text} (h : ' ' ∉ t.head?) : (tighten t).head? = t.head? := by
  cases t with
  | nil => rfl
  | cons c cs =>
    rw [tighten_cons_of_ne]
    · rfl
    · rintro rfl
      exact h rfl

theorem getLast?_tighten (t : Text) : (tighten t).getLast? = t.getLast? := by
  induction t with
  | nil => rfl
  | cons c cs ih =>
    rw [List.getLast?_cons, ← ih]
    simp only [tighten]
    split
    · next h =>
      obtain ⟨-, hany⟩ := Bool.and_eq_true_iff.mp h
      cases hrest : tighten cs with
      | nil => rw [hrest] at hany; cases hany
      | cons d ds => rw [List.getLast?_cons]; rfl
    · exact List.getLast?_cons

/-- No space is left before such punctuation. -/
theorem isChain_tighten (t : Text) :
    (tighten t).IsChain fun c d => c = ' ' → isTight d = false := by
  induction t with
  | nil => exact .nil
  | cons c cs ih =>
    simp only [tighten]
    split
    · exact ih
    · next h =>
      refine List.isChain_cons.mpr ⟨fun d hd hc => ?_, ih⟩
      rw [Bool.eq_false_iff]
      intro ht
      refine h ?_
      rw [Option.mem_def.mp hd]
      simp [hc, ht]

private theorem isChain_single_tighten {t : Text} (h : t.IsChain fun c d => c = ' ' → d ≠ ' ') :
    (tighten t).IsChain fun c d => c = ' ' → d ≠ ' ' := by
  induction t with
  | nil => exact .nil
  | cons c cs ih =>
    obtain ⟨hnext, hcs⟩ := List.isChain_cons.mp h
    simp only [tighten]
    split
    · exact ih hcs
    · refine List.isChain_cons.mpr ⟨fun d hd hc => hnext d ?_ hc, ih hcs⟩
      rw [head?_tighten fun hs => hnext ' ' hs hc rfl] at hd
      exact hd

theorem tighten_eq_self (h : line.IsChain fun c d => c = ' ' → isTight d = false) :
    tighten line = line := by
  induction line with
  | nil => rfl
  | cons c cs ih =>
    obtain ⟨hnext, hcs⟩ := List.isChain_cons.mp h
    rw [tighten, ih hcs, if_neg]
    intro hdrop
    obtain ⟨hc, hany⟩ := Bool.and_eq_true_iff.mp hdrop
    cases hd : cs.head? with
    | none => rw [hd] at hany; cases hany
    | some d =>
      rw [hd, Option.any_some, hnext d hd (of_decide_eq_true hc)] at hany
      cases hany

/-- What begins with other characters than such punctuation began so before. -/
theorem prefix_of_prefix_tighten {start t : Text} (hstart : start.any isTight = false)
    (h : start <+: tighten t) : start <+: t := by
  induction t generalizing start with
  | nil => exact h
  | cons c cs ih =>
    cases start with
    | nil => exact List.nil_prefix
    | cons s ss =>
      rw [List.any_cons, Bool.or_eq_false_iff] at hstart
      obtain ⟨hs, hss⟩ := hstart
      simp only [tighten] at h
      split at h
      · next hdrop =>
        obtain ⟨rest, hr⟩ := h
        rw [← hr] at hdrop
        obtain ⟨-, hany⟩ := Bool.and_eq_true_iff.mp hdrop
        exact absurd (hs.symm.trans hany) Bool.false_ne_true
      · rw [List.cons_prefix_cons] at h ⊢
        exact ⟨h.1, ih hss h.2⟩

theorem Spaced.tighten (h : Spaced line) : Neat (tighten line) where
  tab ht := h.tab (mem_tighten ht)
  first := by
    rw [head?_tighten h.space_not_first]
    exact h.first
  last := by
    rw [getLast?_tighten]
    exact h.last
  single := isChain_single_tighten h.single
  tight := isChain_tighten line

/-- A line comes out as it is exactly when it is neat. -/
theorem tighten_tidy_eq_self_iff : Prose.tighten (tidy line) = line ↔ Neat line := by
  constructor
  · intro h
    rw [← h]
    exact (spaced_tidy line).tighten
  · intro h
    rw [tidy_eq_self h.toSpaced, tighten_eq_self h.tight]

theorem Piece.tighten (h : Piece line) : Piece (tighten line) ∧ Neat (Prose.tighten line) := by
  have hneat : Neat (Prose.tighten line) := h.toSpaced.tighten
  refine ⟨⟨hneat.toSpaced, fun hnil => h.ne_nil ?_, ?_⟩, hneat⟩
  · have hfirst := head?_tighten h.space_not_first
    rw [hnil] at hfirst
    exact List.head?_eq_none_iff.mp hfirst.symm
  · have hno := h.noFence
    rw [Bool.eq_false_iff, ne_eq, isFence_iff] at hno ⊢
    exact fun hp => hno (prefix_of_prefix_tighten (by decide) hp)

/-- The lines of a paragraph become one neat line, which is not empty and no fence. -/
theorem exists_paragraphLine {paragraph : List Text} (h : ∀ l ∈ paragraph, Piece l)
    (hne : paragraph ≠ []) : ∃ line, paragraphLines paragraph = [line] ∧
      line = tighten (Text.join [' '] paragraph) ∧ Piece line ∧ Neat line := by
  refine ⟨_, ?_, rfl, (piece_join h hne).tighten⟩
  rw [paragraphLines, if_neg (by simpa using hne)]

theorem Step.pieces {state next : State} {out : List Text} (h : Step state line out next)
    (hs : ∀ l ∈ state.paragraph, Piece l) : ∀ l ∈ next.paragraph, Piece l := by
  cases h with
  | starts hf hempty _ => exact List.forall_mem_singleton.mpr (piece_tidy hf hempty)
  | joins hf hempty _ =>
    exact List.forall_mem_append.mpr ⟨hs, List.forall_mem_singleton.mpr (piece_tidy hf hempty)⟩
  | _ => exact fun _ hl => absurd hl List.not_mem_nil

end ApiPages.Prose
