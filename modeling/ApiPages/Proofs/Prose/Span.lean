import ApiPages.Proofs.Prose.Line
import ApiPages.Proofs.Prose.Paragraphs

/-! Code spans in prose. The pass knows nothing of them: what is between two backticks is tidied and
tightened with the line around it, and it comes out as it would by itself. -/
namespace ApiPages.Prose

/-- A text between backticks. -/
def IsSpan (span : Text) : Prop := ∃ inside, span = '`' :: inside ++ ['`']

variable {p : Char → Bool} {span t : Text}

theorem isBlank_backtick : Text.isBlank '`' = false := by decide

/-! ### Spans in a line -/

/-- No run of blanks in a span reaches its backticks. -/
theorem trim_replaceRuns_span (hp : p '`' = false) (inside : Text) :
    Text.trim (Text.replaceRuns p ' ' ('`' :: inside ++ ['`'])) =
      '`' :: Text.replaceRuns p ' ' inside ++ ['`'] := by
  rw [Text.replaceRuns_enclosed hp, Text.trim_enclosed isBlank_backtick]

/-- A span in a text is still there when the text is trimmed. -/
theorem IsSpan.infix_trim (hs : IsSpan span) (h : span <:+: t) : span <:+: Text.trim t := by
  obtain ⟨inside, rfl⟩ := hs
  exact Text.infix_trimEnd isBlank_backtick (Text.infix_dropWhile isBlank_backtick h)

/-- Blanks in a span become what they would by themselves. -/
theorem IsSpan.infix_trim_replaceRuns (hs : IsSpan span) (hp : p '`' = false) (h : span <:+: t) :
    Text.trim (Text.replaceRuns p ' ' span) <:+: Text.trim (Text.replaceRuns p ' ' t) := by
  obtain ⟨inside, rfl⟩ := hs
  obtain ⟨before, after, rfl⟩ := h
  rw [trim_replaceRuns_span hp]
  refine IsSpan.infix_trim ⟨_, rfl⟩
    ⟨Text.replaceRuns p ' ' before, Text.replaceRuns p ' ' after, ?_⟩
  have hsplit : before ++ ('`' :: inside ++ ['`']) ++ after =
      before ++ '`' :: (inside ++ '`' :: after) := by simp
  rw [hsplit, Text.replaceRuns_append_cons hp, Text.replaceRuns_append_cons hp]
  simp

private theorem IsSpan.trim_replaceRuns (hs : IsSpan span) (hp : p '`' = false) :
    IsSpan (Text.trim (Text.replaceRuns p ' ' span)) := by
  obtain ⟨inside, rfl⟩ := hs
  exact ⟨_, trim_replaceRuns_span hp inside⟩

theorem IsSpan.tidy (hs : IsSpan span) : IsSpan (tidy span) := hs.trim_replaceRuns (by decide)

private theorem IsSpan.infix_tidy (hs : IsSpan span) (h : span <:+: t) : Prose.tidy span <:+: Prose.tidy t :=
  hs.infix_trim_replaceRuns (by decide) h

theorem IsSpan.collapse (hs : IsSpan span) : IsSpan (Text.collapse span) := by
  rw [Text.collapse_eq]
  exact hs.trim_replaceRuns isBlank_backtick

theorem IsSpan.infix_collapse (hs : IsSpan span) (h : span <:+: t) :
    Text.collapse span <:+: Text.collapse t := by
  rw [Text.collapse_eq, Text.collapse_eq]
  exact hs.infix_trim_replaceRuns isBlank_backtick h

/-- A character that is no space parts what is tightened. -/
theorem tighten_append_cons {c : Char} (hc : c ≠ ' ') (a b : Text) :
    tighten (a ++ c :: b) = tighten (a ++ [c]) ++ tighten b := by
  induction a with
  | nil => simp [tighten, hc]
  | cons d ds ih =>
    have hhead : (tighten (ds ++ [c]) ++ tighten b).head? = (tighten (ds ++ [c])).head? := by
      have hlast := getLast?_tighten (ds ++ [c])
      rw [List.getLast?_concat] at hlast
      refine List.head?_append_of_ne_nil _ fun hnil => ?_
      rw [hnil] at hlast
      cases hlast
    simp only [List.cons_append, tighten, ih, hhead]
    split <;> rfl

private theorem exists_tighten_concat (t : Text) :
    ∃ front, tighten (t ++ ['`']) = front ++ ['`'] := by
  refine List.getLast?_eq_some_iff.mp ?_
  rw [getLast?_tighten, List.getLast?_concat]

/-- Tightening a text tightens the spans in it. -/
theorem IsSpan.infix_tighten (hs : IsSpan span) (h : span <:+: t) :
    tighten span <:+: tighten t := by
  obtain ⟨inside, rfl⟩ := hs
  obtain ⟨before, after, rfl⟩ := h
  have hback : '`' ≠ ' ' := by decide
  obtain ⟨front, hfront⟩ := exists_tighten_concat before
  have hsplit : before ++ ('`' :: inside ++ ['`']) ++ after =
      before ++ '`' :: (inside ++ '`' :: after) := by simp
  have hwhole := tighten_append_cons hback before (inside ++ '`' :: after)
  have hinside := tighten_append_cons hback inside after
  have hspan : tighten ('`' :: inside ++ ['`']) = '`' :: tighten (inside ++ ['`']) :=
    tighten_cons_of_ne hback _
  refine ⟨front, tighten after, ?_⟩
  rw [hsplit, hwhole, hinside, hfront, hspan]
  simp

/-- A span comes out as it is when its text does. -/
theorem neat_span_iff {inside : Text} (htrim : Text.trim inside = inside) :
    Neat ('`' :: inside ++ ['`']) ↔ Neat inside := by
  constructor
  · intro h
    have hinside {c : Char} (hc : c ∈ inside) : c ∈ '`' :: inside ++ ['`'] :=
      List.mem_append_left _ (List.mem_cons_of_mem _ hc)
    refine ⟨⟨fun ht => h.tab (hinside ht), fun c hc => ?_, fun c hc => ?_, ?_⟩, ?_⟩
    · rw [← htrim] at hc
      exact Text.isBlank_head?_trim hc
    · rw [← htrim] at hc
      exact Text.isBlank_getLast?_trim hc
    · exact h.single.left_of_append.tail
    · exact h.tight.left_of_append.tail
  · intro h
    have hback : Spaced ['`'] := spaced_of_visible (Text.of_all rfl)
    refine ⟨(hback.append h.toSpaced).append hback, List.isChain_append.mpr
      ⟨List.isChain_cons.mpr ⟨fun _ _ he => absurd he (by decide), h.tight⟩,
        List.isChain_singleton _, fun _ _ d hd _ => ?_⟩⟩
    rw [← Option.some.inj hd]
    decide

/-! ### Spans in a text -/

variable {written : List Text}

/-- The span stands in one of the lines of the paragraph, or it was written as it comes out. -/
def HoldsSpan (span : Text) (state : State) (written : List Text) : Prop :=
  (∃ line ∈ state.paragraph, tidy span <:+: line) ∨
    ∃ line ∈ written, tighten (tidy span) <:+: line

private theorem IsSpan.infix_paragraphLines (hs : IsSpan span) {paragraph : List Text} {line : Text}
    (hm : line ∈ paragraph) (h : span <:+: line) :
    ∃ line ∈ paragraphLines paragraph, tighten span <:+: line := by
  have hne : ¬ paragraph.isEmpty = true := by
    rw [List.isEmpty_iff]
    exact List.ne_nil_of_mem hm
  rw [paragraphLines, if_neg hne]
  exact ⟨_, List.mem_singleton_self _, hs.infix_tighten (h.trans (Text.infix_join _ hm))⟩

private theorem Step.holdsSpan {state next : State} {line : Text} {out : List Text} (hs : IsSpan span)
    (h : Step state line out next) (hspan : HoldsSpan span state written) :
    HoldsSpan span next (written ++ out) := by
  rcases hspan with ⟨l, hm, hl⟩ | ⟨l, hm, hl⟩
  · obtain ⟨shown, hshown, hpart⟩ := hs.tidy.infix_paragraphLines hm hl
    cases h with
    | closes _ => cases hm
    | copies _ => cases hm
    | @opens open_ paragraph line _ =>
      have hin : shown ∈ endParagraph open_ paragraph ++ [tidy line] :=
        List.mem_append_left _ (List.mem_append_left _ hshown)
      exact Or.inr ⟨shown, List.mem_append_right _ hin, hpart⟩
    | @breaks open_ paragraph _ _ =>
      have hin : shown ∈ endParagraph open_ paragraph := List.mem_append_left _ hshown
      exact Or.inr ⟨shown, List.mem_append_right _ hin, hpart⟩
    | starts _ _ _ => exact Or.inr ⟨shown, List.mem_append_right _ hshown, hpart⟩
    | joins _ _ _ => exact Or.inl ⟨l, List.mem_append_left _ hm, hl⟩
  · exact Or.inr ⟨l, List.mem_append_left _ hm, hl⟩

private theorem Run.holdsSpan {state last : State} {lines out : List Text} (hs : IsSpan span)
    (h : Run state lines out last) (hspan : HoldsSpan span state written) :
    HoldsSpan span last (written ++ out) :=
  h.preserves (fun _ hstep hspan => hstep.holdsSpan hs hspan) hspan

theorem IsSpan.ne_nil (hs : IsSpan span) : span ≠ [] := by
  obtain ⟨inside, rfl⟩ := hs
  exact List.cons_ne_nil _ _

theorem IsSpan.tighten (hs : IsSpan span) : IsSpan (Prose.tighten span) := by
  obtain ⟨inside, rfl⟩ := hs
  obtain ⟨front, hfront⟩ := exists_tighten_concat inside
  refine ⟨front, ?_⟩
  rw [List.cons_append, tighten_cons_of_ne (by decide), hfront, List.cons_append]

/-- Outside of code a line with a span is taken into the paragraph. -/
theorem holdsSpan_of_line {state next : State} {line : Text} {out : List Text} (hs : IsSpan span)
    (h : Step state line out next) (hcode : state.inCode = false)
    (hfence : isFenceLine line = false) (hpart : span <:+: line) (written : List Text) :
    HoldsSpan span next written := by
  have htidy := hs.infix_tidy hpart
  cases h with
  | closes _ => cases hcode
  | copies _ => cases hcode
  | opens hf =>
    rw [isFenceLine, ← isFence_tidy, hf] at hfence
    cases hfence
  | breaks hempty =>
    rw [hempty, List.infix_nil] at htidy
    exact absurd htidy hs.tidy.ne_nil
  | starts _ _ _ => exact Or.inl ⟨_, List.mem_singleton_self _, htidy⟩
  | joins _ _ _ => exact Or.inl ⟨_, List.mem_append_right _ (List.mem_singleton_self _), htidy⟩

private theorem exists_line_of_holdsSpan {state : State} (hs : IsSpan span)
    (h : HoldsSpan span state written) :
    ∃ line ∈ written ++ pass state [], Prose.tighten (tidy span) <:+: line := by
  rcases h with ⟨l, hm, hl⟩ | ⟨l, hm, hl⟩
  · obtain ⟨shown, hshown, hpart⟩ := hs.tidy.infix_paragraphLines hm hl
    cases state with
    | code => cases hm
    | text open_ paragraph => exact ⟨shown, List.mem_append_right _ hshown, hpart⟩
  · exact ⟨l, List.mem_append_left _ hm, hl⟩

private theorem mem_dropEmptyEnds {lines : List Text} {line : Text} (hm : line ∈ lines) (hne : line ≠ []) :
    line ∈ dropEmptyEnds lines := by
  have hkept {ls : List Text} (hm : line ∈ ls) : line ∈ ls.dropWhile List.isEmpty := by
    rw [← List.takeWhile_append_dropWhile (p := List.isEmpty) (l := ls), List.mem_append] at hm
    exact hm.resolve_left fun ht => hne (List.isEmpty_iff.mp (List.mem_takeWhile_imp ht))
  exact List.mem_reverse.mpr (hkept (List.mem_reverse.mpr (hkept hm)))

/-- Inside of code a line is written as it is. -/
theorem infix_normalize_of_inCode {before after : List Text} {line : Text}
    (hlines : Text.lines t = before ++ line :: after)
    (hcode : before.countP isFenceLine % 2 = 1) (hfence : isFenceLine line = false)
    (hne : line ≠ []) : line <:+: normalize t := by
  obtain ⟨out, state, hrun, hpass⟩ := exists_run (.text false []) before
  have hside : state.inCode = true := by
    rw [hrun.inCode]
    simp [State.inCode, hcode]
  have hstep : Step state line [line] .code := by
    cases state with
    | code => exact .copies hfence
    | text => cases hside
  have hm : line ∈ pass (.text false []) (Text.lines t) := by
    rw [hlines, hpass, hstep.pass_cons]
    exact List.mem_append_right out List.mem_cons_self
  exact Text.infix_join _ (mem_dropEmptyEnds hm hne)

/-- A span on a line outside of code comes out as it would by itself. -/
theorem IsSpan.infix_normalize (hs : IsSpan span) {before after : List Text} {line : Text}
    (hlines : Text.lines t = before ++ line :: after)
    (hcode : before.countP isFenceLine % 2 = 0) (hfence : isFenceLine line = false)
    (hpart : span <:+: line) : Prose.tighten (Prose.tidy span) <:+: normalize t := by
  obtain ⟨out, state, hrun, hpass⟩ := exists_run (.text false []) before
  have hside : state.inCode = false := by
    rw [hrun.inCode]
    simp [State.inCode, hcode]
  obtain ⟨more, next, hstep, hpassStep⟩ := exists_step state line
  obtain ⟨outs, last, hrest, hpassRest⟩ := exists_run next after
  have hend : HoldsSpan span last (out ++ more ++ outs) :=
    hrest.holdsSpan hs (holdsSpan_of_line hs hstep hside hfence hpart _)
  have hall : pass (.text false []) (Text.lines t) = out ++ more ++ outs ++ pass last [] := by
    have hnil := hpassRest []
    rw [List.append_nil] at hnil
    rw [hlines, hpass, hpassStep, hnil]
    simp only [List.append_assoc]
  obtain ⟨l, hm, hl⟩ := exists_line_of_holdsSpan hs hend
  rw [← hall] at hm
  have hne : l ≠ [] := hl.ne_nil hs.tidy.tighten.ne_nil
  exact hl.trans (Text.infix_join _ (mem_dropEmptyEnds hm hne))

/-- A span on a line that is no fence comes out as it is or as it would by itself. -/
theorem IsSpan.infix_normalize_of_mem (hs : IsSpan span) {line : Text} (hm : line ∈ Text.lines t)
    (hfence : isFenceLine line = false) (hpart : span <:+: line) :
    span <:+: normalize t ∨ Prose.tighten (Prose.tidy span) <:+: normalize t := by
  obtain ⟨before, after, hlines⟩ := List.append_of_mem hm
  rcases Nat.mod_two_eq_zero_or_one (before.countP isFenceLine) with hside | hside
  · exact Or.inr (hs.infix_normalize hlines hside hfence hpart)
  · exact Or.inl (hpart.trans (infix_normalize_of_inCode hlines hside hfence (hpart.ne_nil hs.ne_nil)))

end ApiPages.Prose
