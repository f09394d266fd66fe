import ApiPages.Proofs.Prose.Pass

/-! Fenced blocks among the lines of a text, each between blank lines, and how they stay when a
prose text is brought into normal form. -/
namespace ApiPages.Prose

/-- The lines hold fenced blocks with these bodies, one after another. Every block comes after a
blank line or at the start, and before a blank line or at the end. -/
inductive HoldsBlocks (opening : Text) : Bool → List (List Text) → List Text → Prop
  | none {atStart lines} : HoldsBlocks opening atStart [] lines
  | block {atStart gap body bodies rest} : EndsBlank atStart gap →
      (∀ l, rest.head? = some l → l = []) → HoldsBlocks opening false bodies rest →
      HoldsBlocks opening atStart (body :: bodies) (gap ++ (opening :: body ++ fence :: rest))

variable {opening : Text} {bodies : List (List Text)} {lines : List Text}

theorem HoldsBlocks.behind (h : HoldsBlocks opening false bodies lines) (atStart : Bool)
    (front : List Text) : HoldsBlocks opening atStart bodies (front ++ lines) := by
  cases h with
  | none => exact .none
  | @block _ gap body bodies rest hgap hrest hbodies =>
    rw [← List.append_assoc]
    refine .block (Or.inr ?_) hrest hbodies
    rcases hgap with ⟨_, hf⟩ | hlast
    · cases hf
    · rw [List.getLast?_append, hlast]
      rfl

private theorem endsBlank_dropWhile {gap : List Text} (h : EndsBlank true gap) :
    EndsBlank true (gap.dropWhile List.isEmpty) := by
  by_cases hd : gap.dropWhile List.isEmpty = []
  · exact Or.inl ⟨hd, rfl⟩
  · rcases h with ⟨hn, _⟩ | hlast
    · subst hn
      exact Or.inl ⟨rfl, rfl⟩
    · obtain ⟨front, hf⟩ := List.dropWhile_suffix (l := gap) List.isEmpty
      rw [← hf, List.getLast?_append_of_ne_nil _ hd] at hlast
      exact Or.inr hlast

theorem HoldsBlocks.dropWhile (hopening : opening ≠ [])
    (h : HoldsBlocks opening true bodies lines) :
    HoldsBlocks opening true bodies (lines.dropWhile List.isEmpty) := by
  cases h with
  | none => exact .none
  | @block _ gap body bodies rest hgap hrest hbodies =>
    have hd : (gap ++ (opening :: body ++ fence :: rest)).dropWhile List.isEmpty =
        gap.dropWhile List.isEmpty ++ (opening :: body ++ fence :: rest) := by
      have ho : ¬ opening.isEmpty = true := fun ho => hopening (List.isEmpty_iff.mp ho)
      rw [List.dropWhile_append]
      split
      · next hn => rw [List.isEmpty_iff.mp hn, List.cons_append, List.dropWhile_cons_of_neg ho,
          List.nil_append]
      · rfl
    rw [hd]
    exact .block (endsBlank_dropWhile hgap) hrest hbodies

theorem HoldsBlocks.rdropWhile {atStart : Bool} (h : HoldsBlocks opening atStart bodies lines) :
    HoldsBlocks opening atStart bodies (lines.rdropWhile List.isEmpty) := by
  induction h with
  | none => exact .none
  | @block atStart gap body bodies rest hgap hrest hbodies ih =>
    have hd : (gap ++ (opening :: body ++ fence :: rest)).rdropWhile List.isEmpty =
        gap ++ (opening :: body ++ fence :: rest.rdropWhile List.isEmpty) := by
      have he := Text.rdropWhile_append_cons (p := List.isEmpty) (a := fence) rfl
        (gap ++ opening :: body) rest
      rw [List.append_assoc, List.append_assoc] at he
      exact he
    rw [hd]
    refine .block hgap (fun l hl => ?_) ih
    obtain ⟨back, hb⟩ := List.rdropWhile_prefix List.isEmpty rest
    refine hrest l ?_
    rw [← hb, List.head?_append, hl]
    rfl

theorem HoldsBlocks.dropEmptyEnds (hopening : opening ≠ [])
    (h : HoldsBlocks opening true bodies lines) :
    HoldsBlocks opening true bodies (dropEmptyEnds lines) :=
  (h.dropWhile hopening).rdropWhile

private theorem HoldsBlocks.eq_nil {atStart : Bool} (h : HoldsBlocks opening atStart bodies []) :
    bodies = [] := by
  generalize hl : ([] : List Text) = lines at h
  cases h with
  | none => rfl
  | block => simp at hl

/-- The lines of the normal form are those that the pass writes, without the empty ones at the
ends. -/
theorem lines_normalize {t : Text}
    (hne : Prose.dropEmptyEnds (pass (.text false []) (Text.lines t)) ≠ []) :
    Text.lines (normalize t) = Prose.dropEmptyEnds (pass (.text false []) (Text.lines t)) := by
  have hpass : ∀ l ∈ pass (.text false []) (Text.lines t), '\n' ∉ l :=
    lineFeed_not_mem_pass (fun l hl => absurd hl List.not_mem_nil)
      (fun l hl => Text.lineFeed_not_mem_of_mem_lines hl)
  refine Text.lines_unlines (fun l hl => hpass l ?_) hne
  exact (List.dropWhile_sublist _).subset ((List.rdropWhile_prefix _ _).subset hl)

/-- Blocks that the pass writes are blocks of the normal form. -/
theorem HoldsBlocks.normalize (hopening : opening ≠ []) {t : Text}
    (h : HoldsBlocks opening true bodies (pass (.text false []) (Text.lines t))) :
    HoldsBlocks opening true bodies (Text.lines (normalize t)) := by
  have hd := h.dropEmptyEnds hopening
  by_cases hne : Prose.dropEmptyEnds (pass (.text false []) (Text.lines t)) = []
  · rw [hne] at hd
    rw [hd.eq_nil]
    exact .none
  · rw [lines_normalize hne]
    exact hd

end ApiPages.Prose
