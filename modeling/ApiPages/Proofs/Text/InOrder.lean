import ApiPages.Proofs.Text.Lines
import ApiPages.Proofs.Text.Trim

/-! Parts that stand in a text one behind another. -/
namespace ApiPages.Text

/-- The parts stand in the text in this order, each behind the end of the one before. -/
inductive InOrder : List Text → Text → Prop
  | nil {t : Text} : InOrder [] t
  | cons {part rest : Text} {parts : List Text} (before : Text) : InOrder parts rest →
      InOrder (part :: parts) (before ++ (part ++ rest))

namespace InOrder

variable {parts others : List Text} {s t : Text}

theorem of_infix {part : Text} (h : part <:+: t) : InOrder [part] t := by
  obtain ⟨before, after, rfl⟩ := h
  rw [List.append_assoc]
  exact .cons before .nil

theorem behind (before : Text) (h : InOrder parts t) : InOrder parts (before ++ t) := by
  cases h with
  | nil => exact .nil
  | cons front hrest =>
    rw [← List.append_assoc]
    exact .cons (before ++ front) hrest

/-- What stands in two texts in order stands in order in the one behind the other. -/
theorem append (hs : InOrder parts s) (ht : InOrder others t) :
    InOrder (parts ++ others) (s ++ t) := by
  induction hs with
  | nil => exact ht.behind _
  | cons before _ ih =>
    rw [List.append_assoc, List.append_assoc]
    exact .cons before ih

theorem before (h : InOrder parts t) (after : Text) : InOrder parts (t ++ after) := by
  have happend := h.append (.nil (t := after))
  rw [List.append_nil] at happend
  exact happend

/-- Trimming takes nothing from parts that end in a character that is not blank. -/
theorem trimEnd (h : InOrder parts t)
    (hparts : ∀ part ∈ parts, ∃ front c, isBlank c = false ∧ part = front ++ [c]) :
    InOrder parts (Text.trimEnd t) := by
  induction h with
  | nil => exact .nil
  | @cons part rest parts before _ ih =>
    obtain ⟨front, c, hc, hpart⟩ := hparts part List.mem_cons_self
    have hkept : Text.trimEnd (before ++ (part ++ rest)) =
        before ++ (part ++ Text.trimEnd rest) := by
      have hsplit (behind : Text) :
          before ++ (part ++ behind) = (before ++ front) ++ c :: behind := by
        rw [hpart]
        simp
      rw [hsplit, hsplit, Text.trimEnd, dropEndWhile_append_cons hc]
      rfl
    rw [hkept]
    exact .cons before (ih fun other ho => hparts other (List.mem_cons_of_mem part ho))

theorem unlines_append {front back : List Text} (hfront : InOrder parts (unlines front))
    (hback : InOrder others (unlines back)) :
    InOrder (parts ++ others) (unlines (front ++ back)) := by
  have happend := hfront.append (hback.behind ['\n'])
  by_cases hf : front = []
  · subst hf
    exact hfront.append hback
  · by_cases hb : back = []
    · subst hb
      have hnone := hfront.append hback
      rw [unlines, unlines, join, List.append_nil] at hnone
      rw [List.append_nil]
      exact hnone
    · rw [unlines, join_append ['\n'] hf hb, List.append_assoc]
      exact happend

/-- What stands in order in the lines of every element stands in order in the lines of all. -/
theorem unlines_flatMap {α : Type} {as : List α} {f g : α → List Text}
    (h : ∀ a ∈ as, InOrder (f a) (unlines (g a))) :
    InOrder (as.flatMap f) (unlines (as.flatMap g)) := by
  induction as with
  | nil => exact .nil
  | cons a as ih =>
    rw [List.flatMap_cons, List.flatMap_cons]
    exact (h a List.mem_cons_self).unlines_append
      (ih fun b hb => h b (List.mem_cons_of_mem a hb))

end InOrder
end ApiPages.Text
