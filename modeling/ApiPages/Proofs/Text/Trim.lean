import ApiPages.Text.Blank
import Mathlib.Data.List.DropRight

/-! Trimming: what it keeps, and when it changes nothing. -/
namespace ApiPages.Text

/-- An element that is not dropped keeps everything before it. -/
theorem rdropWhile_append_cons {α : Type} {p : α → Bool} {a : α} (ha : p a = false)
    (before after : List α) :
    List.rdropWhile p (before ++ a :: after) = before ++ a :: List.rdropWhile p after := by
  induction after using List.reverseRecOn with
  | nil => exact List.rdropWhile_concat_neg p before a (by simp [ha])
  | append_singleton after b ih =>
    have hs : before ++ a :: (after ++ [b]) = (before ++ a :: after) ++ [b] := by simp
    rw [hs, List.rdropWhile_concat, List.rdropWhile_concat, ih]
    split <;> simp

/-- Elements that stand for nothing can be dropped at both ends. -/
theorem flatMap_dropEnds {α β : Type} {p : α → Bool} {f : α → List β}
    (h : ∀ a, p a = true → f a = []) (l : List α) :
    ((l.dropWhile p).rdropWhile p).flatMap f = l.flatMap f := by
  have hfront : (l.takeWhile p).flatMap f = [] :=
    List.flatMap_eq_nil_iff.mpr fun a ha => h a (List.mem_takeWhile_imp ha)
  have hback : ((l.dropWhile p).rtakeWhile p).flatMap f = [] :=
    List.flatMap_eq_nil_iff.mpr fun a ha => h a (List.mem_rtakeWhile_imp ha)
  calc ((l.dropWhile p).rdropWhile p).flatMap f
      = ((l.dropWhile p).rdropWhile p ++ (l.dropWhile p).rtakeWhile p).flatMap f := by
        rw [List.flatMap_append, hback, List.append_nil]
    _ = (l.takeWhile p ++ l.dropWhile p).flatMap f := by
        rw [List.rdropWhile_append_rtakeWhile, List.flatMap_append, hfront, List.nil_append]
    _ = l.flatMap f := by rw [List.takeWhile_append_dropWhile]

theorem dropEndWhile_append_cons {p : Char → Bool} {c : Char} (hc : p c = false)
    (before after : Text) :
    dropEndWhile p (before ++ c :: after) = before ++ c :: dropEndWhile p after :=
  rdropWhile_append_cons hc before after

/-- A text that ends in a text without blanks is not trimmed at its end. -/
theorem trimEnd_append_eq_self {t : Text} (hne : t ≠ []) (h : ∀ c ∈ t, isBlank c = false)
    (before : Text) : trimEnd (before ++ t) = before ++ t := by
  refine List.rdropWhile_eq_self_iff.mpr fun hwhole => ?_
  rw [List.getLast_append_of_ne_nil hwhole hne, h _ (List.getLast_mem hne)]
  exact Bool.false_ne_true

/-- A part that ends in a character that is not blank is still there after trimming the end. -/
theorem infix_trimEnd {part : Text} {c : Char} (hc : isBlank c = false) {t : Text}
    (h : part ++ [c] <:+: t) : part ++ [c] <:+: trimEnd t := by
  obtain ⟨before, after, rfl⟩ := h
  have he : before ++ (part ++ [c]) ++ after = (before ++ part) ++ c :: after := by simp
  rw [he, trimEnd, dropEndWhile_append_cons hc]
  exact ⟨before, dropEndWhile isBlank after, by simp⟩

/-- A part that begins with a character that is not blank is still there after trimming the start. -/
theorem infix_dropWhile {part : Text} {c : Char} (hc : isBlank c = false) {t : Text}
    (h : c :: part <:+: t) : c :: part <:+: t.dropWhile isBlank := by
  obtain ⟨before, after, rfl⟩ := h
  have hkept : (c :: (part ++ after)).dropWhile isBlank = c :: (part ++ after) :=
    List.dropWhile_cons_of_neg (by simp [hc])
  rw [List.append_assoc, List.cons_append, List.dropWhile_append, hkept]
  split
  · exact ⟨[], after, rfl⟩
  · exact ⟨before.dropWhile isBlank, after, by simp⟩

/-- Only blanks are dropped. -/
theorem exists_blanks_around_trim (t : Text) :
    ∃ front back, t = front ++ trim t ++ back ∧ (∀ c ∈ front, isBlank c = true) ∧
      ∀ c ∈ back, isBlank c = true := by
  refine ⟨t.takeWhile isBlank, (t.dropWhile isBlank).rtakeWhile isBlank, ?_,
    fun c hc => List.mem_takeWhile_imp hc, fun c hc => List.mem_rtakeWhile_imp hc⟩
  calc t = t.takeWhile isBlank ++ t.dropWhile isBlank := List.takeWhile_append_dropWhile.symm
    _ = t.takeWhile isBlank ++ ((t.dropWhile isBlank).rdropWhile isBlank ++
        (t.dropWhile isBlank).rtakeWhile isBlank) := by rw [List.rdropWhile_append_rtakeWhile]
    _ = _ := (List.append_assoc _ _ _).symm

theorem infix_trim (t : Text) : trim t <:+: t :=
  (List.rdropWhile_prefix isBlank _).isInfix.trans (List.dropWhile_suffix isBlank).isInfix

theorem mem_trim {t : Text} {c : Char} (h : c ∈ trim t) : c ∈ t := (infix_trim t).subset h

theorem trimEnd_trim (t : Text) : trimEnd (trim t) = trim t :=
  List.rdropWhile_idempotent isBlank _

theorem trim_trim (t : Text) : trim (trim t) = trim t := by
  have hstart : trim t <+: t.dropWhile isBlank := List.rdropWhile_prefix isBlank _
  have hfront : (trim t).dropWhile isBlank = trim t := by
    refine List.dropWhile_eq_self_iff.mpr fun hpos => ?_
    rw [hstart.getElem hpos]
    exact List.dropWhile_get_zero_not isBlank t _
  rw [trim, trimBoth, hfront]
  exact List.rdropWhile_idempotent isBlank _

/-- What a trimmed text begins with stood behind the blanks before. -/
theorem prefix_trim_iff {c : Char} (hc : isBlank c = false) {start t : Text} :
    start ++ [c] <+: trim t ↔ start ++ [c] <+: t.dropWhile isBlank := by
  constructor
  · intro h
    exact h.trans (List.rdropWhile_prefix isBlank _)
  · rintro ⟨rest, hr⟩
    rw [List.append_assoc] at hr
    rw [trim, trimBoth, ← hr]
    have he : dropEndWhile isBlank (start ++ ([c] ++ rest)) =
        start ++ c :: dropEndWhile isBlank rest :=
      dropEndWhile_append_cons hc start rest
    rw [he]
    exact ⟨dropEndWhile isBlank rest, by simp⟩

/-- A text that begins with a character that is not blank is only trimmed at its end. -/
theorem trim_cons {c : Char} (hc : isBlank c = false) (cs : Text) :
    trim (c :: cs) = trimEnd (c :: cs) := by
  rw [trim, trimBoth, List.dropWhile_cons_of_neg (by simp [hc])]
  rfl

/-- A blank at the end is dropped. -/
theorem trim_concat {c : Char} (hc : isBlank c = true) (t : Text) : trim (t ++ [c]) = trim t := by
  rw [trim, trimBoth, List.dropWhile_append]
  split
  · next h =>
    rw [List.dropWhile_cons_of_pos hc, trim, trimBoth, List.isEmpty_iff.mp h]
    rfl
  · exact List.rdropWhile_concat_pos _ _ _ hc

private theorem dropWhile_eq_self {p : Char → Bool} {t : Text} (h : ∀ c ∈ t, p c = false) :
    t.dropWhile p = t := by
  cases t with
  | nil => rfl
  | cons c cs => exact List.dropWhile_cons_of_neg (by simp [h c List.mem_cons_self])

private theorem trimBoth_eq_self {p : Char → Bool} {t : Text} (h : ∀ c ∈ t, p c = false) :
    trimBoth p t = t := by
  have hr : t.reverse.dropWhile p = t.reverse :=
    dropWhile_eq_self fun c hc => h c (List.mem_reverse.mp hc)
  rw [trimBoth, dropWhile_eq_self h, dropEndWhile, hr, List.reverse_reverse]

theorem trim_eq_self {t : Text} (h : ∀ c ∈ t, isBlank c = false) : trim t = t :=
  trimBoth_eq_self h

theorem isBlank_head?_trim {t : Text} {c : Char} (h : c ∈ (trim t).head?) : isBlank c = false := by
  obtain ⟨rest, hr⟩ : trim t <+: t.dropWhile isBlank := List.rdropWhile_prefix isBlank _
  have hd : (t.dropWhile isBlank).head? = some c := by
    rw [← hr, List.head?_append, Option.mem_def.mp h]
    rfl
  have hnot := List.head?_dropWhile_not isBlank t
  rw [hd] at hnot
  exact hnot

theorem isBlank_getLast?_trim {t : Text} {c : Char} (h : c ∈ (trim t).getLast?) :
    isBlank c = false := by
  obtain ⟨hne, he⟩ := List.mem_getLast?_eq_getLast h
  rw [he]
  exact Bool.eq_false_iff.mpr (List.rdropWhile_last_not isBlank _ hne)

/-- A text with no blank at an end is left alone. -/
theorem trim_eq_self_of_ends {t : Text} (hfirst : ∀ c ∈ t.head?, isBlank c = false)
    (hlast : ∀ c ∈ t.getLast?, isBlank c = false) : trim t = t := by
  have hfront : t.dropWhile isBlank = t := by
    cases t with
    | nil => rfl
    | cons c cs => exact List.dropWhile_cons_of_neg (by simp [hfirst c rfl])
  rw [trim, trimBoth, hfront]
  refine List.rdropWhile_eq_self_iff.mpr fun hne => ?_
  simp [hlast _ (List.getLast?_eq_some_getLast hne)]

theorem trim_enclosed {c : Char} (hc : isBlank c = false) (t : Text) :
    trim (c :: t ++ [c]) = c :: t ++ [c] := by
  refine trim_eq_self_of_ends (fun d hd => ?_) (fun d hd => ?_)
  · exact Option.some.inj hd ▸ hc
  · rw [List.getLast?_concat] at hd
    exact Option.some.inj hd ▸ hc

end ApiPages.Text
