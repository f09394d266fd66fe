import ApiPages.Proofs.Text.Cut
import ApiPages.Proofs.Text.Lines
import ApiPages.Proofs.Text.Trim
import ApiPages.Signature.Bracket

/-! Texts in which every bracket has its partner: looking for a partner passes over them, and a
split outside of all brackets does not cut them. -/
namespace ApiPages.Signature

section
variable {opener closer : Char}

/-- Whoever looks for a closing bracket passes over the text. -/
def Balanced (opener closer : Char) (t : Text) : Prop :=
  ∀ depth rest, 0 < depth → closingOffset? opener closer depth (t ++ rest) =
    (closingOffset? opener closer depth rest).map (· + t.length)

theorem balanced_nil : Balanced opener closer [] := by
  intro depth rest _
  cases h : closingOffset? opener closer depth rest <;> simp [h]

theorem Balanced.append {t u : Text} (ht : Balanced opener closer t)
    (hu : Balanced opener closer u) : Balanced opener closer (t ++ u) := by
  intro depth rest hd
  rw [List.append_assoc, ht depth _ hd, hu depth rest hd, Option.map_map]
  congr 1
  funext n
  simp only [Function.comp_apply, List.length_append]
  omega

theorem balanced_singleton {c : Char} (ho : c ≠ opener) (hc : c ≠ closer) :
    Balanced opener closer [c] := by
  intro depth rest _
  rw [List.singleton_append, closingOffset?, if_neg ho, if_neg hc]
  rfl

theorem balanced_of_forall {t : Text} (h : ∀ c ∈ t, c ≠ opener ∧ c ≠ closer) :
    Balanced opener closer t := by
  induction t with
  | nil => exact balanced_nil
  | cons c cs ih =>
    obtain ⟨ho, hc⟩ := h c List.mem_cons_self
    exact (balanced_singleton ho hc).append (ih fun d hd => h d (List.mem_cons_of_mem c hd))

theorem Balanced.enclose (hne : closer ≠ opener) {t : Text} (h : Balanced opener closer t) :
    Balanced opener closer (opener :: t ++ [closer]) := by
  intro depth rest hd
  have hs : opener :: t ++ [closer] ++ rest = opener :: (t ++ closer :: rest) := by simp
  have hdeep : ¬ depth + 1 ≤ 1 := by omega
  rw [hs, closingOffset?, if_pos rfl, h (depth + 1) _ (by omega), closingOffset?, if_neg hne,
    if_pos rfl, if_neg hdeep, Option.map_map, Option.map_map]
  congr 1
  funext n
  simp only [Function.comp_apply, List.length_append, List.length_cons, List.length_nil]
  omega

/-- The first bracket of a kind encloses the balanced text behind it. -/
theorem enclosed_append {before inside : Text} (hbefore : opener ∉ before)
    (hne : closer ≠ opener) (hinside : Balanced opener closer inside) (after : Text) :
    enclosed opener closer (before ++ opener :: (inside ++ closer :: after)) =
      .closed before inside after := by
  have hoffset : closingOffset? opener closer 1 (inside ++ closer :: after) =
      some inside.length := by
    rw [hinside 1 _ Nat.one_pos, closingOffset?, if_neg hne, if_pos rfl, if_pos (Nat.le_refl 1),
      Option.map_some, Nat.zero_add]
  rw [enclosed, Text.cutFirst_append hbefore]
  simp only [hoffset]
  rw [List.take_left, ← List.drop_drop, List.drop_left, List.drop_one, List.tail_cons]

private theorem exists_of_closingOffset? {depth offset : Nat} {t : Text}
    (h : closingOffset? opener closer depth t = some offset) :
    ∃ inside after, t = inside ++ closer :: after ∧ inside.length = offset := by
  induction t generalizing depth offset with
  | nil => cases h
  | cons c cs ih =>
    have hlater {depth : Nat}
        (h : (closingOffset? opener closer depth cs).map (· + 1) = some offset) :
        ∃ inside after, c :: cs = inside ++ closer :: after ∧ inside.length = offset := by
      obtain ⟨less, hless, rfl⟩ := Option.map_eq_some_iff.mp h
      obtain ⟨inside, after, rfl, rfl⟩ := ih hless
      exact ⟨c :: inside, after, rfl, rfl⟩
    rw [closingOffset?] at h
    split at h
    · exact hlater h
    · split at h
      · next hc =>
        split at h
        · exact ⟨[], cs, by rw [hc]; rfl, Option.some.inj h⟩
        · exact hlater h
      · exact hlater h

/-- What stands before, inside and behind the brackets is the whole text. -/
theorem eq_of_enclosed_closed {t before inside after : Text}
    (h : enclosed opener closer t = .closed before inside after) :
    t = before ++ opener :: (inside ++ closer :: after) ∧ opener ∉ before := by
  rw [enclosed] at h
  cases hcut : Text.cutFirst opener t with
  | none =>
    rw [hcut] at h
    cases h
  | some cut =>
    obtain ⟨front, rest⟩ := cut
    rw [hcut] at h
    obtain ⟨rfl, hfront⟩ := Text.cutFirst_eq_some_iff.mp hcut
    cases hoffset : closingOffset? opener closer 1 rest with
    | none => simp [hoffset] at h
    | some offset =>
      simp only [hoffset, Enclosed.closed.injEq] at h
      obtain ⟨rfl, rfl, rfl⟩ := h
      obtain ⟨inside, after, rfl, rfl⟩ := exists_of_closingOffset? hoffset
      refine ⟨?_, hfront⟩
      rw [List.take_left, ← List.drop_drop, List.drop_left, List.drop_one, List.tail_cons]

end

theorem not_bracket_of_ne {c : Char} (h : ∀ p ∈ bracketPairs, p.1 ≠ c ∧ p.2 ≠ c) :
    isOpener c = false ∧ isCloser c = false :=
  ⟨List.any_eq_false.mpr fun p hp he => (h p hp).1 (beq_iff_eq.mp he),
    List.any_eq_false.mpr fun p hp he => (h p hp).2 (beq_iff_eq.mp he)⟩

theorem depthAfter_of_not_bracket {c : Char} (ho : isOpener c = false) (hc : isCloser c = false)
    (depth : Nat) : depthAfter depth c = depth := by
  rw [depthAfter, ho, hc]
  rfl

variable {isSeparator : Char → Bool}

/-- From a depth on, a split does not cut the text and stands behind it as deep as before. -/
def Uncut (isSeparator : Char → Bool) (least : Nat) (t : Text) : Prop :=
  ∀ depth rest, least ≤ depth →
    pieces isSeparator depth (t ++ rest) = (pieces isSeparator depth rest).modifyHead (t ++ ·)

theorem pieces_ne_nil (depth : Nat) (t : Text) : pieces isSeparator depth t ≠ [] := by
  cases t with
  | nil => exact List.cons_ne_nil _ _
  | cons c cs =>
    rw [pieces]
    split
    · exact List.cons_ne_nil _ _
    · split <;> exact List.cons_ne_nil _ _

/-- The pieces, with the separators between them, are the whole text. -/
theorem join_pieces (separator : Char) (depth : Nat) (t : Text) :
    Text.join [separator] (pieces (· = separator) depth t) = t := by
  induction t generalizing depth with
  | nil => rfl
  | cons c cs ih =>
    rw [pieces]
    split
    · next hcut =>
      have hc : c = separator := by simp_all
      rw [Text.join_cons (pieces_ne_nil _ _), ih, hc]
      rfl
    · have hrest := ih (depthAfter depth c)
      cases hp : pieces (· = separator) (depthAfter depth c) cs with
      | nil => exact absurd hp (pieces_ne_nil _ _)
      | cons piece rest =>
        rw [hp] at hrest
        rw [← hrest]
        cases rest <;> rfl

/-- Every trimmed piece is a part of the text. -/
theorem infix_of_mem_splitTopLevel {separator : Char} {t piece : Text}
    (h : piece ∈ splitTopLevel (· = separator) t) : piece <:+: t := by
  rw [splitTopLevel] at h
  split at h
  · cases h
  · obtain ⟨whole, hwhole, rfl⟩ := List.mem_map.mp h
    have hpiece := Text.infix_join [separator] hwhole
    rw [join_pieces] at hpiece
    exact (Text.infix_trim whole).trans hpiece

theorem pieces_cons {depth : Nat} {c : Char} (cs : Text)
    (h : (!isOpener c && !isCloser c && isSeparator c && depth == 0) = false) :
    pieces isSeparator depth (c :: cs) =
      (pieces isSeparator (depthAfter depth c) cs).modifyHead (c :: ·) := by
  rw [pieces, h, if_neg Bool.false_ne_true]
  cases hp : pieces isSeparator (depthAfter depth c) cs with
  | nil => exact absurd hp (pieces_ne_nil _ _)
  | cons piece rest => rfl

theorem uncut_nil (least : Nat) : Uncut isSeparator least [] := by
  intro depth rest _
  cases h : pieces isSeparator depth rest <;> simp [h]

theorem Uncut.append {least : Nat} {t u : Text} (ht : Uncut isSeparator least t)
    (hu : Uncut isSeparator least u) : Uncut isSeparator least (t ++ u) := by
  intro depth rest hd
  rw [List.append_assoc, ht depth _ hd, hu depth rest hd]
  cases pieces isSeparator depth rest <;> simp

theorem Uncut.mono {least more : Nat} {t : Text} (h : Uncut isSeparator least t)
    (hle : least ≤ more) : Uncut isSeparator more t :=
  fun depth rest hd => h depth rest (Nat.le_trans hle hd)

/-- A character that is no bracket is not cut at inside of brackets, and nowhere when it is no
separator. -/
theorem uncut_singleton {least : Nat} {c : Char} (ho : isOpener c = false)
    (hc : isCloser c = false) (hs : isSeparator c = false ∨ 0 < least) :
    Uncut isSeparator least [c] := by
  intro depth rest hd
  rw [List.singleton_append, pieces_cons, depthAfter_of_not_bracket ho hc]
  · rfl
  · rcases hs with hs | hl
    · simp [hs]
    · have hdepth : (depth == 0) = false := beq_eq_false_iff_ne.mpr (by omega)
      rw [hdepth, Bool.and_false]

theorem uncut_of_forall {t : Text}
    (h : ∀ c ∈ t, isOpener c = false ∧ isCloser c = false ∧ isSeparator c = false) :
    Uncut isSeparator 0 t := by
  induction t with
  | nil => exact uncut_nil 0
  | cons c cs ih =>
    obtain ⟨ho, hc, hs⟩ := h c List.mem_cons_self
    exact (uncut_singleton ho hc (Or.inl hs)).append
      (ih fun d hd => h d (List.mem_cons_of_mem c hd))

/-- Brackets around a text keep what is inside from being cut. -/
theorem Uncut.enclose {least : Nat} {opener closer : Char} (ho : isOpener opener = true)
    (hc : isCloser closer = true) (hn : isOpener closer = false) {t : Text}
    (h : Uncut isSeparator (least + 1) t) :
    Uncut isSeparator least (opener :: t ++ [closer]) := by
  intro depth rest hd
  have hs : opener :: t ++ [closer] ++ rest = opener :: (t ++ closer :: rest) := by simp
  rw [hs, pieces_cons _ (by rw [ho]; rfl), depthAfter, ho, if_pos rfl, h (depth + 1) _ (by omega),
    pieces_cons _ (by rw [hc]; simp), depthAfter, hn, if_neg Bool.false_ne_true, hc, if_pos rfl,
    Nat.add_sub_cancel]
  cases pieces isSeparator depth rest <;> simp

private theorem pieces_join {ts : List Text} (h : ∀ t ∈ ts, Uncut (· = ',') 0 t) (hne : ts ≠ []) :
    pieces (· = ',') 0 (Text.join [','] ts) = ts := by
  induction ts with
  | nil => exact absurd rfl hne
  | cons t ts ih =>
    have ht := h t List.mem_cons_self
    by_cases hts : ts = []
    · subst hts
      have he := ht 0 [] (Nat.le_refl 0)
      rw [List.append_nil] at he
      rw [Text.join, he]
      simp [pieces]
    · have hcomma : pieces (· = ',') 0 (',' :: Text.join [','] ts) =
          [] :: pieces (· = ',') 0 (Text.join [','] ts) := by
        rw [pieces]
        rfl
      rw [Text.join_cons hts, List.append_assoc, ht 0 _ (Nat.le_refl 0), List.singleton_append,
        hcomma, ih (fun u hu => h u (List.mem_cons_of_mem t hu)) hts]
      simp

/-- Texts without blanks between commas are what a split outside of all brackets gives. -/
theorem splitTopLevel_join {ts : List Text} (h : ∀ t ∈ ts, Uncut (· = ',') 0 t)
    (hne : ∀ t ∈ ts, t ≠ []) (hblank : ∀ t ∈ ts, ∀ c ∈ t, Text.isBlank c = false) :
    splitTopLevel (· = ',') (Text.join [','] ts) = ts := by
  by_cases hts : ts = []
  · subst hts
    rfl
  · have hnot : Text.isBlankText (Text.join [','] ts) = false := by
      obtain ⟨t, ht⟩ := List.exists_mem_of_ne_nil ts hts
      obtain ⟨c, hc⟩ := List.exists_mem_of_ne_nil t (hne t ht)
      refine List.all_eq_false.mpr ⟨c, (Text.infix_join [','] ht).subset hc, ?_⟩
      rw [hblank t ht c hc]
      exact Bool.false_ne_true
    rw [splitTopLevel, hnot, if_neg Bool.false_ne_true, pieces_join h hts]
    refine List.map_congr_left (fun t ht => Text.trim_eq_self (hblank t ht)) |>.trans ?_
    exact List.map_id ts

end ApiPages.Signature
