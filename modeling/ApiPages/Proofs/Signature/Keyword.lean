import ApiPages.Proofs.Signature.Alias

/-! Keywords word by word: a text is a row of words with other characters between them, and what
becomes of it is the same row with keywords for the framework types. -/
namespace ApiPages.Signature

/-- The text does not begin with the full name of a framework type as a whole word. -/
def NamesNoAlias (t : Text) : Prop :=
  ∀ a ∈ typeAliases, ∀ rest, t = a.1 ++ rest → endsWord rest = false

/-- A text of words and other characters, and what becomes of it: the full names of framework types become
keywords, and all else stays. -/
inductive Spans : Text → Text → Prop
  | nil : Spans [] []
  | other {c : Char} {t image : Text} : isWordChar c = false → Spans t image →
      Spans (c :: t) (c :: image)
  | keyword {a : Text × Text} {t image : Text} : a ∈ typeAliases → endsWord t = true → Spans t image →
      Spans (a.1 ++ t) (a.2 ++ image)
  | word {w t image : Text} : w ≠ [] → (∀ c ∈ w, isWordChar c = true) → endsWord t = true →
      NamesNoAlias (w ++ t) → Spans t image → Spans (w ++ t) (w ++ image)

private theorem endsWord_alias_append {a : Text × Text} (h : a ∈ typeAliases) (t : Text) :
    endsWord (a.1 ++ t) = false := by
  rw [(typeAliases_shape a h).1]
  rfl

/-- Only one alias stands at the beginning of a text. -/
theorem aliasAt?_append {a : Text × Text} (h : a ∈ typeAliases) {rest : Text}
    (hrest : endsWord rest = true) : aliasAt? (a.1 ++ rest) = some a := by
  obtain ⟨b, hb⟩ := Option.isSome_iff_exists.mp (aliasAt?_isSome h hrest)
  obtain ⟨hm, more, he, hmore⟩ := aliasAt?_some hb
  obtain ⟨hashape, hword, -, -, halookup⟩ := typeAliases_shape a h
  obtain ⟨hbshape, hword', -, -, hblookup⟩ := typeAliases_shape b hm
  have hname : a.1 = b.1 := by
    rw [hashape, hbshape, List.append_assoc, List.append_assoc, List.append_cancel_left_eq,
      List.cons_append, List.cons_append, List.cons.injEq] at he
    rw [hashape, hbshape, (word_append_inj (List.all_eq_true.mp hword) (List.all_eq_true.mp hword')
      hrest hmore he.2).1]
  have hkeyword : a.2 = b.2 := by
    rw [hname, hblookup] at halookup
    exact (Option.some.inj halookup).symm
  rw [hb, Prod.ext hname hkeyword]

private theorem aliasAt?_eq_none_iff {t : Text} : aliasAt? t = none ↔ NamesNoAlias t := by
  constructor
  · rintro h a ha rest rfl
    refine Bool.eq_false_iff.mpr fun hend => ?_
    rw [aliasAt?_append ha hend] at h
    cases h
  · intro h
    cases ha : aliasAt? t with
    | none => rfl
    | some a =>
      obtain ⟨hm, rest, he, hend⟩ := aliasAt?_some ha
      rw [h a hm rest he] at hend
      cases hend

private theorem applyAliasesFrom_of_endsWord {rest : Text} (h : endsWord rest = true) :
    applyAliasesFrom 0 true rest = applyTypeAliases rest := by
  cases rest with
  | nil => rfl
  | cons c cs =>
    have hnone : aliasAt? (c :: cs) = none := by
      cases ha : aliasAt? (c :: cs) with
      | none => rfl
      | some a =>
        obtain ⟨hm, more, he, _⟩ := aliasAt?_some ha
        have hstart : isWordChar 'S' = true := by decide
        rw [(typeAliases_shape a hm).1] at he
        cases he
        rw [endsWord, hstart] at h
        cases h
    rw [applyTypeAliases, applyAliasesFrom, applyAliasesFrom, hnone, ite_self, ite_self]

private theorem applyTypeAliases_cons {c : Char} (hc : isWordChar c = false) (cs : Text) :
    applyTypeAliases (c :: cs) = c :: applyTypeAliases cs := by
  have hnone : aliasAt? (c :: cs) = none := by
    refine aliasAt?_eq_none_iff.mpr fun a ha rest he => ?_
    have hend := endsWord_alias_append ha rest
    rw [← he, endsWord, hc] at hend
    cases hend
  rw [applyTypeAliases, applyAliasesFrom, if_neg Bool.false_ne_true, hnone, hc]
  rfl

/-- A text begins with a word, be it empty. -/
theorem exists_word_append (t : Text) :
    ∃ rest, t = t.takeWhile isWordChar ++ rest ∧ endsWord rest = true := by
  refine ⟨t.dropWhile isWordChar, List.takeWhile_append_dropWhile.symm, ?_⟩
  cases hrest : t.dropWhile isWordChar with
  | nil => rfl
  | cons c cs =>
    have hnot := List.head?_dropWhile_not isWordChar t
    rw [hrest] at hnot
    simpa [endsWord] using hnot

private theorem spans_applyTypeAliases (t : Text) : Spans t (applyTypeAliases t) := by
  -- A word is taken as a whole, so the induction is on the length.
  induction hn : t.length using Nat.strongRecOn generalizing t with
  | ind n ih =>
    cases t with
    | nil => exact .nil
    | cons c cs =>
      cases ha : aliasAt? (c :: cs) with
      | some a =>
        obtain ⟨hm, rest, he, hend⟩ := aliasAt?_some ha
        have hshorter : rest.length < n := by
          have hlength := congrArg List.length he
          have hpos : 0 < a.1.length := by
            rw [(typeAliases_shape a hm).1]
            exact Nat.succ_pos _
          rw [List.length_append] at hlength
          omega
        rw [he] at ha ⊢
        rw [applyTypeAliases_of_aliasAt? ha, applyAliasesFrom_of_endsWord hend]
        exact .keyword hm hend (ih _ hshorter rest rfl)
      | none =>
        by_cases hc : isWordChar c = true
        · -- The word goes on as far as there are word characters.
          obtain ⟨rest, hsplit, hend⟩ := exists_word_append cs
          have hword : ∀ d ∈ c :: cs.takeWhile isWordChar, isWordChar d = true :=
            List.forall_mem_cons.mpr ⟨hc, fun d hd => List.mem_takeWhile_imp hd⟩
          let name : Name := ⟨c :: cs.takeWhile isWordChar, List.cons_ne_nil _ _, hword⟩
          have hname : c :: cs = name.text ++ rest := congrArg (c :: ·) hsplit
          have hshorter : rest.length < n := by
            have hlength := congrArg List.length hname
            have hpos : 0 < name.text.length := List.length_pos_iff.mpr name.nonempty
            rw [List.length_append] at hlength
            omega
          rw [hname] at ha ⊢
          rw [applyTypeAliases_name name ha, applyAliasesFrom_of_endsWord hend]
          exact .word name.nonempty name.word hend (aliasAt?_eq_none_iff.mp ha) (ih _ hshorter rest rfl)
        · have hother : isWordChar c = false := eq_false_of_ne_true hc
          rw [applyTypeAliases_cons hother cs]
          exact .other hother (ih _ (by rw [← hn]; exact Nat.lt_succ_self _) cs rfl)

private theorem Spans.eq_applyTypeAliases {t image : Text} (h : Spans t image) : image = applyTypeAliases t := by
  induction h with
  | nil => rfl
  | other hc _ ih => rw [applyTypeAliases_cons hc, ih]
  | keyword ha hend _ ih =>
    rw [applyTypeAliases_of_aliasAt? (aliasAt?_append ha hend), applyAliasesFrom_of_endsWord hend, ih]
  | word hne hword hend hnone _ ih =>
    have hname := applyTypeAliases_name ⟨_, hne, hword⟩ (aliasAt?_eq_none_iff.mpr hnone)
    rw [hname, applyAliasesFrom_of_endsWord hend, ih]

/-- The row of words tells what becomes of a text, and nothing else does. -/
theorem spans_iff {t image : Text} : Spans t image ↔ image = applyTypeAliases t :=
  ⟨fun h => h.eq_applyTypeAliases, fun h => h ▸ spans_applyTypeAliases t⟩

private theorem endsWord_append_of_ne_nil {s : Text} (h : s ≠ []) (t : Text) :
    endsWord (s ++ t) = endsWord s := by
  cases s with
  | nil => exact absurd rfl h
  | cons c cs => rfl

/-- The full name of a framework type stands in the text as a whole word, and the dot in it is behind
this beginning of the text. -/
def DotInAlias (before t : Text) : Prop :=
  ∃ start more, ∃ a ∈ typeAliases, before = start ++ frameworkName ∧ t = start ++ (a.1 ++ more) ∧
    endsWord start.reverse = true ∧ endsWord more = true

theorem DotInAlias.append {before t front : Text} (h : DotInAlias before t)
    (hfront : endsWord front.reverse = true ∨ endsWord t = true) :
    DotInAlias (front ++ before) (front ++ t) := by
  obtain ⟨start, more, a, ha, rfl, rfl, hstart, hmore⟩ := h
  refine ⟨front ++ start, more, a, ha, by simp, by simp, ?_, hmore⟩
  rw [List.reverse_append]
  by_cases hnil : start = []
  · subst hnil
    -- The alias itself begins with a word character.
    have hword : endsWord ([] ++ (a.1 ++ more)) = false := endsWord_alias_append ha more
    refine hfront.resolve_right fun hend => ?_
    rw [hword] at hend
    cases hend
  · rw [endsWord_append_of_ne_nil (by simpa using hnil)]
    exact hstart

/-- A dot stands behind a word, where it is known of, or in the word. -/
private theorem dotInAlias_or_mem {w t before rest : Text} (hend : endsWord t = true)
    (ht : ∀ {before}, t = before ++ '.' :: rest → DotInAlias before t)
    (hdot : w ++ t = before ++ '.' :: rest) :
    DotInAlias before (w ++ t) ∨ ∃ more, w = before ++ '.' :: more := by
  have hlater {behind : Text} (hb : before = w ++ behind) (he : t = behind ++ '.' :: rest) :
      DotInAlias before (w ++ t) := by
    rw [hb]
    exact (ht he).append (Or.inr hend)
  rcases List.append_eq_append_iff.mp hdot with ⟨behind, hb, he⟩ | ⟨_ | ⟨d, ds⟩, hb, he⟩
  · exact Or.inl (hlater hb he)
  · have hwhole : before = w ++ [] := by simpa using hb.symm
    exact Or.inl (hlater hwhole he.symm)
  · rw [List.cons_append, List.cons.injEq] at he
    obtain ⟨rfl, _⟩ := he
    exact Or.inr ⟨ds, hb⟩

/-- Where nothing of a text is shown with a dot, a dot in it stands in the full name of a framework
type. -/
theorem Spans.dotInAlias {t shown before rest : Text} (h : Spans t shown) (hshown : '.' ∉ shown)
    (hdot : t = before ++ '.' :: rest) : DotInAlias before t := by
  induction h generalizing before rest with
  | nil => simp at hdot
  | @other c t image hc _ ih =>
    rw [List.mem_cons, not_or] at hshown
    cases before with
    | nil =>
      rw [List.nil_append, List.cons.injEq] at hdot
      exact absurd hdot.1.symm hshown.1
    | cons d ds =>
      rw [List.cons_append, List.cons.injEq] at hdot
      obtain ⟨rfl, hdot⟩ := hdot
      have hfront : endsWord [c].reverse = true := by
        rw [List.reverse_singleton, endsWord, hc]
        rfl
      exact (ih hshown.2 hdot).append (Or.inl hfront)
  | @keyword a t image ha hend _ ih =>
    rw [List.mem_append, not_or] at hshown
    rcases dotInAlias_or_mem hend (fun ht => ih hshown.2 ht) hdot with h | ⟨more, hmore⟩
    · exact h
    · -- The dot stands in the full name of the framework type.
      obtain ⟨hshape, hname, _⟩ := typeAliases_shape a ha
      have hfirst : '.' ∉ frameworkName := by decide
      have hlast : '.' ∉ a.1.drop 7 := fun hm =>
        absurd (List.all_eq_true.mp hname '.' hm) (by decide)
      have hparts := (List.append_cons_inj_of_notMem hfirst hlast).mp (hshape.symm.trans hmore)
      exact ⟨[], t, a, ha, hparts.1.symm, rfl, rfl, hend⟩
  | @word w t image _ hword hend _ _ ih =>
    rw [List.mem_append, not_or] at hshown
    refine (dotInAlias_or_mem hend (fun ht => ih hshown.2 ht) hdot).resolve_right ?_
    rintro ⟨more, rfl⟩
    exact absurd (hword '.' (List.mem_append_right before List.mem_cons_self)) (by decide)

end ApiPages.Signature
