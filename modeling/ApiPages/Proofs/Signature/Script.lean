import ApiPages.Proofs.Signature.Arity
import ApiPages.Proofs.Signature.Keyword
import ApiPages.Text.Letter

/-! Names in the letters of any script: where markers and framework types are next to them, what becomes
of these depends on the one character beside them, which makes a name longer only if it is an ASCII
one. -/
namespace ApiPages.Signature

/-- A letter or a decimal digit of some script, or an underscore. -/
def isScriptChar (c : Char) : Bool := Text.isLetter c || Text.isDigit c || c = '_'

/-- An identifier of the source language: letters, digits and underscores, with no digit in front. -/
structure IsScriptName (w : Text) : Prop where
  nonempty : w ≠ []
  chars : ∀ c ∈ w, isScriptChar c = true
  first : ∀ c ∈ w.head?, Text.isDigit c = false

private theorem isScriptName_cons {c : Char} {cs : Text} (h : (c :: cs).all isScriptChar = true)
    (hc : Text.isDigit c = false) : IsScriptName (c :: cs) where
  nonempty := List.cons_ne_nil c cs
  chars := List.all_eq_true.mp h
  first d hd := by
    obtain rfl := Option.some.inj hd
    exact hc

private theorem not_mem_of_isScriptChar {t : Text} (h : ∀ c ∈ t, isScriptChar c = true) :
    '`' ∉ t ∧ '.' ∉ t :=
  ⟨fun hm => absurd (h _ hm) (by decide +kernel), fun hm => absurd (h _ hm) (by decide +kernel)⟩

private theorem endsWord_eq_not_afterName (t : Text) : endsWord t = !afterName t.head? := by
  cases t <;> rfl

private theorem parameterNames_ne_parameterName (n m : Nat) : parameterNames n ≠ parameterName m := by
  intro h
  exact absurd (List.cons.inj h).1 (by decide)

/-! ### Framework types between names -/

private theorem typeAliases_unique_beginning :
    ∀ a ∈ typeAliases, ∀ b ∈ typeAliases, a.1 <+: b.1 → a = b := by
  decide +kernel

/-- Texts begin with the same framework type, if with any. -/
theorem eq_of_append_eq {a b : Text × Text} (ha : a ∈ typeAliases) (hb : b ∈ typeAliases)
    {rest more : Text} (h : a.1 ++ rest = b.1 ++ more) : a = b := by
  have hleft : a.1 <+: a.1 ++ rest := List.prefix_append _ _
  have hright : b.1 <+: a.1 ++ rest := h ▸ List.prefix_append _ _
  rcases List.prefix_or_prefix_of_prefix hleft hright with hp | hp
  · exact typeAliases_unique_beginning a ha b hb hp
  · exact (typeAliases_unique_beginning b hb a ha hp).symm

section

variable {a : Text × Text} (ha : a ∈ typeAliases) {u v : Text} (hu : '.' ∉ u) (hv : '.' ∉ v)

include ha hu hv

/-- Where the only dot is that of a framework type, nothing else is found as one. -/
theorem found_between {b : Text × Text} {before t : Text}
    (hsplit : u ++ (a.1 ++ v) = before ++ t) (hb : aliasAt? t = some b) :
    before = u ∧ b = a ∧ endsWord v = true := by
  obtain ⟨hm, rest, rfl, hend⟩ := aliasAt?_some hb
  obtain ⟨hshape, hname, -⟩ := typeAliases_shape a ha
  have hleft : u ++ (a.1 ++ v) = (u ++ frameworkName) ++ '.' :: (a.1.drop 7 ++ v) := by
    conv_lhs => rw [hshape]
    simp
  have hright : before ++ (b.1 ++ rest) = (before ++ frameworkName) ++ '.' :: (b.1.drop 7 ++ rest) := by
    conv_lhs => rw [(typeAliases_shape b hm).1]
    simp
  have hfront : '.' ∉ u ++ frameworkName := by
    rw [List.mem_append, not_or]
    exact ⟨hu, by decide⟩
  have hback : '.' ∉ a.1.drop 7 ++ v := by
    rw [List.mem_append, not_or]
    exact ⟨fun hd => absurd (List.all_eq_true.mp hname '.' hd) (by decide), hv⟩
  rw [hleft, hright] at hsplit
  obtain ⟨hstart, -, -⟩ := (List.append_cons_inj_of_notMem hfront hback).mp hsplit
  obtain rfl := List.append_cancel_right hstart
  rw [← hleft, ← hright] at hsplit
  have hsame := List.append_cancel_left hsplit
  obtain rfl := eq_of_append_eq ha hm hsame
  rw [List.append_cancel_left hsame]
  exact ⟨rfl, rfl, hend⟩

/-- A framework type between texts without dots becomes its keyword if neither of them makes it longer,
and everything else stays. -/
theorem applyTypeAliases_between : applyTypeAliases (u ++ (a.1 ++ v)) =
    u ++ ((if afterName u.getLast? || afterName v.head? then a.1 else a.2) ++ v) := by
  have hfront : ∀ w, w <:+ u → w ≠ [] → aliasAt? (w ++ (a.1 ++ v)) = none := by
    rintro w ⟨before, rfl⟩ hne
    refine Option.eq_none_iff_forall_ne_some.mpr fun b hb => hne ?_
    obtain ⟨hbefore, -⟩ := found_between ha hu hv (List.append_assoc before w _) hb
    exact List.append_right_eq_self.mp hbefore.symm
  have hplace : (u.getLast?.map isWordChar).getD false = afterName u.getLast? := by
    cases u.getLast? <;> rfl
  rw [applyTypeAliases, applyAliasesFrom_append hfront, hplace]
  refine congrArg (u ++ ·) ?_
  cases hlonger : afterName u.getLast? || afterName v.head? with
  | false =>
    obtain ⟨hbefore, hbehind⟩ := Bool.or_eq_false_iff.mp hlonger
    have hend : endsWord v = true := by rw [endsWord_eq_not_afterName, hbehind, Bool.not_false]
    obtain ⟨b, hb⟩ := Option.isSome_iff_exists.mp (aliasAt?_isSome ha hend)
    obtain ⟨-, rfl, -⟩ := found_between ha hu hv rfl hb
    have hrest : ∀ w, w <:+ v → aliasAt? w = none := fun _ hw =>
      aliasAt?_of_dot_not_mem fun hm => hv (hw.subset hm)
    rw [hbefore, ← applyTypeAliases, applyTypeAliases_of_aliasAt? hb, applyAliasesFrom_eq_self hrest,
      if_neg Bool.false_ne_true]
  | true =>
    obtain ⟨c, cs, hcons⟩ : ∃ c cs, a.1 = c :: cs := by
      rw [(typeAliases_shape a ha).1]
      exact ⟨_, _, rfl⟩
    have hfirst : (if afterName u.getLast? then none else aliasAt? (c :: (cs ++ v))) = none := by
      split
      · rfl
      · next hbefore =>
        refine Option.eq_none_iff_forall_ne_some.mpr fun b hb => ?_
        rw [← List.cons_append, ← hcons] at hb
        obtain ⟨-, -, hend⟩ := found_between ha hu hv rfl hb
        rw [endsWord_eq_not_afterName, Bool.not_eq_true'] at hend
        rw [hend, Bool.or_false] at hlonger
        exact hbefore hlonger
    have hinside : ∀ w, w <:+ cs ++ v → aliasAt? w = none := by
      rintro w ⟨before, hsplit⟩
      refine Option.eq_none_iff_forall_ne_some.mpr fun b hb => ?_
      have hwhole : u ++ (a.1 ++ v) = (u ++ c :: before) ++ w := by
        rw [hcons, List.cons_append, ← hsplit, List.append_assoc, List.cons_append]
      obtain ⟨hbefore, -⟩ := found_between ha hu hv hwhole hb
      exact absurd (List.append_right_eq_self.mp hbefore) (List.cons_ne_nil _ _)
    rw [if_pos rfl, hcons, List.cons_append, applyAliasesFrom, hfirst]
    exact congrArg (c :: ·) (applyAliasesFrom_eq_self hinside _)

end

/-- Behind a name a marker declares parameters, and next to names a framework type stays, exactly where
the character beside it is an ASCII one. Behind any other letter or digit the marker names one parameter,
and between such characters the framework type becomes its keyword. -/
theorem only_ascii_neighbours_belong_to_names {w : Text} (hw : IsScriptName w) {ticks : Nat}
    (hpos : 0 < ticks) (hlimit : ticks ≤ 2) (n : Nat) {a : Text × Text} (ha : a ∈ typeAliases)
    {u v : Text} (hu : ∀ c ∈ u, isScriptChar c = true) (hv : ∀ c ∈ v, isScriptChar c = true) :
    let marked := expandArity (w ++ Marker.spelled ticks n)
    let named := applyTypeAliases (u ++ (a.1 ++ v))
    (marked = w ++ parameterNames n ↔ afterName w.getLast? = true) ∧
      (afterName w.getLast? = false → marked = w ++ parameterName (n + 1)) ∧
      (named = u ++ (a.1 ++ v) ↔ afterName u.getLast? = true ∨ afterName v.head? = true) ∧
      (afterName u.getLast? = false → afterName v.head? = false → named = u ++ (a.2 ++ v)) := by
  intro marked named
  have hmarked : marked =
      w ++ if afterName w.getLast? then parameterNames n else parameterName (n + 1) :=
    expandArity_spelled (not_mem_of_isScriptChar hw.chars).1 hpos hlimit n
  have hnamed : named =
      u ++ ((if afterName u.getLast? || afterName v.head? then a.1 else a.2) ++ v) :=
    applyTypeAliases_between ha (not_mem_of_isScriptChar hu).2 (not_mem_of_isScriptChar hv).2
  rw [hmarked, hnamed, ← and_assoc]
  constructor
  · cases afterName w.getLast? with
    | true => exact ⟨iff_of_true rfl rfl, fun h => nomatch h⟩
    | false =>
      refine ⟨iff_of_false (fun h => ?_) Bool.false_ne_true, fun _ => rfl⟩
      exact parameterNames_ne_parameterName n (n + 1) (List.append_cancel_left h).symm
  · rw [← Bool.or_eq_true]
    cases hlonger : afterName u.getLast? || afterName v.head? with
    | true =>
      refine ⟨iff_of_true rfl rfl, fun hbefore hbehind => ?_⟩
      rw [hbefore, hbehind] at hlonger
      cases hlonger
    | false =>
      refine ⟨iff_of_false (fun h => ?_) Bool.false_ne_true, fun _ _ => rfl⟩
      obtain ⟨hshape, -, -, hkeyword, -⟩ := typeAliases_shape a ha
      have hsame : a.2 = a.1 := List.append_cancel_right (List.append_cancel_left h)
      rw [hsame, hshape] at hkeyword
      exact hkeyword (List.mem_append_right _ List.mem_cons_self)

theorem only_ascii_neighbours_belong_to_names_of_both_kinds :
    IsScriptName ['É', 't', 'é', '_', '2'] ∧
      expandArity (['É', 't', 'é', '_', '2'] ++ Marker.spelled 2 3) =
        ['É', 't', 'é', '_', '2'] ++ "<T1,T2,T3>".toList ∧
      applyTypeAliases (['é'] ++ ("System.Int32".toList ++ "Ex".toList)) =
        ['é'] ++ ("System.Int32".toList ++ "Ex".toList) ∧
      expandArity (['C', 'a', 'f', 'é'] ++ Marker.spelled 1 3) = ['C', 'a', 'f', 'é'] ++ "T4".toList ∧
      applyTypeAliases (['é'] ++ ("System.Int32".toList ++ ['é'])) =
        ['é'] ++ ("int".toList ++ ['é']) := by
  have hlatin : IsScriptName ['É', 't', 'é', '_', '2'] :=
    isScriptName_cons (by decide +kernel) (by decide +kernel)
  have haccent : IsScriptName ['C', 'a', 'f', 'é'] :=
    isScriptName_cons (by decide +kernel) (by decide +kernel)
  have hbefore : ∀ c ∈ ['é'], isScriptChar c = true := Text.of_all (by decide +kernel)
  have hbehind : ∀ c ∈ "Ex".toList, isScriptChar c = true := Text.of_all (by decide +kernel)
  have halias : ("System.Int32".toList, "int".toList) ∈ typeAliases := by decide
  obtain ⟨hmarked, -, hnamed, -⟩ := only_ascii_neighbours_belong_to_names hlatin Nat.two_pos
    (by decide) 3 halias hbefore hbehind
  obtain ⟨-, hplaced, -, hcut⟩ := only_ascii_neighbours_belong_to_names haccent Nat.one_pos
    (by decide) 3 halias hbefore hbefore
  exact ⟨hlatin, hmarked.mpr (by decide), hnamed.mpr (by decide), hplaced (by decide),
    hcut (by decide) (by decide)⟩

/-- A marker behind a letter with an accent names a parameter, and a framework type behind one is found
in the middle of the name. -/
theorem names_in_other_letters_are_broken :
    IsScriptName ['C', 'a', 'f', 'é'] ∧ isScriptChar 'é' = true ∧
      expandArity ['C', 'a', 'f', 'é', '`', '1'] = ['C', 'a', 'f', 'é', 'T', '2'] ∧
      ['C', 'a', 'f', 'é', 'T', '2'] ≠ ['C', 'a', 'f', 'é'] ++ parameterNames 1 ∧
      ("System.Int32".toList, "int".toList) ∈ typeAliases ∧
      applyTypeAliases ('é' :: "System.Int32".toList) = 'é' :: "int".toList ∧
      'é' :: "int".toList ≠ 'é' :: "System.Int32".toList := by
  exact ⟨isScriptName_cons (by decide +kernel) (by decide +kernel), by decide +kernel,
    by decide +kernel, by decide +kernel, by decide, by decide +kernel, by decide⟩

end ApiPages.Signature
