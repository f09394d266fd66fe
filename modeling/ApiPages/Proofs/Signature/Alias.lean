import ApiPages.Proofs.Keyed
import ApiPages.Proofs.Signature.Expression
import ApiPages.Proofs.Text.Cut

/-! Keywords in dotted paths: whatever stands before, the last two names of a path decide about its
label. -/
namespace ApiPages.Signature

/-- The namespace of all types that have a keyword. -/
def frameworkName : Text := ['S', 'y', 's', 't', 'e', 'm']

theorem typeAliases_shape : ∀ a ∈ typeAliases,
    a.1 = frameworkName ++ '.' :: a.1.drop 7 ∧ (a.1.drop 7).all isWordChar = true ∧
      a.1.drop 7 ≠ frameworkName ∧ '.' ∉ a.2 ∧ typeAliases.lookup a.1 = some a.2 := by
  decide +kernel

private theorem isWordChar_of_mem_frameworkName : ∀ c ∈ frameworkName, isWordChar c = true :=
  Text.of_all rfl

/-- Words that end where texts go on without one are the same when the texts are. -/
theorem word_append_inj {v w rest more : Text} (hv : ∀ c ∈ v, isWordChar c = true)
    (hw : ∀ c ∈ w, isWordChar c = true) (hrest : endsWord rest = true)
    (hmore : endsWord more = true) (h : v ++ rest = w ++ more) : v = w ∧ rest = more := by
  induction v generalizing w with
  | nil =>
    cases w with
    | nil => exact ⟨rfl, h⟩
    | cons d ds =>
      rw [List.nil_append, List.cons_append] at h
      rw [h, endsWord, hw d List.mem_cons_self] at hrest
      cases hrest
  | cons c cs ih =>
    cases w with
    | nil =>
      rw [List.nil_append, List.cons_append] at h
      rw [← h, endsWord, hv c List.mem_cons_self] at hmore
      cases hmore
    | cons d ds =>
      rw [List.cons_append, List.cons_append, List.cons.injEq] at h
      obtain ⟨rfl, h⟩ := h
      obtain ⟨rfl, he⟩ := ih (fun e he => hv e (List.mem_cons_of_mem c he))
        (fun e he => hw e (List.mem_cons_of_mem c he)) h
      exact ⟨rfl, he⟩

/-- An alias that is found stands at the beginning of the text as a whole word. -/
theorem aliasAt?_some {t : Text} {a : Text × Text} (h : aliasAt? t = some a) :
    a ∈ typeAliases ∧ ∃ rest, t = a.1 ++ rest ∧ endsWord rest = true := by
  have hp := List.find?_some h
  obtain ⟨hstarts, hend⟩ := Bool.and_eq_true_iff.mp hp
  obtain ⟨rest, rfl⟩ := List.isPrefixOf_iff_prefix.mp hstarts
  rw [List.drop_left] at hend
  exact ⟨List.mem_of_find?_eq_some h, rest, rfl, hend⟩

theorem aliasAt?_isSome {a : Text × Text} (h : a ∈ typeAliases) {rest : Text}
    (hrest : endsWord rest = true) : (aliasAt? (a.1 ++ rest)).isSome = true := by
  refine List.find?_isSome.mpr ⟨a, h, Bool.and_eq_true_iff.mpr ⟨?_, ?_⟩⟩
  · exact List.isPrefixOf_iff_prefix.mpr (List.prefix_append a.1 rest)
  · rw [List.drop_left]
    exact hrest

theorem aliasAt?_of_dot_not_mem {t : Text} (h : '.' ∉ t) : aliasAt? t = none := by
  cases ha : aliasAt? t with
  | none => rfl
  | some a =>
    obtain ⟨hm, rest, rfl, _⟩ := aliasAt?_some ha
    rw [(typeAliases_shape a hm).1] at h
    simp at h

/-- Outside of the namespace of the framework nothing has a keyword. -/
theorem aliasAt?_of_ne (w : Name) (hw : w.text ≠ frameworkName) (rest : Text) :
    aliasAt? (w.text ++ '.' :: rest) = none := by
  cases ha : aliasAt? (w.text ++ '.' :: rest) with
  | none => rfl
  | some a =>
    obtain ⟨hm, more, he, _⟩ := aliasAt?_some ha
    rw [(typeAliases_shape a hm).1, List.append_assoc] at he
    have hwords := word_append_inj w.word isWordChar_of_mem_frameworkName rfl rfl he
    exact absurd hwords.1 hw

private theorem eq_of_alias {v w : Name} {rest : Text} (hrest : endsWord rest = true)
    {a : Text × Text} (h : aliasAt? (v.text ++ '.' :: (w.text ++ rest)) = some a) :
    a ∈ typeAliases ∧ v.text = frameworkName ∧ w.text = a.1.drop 7 := by
  obtain ⟨hm, more, he, hmore⟩ := aliasAt?_some h
  obtain ⟨hshape, hword, _⟩ := typeAliases_shape a hm
  rw [hshape, List.append_assoc] at he
  obtain ⟨hv, hr⟩ := word_append_inj v.word isWordChar_of_mem_frameworkName rfl rfl he
  rw [List.cons_append, List.cons.injEq] at hr
  exact ⟨hm, hv, (word_append_inj w.word (List.all_eq_true.mp hword) hrest hmore hr.2).1⟩

/-- Two names begin with an alias exactly if they are one. -/
theorem aliasAt?_names (v w : Name) {rest : Text} (hrest : endsWord rest = true) :
    aliasAt? (v.text ++ '.' :: (w.text ++ rest)) =
      (typeAliases.lookup (v.text ++ '.' :: w.text)).map
        fun keyword => (v.text ++ '.' :: w.text, keyword) := by
  cases ha : aliasAt? (v.text ++ '.' :: (w.text ++ rest)) with
  | some a =>
    obtain ⟨hm, hv, hw⟩ := eq_of_alias hrest ha
    obtain ⟨hshape, _, _, _, hlookup⟩ := typeAliases_shape a hm
    rw [hv, hw, ← hshape, hlookup]
    rfl
  | none =>
    cases hl : typeAliases.lookup (v.text ++ '.' :: w.text) with
    | none => rfl
    | some keyword =>
      have hsome := aliasAt?_isSome (Keyed.mem_of_lookup_eq_some hl) hrest
      rw [List.append_assoc, List.cons_append, ha] at hsome
      cases hsome

private theorem applyAliasesFrom_word {w : Text} (hw : ∀ c ∈ w, isWordChar c = true) (rest : Text) :
    applyAliasesFrom 0 true (w ++ rest) = w ++ applyAliasesFrom 0 true rest := by
  induction w with
  | nil => rfl
  | cons c cs ih =>
    rw [List.cons_append, applyAliasesFrom, if_pos rfl, hw c List.mem_cons_self]
    exact congrArg (c :: ·) (ih fun d hd => hw d (List.mem_cons_of_mem c hd))

/-- As far as no alias begins in it, a text is left alone. -/
theorem applyAliasesFrom_append {t rest : Text}
    (h : ∀ u, u <:+ t → u ≠ [] → aliasAt? (u ++ rest) = none) (inWord : Bool) :
    applyAliasesFrom 0 inWord (t ++ rest) =
      t ++ applyAliasesFrom 0 ((t.getLast?.map isWordChar).getD inWord) rest := by
  induction t generalizing inWord with
  | nil => rfl
  | cons c cs ih =>
    have hfirst := h (c :: cs) List.suffix_rfl (List.cons_ne_nil c cs)
    rw [List.cons_append] at hfirst ⊢
    rw [applyAliasesFrom, hfirst, ite_self, List.getLast?_cons]
    refine congrArg (c :: ·) ?_
    rw [ih fun u hu => h u (hu.trans (List.suffix_cons c cs))]
    cases cs.getLast? <;> rfl

/-- A text that goes on nowhere with an alias is left alone. -/
theorem applyAliasesFrom_eq_self {t : Text} (h : ∀ u, u <:+ t → aliasAt? u = none) (inWord : Bool) :
    applyAliasesFrom 0 inWord t = t := by
  have hnone : ∀ u, u <:+ t → u ≠ [] → aliasAt? (u ++ []) = none := by
    intro u hu _
    rw [List.append_nil]
    exact h u hu
  have happend := applyAliasesFrom_append hnone inWord
  rw [List.append_nil, applyAliasesFrom, List.append_nil] at happend
  exact happend

private theorem applyAliasesFrom_of_not_mem {t : Text} (h : 'S' ∉ t) (inWord : Bool) :
    applyAliasesFrom 0 inWord t = t := by
  refine applyAliasesFrom_eq_self (fun u hu => ?_) inWord
  cases ha : aliasAt? u with
  | none => rfl
  | some a =>
    obtain ⟨hm, rest, he, _⟩ := aliasAt?_some ha
    have hn : 'S' ∉ u := fun hs => h (hu.subset hs)
    rw [he, (typeAliases_shape a hm).1, frameworkName] at hn
    simp at hn

private theorem applyAliasesFrom_length (skipped : Text) (inWord : Bool) (rest : Text) :
    applyAliasesFrom skipped.length inWord (skipped ++ rest) =
      applyAliasesFrom 0 ((skipped.getLast?.map isWordChar).getD inWord) rest := by
  induction skipped generalizing inWord with
  | nil => rfl
  | cons c cs ih =>
    rw [List.length_cons, List.cons_append, applyAliasesFrom, ih, List.getLast?_cons]
    cases cs.getLast? <;> rfl

theorem applyTypeAliases_name (n : Name) {rest : Text} (h : aliasAt? (n.text ++ rest) = none) :
    applyTypeAliases (n.text ++ rest) = n.text ++ applyAliasesFrom 0 true rest := by
  obtain ⟨c, cs, hc⟩ := List.exists_cons_of_ne_nil n.nonempty
  have hword := n.word
  rw [hc] at h hword ⊢
  rw [applyTypeAliases, List.cons_append, applyAliasesFrom, if_neg Bool.false_ne_true]
  rw [List.cons_append] at h
  rw [h, hword c List.mem_cons_self]
  have hcs : ∀ d ∈ cs, isWordChar d = true := fun d hd => hword d (List.mem_cons_of_mem c hd)
  exact congrArg (c :: ·) (applyAliasesFrom_word hcs rest)

private theorem applyAliasesFrom_dot (rest : Text) :
    applyAliasesFrom 0 true ('.' :: rest) = '.' :: applyTypeAliases rest := rfl

private theorem typeAliases_ends : ∀ a ∈ typeAliases,
    a.1 = 'S' :: a.1.tail ∧ (a.1.tail.getLast?.map isWordChar).getD true = true := by
  decide +kernel

/-- A framework type at the beginning gives way to its keyword. -/
theorem applyTypeAliases_of_aliasAt? {a : Text × Text} {rest : Text}
    (h : aliasAt? (a.1 ++ rest) = some a) :
    applyTypeAliases (a.1 ++ rest) = a.2 ++ applyAliasesFrom 0 true rest := by
  obtain ⟨hcons, hlast⟩ := typeAliases_ends a (aliasAt?_some h).1
  have hskipped : applyAliasesFrom (a.1.length - 1) true (a.1.tail ++ rest) =
      applyAliasesFrom 0 true rest := by
    have hlength : a.1.length - 1 = a.1.tail.length := List.length_tail.symm
    rw [hlength, applyAliasesFrom_length, hlast]
  have hfirst : a.1 ++ rest = 'S' :: (a.1.tail ++ rest) := congrArg (· ++ rest) hcons
  rw [hfirst] at h ⊢
  rw [applyTypeAliases, applyAliasesFrom, if_neg Bool.false_ne_true, h]
  exact congrArg (a.2 ++ ·) hskipped

private theorem applyTypeAliases_alias (v w : Name) {rest keyword : Text} (hrest : endsWord rest = true)
    (h : typeAliases.lookup (v.text ++ '.' :: w.text) = some keyword) :
    applyTypeAliases (v.text ++ '.' :: (w.text ++ rest)) =
      keyword ++ applyAliasesFrom 0 true rest := by
  have ha := aliasAt?_names v w hrest
  have hassoc : v.text ++ '.' :: (w.text ++ rest) = (v.text ++ '.' :: w.text) ++ rest := by simp
  rw [h, Option.map_some, hassoc] at ha
  rw [hassoc]
  exact applyTypeAliases_of_aliasAt? (a := (v.text ++ '.' :: w.text, keyword)) ha

/-- A name without a dot is its own short form. -/
theorem shortHead_of_not_mem {t : Text} (h : '.' ∉ t) : shortHead t = t := by
  have haliases : applyTypeAliases t = t :=
    applyAliasesFrom_eq_self (fun u hu => aliasAt?_of_dot_not_mem fun hm => h (hu.subset hm)) false
  rw [shortHead, haliases, stripNamespace, Text.afterLast_of_not_mem h]

theorem dot_not_mem_shortHead (t : Text) : '.' ∉ shortHead t := Text.not_mem_afterLast '.' _

/-- A name before a dot has no part in the label, as long as no alias begins with it. -/
theorem shortHead_name (n : Name) {rest : Text} (h : aliasAt? (n.text ++ '.' :: rest) = none) :
    shortHead (n.text ++ '.' :: rest) = shortHead rest := by
  rw [shortHead, applyTypeAliases_name n h, applyAliasesFrom_dot, stripNamespace,
    Text.afterLast_append]
  rfl

/-- Of three names the first has no part in the label. -/
theorem shortHead_names (v w : Name) (rest : Text) :
    shortHead (v.text ++ '.' :: (w.text ++ '.' :: rest)) = shortHead (w.text ++ '.' :: rest) := by
  have hdot : endsWord ('.' :: rest) = true := rfl
  have ha := aliasAt?_names v w hdot
  cases hl : typeAliases.lookup (v.text ++ '.' :: w.text) with
  | none =>
    rw [hl] at ha
    exact shortHead_name v ha
  | some keyword =>
    rw [hl] at ha
    obtain ⟨hm, _, hw⟩ := eq_of_alias rfl ha
    have hne : w.text ≠ frameworkName := by
      rw [hw]
      exact (typeAliases_shape _ hm).2.2.1
    rw [shortHead_name w (aliasAt?_of_ne w hne rest), shortHead,
      applyTypeAliases_alias v w rfl hl, applyAliasesFrom_dot, stripNamespace,
      Text.afterLast_append]
    rfl

/-- The short form of a path is its label, with what follows the path behind. -/
theorem shortHead_dotted (p : Path) {rest : Text} (hend : endsWord rest = true)
    (hdot : '.' ∉ rest) (hframework : 'S' ∉ rest) :
    shortHead (p.dotted ++ rest) = p.label ++ rest := by
  have hsingle : ∀ n : Name, shortHead (n.text ++ rest) = n.text ++ rest := by
    intro n
    have hn : '.' ∉ n.text ++ rest := by
      rw [List.mem_append, not_or]
      exact ⟨fun hm => absurd (n.word _ hm) (by decide), hdot⟩
    rw [shortHead, applyTypeAliases_name n (aliasAt?_of_dot_not_mem hn),
      applyAliasesFrom_of_not_mem hframework, stripNamespace, Text.afterLast_of_not_mem hn]
  obtain ⟨outer, last⟩ := p
  induction outer with
  | nil => exact hsingle last
  | cons v outer ih =>
    cases outer with
    | nil =>
      have hdotted : (Path.mk [v] last).dotted ++ rest = v.text ++ '.' :: (last.text ++ rest) := by
        simp [Path.dotted]
      have hlabel : (Path.mk [v] last).label =
          (typeAliases.lookup (v.text ++ '.' :: last.text)).getD last.text := rfl
      have ha := aliasAt?_names v last hend
      rw [hdotted, hlabel]
      cases hl : typeAliases.lookup (v.text ++ '.' :: last.text) with
      | none =>
        rw [hl] at ha
        rw [shortHead_name v ha, hsingle last]
        rfl
      | some keyword =>
        rw [hl] at ha
        obtain ⟨hm, _⟩ := eq_of_alias hend ha
        have hkeyword : '.' ∉ keyword ++ rest := by
          rw [List.mem_append, not_or]
          exact ⟨(typeAliases_shape _ hm).2.2.2.1, hdot⟩
        rw [shortHead, applyTypeAliases_alias v last hend hl,
          applyAliasesFrom_of_not_mem hframework, stripNamespace,
          Text.afterLast_of_not_mem hkeyword]
        rfl
    | cons w outer =>
      have hdotted : (Path.mk (v :: w :: outer) last).dotted ++ rest = v.text ++ '.' ::
          (w.text ++ '.' :: ((Path.mk outer last).dotted ++ rest)) := by
        simp [Path.dotted]
      have hinner : (Path.mk (w :: outer) last).dotted ++ rest =
          w.text ++ '.' :: ((Path.mk outer last).dotted ++ rest) := by
        simp [Path.dotted]
      have hlabel : (Path.mk (v :: w :: outer) last).label = (Path.mk (w :: outer) last).label := by
        rw [Path.label, Path.label, List.getLast?_cons_cons]
      rw [hdotted, shortHead_names, ← hinner, ih, hlabel]

end ApiPages.Signature
