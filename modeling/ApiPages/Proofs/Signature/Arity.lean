import ApiPages.Proofs.Signature.Character
import ApiPages.Proofs.Signature.Writing

/-! Markers in written expressions: those of generic parameters become names, and nothing else is
touched. -/
namespace ApiPages.Signature

namespace MarkerRule

variable (rule : MarkerRule)

/-- The text begins with neither a backtick nor a digit. -/
def Settled (t : Text) : Prop :=
  ∀ c, t.head? = some c → c ≠ '`' ∧ Text.isDigit c = false

private theorem settled_nil : Settled [] := fun _ h => nomatch h

/-- What stands before such a text does not matter for it. -/
theorem applyFrom_settled {t : Text} (h : Settled t) (before : Option Char) :
    rule.applyFrom 0 before t = rule.applyFrom 0 none t := by
  cases t with
  | nil => rw [applyFrom, applyFrom]
  | cons c cs =>
    obtain ⟨hc, _⟩ := h c rfl
    rw [rule.applyFrom_cons (rule.find?_of_ne hc _ _),
      rule.applyFrom_cons (rule.find?_of_ne hc _ _)]

end MarkerRule

namespace Marker

/-- The marker of so many backticks and a number. -/
def ofNumber (ticks number : Nat) : Marker := ⟨ticks, Text.ofNat number⟩

def spelled (ticks number : Nat) : Text := List.replicate ticks '`' ++ Text.ofNat number

private theorem value_ofNumber (ticks number : Nat) : (ofNumber ticks number).value = number :=
  Text.digitsValue_ofNat number

private theorem isReadable_ofNumber {ticks : Nat} (hticks : 0 < ticks) (number : Nat) :
    (ofNumber ticks number).IsReadable where
  ticks := hticks
  digits := Text.ofNat_ne_nil number
  decimal _ hc := Text.isDigit_of_char (Text.isDigit_of_mem_ofNat hc)

end Marker

namespace MarkerRule

variable (rule : MarkerRule)

private theorem find?_spelled {ticks : Nat} (hticks : 0 < ticks) (number : Nat) {rest : Text}
    (hrest : Settled rest) (before : Option Char) :
    rule.find? before (Marker.spelled ticks number ++ rest) =
      if rule.applies before (.ofNumber ticks number) rest then some (.ofNumber ticks number)
      else none :=
  rule.find?_text (Marker.isReadable_ofNumber hticks number) (fun c hc => (hrest c hc).2) before

private theorem applyFrom_marker {ticks : Nat} (hticks : 0 < ticks) (number : Nat) {rest : Text}
    (hrest : Settled rest) {before : Option Char}
    (happlies : rule.applies before (.ofNumber ticks number) rest = true) :
    rule.applyFrom 0 before (Marker.spelled ticks number ++ rest) =
      rule.image (.ofNumber ticks number) ++ rule.applyFrom 0 none rest := by
  rw [← rule.applyFrom_settled hrest (Marker.ofNumber ticks number).digits.getLast?]
  exact rule.applyFrom_text (Marker.isReadable_ofNumber hticks number)
    (fun c hc => (hrest c hc).2) happlies

/-- A marker at the end to which the rule does not apply stays as it is. -/
theorem applyFrom_kept {number : Nat}
    (hbehind : ∀ ticks, rule.applies (some '`') (.ofNumber ticks number) [] = false)
    {ticks : Nat} {before : Option Char}
    (h : rule.applies before (.ofNumber ticks number) [] = false) :
    rule.applyFrom 0 before (Marker.spelled ticks number) = Marker.spelled ticks number := by
  induction ticks generalizing before with
  | zero =>
    have hn : '`' ∉ Text.ofNat number :=
      fun hm => absurd (Text.isDigit_of_mem_ofNat hm) (by decide)
    have he := rule.applyFrom_append hn before []
    rw [List.append_nil, applyFrom, List.append_nil] at he
    exact he
  | succ ticks ih =>
    have hfind := rule.find?_spelled (Nat.succ_pos ticks) number settled_nil before
    rw [h, if_neg Bool.false_ne_true, List.append_nil] at hfind
    have hcons : Marker.spelled (ticks + 1) number = '`' :: Marker.spelled ticks number := rfl
    rw [hcons] at hfind ⊢
    rw [rule.applyFrom_cons hfind, ih (hbehind ticks)]

/-- Between texts without backticks that are settled nothing is replaced. -/
theorem applyFrom_plain {t : Text} (h : '`' ∉ t) (before : Option Char) {rest : Text}
    (hrest : Settled rest) :
    rule.applyFrom 0 before (t ++ rest) = t ++ rule.applyFrom 0 none rest := by
  rw [rule.applyFrom_append h, rule.applyFrom_settled hrest]

private theorem settled_cons {c : Char} (hc : c ≠ '`') (hd : Text.isDigit c = false) (cs : Text) :
    Settled (c :: cs) := by
  intro d h
  cases h
  exact ⟨hc, hd⟩

private theorem settled_suffixText (suffixes : List Suffix) {rest : Text} (hrest : Settled rest) :
    Settled (suffixText suffixes ++ rest) := by
  cases suffixes with
  | nil => exact hrest
  | cons suffix more =>
    cases suffix <;> exact settled_cons (by decide) (by decide) _

end MarkerRule

open MarkerRule

/-- The angle bracket for a brace, and any other character itself. -/
def angleFor (c : Char) : Char := if c = '{' then '<' else if c = '}' then '>' else c

theorem bracesToAngles_eq_map (t : Text) : bracesToAngles t = t.map angleFor := by
  rw [bracesToAngles, Text.exchange, Text.exchange, List.map_map]
  refine List.map_congr_left fun c _ => ?_
  by_cases hc : c = '{' <;> simp [angleFor, hc]

theorem map_angleFor_of_isPlain {t : Text} (h : ∀ c ∈ t, isPlain c = true) : t.map angleFor = t := by
  refine (List.map_congr_left fun c hc => ?_).trans (List.map_id t)
  have hopen : c ≠ '{' := fun he => absurd (he ▸ h c hc) (by decide)
  have hclose : c ≠ '}' := fun he => absurd (he ▸ h c hc) (by decide)
  rw [angleFor, if_neg hopen, if_neg hclose, id]

theorem Spelling.map_source : Spelling.source.map angleFor = .angled := by
  have hpath : (fun p : Path => p.dotted.map angleFor) = Path.dotted := by
    funext p
    exact map_angleFor_of_isPlain fun c hc => Path.isPlain_of_mem_dotted hc
  have hparameter : (fun m n => (Spelling.marker m n).map angleFor) = Spelling.marker := by
    funext m n
    exact map_angleFor_of_isPlain fun c hc => Spelling.isPlain_of_mem_marker hc
  show (⟨fun p => p.dotted.map angleFor, '<', '>', [','],
    fun m n => (Spelling.marker m n).map angleFor⟩ : Spelling) = _
  rw [hpath, hparameter]
  rfl

/-- The character before a place is no reason to leave a marker there alone. -/
def Free (before : Option Char) : Prop := afterName before = false ∧ before ≠ some '`'

private theorem backtick_not_mem_suffixText (suffixes : List Suffix) : '`' ∉ suffixText suffixes :=
  fun h => absurd (mem_suffixText h) (by decide)

private theorem Path.backtick_not_mem_dotted (p : Path) : '`' ∉ p.dotted := by
  intro h
  rcases List.mem_append.mp h with h | h
  · obtain ⟨n, _, hn⟩ := List.mem_flatMap.mp h
    rcases List.mem_append.mp hn with hn | hn
    · exact absurd (n.word _ hn) (by decide)
    · exact absurd hn (by decide)
  · exact absurd (p.last.word _ h) (by decide)

private theorem Spelling.marker_eq (ofMethod : Bool) (number : Nat) :
    marker ofMethod number = Marker.spelled (if ofMethod then 2 else 1) number := by
  cases ofMethod <;> rfl

namespace TypeExpression

private theorem placeholder_arguments {ts : List TypeExpression}
    (h : ∀ t ∈ ts, ∀ {before : Option Char}, Free before → ∀ {rest : Text}, Settled rest →
      placeholderRule.applyFrom 0 before (t.write .angled ++ rest) =
        t.write .expanded ++ placeholderRule.applyFrom 0 none rest)
    (hne : ts ≠ []) {before : Option Char} (hbefore : Free before) {rest : Text}
    (hrest : Settled rest) :
    placeholderRule.applyFrom 0 before (Text.join [','] (ts.map (write .angled)) ++ rest) =
      Text.join [','] (ts.map (write .expanded)) ++ placeholderRule.applyFrom 0 none rest := by
  induction ts generalizing before with
  | nil => exact absurd rfl hne
  | cons t ts ih =>
    obtain ⟨ht, hts⟩ := List.forall_mem_cons.mp h
    by_cases hmore : ts = []
    · subst hmore
      exact ht hbefore hrest
    · have hcomma : Settled (',' :: (Text.join [','] (ts.map (write .angled)) ++ rest)) :=
        settled_cons (by decide) (by decide) _
      have hfree : Free (some ',') := ⟨by decide, by decide⟩
      have hmap : ∀ s : Spelling, ts.map (write s) ≠ [] :=
        fun s hn => hmore (List.map_eq_nil_iff.mp hn)
      rw [List.map_cons, List.map_cons, Text.join_cons (hmap _), Text.join_cons (hmap _),
        List.append_assoc, List.append_assoc, List.singleton_append, ht hbefore hcomma,
        applyFrom_cons _ (find?_of_ne _ (by decide) _ _), ih hts hmore hfree]
      simp

/-- In an expression every marker becomes the name of its parameter, whatever follows. -/
theorem placeholder_write (t : TypeExpression) {before : Option Char} (hbefore : Free before)
    {rest : Text} (hrest : Settled rest) :
    placeholderRule.applyFrom 0 before (t.write .angled ++ rest) =
      t.write .expanded ++ placeholderRule.applyFrom 0 none rest := by
  induction t using induct generalizing before rest with
  | parameter ofMethod number suffixes =>
    have hticks : 0 < if ofMethod = true then 2 else 1 := by cases ofMethod <;> decide
    have happlies : placeholderRule.applies before
        (.ofNumber (if ofMethod = true then 2 else 1) number) (suffixText suffixes ++ rest) =
        true := by
      have hlimit : (if ofMethod = true then 2 else 1) ≤ 2 := by cases ofMethod <;> decide
      simp [placeholderRule, Marker.ofNumber, hbefore.1, hbefore.2, hlimit]
    have himage : placeholderRule.image (.ofNumber (if ofMethod = true then 2 else 1) number) =
        parameterName (number + 1) := by
      show parameterName ((Marker.ofNumber _ number).value + 1) = _
      rw [Marker.value_ofNumber]
    show placeholderRule.applyFrom 0 before
      (Spelling.marker ofMethod number ++ suffixText suffixes ++ rest) = _
    rw [Spelling.marker_eq, List.append_assoc,
      applyFrom_marker _ hticks number (settled_suffixText suffixes hrest) happlies, himage,
      applyFrom_plain _ (backtick_not_mem_suffixText suffixes) none hrest, ← List.append_assoc]
    rfl
  | named path arguments suffixes ih =>
    by_cases hne : arguments = []
    · subst hne
      have hn : '`' ∉ path.dotted ++ suffixText suffixes := by
        rw [List.mem_append, not_or]
        exact ⟨path.backtick_not_mem_dotted, backtick_not_mem_suffixText suffixes⟩
      rw [write_plain, write_plain]
      exact applyFrom_plain _ hn before hrest
    · have hclose : Settled ('>' :: (suffixText suffixes ++ rest)) :=
        settled_cons (by decide) (by decide) _
      have hopen : Settled ('<' :: (Text.join [','] (arguments.map (write .angled)) ++
          '>' :: (suffixText suffixes ++ rest))) := settled_cons (by decide) (by decide) _
      have hfree : Free (some '<') := ⟨by decide, by decide⟩
      rw [write_generic _ path hne, write_generic _ path hne, List.append_assoc, List.cons_append,
        List.append_assoc, List.cons_append]
      show placeholderRule.applyFrom 0 before (path.dotted ++ '<' ::
          (Text.join [','] (arguments.map (write .angled)) ++
            '>' :: (suffixText suffixes ++ rest))) = _
      rw [applyFrom_plain _ path.backtick_not_mem_dotted before hopen,
        applyFrom_cons _ (find?_of_ne _ (by decide) _ _),
        placeholder_arguments ih hne hfree hclose,
        applyFrom_cons _ (find?_of_ne _ (by decide) _ _),
        applyFrom_plain _ (backtick_not_mem_suffixText suffixes) (some '>') hrest]
      show _ = path.dotted ++ '<' :: (Text.join [','] (arguments.map (write .expanded)) ++
        '>' :: suffixText suffixes) ++ _
      simp

private theorem backtick_not_mem_write (t : TypeExpression) : '`' ∉ t.write .expanded := by
  have hname : ∀ (p : Path), ∀ c ∈ p.dotted, c ≠ '`' := by
    rintro p c hc rfl
    exact p.backtick_not_mem_dotted hc
  have hparameter : ∀ (n : Nat), ∀ c ∈ parameterName n, c ≠ '`' := by
    rintro n c hc rfl
    exact absurd (isWordChar_of_mem_parameterName hc) (by decide)
  exact fun h => forall_mem_write (P := (· ≠ '`')) hname (fun _ n => hparameter (n + 1)) (by decide)
    (by decide) (Text.of_all rfl) (Text.of_all rfl) t '`' h rfl

theorem expandArity_expanded (t : TypeExpression) :
    expandArity (t.write .expanded) = t.write .expanded :=
  expandArity_of_not_mem t.backtick_not_mem_write

theorem expandArity_angled (t : TypeExpression) :
    expandArity (t.write .angled) = t.write .expanded := by
  have hfree : Free none := ⟨rfl, by decide⟩
  have hn := t.backtick_not_mem_write
  have hp : placeholderRule.apply (t.write .angled) = t.write .expanded := by
    have hw := placeholder_write t hfree settled_nil
    rw [List.append_nil, applyFrom, List.append_nil] at hw
    exact hw
  rw [expandArity, hp, apply_of_not_mem _ hn, apply_of_not_mem _ hn]

/-- Braces become angle brackets, and nothing else is touched. -/
theorem bracesToAngles_source (t : TypeExpression) :
    bracesToAngles (t.write .source) = t.write .angled := by
  have hfixed : ∀ c ∈ suffixChars, angleFor c = c := Text.of_all rfl
  rw [bracesToAngles_eq_map, Spelling.map_write hfixed, Spelling.map_source]

theorem bracesToAngles_write {s : Spelling} (hs : s.Proper) (ho : s.opening = '<')
    (hc : s.closing = '>') (t : TypeExpression) : bracesToAngles (t.write s) = t.write s := by
  have hopen : '{' ∉ t.write s :=
    not_mem_write hs t (by decide) (by rw [ho]; decide) (by rw [hc]; decide) (by decide)
  have hclose : '}' ∉ t.write s :=
    not_mem_write hs t (by decide) (by rw [ho]; decide) (by rw [hc]; decide) (by decide)
  exact bracesToAngles_eq_self hopen hclose

end TypeExpression

/-- A marker at the end of a text declares so many parameters behind a word character, and else it names
one. -/
theorem expandArity_spelled {t : Text} (h : '`' ∉ t) {ticks : Nat} (hpos : 0 < ticks)
    (hlimit : ticks ≤ 2) (number : Nat) :
    expandArity (t ++ Marker.spelled ticks number) =
      t ++ if afterName t.getLast? then parameterNames number else parameterName (number + 1) := by
  have hbehind (rule : MarkerRule) : rule.apply (t ++ Marker.spelled ticks number) =
      t ++ rule.applyFrom 0 t.getLast? (Marker.spelled ticks number) := by
    rw [apply, rule.applyFrom_append h, Option.or_none]
  have hreplaced {rule : MarkerRule}
      (happlies : rule.applies t.getLast? (.ofNumber ticks number) [] = true) :
      rule.apply (t ++ Marker.spelled ticks number) = t ++ rule.image (.ofNumber ticks number) := by
    have he := rule.applyFrom_marker hpos number settled_nil happlies
    rw [List.append_nil, applyFrom, List.append_nil] at he
    rw [hbehind, he]
  have hticks : (Marker.ofNumber ticks number).ticks ≤ 2 := hlimit
  cases hname : afterName t.getLast? with
  | true =>
    have hplaceholder : placeholderRule.apply (t ++ Marker.spelled ticks number) =
        t ++ Marker.spelled ticks number := by
      rw [hbehind, applyFrom_kept]
      · intro ticks
        simp [placeholderRule]
      · simp [placeholderRule, hname]
    have hredundant : redundantRule.apply (t ++ Marker.spelled ticks number) =
        t ++ Marker.spelled ticks number := by
      rw [hbehind, applyFrom_kept]
      · intro ticks
        simp [redundantRule]
      · simp [redundantRule]
    rw [expandArity, hplaceholder, hredundant, hreplaced (by simp [arityRule, hname, hticks])]
    show t ++ parameterNames (Marker.ofNumber ticks number).value = _
    rw [Marker.value_ofNumber, if_pos rfl]
  | false =>
    have hlast : t.getLast? ≠ some '`' := fun he => h (List.mem_of_getLast? he)
    have hn : '`' ∉ t ++ parameterName (number + 1) := by
      rw [List.mem_append, not_or]
      exact ⟨h, fun hm => absurd (isWordChar_of_mem_parameterName hm) (by decide)⟩
    have hplaceholder : placeholderRule.apply (t ++ Marker.spelled ticks number) =
        t ++ parameterName (number + 1) := by
      rw [hreplaced (by simp [placeholderRule, hname, hticks, hlast])]
      show t ++ parameterName ((Marker.ofNumber ticks number).value + 1) = _
      rw [Marker.value_ofNumber]
    rw [expandArity, hplaceholder, apply_of_not_mem _ hn, apply_of_not_mem _ hn,
      if_neg Bool.false_ne_true]

namespace Name

private theorem backtick_not_mem (n : Name) : '`' ∉ n.text :=
  fun h => absurd (n.word _ h) (by decide)

theorem expandArity_text (n : Name) : expandArity n.text = n.text :=
  expandArity_of_not_mem n.backtick_not_mem

theorem expandArity_marker (n : Name) (count : Nat) :
    expandArity (n.text ++ Marker.spelled 2 count) = n.text ++ parameterNames count := by
  have hlast : afterName n.text.getLast? = true := by
    rw [List.getLast?_eq_some_getLast n.nonempty]
    exact n.word _ (List.getLast_mem n.nonempty)
  rw [expandArity_spelled n.backtick_not_mem (by decide) (by decide), if_pos hlast]

end Name
end ApiPages.Signature
