import ApiPages.Proofs.Signature.Alias
import ApiPages.Proofs.Signature.Arity
import ApiPages.Proofs.Signature.Shortening

/-! Labels of type expressions: what is shown of one that a compiler wrote has the form that its
tree says, however deep its arguments are nested. -/
namespace ApiPages.Signature

/-- A path with a closed list of texts behind it is shown as its label with their labels, and what follows
is kept. -/
theorem shorten_of_arguments {raw : Text} (hmark : byReference? (reference raw) = none) {path : Path}
    {arguments : List Text} {rest : Text}
    (h : expandArity (reference raw) =
      path.dotted ++ '<' :: (Text.join [','] arguments ++ '>' :: rest))
    (hbalanced : Balanced '<' '>' (Text.join [','] arguments))
    (hsplit : splitTopLevel (· = ',') (Text.join [','] arguments) = arguments) :
    shorten raw =
      path.label ++ '<' :: (Text.join ", ".toList (arguments.map shorten) ++ '>' :: rest) := by
  have hn : '<' ∉ path.dotted := fun hm => absurd (Path.isPlain_of_mem_dotted hm) (by decide)
  have henclosed := enclosed_append hn (by decide) hbalanced rest
  have hhead := shortHead_dotted path (rfl : endsWord [] = true) List.not_mem_nil List.not_mem_nil
  rw [List.append_nil, List.append_nil] at hhead
  rw [← h] at henclosed
  rw [shorten_eq, (Found.generic hmark henclosed).form_eq, Form.label, hsplit, hhead,
    List.append_assoc, List.cons_append]

namespace TypeExpression

private theorem byReference?_write {s : Spelling} (hs : s.Proper) (t : TypeExpression) :
    byReference? (t.write s) = none := by
  have hbrackets : '@' ≠ s.opening ∧ '@' ≠ s.closing := by
    rcases hs.brackets with ⟨ho, hc⟩ | ⟨ho, hc⟩ <;> rw [ho, hc] <;> decide
  have hn : '@' ∉ t.write s := not_mem_write hs t (by decide) hbrackets.1 hbrackets.2 (by decide)
  rw [byReference?, if_neg]
  exact fun h => hn (List.mem_of_getLast? h)

private theorem trim_write {s : Spelling} (hs : s.Proper) (t : TypeExpression) :
    Text.trim (t.write s) = t.write s :=
  Text.trim_eq_self (isBlank_of_mem_write hs t)

private theorem endsWord_suffixText (suffixes : List Suffix) :
    endsWord (suffixText suffixes) = true := by
  cases suffixes with
  | nil => rfl
  | cons suffix rest => cases suffix <;> rfl

/-- A name with suffixes behind is shown as its label with these suffixes. -/
private theorem shortHead_suffixText (p : Path) (suffixes : List Suffix) :
    shortHead (p.dotted ++ suffixText suffixes) = p.label ++ suffixText suffixes :=
  shortHead_dotted p (endsWord_suffixText suffixes)
    (fun h => absurd (mem_suffixText h) (by decide))
    (fun h => absurd (mem_suffixText h) (by decide))

private def parameterAsName (number : Nat) : Name where
  text := parameterName number
  nonempty := List.cons_ne_nil _ _
  word _ h := isWordChar_of_mem_parameterName h

private theorem angle_not_mem_suffixed (p : Path) (suffixes : List Suffix) :
    '<' ∉ p.dotted ++ suffixText suffixes := by
  rw [List.mem_append, not_or]
  exact ⟨fun h => absurd (Path.isPlain_of_mem_dotted h) (by decide),
    fun h => absurd (mem_suffixText h) (by decide)⟩

/-- A written expression with angle brackets is looked at as it is. -/
theorem reference_write {s : Spelling} (hs : s.Proper) (ho : s.opening = '<')
    (hc : s.closing = '>') (t : TypeExpression) : reference (t.write s) = t.write s := by
  rw [reference, trim_write hs, bracesToAngles_write hs ho hc]

theorem reference_source (t : TypeExpression) : reference (t.write .source) = t.write .angled := by
  rw [reference, trim_write Spelling.proper_source, bracesToAngles_source]

section

variable {raw : Text} (hmark : byReference? (reference raw) = none)

include hmark

theorem shorten_of_suffixed {path : Path} {suffixes : List Suffix}
    (h : expandArity (reference raw) = path.dotted ++ suffixText suffixes) :
    shorten raw = path.label ++ suffixText suffixes := by
  have hfound : Found raw (.plain (expandArity (reference raw))) := by
    refine .plain hmark ?_
    rw [h]
    exact angle_not_mem_suffixed path suffixes
  rw [shorten_eq, hfound.form_eq, Form.label, h, shortHead_suffixText]

private theorem shorten_of_generic {path : Path} {arguments : List TypeExpression} (hne : arguments ≠ [])
    {suffixes : List Suffix}
    (h : expandArity (reference raw) = write .expanded (.named path arguments suffixes))
    (harguments : ∀ t ∈ arguments, shorten (t.write .expanded) = t.write .shown) :
    shorten raw = write .shown (.named path arguments suffixes) := by
  rw [write_generic _ path hne] at h ⊢
  rw [shorten_of_arguments hmark h (balanced_arguments Spelling.proper_expanded rfl rfl arguments)
    (splitTopLevel_write Spelling.proper_expanded arguments), List.map_map]
  have hlabels : arguments.map (shorten ∘ write .expanded) = arguments.map (write .shown) :=
    List.map_congr_left harguments
  rw [hlabels]
  rfl

/-- Once a reference is expanded to an expression, its label is the one that the expression says. -/
theorem shorten_of_expands (t : TypeExpression)
    (hexpands : expandArity (reference raw) = t.write .expanded) :
    shorten raw = t.write .shown := by
  induction t using induct generalizing raw with
  | parameter ofMethod number suffixes =>
    let path : Path := ⟨[], parameterAsName (number + 1)⟩
    have htext : write .expanded (.parameter ofMethod number suffixes) =
        path.dotted ++ suffixText suffixes := rfl
    exact shorten_of_suffixed hmark (hexpands.trans htext)
  | named path arguments suffixes ih =>
    by_cases hne : arguments = []
    · subst hne
      rw [write_plain] at hexpands ⊢
      exact shorten_of_suffixed hmark hexpands
    · refine shorten_of_generic hmark hne hexpands fun t ht => ?_
      have hreference := t.reference_write Spelling.proper_expanded rfl rfl
      refine ih t ht ?_ ?_
      · rw [hreference, byReference?_write Spelling.proper_expanded]
      · rw [hreference, expandArity_expanded]

end

private theorem shorten_angled (t : TypeExpression) : shorten (t.write .angled) = t.write .shown := by
  have hreference := t.reference_write Spelling.proper_angled rfl rfl
  refine shorten_of_expands ?_ t ?_
  · rw [hreference, byReference?_write Spelling.proper_angled]
  · rw [hreference, expandArity_angled]

theorem shorten_source (t : TypeExpression) : shorten (t.write .source) = t.write .shown := by
  refine shorten_of_expands ?_ t ?_
  · rw [reference_source, byReference?_write Spelling.proper_angled]
  · rw [reference_source, expandArity_angled]

end TypeExpression

/-- A parameter of a method: its type, and whether it is passed by reference. -/
structure Parameter where
  type : TypeExpression
  byReference : Bool

namespace Parameter

/-- The parameter as the compiler writes it. -/
def source (p : Parameter) : Text :=
  p.type.write .source ++ if p.byReference then ['@'] else []

/-- The parameter as it is shown. -/
def shown (p : Parameter) : Text :=
  (if p.byReference then "ref ".toList else []) ++ p.type.write .shown

private theorem source_ne_nil (p : Parameter) : p.source ≠ [] :=
  List.append_ne_nil_of_left_ne_nil (p.type.write_ne_nil Spelling.proper_source) _

theorem isBlank_of_mem_source (p : Parameter) : ∀ c ∈ p.source, Text.isBlank c = false := by
  refine List.forall_mem_append.mpr ⟨p.type.isBlank_of_mem_write Spelling.proper_source, ?_⟩
  cases p.byReference <;> exact Text.of_all rfl

private theorem uncut_source (p : Parameter) : Uncut (· = ',') 0 p.source := by
  refine (p.type.uncut_write Spelling.proper_source).append ?_
  cases p.byReference <;> exact uncut_of_forall (Text.of_all rfl)

theorem shorten_source (p : Parameter) : shorten p.source = p.shown := by
  obtain ⟨t, byReference⟩ := p
  cases byReference with
  | false =>
    rw [source, if_neg Bool.false_ne_true, List.append_nil, t.shorten_source]
    rfl
  | true =>
    have htrim : Text.trim (t.write .source ++ ['@']) = t.write .source ++ ['@'] :=
      Text.trim_eq_self (isBlank_of_mem_source ⟨t, true⟩)
    have hreference : reference (t.write .source ++ ['@']) = t.write .angled ++ ['@'] := by
      rw [reference, htrim, bracesToAngles_append, t.bracesToAngles_source]
      rfl
    have hfound : Found (Parameter.mk t true).source (.byReference (t.write .angled)) :=
      .byReference hreference
    rw [ApiPages.Signature.shorten_eq, hfound.form_eq, Form.label, t.shorten_angled]
    rfl

end Parameter

/-- A parameter list as the compiler writes it is shown parameter by parameter. -/
theorem parameterList_source (ps : List Parameter) :
    parameterList (Text.join [','] (ps.map Parameter.source)) =
      Text.join ", ".toList (ps.map Parameter.shown) := by
  have hsplit : splitTopLevel (· = ',') (Text.join [','] (ps.map Parameter.source)) =
      ps.map Parameter.source := by
    refine splitTopLevel_join (fun u hu => ?_) (fun u hu => ?_) (fun u hu => ?_)
    · obtain ⟨p, _, rfl⟩ := List.mem_map.mp hu
      exact p.uncut_source
    · obtain ⟨p, _, rfl⟩ := List.mem_map.mp hu
      exact p.source_ne_nil
    · obtain ⟨p, _, rfl⟩ := List.mem_map.mp hu
      exact p.isBlank_of_mem_source
  rw [parameterList, hsplit, List.map_map]
  exact congrArg _ (List.map_congr_left fun p _ => p.shorten_source)

end ApiPages.Signature
