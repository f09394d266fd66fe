import ApiPages.Proofs.Signature.Expression
import ApiPages.Proofs.Signature.Marker

/-! Written expressions: of which characters they are made, and that their brackets match and keep
every comma inside. -/
namespace ApiPages.Signature

/-- The spelling writes names and parameters in plain characters, and arguments in braces or angle
brackets with commas between them. -/
structure Spelling.Proper (s : Spelling) : Prop where
  path : ∀ p, ∀ c ∈ s.path p, isPlain c = true
  path_ne_nil : ∀ p, s.path p ≠ []
  parameter : ∀ ofMethod number, ∀ c ∈ s.parameter ofMethod number, isPlain c = true
  parameter_ne_nil : ∀ ofMethod number, s.parameter ofMethod number ≠ []
  brackets : s.opening = '{' ∧ s.closing = '}' ∨ s.opening = '<' ∧ s.closing = '>'
  separator : s.separator = [',']

theorem isPlain_of_isWordChar {c : Char} (h : isWordChar c = true) : isPlain c = true := by
  rw [isPlain, h]
  rfl

namespace Path

theorem isPlain_of_mem_dotted {p : Path} {c : Char} (h : c ∈ p.dotted) : isPlain c = true := by
  rcases List.mem_append.mp h with h | h
  · obtain ⟨n, _, hc⟩ := List.mem_flatMap.mp h
    rcases List.mem_append.mp hc with hc | hc
    · exact isPlain_of_isWordChar (n.word c hc)
    · rw [List.mem_singleton.mp hc]
      decide
  · exact isPlain_of_isWordChar (p.last.word c h)

private theorem dotted_ne_nil (p : Path) : p.dotted ≠ [] :=
  List.append_ne_nil_of_right_ne_nil _ p.last.nonempty

end Path

namespace Spelling

theorem isPlain_of_mem_marker {ofMethod : Bool} {number : Nat} {c : Char}
    (h : c ∈ marker ofMethod number) : isPlain c = true := by
  rcases List.mem_append.mp h with h | h
  · have ht : c = '`' := by cases ofMethod <;> simpa using h
    rw [ht]
    decide
  · exact isPlain_of_isWordChar (isWordChar_of_isDigit (Text.isDigit_of_mem_ofNat h))

private theorem marker_ne_nil (ofMethod : Bool) (number : Nat) : marker ofMethod number ≠ [] :=
  List.append_ne_nil_of_right_ne_nil _ (Text.ofNat_ne_nil number)

theorem proper_source : source.Proper where
  path _ _ h := Path.isPlain_of_mem_dotted h
  path_ne_nil := Path.dotted_ne_nil
  parameter _ _ _ h := isPlain_of_mem_marker h
  parameter_ne_nil := marker_ne_nil
  brackets := Or.inl ⟨rfl, rfl⟩
  separator := rfl

theorem proper_angled : angled.Proper where
  path _ _ h := Path.isPlain_of_mem_dotted h
  path_ne_nil := Path.dotted_ne_nil
  parameter _ _ _ h := isPlain_of_mem_marker h
  parameter_ne_nil := marker_ne_nil
  brackets := Or.inr ⟨rfl, rfl⟩
  separator := rfl

theorem proper_expanded : expanded.Proper where
  path _ _ h := Path.isPlain_of_mem_dotted h
  path_ne_nil := Path.dotted_ne_nil
  parameter _ _ _ h := isPlain_of_isWordChar (isWordChar_of_mem_parameterName h)
  parameter_ne_nil _ _ := List.cons_ne_nil _ _
  brackets := Or.inr ⟨rfl, rfl⟩
  separator := rfl

end Spelling

theorem mem_suffixText {suffixes : List Suffix} {c : Char} (h : c ∈ suffixText suffixes) :
    c ∈ suffixChars := by
  obtain ⟨suffix, _, hc⟩ := List.mem_flatMap.mp h
  have harray : ∀ d ∈ ['[', ']'], d ∈ suffixChars := Text.of_all rfl
  cases suffix with
  | array => exact harray c hc
  | pointer =>
    rw [List.mem_singleton.mp hc]
    decide
  | ranked more =>
    rcases List.mem_cons.mp hc with rfl | hc
    · decide
    · rcases List.mem_append.mp hc with hc | hc
      · rcases Text.mem_join hc with hs | ⟨t, ht, hm⟩
        · rw [List.mem_singleton.mp hs]
          decide
        · rw [List.eq_of_mem_replicate ht] at hm
          have hbound : ∀ d ∈ ['0', ':'], d ∈ suffixChars := Text.of_all rfl
          exact hbound c hm
      · rw [List.mem_singleton.mp hc]
        decide

private theorem uncut_join {ts : List Text} (h : ∀ t ∈ ts, Uncut (· = ',') 1 t) :
    Uncut (· = ',') 1 (Text.join [','] ts) := by
  induction ts with
  | nil => exact uncut_nil 1
  | cons t ts ih =>
    obtain ⟨ht, hts⟩ := List.forall_mem_cons.mp h
    by_cases hne : ts = []
    · subst hne
      exact ht
    · have hcomma : Uncut (· = ',') 1 [','] :=
        uncut_singleton (by decide) (by decide) (Or.inr Nat.one_pos)
      rw [Text.join_cons hne]
      exact (ht.append hcomma).append (ih hts)

theorem uncut_of_isPlain {t : Text} (h : ∀ c ∈ t, isPlain c = true) :
    Uncut (· = ',') 0 t := by
  refine uncut_of_forall fun c hc => ?_
  obtain ⟨_, ho, hcl, hmarks⟩ := isPlain_cases (h c hc)
  refine ⟨ho, hcl, decide_eq_false ?_⟩
  rintro rfl
  exact hmarks List.mem_cons_self

theorem balanced_join {opener closer : Char} {sep : Text} {ts : List Text}
    (hsep : Balanced opener closer sep) (h : ∀ t ∈ ts, Balanced opener closer t) :
    Balanced opener closer (Text.join sep ts) := by
  induction ts with
  | nil => exact balanced_nil
  | cons t ts ih =>
    obtain ⟨ht, hts⟩ := List.forall_mem_cons.mp h
    by_cases hne : ts = []
    · subst hne
      exact ht
    · rw [Text.join_cons hne]
      exact (ht.append hsep).append (ih hts)

theorem balanced_of_isPlain {t : Text} (h : ∀ c ∈ t, isPlain c = true) :
    Balanced '<' '>' t := by
  refine balanced_of_forall fun c hc => ⟨?_, ?_⟩
  · rintro rfl
    exact absurd (h _ hc) (by decide)
  · rintro rfl
    exact absurd (h _ hc) (by decide)

namespace Spelling

variable {s : Spelling} (hs : s.Proper) {arguments : List Text}

include hs

/-- A split at commas does not cut a list of arguments that it does not cut alone. -/
theorem uncut_enclose (h : ∀ t ∈ arguments, Uncut (· = ',') 0 t) :
    Uncut (· = ',') 0 (s.enclose arguments) := by
  rw [enclose, hs.separator]
  split
  · exact uncut_nil 0
  · have hinside : Uncut (· = ',') 1 (Text.join [','] arguments) :=
      uncut_join fun t ht => (h t ht).mono (Nat.zero_le 1)
    rcases hs.brackets with ⟨ho, hc⟩ | ⟨ho, hc⟩ <;> rw [ho, hc] <;>
      exact hinside.enclose rfl rfl rfl

theorem balanced_enclose (ho : s.opening = '<') (hc : s.closing = '>')
    (h : ∀ t ∈ arguments, Balanced '<' '>' t) : Balanced '<' '>' (s.enclose arguments) := by
  rw [enclose, hs.separator, ho, hc]
  split
  · exact balanced_nil
  · exact Balanced.enclose (by decide)
      (balanced_join (balanced_singleton (by decide) (by decide)) h)

end Spelling

/-- What holds of the brackets, of the separator and of the characters of every argument holds of a list
of arguments. -/
theorem Spelling.forall_mem_enclose {s : Spelling} {P : Char → Prop} (hopening : P s.opening)
    (hclosing : P s.closing) (hseparator : ∀ c ∈ s.separator, P c) {arguments : List Text}
    (h : ∀ t ∈ arguments, ∀ c ∈ t, P c) : ∀ c ∈ s.enclose arguments, P c := by
  rw [Spelling.enclose]
  split
  · exact fun c hc => absurd hc List.not_mem_nil
  · refine List.forall_mem_cons.mpr ⟨hopening, List.forall_mem_append.mpr ⟨?_, ?_⟩⟩
    · intro c hc
      rcases Text.mem_join hc with hc | ⟨t, ht, hc⟩
      · exact hseparator c hc
      · exact h t ht c hc
    · exact List.forall_mem_singleton.mpr hclosing

namespace TypeExpression

variable {s : Spelling}

theorem write_ne_nil (hs : s.Proper) (t : TypeExpression) : t.write s ≠ [] := by
  cases t with
  | named path arguments suffixes =>
    rw [write_named, List.append_assoc]
    exact List.append_ne_nil_of_left_ne_nil (hs.path_ne_nil path) _
  | parameter ofMethod number suffixes =>
    exact List.append_ne_nil_of_left_ne_nil (hs.parameter_ne_nil ofMethod number) _

/-- What holds of paths, parameters and suffixes, and of texts one after another and in a list when it holds
of each, holds of every expression as it is written. -/
theorem write_induct {P : Text → Prop} (hpath : ∀ p, P (s.path p))
    (hparameter : ∀ ofMethod number, P (s.parameter ofMethod number))
    (hsuffix : ∀ suffixes, P (suffixText suffixes)) (happend : ∀ {t u}, P t → P u → P (t ++ u))
    (henclose : ∀ {ts}, (∀ t ∈ ts, P t) → P (s.enclose ts)) (t : TypeExpression) : P (t.write s) := by
  induction t using induct with
  | parameter ofMethod number suffixes =>
    exact happend (hparameter ofMethod number) (hsuffix suffixes)
  | named path arguments suffixes ih =>
    rw [write_named]
    refine happend (happend (hpath path) (henclose fun u hu => ?_)) (hsuffix suffixes)
    obtain ⟨a, ha, rfl⟩ := List.mem_map.mp hu
    exact ih a ha

/-- What holds of the characters of every part holds of those of an expression. -/
theorem forall_mem_write {P : Char → Prop} (hpath : ∀ p, ∀ c ∈ s.path p, P c)
    (hparameter : ∀ ofMethod number, ∀ c ∈ s.parameter ofMethod number, P c)
    (hopening : P s.opening) (hclosing : P s.closing) (hseparator : ∀ c ∈ s.separator, P c)
    (hsuffix : ∀ c ∈ suffixChars, P c) (t : TypeExpression) : ∀ c ∈ t.write s, P c :=
  write_induct (P := fun t => ∀ c ∈ t, P c) hpath hparameter
    (fun _ c hc => hsuffix c (mem_suffixText hc))
    (fun ht hu => List.forall_mem_append.mpr ⟨ht, hu⟩)
    (Spelling.forall_mem_enclose hopening hclosing hseparator) t

theorem not_mem_write (hs : s.Proper) (t : TypeExpression) {c : Char} (hplain : isPlain c = false)
    (ho : c ≠ s.opening) (hc : c ≠ s.closing) (hsuffix : c ∉ suffixChars) : c ∉ t.write s := by
  have hne : ∀ {d : Char}, isPlain d = true → d ≠ c := by
    rintro d hd rfl
    rw [hplain] at hd
    cases hd
  have hcomma : ∀ d ∈ s.separator, d ≠ c := by
    rw [hs.separator, List.forall_mem_singleton]
    rintro rfl
    exact hsuffix (by decide)
  refine fun h => forall_mem_write (P := (· ≠ c)) (fun p d hd => hne (hs.path p d hd))
    (fun m n d hd => hne (hs.parameter m n d hd)) ho.symm hc.symm hcomma ?_ t c h rfl
  rintro d hd rfl
  exact hsuffix hd

theorem isBlank_of_mem_write (hs : s.Proper) (t : TypeExpression) :
    ∀ c ∈ t.write s, Text.isBlank c = false := by
  have hbrackets : Text.isBlank s.opening = false ∧ Text.isBlank s.closing = false := by
    rcases hs.brackets with ⟨ho, hc⟩ | ⟨ho, hc⟩ <;> rw [ho, hc] <;> decide
  have hcomma : ∀ c ∈ s.separator, Text.isBlank c = false := by
    rw [hs.separator]
    exact Text.of_all rfl
  exact forall_mem_write (fun p c hc => (isPlain_cases (hs.path p c hc)).1)
    (fun m n c hc => (isPlain_cases (hs.parameter m n c hc)).1) hbrackets.1 hbrackets.2 hcomma
    (Text.of_all rfl) t

private theorem uncut_suffixText (suffixes : List Suffix) :
    Uncut (· = ',') 0 (suffixText suffixes) := by
  have hbound : Uncut (· = ',') 0 ['0', ':'] := uncut_of_forall (Text.of_all rfl)
  induction suffixes with
  | nil => exact uncut_nil 0
  | cons suffix rest ih =>
    refine Uncut.append ?_ ih
    cases suffix with
    | array => exact (uncut_nil 1).enclose rfl rfl rfl
    | pointer => exact uncut_of_forall (Text.of_all rfl)
    | ranked more =>
      refine Uncut.enclose rfl rfl rfl (uncut_join fun t ht => ?_)
      rw [List.eq_of_mem_replicate ht]
      exact hbound.mono (Nat.zero_le 1)

/-- A split at commas does not cut a written expression. -/
theorem uncut_write (hs : s.Proper) (t : TypeExpression) : Uncut (· = ',') 0 (t.write s) :=
  write_induct (fun p => uncut_of_isPlain (hs.path p))
    (fun ofMethod number => uncut_of_isPlain (hs.parameter ofMethod number)) uncut_suffixText
    Uncut.append (Spelling.uncut_enclose hs) t

private theorem balanced_suffixText (suffixes : List Suffix) :
    Balanced '<' '>' (suffixText suffixes) := by
  have hn : ∀ c ∈ suffixChars, c ≠ '<' ∧ c ≠ '>' := Text.of_all rfl
  exact balanced_of_forall fun c hc => hn c (mem_suffixText hc)

/-- In an expression that is written with angle brackets they match. -/
theorem balanced_write (hs : s.Proper) (ho : s.opening = '<') (hc : s.closing = '>')
    (t : TypeExpression) : Balanced '<' '>' (t.write s) :=
  write_induct (fun p => balanced_of_isPlain (hs.path p))
    (fun ofMethod number => balanced_of_isPlain (hs.parameter ofMethod number)) balanced_suffixText
    Balanced.append (Spelling.balanced_enclose hs ho hc) t

theorem balanced_arguments (hs : s.Proper) (ho : s.opening = '<') (hc : s.closing = '>')
    (ts : List TypeExpression) : Balanced '<' '>' (Text.join [','] (ts.map (write s))) := by
  refine balanced_join (balanced_singleton (by decide) (by decide)) fun u hu => ?_
  obtain ⟨a, _, rfl⟩ := List.mem_map.mp hu
  exact balanced_write hs ho hc a

theorem splitTopLevel_write (hs : s.Proper) (ts : List TypeExpression) :
    splitTopLevel (· = ',') (Text.join [','] (ts.map (write s))) = ts.map (write s) := by
  refine splitTopLevel_join (fun u hu => ?_) (fun u hu => ?_) (fun u hu c hc => ?_)
  · obtain ⟨t, _, rfl⟩ := List.mem_map.mp hu
    exact uncut_write hs t
  · obtain ⟨t, _, rfl⟩ := List.mem_map.mp hu
    exact write_ne_nil hs t
  · obtain ⟨t, _, rfl⟩ := List.mem_map.mp hu
    exact isBlank_of_mem_write hs t c hc

end TypeExpression

namespace Spelling

/-- The spelling with every character exchanged. -/
def map (f : Char → Char) (s : Spelling) : Spelling where
  path p := (s.path p).map f
  opening := f s.opening
  closing := f s.closing
  separator := s.separator.map f
  parameter ofMethod number := (s.parameter ofMethod number).map f

private theorem map_join (f : Char → Char) (sep : Text) (ts : List Text) :
    (Text.join sep ts).map f = Text.join (sep.map f) (ts.map (List.map f)) := by
  induction ts with
  | nil => rfl
  | cons t ts ih =>
    by_cases hne : ts = []
    · subst hne
      rfl
    · rw [Text.join_cons hne, List.map_append, List.map_append, ih, List.map_cons,
        Text.join_cons (by simpa using hne)]

theorem map_enclose (f : Char → Char) (s : Spelling) (arguments : List Text) :
    (s.enclose arguments).map f = (s.map f).enclose (arguments.map (List.map f)) := by
  cases arguments with
  | nil => rfl
  | cons t ts =>
    have hn : (t :: ts).isEmpty = false := rfl
    have hm : ((t :: ts).map (List.map f)).isEmpty = false := rfl
    rw [enclose, enclose, hn, hm, if_neg Bool.false_ne_true, if_neg Bool.false_ne_true,
      List.map_append, List.map_cons, map_join]
    rfl

/-- Characters that suffixes do not have may be exchanged before writing or after. -/
theorem map_write {f : Char → Char} (hf : ∀ c ∈ suffixChars, f c = c) (s : Spelling)
    (t : TypeExpression) : (t.write s).map f = t.write (s.map f) := by
  have hsuffix : ∀ suffixes, (suffixText suffixes).map f = suffixText suffixes := by
    intro suffixes
    refine (List.map_congr_left fun c hc => hf c (mem_suffixText hc)).trans ?_
    exact List.map_id _
  induction t using TypeExpression.induct with
  | parameter ofMethod number suffixes =>
    rw [TypeExpression.write, List.map_append, hsuffix, TypeExpression.write]
    rfl
  | named path arguments suffixes ih =>
    rw [TypeExpression.write_named, TypeExpression.write_named, List.map_append, List.map_append,
      hsuffix]
    have harguments : (arguments.map (TypeExpression.write s)).map (List.map f) =
        arguments.map (TypeExpression.write (s.map f)) := by
      rw [List.map_map]
      exact List.map_congr_left ih
    rw [map_enclose, harguments]
    rfl

end Spelling
end ApiPages.Signature
