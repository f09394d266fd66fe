import ApiPages.Identifier
import ApiPages.Proofs.Signature.Arity
import ApiPages.Proofs.Signature.Attempt
import ApiPages.Proofs.Signature.Balance
import ApiPages.Proofs.Signature.Partner
import ApiPages.Signature.Attempt

/-! Shortening and splitting as they are carried out, call by call: no search for the partner of a bracket
fails on any text, and no chain of calls goes on for ever. What can fail is the reading of a number. -/
namespace ApiPages.Signature

variable {opener closer : Char} {t : Text}

/-! ### Searches -/

/-- The search fails on no text, and finds what stands around the brackets. -/
theorem locate_eq (h : closer? opener = some closer) (t : Text) :
    locate opener t = .ok (enclosed opener closer t) := by
  rw [locate, enclosed]
  cases hposition : t.idxOf? opener with
  | none => rw [Text.cutFirst_eq_none_iff.mpr (List.idxOf?_eq_none_iff.mp hposition)]
  | some position =>
    obtain ⟨hlt, hopener, hbefore⟩ := List.idxOf?_eq_some_iff.mp hposition
    have ho : t[position]? = some opener := List.getElem?_eq_some_iff.mpr ⟨hlt, hopener⟩
    have hcut : Text.cutFirst opener t = some (t.take position, t.drop (position + 1)) := by
      refine Text.cutFirst_eq_some_iff.mpr ⟨?_, fun hm => ?_⟩
      · rw [← drop_of_getElem? ho, List.take_append_drop]
      · obtain ⟨i, hi, he⟩ := List.mem_take_iff_getElem.mp hm
        exact hbefore i (by omega) he
    rw [hcut]
    simp only [matchingBracket_of_opener h ho]
    cases closingOffset? opener closer 1 (t.drop (position + 1)) with
    | none => rfl
    | some offset =>
      have hinside : (t.take (position + 1 + offset)).drop (position + 1) =
          (t.drop (position + 1)).take offset := by
        rw [List.drop_take]
        congr 1
        omega
      have hafter : t.drop (position + 1 + offset + 1) = (t.drop (position + 1)).drop (offset + 1) := by
        rw [List.drop_drop, Nat.add_assoc (position + 1)]
      simp only [Option.map_some, Int.ofNat_eq_natCast, Int.toNat_natCast, hinside, hafter]

private theorem splitCall_eq (id : Text) : splitCall id = .ok (Identifier.splitParameters id) := by
  have hlocate : locate '(' id = .ok (enclosed '(' ')' id) := locate_eq rfl id
  rw [splitCall, hlocate, Identifier.splitParameters]
  cases enclosed '(' ')' id <;> rfl

/-! ### Calls -/

private theorem mapM_eq_pure {f : Text → Attempt Text} {label : Text → Text} {ts : List Text}
    (h : ∀ t ∈ ts, f t = pure (label t)) : ts.mapM f = pure (ts.map label) := by
  induction ts with
  | nil => rfl
  | cons t ts ih =>
    rw [List.forall_mem_cons] at h
    rw [List.mapM_cons, h.1, pure_bind, ih h.2, pure_bind, List.map_cons]

/-- What the shortening of a text comes to: the error of its expansion, if that fails, and else the
label. -/
def outcome (raw : Text) : Except ShorteningError Text :=
  ((expandArity? (bracesToAngles raw)).mapError .digits).map fun _ => shorten raw

private theorem outcome_of_numbersFit {raw : Text} (h : numbersFit (bracesToAngles raw) = .ok ()) :
    outcome raw = .ok (shorten raw) := by
  rw [outcome, expandArity?_eq, h]
  rfl

private theorem outcome_of_error {raw : Text} {error : Text.DigitError}
    (h : numbersFit (bracesToAngles raw) = .error error) : outcome raw = .error (.digits error) := by
  rw [outcome, expandArity?_eq, h]
  rfl

/-- The blanks that are trimmed have nothing to do with the numbers in a text. -/
theorem numbersFit_reference (raw : Text) :
    numbersFit (reference raw) = numbersFit (bracesToAngles raw) := by
  obtain ⟨front, back, hangles, hfront, hback⟩ := exists_blanks_around_reference raw
  rw [hangles, numbersFit_between_blanks hfront hback]

/-- Neither has the mark for references. -/
theorem numbersFit_referent {raw referent : Text} (h : byReference? (reference raw) = some referent) :
    numbersFit (bracesToAngles referent) = numbersFit (bracesToAngles raw) := by
  have hstop : IsStop '@' := ⟨by decide, by decide +kernel, by decide, by decide⟩
  have hreference := byReference?_eq_some.mp h
  have hpart : referent ∈ (form raw).parts := by
    rw [(Found.byReference hreference).form_eq]
    exact List.mem_singleton_self referent
  rw [bracesToAngles_part hpart, ← numbersFit_reference raw, hreference,
    hstop.numbersFit_append List.not_mem_nil]

private theorem numbersFit_argument {raw name inside rest t : Text}
    (h : enclosed '<' '>' (expandArity (reference raw)) = .closed name inside rest)
    (ht : t ∈ splitTopLevel (· = ',') inside) (hangles : bracesToAngles t = t) :
    numbersFit (bracesToAngles t) = .ok () := by
  have hexpanded := isExpanded_expandArity t
  rw [(length_argument_lt h ht).1] at hexpanded
  rw [hangles]
  exact numbersFit_of_isExpanded hexpanded

/-- A call that takes off a mark for references. -/
theorem shortenCall_byReference {raw referent : Text}
    (h : byReference? (reference raw) = some referent) {calls : Nat}
    (hcall : (shortenCall calls referent).run = some (outcome referent)) :
    (shortenCall (calls + 1) raw).run = some (outcome raw) := by
  have hlabel : shorten raw = "ref ".toList ++ shorten referent := by
    rw [shorten_eq, (Found.byReference (byReference?_eq_some.mp h)).form_eq]
    rfl
  have hattempt : shortenCall calls referent = ExceptT.mk (some (outcome referent)) := hcall
  have hnumbers := numbersFit_referent h
  rw [shortenCall, h]
  simp only [hattempt]
  cases hfit : numbersFit (bracesToAngles raw) with
  | error error =>
    rw [hfit] at hnumbers
    rw [outcome_of_error hfit, outcome_of_error hnumbers]
    rfl
  | ok =>
    rw [hfit] at hnumbers
    rw [outcome_of_numbersFit hfit, outcome_of_numbersFit hnumbers, hlabel]
    rfl

/-- A call ends at once when the expansion fails. -/
theorem shortenCall_of_error {raw : Text} (hmark : byReference? (reference raw) = none)
    {error : Text.DigitError} (h : numbersFit (bracesToAngles raw) = .error error) (calls : Nat) :
    (shortenCall (calls + 1) raw).run = some (outcome raw) := by
  rw [outcome_of_error h, shortenCall, hmark, expandArity?_eq, numbersFit_reference, h]
  rfl

/-- When the expansion succeeds and the calls on the parts of a text end with their labels, the call on the
text does. -/
theorem shortenCall_of_expanded {calls : Nat} {raw : Text}
    (hmark : byReference? (reference raw) = none) (h : numbersFit (bracesToAngles raw) = .ok ())
    (hparts : ∀ t ∈ (form raw).parts, shortenCall calls t = pure (shorten t)) :
    shortenCall (calls + 1) raw = pure (shorten raw) := by
  have hexpanded : Attempt.ofConversion (expandArity? (reference raw)) =
      pure (expandArity (reference raw)) := by
    rw [expandArity?_eq, numbersFit_reference, h]
    rfl
  have hlocate : Attempt.ofSearch (locate '<' (expandArity (reference raw))) =
      pure (enclosed '<' '>' (expandArity (reference raw))) := by
    rw [locate_eq rfl]
    rfl
  have hfound := found_form raw
  rw [shortenCall, shorten_eq, hmark, hexpanded, pure_bind, hlocate]
  generalize form raw = f at hparts hfound
  cases hfound with
  | byReference hreference =>
    rw [byReference?_eq_some.mpr hreference] at hmark
    cases hmark
  | plain _ hn =>
    rw [enclosed, Text.cutFirst_eq_none_iff.mpr hn]
    rfl
  | broken _ hunclosed =>
    rw [hunclosed]
    rfl
  | @generic name inside rest _ hclosed =>
    have hlabels : (splitTopLevel (· = ',') inside).mapM (shortenCall calls) =
        pure ((splitTopLevel (· = ',') inside).map shorten) := mapM_eq_pure hparts
    rw [hclosed, pure_bind]
    simp only [hlabels, pure_bind]
    rfl

/-- A call comes back when calls may be nested deeper than the expanded text is long. -/
theorem shortenCall_of_size_lt {raw : Text} {calls : Nat} (h : size raw < calls) :
    (shortenCall calls raw).run = some (outcome raw) := by
  induction calls generalizing raw with
  | zero => omega
  | succ calls ih =>
    have hpart {t : Text} (ht : t ∈ (form raw).parts) :
        (shortenCall calls t).run = some (outcome t) := by
      have hlt := size_lt_of_mem_parts ht
      exact ih (by omega)
    cases hmark : byReference? (reference raw) with
    | some referent =>
      refine shortenCall_byReference hmark (hpart ?_)
      rw [(Found.byReference (byReference?_eq_some.mp hmark)).form_eq]
      exact List.mem_singleton_self referent
    | none =>
      cases hfit : numbersFit (bracesToAngles raw) with
      | error error => exact shortenCall_of_error hmark hfit calls
      | ok =>
        rw [outcome_of_numbersFit hfit, shortenCall_of_expanded hmark hfit fun t ht => ?_]
        · rfl
        · have hcall := hpart ht
          rcases cases_of_mem_parts ht with hreference | ⟨name, inside, rest, -, henclosed, harg⟩
          · rw [byReference?_eq_some.mpr hreference] at hmark
            cases hmark
          · rw [outcome_of_numbersFit (numbersFit_argument henclosed harg
              (bracesToAngles_part ht))] at hcall
            exact hcall

/-- Until the failure of the expansion only marks for references are taken off. -/
theorem shortenCall_of_length_lt {raw : Text} {error : Text.DigitError}
    (h : numbersFit (bracesToAngles raw) = .error error) {calls : Nat} (hcalls : raw.length < calls) :
    (shortenCall calls raw).run = some (outcome raw) := by
  induction calls generalizing raw with
  | zero => omega
  | succ calls ih =>
    cases hmark : byReference? (reference raw) with
    | none => exact shortenCall_of_error hmark h calls
    | some referent =>
      have hlength := congrArg List.length (byReference?_eq_some.mp hmark)
      have htrim := (Text.infix_trim raw).length_le
      rw [reference, bracesToAngles, Text.exchange, Text.exchange, List.length_map, List.length_map,
        List.length_append, List.length_singleton] at hlength
      refine shortenCall_byReference hmark (ih ?_ (by omega))
      rw [numbersFit_referent hmark, h]

/-- The shortening of every text ends. -/
theorem shorten?_eq (raw : Text) : shorten? raw = some (outcome raw) := by
  rw [shorten?, callsEnough, expandArity?_eq]
  cases hfit : numbersFit (bracesToAngles raw) with
  | error error => exact shortenCall_of_length_lt hfit (Nat.lt_succ_self _)
  | ok => exact shortenCall_of_size_lt (Nat.lt_succ_self (size raw))

/-- A backtick and the digits behind it stay what they are when braces become angle brackets. -/
theorem HasLongMarker.of_bracesToAngles {t : Text} (h : HasLongMarker (bracesToAngles t)) :
    HasLongMarker t := by
  obtain ⟨digits, hwithin, hlong, hdigits⟩ := h
  have hsame {c : Char} (hc : angleFor c ∈ '`' :: digits) : angleFor c = c := by
    have hnot : angleFor c ≠ '<' ∧ angleFor c ≠ '>' := by
      rcases List.mem_cons.mp hc with hc | hc
      · rw [hc]
        decide
      · have hdigit := hdigits _ hc
        constructor <;> (intro he; rw [he] at hdigit; exact absurd hdigit (by decide +kernel))
    rw [angleFor] at hnot ⊢
    split at hnot
    · exact absurd rfl hnot.1
    · split at hnot
      · exact absurd rfl hnot.2
      · next hopen hclose => rw [if_neg hopen, if_neg hclose]
  rw [bracesToAngles_eq_map] at hwithin
  obtain ⟨part, hpart, hmap⟩ := List.infix_map_iff.mp hwithin
  have hkept : part.map angleFor = part :=
    (List.map_congr_left fun c hc => hsame (hmap ▸ List.mem_map_of_mem hc)).trans (List.map_id' part)
  exact ⟨digits, hmap.trans hkept ▸ hpart, hlong, hdigits⟩

/-- A text is shortened unless a backtick in it has very many digits behind it. -/
theorem outcome_of_not_hasLongMarker {raw : Text} (h : ¬ HasLongMarker raw) :
    outcome raw = .ok (shorten raw) :=
  outcome_of_numbersFit (numbersFit_of_not_hasLongMarker fun hlong => h hlong.of_bracesToAngles)

/-- A text that is passed by reference loses its mark; an argument is shorter than the text it is in when
both are expanded. -/
theorem GoesOnWith.shorter {raw t : Text} (h : GoesOnWith raw t) :
    byReference? (reference raw) = some t ∧ t.length < raw.length ∨
      byReference? (reference raw) = none ∧
        (expandArity (reference t)).length < (expandArity (reference raw)).length := by
  have hangles : bracesToAngles t = t := bracesToAngles_part h
  rcases cases_of_mem_parts h with hreference | ⟨name, inside, rest, hmark, henclosed, ht⟩
  · have hlength := congrArg List.length hreference
    have htrim := (Text.infix_trim raw).length_le
    rw [reference, bracesToAngles, Text.exchange, Text.exchange, List.length_map, List.length_map,
      List.length_append, List.length_singleton] at hlength
    exact Or.inl ⟨byReference?_eq_some.mpr hreference, by omega⟩
  · obtain ⟨hsame, hlt⟩ := length_argument_lt henclosed ht
    have hle := length_expandArity_reference_le t
    rw [size, hangles, hsame] at hle
    exact Or.inr ⟨hmark, by omega⟩

private theorem wellFounded_goesOnWith : WellFounded fun t raw => GoesOnWith raw t :=
  Subrelation.wf size_lt_of_mem_parts (measure size).wf

/-- The shortening of every text ends, with a label or with the error of its expansion, and there is an error
only if a backtick stands before very many digits. What the shortening goes on with is shorter than the text,
if a mark for references was taken off, and else shorter when both are expanded; so no chain of calls goes on
for ever, although a text may get longer when it is expanded. No search for the partner of an angle bracket or
a parenthesis fails, neither in the shortening nor where an identifier is cut. -/
theorem shortening_fails_only_at_long_numbers (raw : Text) :
    (∀ t, GoesOnWith raw t →
      byReference? (reference raw) = some t ∧ t.length < raw.length ∨
        byReference? (reference raw) = none ∧
          (expandArity (reference t)).length < (expandArity (reference raw)).length) ∧
    WellFounded (fun t raw => GoesOnWith raw t) ∧
    (∀ calls, size raw < calls → (shortenCall calls raw).run = some (outcome raw)) ∧
    shorten? raw = some (outcome raw) ∧
    (¬ HasLongMarker raw → shorten? raw = some (.ok (shorten raw))) ∧
    splitCall raw = .ok (Identifier.splitParameters raw) ∧
    ∀ position : Nat, raw.idxOf? '<' = some position ∨ raw.idxOf? '(' = some position →
      ∃ found, matchingBracket raw position = .ok found := by
  refine ⟨fun t h => h.shorter, wellFounded_goesOnWith, fun calls h => shortenCall_of_size_lt h,
    shorten?_eq raw, fun h => ?_, splitCall_eq raw, fun position h => ?_⟩
  · rw [shorten?_eq, outcome_of_not_hasLongMarker h]
  · obtain ⟨opener, closer, hcloser, hposition⟩ : ∃ opener closer,
        closer? opener = some closer ∧ raw.idxOf? opener = some position :=
      h.elim (fun h => ⟨'<', '>', rfl, h⟩) fun h => ⟨'(', ')', rfl, h⟩
    obtain ⟨hlt, hopener, -⟩ := List.idxOf?_eq_some_iff.mp hposition
    exact ⟨_, matchingBracket_of_opener hcloser (List.getElem?_eq_some_iff.mpr ⟨hlt, hopener⟩)⟩

/-- A type that is passed by reference. -/
def pairByReference : Text := "Pair`2\x7bList`9,X@\x7d@".toList

def pair : Text := "Pair`2<List`9,X@>".toList

/-- Its first argument, which is longer than the text it was found in. -/
def pairArgument : Text := "List<T1,T2,T3,T4,T5,T6,T7,T8,T9>".toList

theorem shortening_fails_only_at_long_numbers_on_growing_text :
    (GoesOnWith pairByReference pair ∧
      (byReference? (reference pairByReference) = some pair ∧ pair.length < pairByReference.length ∨
        byReference? (reference pairByReference) = none ∧
          (expandArity (reference pair)).length < (expandArity (reference pairByReference)).length)) ∧
    (GoesOnWith pair pairArgument ∧
      (byReference? (reference pair) = some pairArgument ∧ pairArgument.length < pair.length ∨
        byReference? (reference pair) = none ∧
          (expandArity (reference pairArgument)).length < (expandArity (reference pair)).length)) ∧
    (size pairByReference < 50 ∧
      (shortenCall 50 pairByReference).run = some (outcome pairByReference)) ∧
    (¬ HasLongMarker pairByReference ∧
      shorten? pairByReference = some (.ok (shorten pairByReference))) ∧
    pair.idxOf? '<' = some 6 ∧ ∃ found, matchingBracket pair (6 : Nat) = .ok found := by
  have hreferent : GoesOnWith pairByReference pair := by
    rw [GoesOnWith]
    decide +kernel
  have hargument : GoesOnWith pair pairArgument := by
    rw [GoesOnWith]
    decide +kernel
  have hsize : size pairByReference < 50 := by decide +kernel
  have hlong : ¬ HasLongMarker pairByReference := by
    rintro ⟨digits, hwithin, hlong, -⟩
    have hle := hwithin.length_le
    have hshort : pairByReference.length < Text.digitLimit := by decide
    rw [List.length_cons] at hle
    omega
  have hposition : pair.idxOf? '<' = some 6 := by decide
  obtain ⟨hreferred, -, hends, -, hfits, -, -⟩ := shortening_fails_only_at_long_numbers pairByReference
  obtain ⟨hshorter, -, -, -, -, -, hsearches⟩ := shortening_fails_only_at_long_numbers pair
  exact ⟨⟨hreferent, hreferred _ hreferent⟩, ⟨hargument, hshorter _ hargument⟩,
    ⟨hsize, hends 50 hsize⟩, ⟨hlong, hfits hlong⟩, hposition, hsearches 6 (Or.inl hposition)⟩

/-- A parameter whose number is 0, in so many digits. -/
def zeroParameter (count : Nat) : Text := '`' :: List.replicate count '0'

private theorem zeroParameter_eq (count : Nat) :
    zeroParameter count = (Marker.mk 1 (List.replicate count '0')).text ++ [] :=
  (List.append_nil _).symm

private theorem isReadable_zeros {count : Nat} (h : 0 < count) :
    (Marker.mk 1 (List.replicate count '0')).IsReadable where
  ticks := Nat.one_pos
  digits := fun hnil => Nat.ne_of_gt h ((List.replicate_eq_nil_iff _).mp hnil)
  decimal := fun c hc => by
    rw [List.eq_of_mem_replicate hc]
    decide +kernel

private theorem numbersFit_zeroParameter {count : Nat} (h : Text.digitLimit < count) :
    numbersFit (zeroParameter count) = .error (.read count) := by
  have hread := isReadable_zeros (Nat.lt_of_le_of_lt (Nat.zero_le _) h)
  have hreplaced : placeholderRule.replaced (zeroParameter count) =
      [Marker.mk 1 (List.replicate count '0')] := by
    rw [zeroParameter_eq, MarkerRule.replaced,
      placeholderRule.replacedFrom_text hread (fun c hc => by cases hc) rfl]
    rfl
  have hcheck : Text.checkReading (List.replicate count '0') = .error (.read count) := by
    rw [Text.checkReading, List.length_replicate, if_neg (Nat.not_le_of_lt h)]
  have hfails : [Marker.mk 1 (List.replicate count '0')].forM placeholderRule.check =
      .error (.read count) := by
    show ((Text.checkReading (List.replicate count '0') >>= fun _ => Text.checkWriting _) >>=
      fun _ => pure ()) = _
    rw [hcheck]
    rfl
  rw [numbersFit, hreplaced, hfails]
  rfl

private theorem expandArity_zeroParameter {count : Nat} (h : 0 < count) :
    expandArity (zeroParameter count) = "T1".toList := by
  have hvalue : (Marker.mk 1 (List.replicate count '0')).value = 0 := by
    rw [Marker.value, Text.digitsValue]
    clear h
    induction count with
    | zero => rfl
    | succ count ih =>
      have hzero : 10 * 0 + (Text.digitValue? '0').getD 0 = 0 := by decide +kernel
      rw [List.replicate_succ, List.foldl_cons, hzero, ih]
  have hname : placeholderRule.apply (zeroParameter count) = parameterName (0 + 1) := by
    rw [zeroParameter_eq, MarkerRule.apply,
      placeholderRule.applyFrom_text (isReadable_zeros h) (fun c hc => by cases hc) rfl]
    show parameterName ((Marker.mk 1 (List.replicate count '0')).value + 1) ++ [] = _
    rw [hvalue, List.append_nil]
  rw [expandArity, hname]
  decide +kernel

/-- A text that is a parameter with a number of very many digits is not shortened, although its label would
be no longer than others. -/
theorem shortening_fails_at_long_zero :
    shorten? (zeroParameter 4301) = some (.error (.digits (.read 4301))) ∧
    (ShorteningError.digits (.read 4301)).message =
      ("Exceeds the limit (4300 digits) for integer string conversion: value has 4301 digits; " ++
        "use sys.set_int_max_str_digits() to increase the limit").toList ∧
    expandArity (zeroParameter 4301) = "T1".toList := by
  have hbraces : bracesToAngles (zeroParameter 4301) = zeroParameter 4301 := by
    have hnot {c : Char} (hzero : c ≠ '0') (htick : c ≠ '`') : c ∉ zeroParameter 4301 := fun hm =>
      (List.mem_cons.mp hm).elim htick fun hm => hzero (List.eq_of_mem_replicate hm)
    exact bracesToAngles_eq_self (hnot (by decide) (by decide)) (hnot (by decide) (by decide))
  have hnumbers : numbersFit (bracesToAngles (zeroParameter 4301)) = .error (.read 4301) := by
    rw [hbraces]
    exact numbersFit_zeroParameter (by decide)
  refine ⟨?_, by decide +kernel, expandArity_zeroParameter (by decide)⟩
  rw [shorten?_eq, outcome_of_error hnumbers]

end ApiPages.Signature
