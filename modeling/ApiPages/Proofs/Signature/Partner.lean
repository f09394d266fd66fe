import ApiPages.Identifier
import ApiPages.Proofs.Signature.Nested

/-! The partner of a bracket is told by counting: up to it, and no earlier, as many brackets of the kind
are closed as are opened. -/
namespace ApiPages.Signature

variable {opener closer : Char} {t : Text}

/-! ### Brackets that are still open -/

/-- How many of `depth` open brackets are open after one more character. -/
def openAfter (opener closer : Char) (depth : Nat) (c : Char) : Nat :=
  if c = opener then depth + 1 else if c = closer then depth - 1 else depth

/-- Of `depth` open brackets and those that the text opens, not all are closed behind the text. -/
def StillOpen (opener closer : Char) (depth : Nat) (t : Text) : Prop :=
  t.count closer < depth + t.count opener

private theorem closingOffset?_cons {depth : Nat} (hd : 0 < depth) (c : Char) (cs : Text) :
    closingOffset? opener closer depth (c :: cs) =
      if openAfter opener closer depth c = 0 then some 0
      else (closingOffset? opener closer (openAfter opener closer depth c) cs).map (· + 1) := by
  rw [closingOffset?, openAfter]
  by_cases ho : c = opener
  · simp only [if_pos ho, Nat.succ_ne_zero, if_false]
  · by_cases hc : c = closer
    · simp only [if_neg ho, if_pos hc, Nat.sub_eq_zero_iff_le]
    · simp only [if_neg ho, if_neg hc, Nat.ne_of_gt hd, if_false]

/-- Whether the brackets that open and those that close are counted from before a character or from
behind it makes no difference. -/
theorem count_cons_add (hne : closer ≠ opener) {depth : Nat} (hd : 0 < depth) (c : Char) (cs : Text) :
    (c :: cs).count closer + (openAfter opener closer depth c + cs.count opener) =
      cs.count closer + (depth + (c :: cs).count opener) := by
  rw [List.count_cons, List.count_cons, openAfter]
  by_cases ho : c = opener
  · simp only [ho, hne.symm, beq_iff_eq, if_true, if_false]
    omega
  · by_cases hc : c = closer
    · simp only [hc, hne, beq_iff_eq, if_true, if_false]
      omega
    · simp only [ho, hc, beq_iff_eq, if_false]
      omega

private theorem stillOpen_cons (hne : closer ≠ opener) {depth : Nat} (hd : 0 < depth) (c : Char) (cs : Text) :
    StillOpen opener closer depth (c :: cs) ↔
      StillOpen opener closer (openAfter opener closer depth c) cs := by
  have hcount := count_cons_add hne hd c cs
  rw [StillOpen, StillOpen]
  omega

/-- The characters before the offset leave something open, and the one there closes the last of it. -/
structure ClosesAt (opener closer : Char) (depth : Nat) (t : Text) (offset : Nat) : Prop where
  bracket : t[offset]? = some closer
  even : (t.take (offset + 1)).count closer = depth + (t.take (offset + 1)).count opener
  before : ∀ i ≤ offset, StillOpen opener closer depth (t.take i)

private theorem closesAt_cons_zero (hne : closer ≠ opener) {depth : Nat} (hd : 0 < depth) {c : Char}
    {cs : Text} :
    ClosesAt opener closer depth (c :: cs) 0 ↔ openAfter opener closer depth c = 0 := by
  have hcount := count_cons_add hne hd c []
  rw [List.count_nil, List.count_nil] at hcount
  constructor
  · rintro ⟨-, heven, -⟩
    rw [List.take_succ_cons, List.take_zero] at heven
    omega
  · intro hzero
    refine ⟨?_, ?_, fun i hi => ?_⟩
    · rw [openAfter] at hzero
      split at hzero
      · omega
      · split at hzero
        · next hc => rw [hc]; rfl
        · omega
    · rw [List.take_succ_cons, List.take_zero]
      omega
    · rw [Nat.le_zero.mp hi]
      exact hd

private theorem closesAt_cons_succ (hne : closer ≠ opener) {depth : Nat} (hd : 0 < depth) {c : Char}
    {cs : Text} {offset : Nat} : ClosesAt opener closer depth (c :: cs) (offset + 1) ↔
      ClosesAt opener closer (openAfter opener closer depth c) cs offset := by
  have heven := count_cons_add hne hd c (cs.take (offset + 1))
  constructor
  · rintro ⟨hbracket, hcount, hbefore⟩
    rw [List.take_succ_cons] at hcount
    refine ⟨hbracket, by omega, fun i hi => ?_⟩
    rw [← stillOpen_cons hne hd]
    exact hbefore (i + 1) (Nat.succ_le_succ hi)
  · rintro ⟨hbracket, hcount, hbefore⟩
    refine ⟨hbracket, ?_, fun i hi => ?_⟩
    · rw [List.take_succ_cons]
      omega
    · cases i with
      | zero => exact hd
      | succ i =>
        rw [List.take_succ_cons, stillOpen_cons hne hd]
        exact hbefore i (Nat.le_of_succ_le_succ hi)

private theorem closingOffset?_eq_some_iff (hne : closer ≠ opener) {depth offset : Nat} (hd : 0 < depth) :
    closingOffset? opener closer depth t = some offset ↔ ClosesAt opener closer depth t offset := by
  induction t generalizing depth offset with
  | nil => exact iff_of_false nofun fun h => nomatch h.bracket
  | cons c cs ih =>
    rw [closingOffset?_cons hd]
    split
    · next hzero =>
      cases offset with
      | zero => exact iff_of_true rfl ((closesAt_cons_zero hne hd).mpr hzero)
      | succ offset =>
        rw [closesAt_cons_succ hne hd, hzero]
        exact iff_of_false nofun fun h => Nat.lt_irrefl 0 (h.before 0 (Nat.zero_le _))
    · next hpositive =>
      cases offset with
      | zero =>
        rw [closesAt_cons_zero hne hd]
        exact iff_of_false (by simp) hpositive
      | succ offset =>
        rw [closesAt_cons_succ hne hd, ← ih (Nat.pos_of_ne_zero hpositive), Option.map_eq_some_iff]
        simp

private theorem closingOffset?_eq_none_iff (hne : closer ≠ opener) {depth : Nat} (hd : 0 < depth) :
    closingOffset? opener closer depth t = none ↔
      ∀ i ≤ t.length, StillOpen opener closer depth (t.take i) := by
  induction t generalizing depth with
  | nil => exact iff_of_true rfl fun i _ => by rwa [List.take_nil]
  | cons c cs ih =>
    have hlater : (∀ i ≤ (c :: cs).length, StillOpen opener closer depth ((c :: cs).take i)) ↔
        ∀ i ≤ cs.length, StillOpen opener closer (openAfter opener closer depth c) (cs.take i) := by
      refine ⟨fun h i hi => (stillOpen_cons hne hd c _).mp (h (i + 1) (Nat.succ_le_succ hi)), ?_⟩
      intro h i hi
      cases i with
      | zero => exact hd
      | succ i => exact (stillOpen_cons hne hd c _).mpr (h i (Nat.le_of_succ_le_succ hi))
    rw [closingOffset?_cons hd, hlater]
    split
    · next hzero =>
      rw [hzero]
      exact iff_of_false nofun fun h => Nat.lt_irrefl 0 (h 0 (Nat.zero_le _))
    · next hpositive => rw [Option.map_eq_none_iff, ih (Nat.pos_of_ne_zero hpositive)]

/-! ### Positions -/

/-- The characters from a position through another one. -/
def through (t : Text) (first last : Nat) : Text := (t.drop first).take (last + 1 - first)

/-- From the position through the other one, more brackets are opened than closed. -/
def OpenThrough (opener closer : Char) (t : Text) (first last : Nat) : Prop :=
  (through t first last).count closer < (through t first last).count opener

instance (opener closer : Char) (t : Text) (first last : Nat) :
    Decidable (OpenThrough opener closer t first last) :=
  inferInstanceAs (Decidable (_ < _))

private theorem closer_ne_of_closer? (h : closer? opener = some closer) : closer ≠ opener :=
  ne_of_partner? (partner?_self h) (partner?_self h)

theorem drop_of_getElem? {position : Nat} (h : t[position]? = some opener) :
    t.drop position = opener :: t.drop (position + 1) := by
  obtain ⟨hlt, he⟩ := List.getElem?_eq_some_iff.mp h
  rw [List.drop_eq_getElem_cons hlt, he]

private theorem through_of_getElem? {position : Nat} (h : t[position]? = some opener) (i : Nat) :
    through t position (position + i) = opener :: (t.drop (position + 1)).take i := by
  have hlength : position + i + 1 - position = i + 1 := by omega
  rw [through, drop_of_getElem? h, hlength, List.take_succ_cons]

/-- The search for the partner of a bracket in the text does not fail. -/
theorem matchingBracket_of_opener (h : closer? opener = some closer) {position : Nat}
    (ho : t[position]? = some opener) : matchingBracket t position =
      .ok (((closingOffset? opener closer 1 (t.drop (position + 1))).map fun offset : Nat =>
        position + 1 + offset).map Int.ofNat) := by
  have hinside : ¬ (position : Int) < -t.length := by omega
  have hread : readFrom t position = opener :: t.drop (position + 1) := by
    rw [readFrom, if_pos (Int.natCast_nonneg position), Int.toNat_natCast, drop_of_getElem? ho]
  rw [matchingBracket, if_neg hinside, hread]
  simp only [h]
  cases closingOffset? opener closer 1 (t.drop (position + 1)) <;> rfl

/-- What the count of brackets from an opening one on says is said by the count behind it, with that one
open. -/
theorem openThrough_iff (hne : closer ≠ opener) {position : Nat} (ho : t[position]? = some opener) (i : Nat) :
    OpenThrough opener closer t position (position + i) ↔
      StillOpen opener closer 1 ((t.drop (position + 1)).take i) := by
  rw [OpenThrough, StillOpen, through_of_getElem? ho, List.count_cons_self, List.count_cons_of_ne hne.symm,
    Nat.add_comm 1]

private theorem forall_openThrough_iff (hne : closer ≠ opener) {position : Nat}
    (ho : t[position]? = some opener) (bound : Nat) :
    (∀ last, position ≤ last → last < position + 1 + bound → OpenThrough opener closer t position last) ↔
      ∀ i ≤ bound, StillOpen opener closer 1 ((t.drop (position + 1)).take i) := by
  constructor
  · intro h i hi
    rw [← openThrough_iff hne ho]
    exact h (position + i) (Nat.le_add_right _ _) (by omega)
  · intro h last hfirst hlast
    obtain ⟨i, rfl⟩ := Nat.exists_eq_add_of_le hfirst
    rw [openThrough_iff hne ho]
    exact h i (by omega)

/-- The last of the brackets that are open behind the position is closed at the offset when the text from
the position on says so. -/
theorem closesAt_iff (hne : closer ≠ opener) {position offset : Nat} (ho : t[position]? = some opener) :
    ClosesAt opener closer 1 (t.drop (position + 1)) offset ↔
      t[position + 1 + offset]? = some closer ∧
        (through t position (position + 1 + offset)).count opener =
          (through t position (position + 1 + offset)).count closer ∧
        ∀ last, position ≤ last → last < position + 1 + offset →
          OpenThrough opener closer t position last := by
  have hthrough := through_of_getElem? ho (offset + 1)
  rw [← Nat.add_assoc, Nat.add_right_comm] at hthrough
  have heven : (through t position (position + 1 + offset)).count opener =
        (through t position (position + 1 + offset)).count closer ↔
      ((t.drop (position + 1)).take (offset + 1)).count closer =
        1 + ((t.drop (position + 1)).take (offset + 1)).count opener := by
    rw [hthrough, List.count_cons_self, List.count_cons_of_ne hne.symm]
    omega
  rw [forall_openThrough_iff hne ho, heven, ← List.getElem?_drop]
  exact ⟨fun h => ⟨h.bracket, h.even, h.before⟩, fun h => ⟨h.1, h.2.1, h.2.2⟩⟩

/-- The partner of a bracket is found where as many brackets of the kind are closed as are opened since
that bracket, for the first time; none is found when that is so nowhere in the text. The parameter list of
an identifier thus ends with the partner of its first parenthesis, whatever stands behind. -/
theorem partners_are_found_exactly :
    (∀ (t : Text) (position : Nat) (opener closer : Char),
      t[position]? = some opener → closer? opener = some closer →
      ∃ found : Option Nat, matchingBracket t position = .ok (found.map Int.ofNat) ∧
        (∀ partner, found = some partner ↔ position < partner ∧ t[partner]? = some closer ∧
          (through t position partner).count opener = (through t position partner).count closer ∧
          ∀ last, position ≤ last → last < partner → OpenThrough opener closer t position last) ∧
        (found = none ↔
          ∀ last, position ≤ last → last < t.length → OpenThrough opener closer t position last)) ∧
    ∀ head parameters rest : Text, '(' ∉ head → Nested ['('] parameters →
      Identifier.splitParameters (head ++ '(' :: (parameters ++ ')' :: rest)) = (head, some parameters) := by
  constructor
  · intro t position opener closer ho h
    have hne := closer_ne_of_closer? h
    refine ⟨_, matchingBracket_of_opener h ho, fun partner => ?_, ?_⟩
    · rw [Option.map_eq_some_iff]
      constructor
      · rintro ⟨offset, hfound, rfl⟩
        rw [closingOffset?_eq_some_iff hne Nat.one_pos, closesAt_iff hne ho] at hfound
        exact ⟨by omega, hfound⟩
      · rintro ⟨hbehind, hcloses⟩
        obtain ⟨offset, rfl⟩ := Nat.exists_eq_add_of_lt hbehind
        rw [Nat.add_right_comm, ← closesAt_iff hne ho, ← closingOffset?_eq_some_iff hne Nat.one_pos] at hcloses
        exact ⟨offset, hcloses, by omega⟩
    · have hlt : position < t.length := (List.getElem?_eq_some_iff.mp ho).1
      have hlength : t.length = position + 1 + (t.drop (position + 1)).length := by
        rw [List.length_drop]
        omega
      rw [Option.map_eq_none_iff, closingOffset?_eq_none_iff hne Nat.one_pos, ← forall_openThrough_iff hne ho,
        ← hlength]
  · intro head parameters rest hhead hparameters
    have hpartner : partner? ['('] '(' = some ')' := rfl
    rw [Identifier.splitParameters, enclosed_append hhead (by decide) (hparameters.balanced hpartner)]

/-- Parentheses in which other brackets are open and closed crosswise, with one more that closes nothing. -/
def crossed : Text := "M(A<B(C>D),E)F)".toList

theorem partners_are_found_exactly_across_other_brackets :
    (crossed[1]? = some '(' ∧ closer? '(' = some ')' ∧
      ∃ found : Option Nat, matchingBracket crossed (1 : Nat) = .ok (found.map Int.ofNat) ∧
        (∀ partner, found = some partner ↔ 1 < partner ∧ crossed[partner]? = some ')' ∧
          (through crossed 1 partner).count '(' = (through crossed 1 partner).count ')' ∧
          ∀ last, 1 ≤ last → last < partner → OpenThrough '(' ')' crossed 1 last) ∧
        (found = none ↔ ∀ last, 1 ≤ last → last < crossed.length → OpenThrough '(' ')' crossed 1 last)) ∧
    matchingBracket crossed 1 = .ok (some 12) ∧
    '(' ∉ "M".toList ∧ Nested ['('] "A<B(C>D),E".toList ∧
    Identifier.splitParameters ("M".toList ++ '(' :: ("A<B(C>D),E".toList ++ ')' :: "F)".toList)) =
      ("M".toList, some "A<B(C>D),E".toList) := by
  have hopener : crossed[1]? = some '(' := by decide
  have hcloser : closer? '(' = some ')' := rfl
  have hhead : '(' ∉ "M".toList := by decide
  have hparameters : Nested ['('] "A<B(C>D),E".toList := by decide +kernel
  exact ⟨⟨hopener, hcloser, partners_are_found_exactly.1 crossed 1 '(' ')' hopener hcloser⟩,
    by decide +kernel, hhead, hparameters,
    partners_are_found_exactly.2 "M".toList "A<B(C>D),E".toList "F)".toList hhead hparameters⟩

end ApiPages.Signature
