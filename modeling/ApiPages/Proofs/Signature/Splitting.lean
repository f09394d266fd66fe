import ApiPages.Proofs.Signature.Nested

/-! Splitting a text outside of all brackets: where it is cut, and what the pieces of a text that is put
together from others are. -/
namespace ApiPages.Signature

/-! ### Where the pieces meet -/

/-- Where the separators stand between pieces that are joined, when the first piece begins at a
position. -/
def seams : Nat → List Text → List Nat
  | _, [] => []
  | _, [_] => []
  | start, piece :: next :: rest =>
    (start + piece.length) :: seams (start + piece.length + 1) (next :: rest)

private theorem seams_cons {rest : List Text} (h : rest ≠ []) (start : Nat) (piece : Text) :
    seams start (piece :: rest) = (start + piece.length) :: seams (start + piece.length + 1) rest := by
  obtain ⟨next, more, rfl⟩ := List.exists_cons_of_ne_nil h
  rw [seams]

private theorem le_of_mem_seams {start position : Nat} {ts : List Text} (h : position ∈ seams start ts) :
    start ≤ position := by
  induction ts generalizing start with
  | nil => cases h
  | cons t ts ih =>
    by_cases hts : ts = []
    · subst hts
      cases h
    · rw [seams_cons hts, List.mem_cons] at h
      rcases h with rfl | h
      · exact Nat.le_add_right _ _
      · have hle := ih h
        omega

/-- A piece that is one character longer begins one position earlier. -/
theorem seams_modifyHead (c : Char) (start : Nat) {ts : List Text} (h : ts ≠ []) :
    seams start (ts.modifyHead (c :: ·)) = seams (start + 1) ts := by
  obtain ⟨t, rest, rfl⟩ := List.exists_cons_of_ne_nil h
  rw [List.modifyHead_cons]
  by_cases hrest : rest = []
  · rw [hrest, seams, seams]
  · have hnext : start + (c :: t).length = start + 1 + t.length := by
      rw [List.length_cons]
      omega
    rw [seams_cons hrest, seams_cons hrest, hnext]

/-! ### Cuts -/

section
variable {separator : Char}

private theorem pieces_cons_of_not {depth : Nat} {c : Char} (h : ¬ (c = separator ∧ depth = 0)) (t : Text) :
    pieces (· = separator) depth (c :: t) =
      (pieces (· = separator) (depthAfter depth c) t).modifyHead (c :: ·) := by
  refine pieces_cons t ?_
  simp only [Bool.and_eq_false_iff, decide_eq_false_iff_not, beq_eq_false_iff_ne]
  tauto

variable (hs : isOpener separator = false ∧ isCloser separator = false)

include hs

private theorem pieces_separator (t : Text) :
    pieces (· = separator) 0 (separator :: t) = [] :: pieces (· = separator) 0 t := by
  rw [pieces, hs.1, hs.2]
  simp

/-- A text is cut where a separator stands at depth 0, and nowhere else. -/
theorem mem_seams_pieces (t : Text) (depth start offset : Nat) :
    start + offset ∈ seams start (pieces (· = separator) depth t) ↔
      t[offset]? = some separator ∧ (t.take offset).foldl depthAfter depth = 0 := by
  induction t generalizing depth start offset with
  | nil => simp [pieces, seams]
  | cons c cs ih =>
    have hne : pieces (· = separator) (depthAfter depth c) cs ≠ [] := pieces_ne_nil _ _
    have hstart (offset : Nat) : start + (offset + 1) = start + 1 + offset := by omega
    by_cases hcut : c = separator ∧ depth = 0
    · obtain ⟨rfl, rfl⟩ := hcut
      rw [depthAfter_of_not_bracket hs.1 hs.2] at hne
      rw [pieces_separator hs, seams_cons hne, List.mem_cons]
      cases offset with
      | zero => exact iff_of_true (Or.inl rfl) ⟨rfl, rfl⟩
      | succ offset =>
        rw [List.getElem?_cons_succ, List.take_succ_cons, List.foldl_cons,
          depthAfter_of_not_bracket hs.1 hs.2, ← ih _ (start + 1), hstart offset]
        exact or_iff_right (by rw [List.length_nil]; omega)
    · rw [pieces_cons_of_not hcut, seams_modifyHead c start hne]
      cases offset with
      | zero =>
        refine iff_of_false (fun h => ?_) fun h => hcut ⟨Option.some.inj h.1, h.2⟩
        have hle := le_of_mem_seams h
        omega
      | succ offset =>
        rw [List.getElem?_cons_succ, List.take_succ_cons, List.foldl_cons, ← ih _ (start + 1), hstart offset]

/-- Behind a text that leaves nothing open, a separator divides the pieces. -/
theorem pieces_append_separator {t : Text} {depth : Nat} (h : t.foldl depthAfter depth = 0) (u : Text) :
    pieces (· = separator) depth (t ++ separator :: u) =
      pieces (· = separator) depth t ++ pieces (· = separator) 0 u := by
  induction t generalizing depth with
  | nil =>
    obtain rfl : depth = 0 := h
    rw [List.nil_append, pieces_separator hs]
    rfl
  | cons c cs ih =>
    have hrest : pieces (· = separator) (depthAfter depth c) (cs ++ separator :: u) =
        pieces (· = separator) (depthAfter depth c) cs ++ pieces (· = separator) 0 u := ih h
    rw [List.cons_append]
    by_cases hcut : c = separator ∧ depth = 0
    · obtain ⟨rfl, rfl⟩ := hcut
      rw [depthAfter_of_not_bracket hs.1 hs.2] at hrest
      rw [pieces_separator hs, pieces_separator hs, hrest, List.cons_append]
    · rw [pieces_cons_of_not hcut, pieces_cons_of_not hcut, hrest]
      cases hp : pieces (· = separator) (depthAfter depth c) cs with
      | nil => exact absurd hp (pieces_ne_nil _ _)
      | cons piece rest => rfl

private theorem splitTopLevel_append {t u : Text} (ht : Text.isBlankText t = false)
    (hu : Text.isBlankText u = false) (hd : depth t = 0) :
    splitTopLevel (· = separator) (t ++ separator :: u) =
      splitTopLevel (· = separator) t ++ splitTopLevel (· = separator) u := by
  have hwhole : Text.isBlankText (t ++ separator :: u) = false := by
    rw [Text.isBlankText] at ht ⊢
    rw [List.all_append, ht, Bool.false_and]
  rw [splitTopLevel, splitTopLevel, splitTopLevel, hwhole, ht, hu, if_neg Bool.false_ne_true,
    if_neg Bool.false_ne_true, if_neg Bool.false_ne_true, pieces_append_separator hs hd, List.map_append]

/-- A text in which separators stand at greater depths only is one piece. -/
theorem pieces_of_depth_pos {t : Text} (h : ∀ offset, t[offset]? = some separator → 0 < depth (t.take offset)) :
    pieces (· = separator) 0 t = [t] := by
  have hjoin := join_pieces separator 0 t
  have hseams : ∀ offset, 0 + offset ∉ seams 0 (pieces (· = separator) 0 t) := by
    intro offset hm
    obtain ⟨hseparator, hdepth⟩ := (mem_seams_pieces hs t 0 0 offset).mp hm
    exact Nat.ne_of_gt (h offset hseparator) hdepth
  match hp : pieces (· = separator) 0 t with
  | [] => exact absurd hp (pieces_ne_nil _ _)
  | [piece] =>
    rw [hp] at hjoin
    exact congrArg (fun t => [t]) hjoin
  | piece :: next :: rest =>
    rw [hp, seams] at hseams
    exact absurd List.mem_cons_self (hseams (piece.length))

end

/-! ### Texts that are put together -/

/-- All brackets that open something. -/
def allOpeners : List Char := bracketPairs.map Prod.fst

private theorem not_bracket_of_neutral_allOpeners {c : Char} (h : Neutral allOpeners c) :
    isOpener c = false ∧ isCloser c = false := by
  have hpairs : ∀ p ∈ bracketPairs, ¬ Neutral allOpeners p.1 ∧ ¬ Neutral allOpeners p.2 := by decide
  refine not_bracket_of_ne fun p hp => ⟨?_, ?_⟩
  · rintro rfl
    exact (hpairs p hp).1 h
  · rintro rfl
    exact (hpairs p hp).2 h

/-- Behind a well nested text the depth is what it was before. -/
theorem Nested.foldl_depthAfter {t : Text} (h : Nested allOpeners t) (depth : Nat) :
    t.foldl depthAfter depth = depth := by
  induction h generalizing depth with
  | nil => rfl
  | cons hc _ ih =>
    obtain ⟨ho, hcloser⟩ := not_bracket_of_neutral_allOpeners hc
    rw [List.foldl_cons, depthAfter_of_not_bracket ho hcloser, ih]
  | enclose hpartner _ _ ihinside ihafter =>
    obtain ⟨ho, hc, hn⟩ := isBracket_of_partner? hpartner
    rw [List.foldl_cons, List.foldl_append, List.foldl_cons, ihinside, depthAfter, depthAfter, ho, hc, hn,
      if_pos rfl, if_neg Bool.false_ne_true, if_pos rfl, Nat.add_sub_cancel, ihafter]

/-- A text that can be told from its neighbours when it is put between separators: it has no blanks at its
ends, is not empty, has well nested brackets, and the separator stands inside of brackets only. -/
structure IsPart (separator : Char) (t : Text) : Prop where
  visible : Text.isBlankText t = false
  trimmed : Text.trim t = t
  nested : Nested allOpeners t
  inside : ∀ offset < t.length, t[offset]? = some separator → 0 < depth (t.take offset)

instance (separator : Char) (t : Text) : Decidable (IsPart separator t) :=
  decidable_of_iff (Text.isBlankText t = false ∧ Text.trim t = t ∧ Nested allOpeners t ∧
      ∀ offset < t.length, t[offset]? = some separator → 0 < depth (t.take offset))
    ⟨fun ⟨hvisible, htrimmed, hnested, hinside⟩ => ⟨hvisible, htrimmed, hnested, hinside⟩,
      fun h => ⟨h.visible, h.trimmed, h.nested, h.inside⟩⟩

private theorem splitTopLevel_join_parts {separator : Char}
    (hs : isOpener separator = false ∧ isCloser separator = false) {ts : List Text}
    (h : ∀ t ∈ ts, IsPart separator t) :
    splitTopLevel (· = separator) (Text.join [separator] ts) = ts := by
  have hsingle {t : Text} (ht : IsPart separator t) : splitTopLevel (· = separator) t = [t] := by
    have hpiece := pieces_of_depth_pos hs fun offset hoffset =>
      ht.inside offset (List.getElem?_eq_some_iff.mp hoffset).1 hoffset
    rw [splitTopLevel, ht.visible, if_neg Bool.false_ne_true, hpiece, List.map_singleton, ht.trimmed]
  induction ts with
  | nil => rfl
  | cons t ts ih =>
    rw [List.forall_mem_cons] at h
    by_cases hts : ts = []
    · rw [hts]
      exact hsingle h.1
    · have hrest : Text.isBlankText (Text.join [separator] ts) = false := by
        obtain ⟨next, hnext⟩ := List.exists_mem_of_ne_nil ts hts
        obtain ⟨c, hc, hblank⟩ := List.all_eq_false.mp (h.2 next hnext).visible
        exact List.all_eq_false.mpr ⟨c, (Text.infix_join [separator] hnext).subset hc, hblank⟩
      rw [Text.join_cons hts, List.append_assoc, List.singleton_append,
        splitTopLevel_append hs h.1.visible hrest (h.1.nested.foldl_depthAfter 0), hsingle h.1, ih h.2]
      rfl

/-- A text is split at the separators that stand outside of all brackets, and at no others: the pieces with
the separators between them are the text, and they are only trimmed. Two texts are split apart from each
other where the first leaves no bracket open. Texts that are put together from parts are split into these
parts. -/
theorem splitting_is_at_outer_separators {separator : Char} (ho : isOpener separator = false)
    (hc : isCloser separator = false) :
    (∀ t, Text.isBlankText t = false → ∃ untrimmed : List Text,
      splitTopLevel (· = separator) t = untrimmed.map Text.trim ∧ Text.join [separator] untrimmed = t ∧
      ∀ position, position ∈ seams 0 untrimmed ↔
        t[position]? = some separator ∧ depth (t.take position) = 0) ∧
    (∀ t u, Text.isBlankText t = false → Text.isBlankText u = false → depth t = 0 →
      splitTopLevel (· = separator) (t ++ separator :: u) =
        splitTopLevel (· = separator) t ++ splitTopLevel (· = separator) u) ∧
    ∀ ts : List Text, (∀ t ∈ ts, IsPart separator t) →
      splitTopLevel (· = separator) (Text.join [separator] ts) = ts := by
  have hs : isOpener separator = false ∧ isCloser separator = false := ⟨ho, hc⟩
  refine ⟨fun t ht => ⟨pieces (· = separator) 0 t, ?_, join_pieces separator 0 t, fun position => ?_⟩,
    fun t u ht hu hd => splitTopLevel_append hs ht hu hd, fun ts h => splitTopLevel_join_parts hs h⟩
  · rw [splitTopLevel, ht, if_neg Bool.false_ne_true]
  · have hseam := mem_seams_pieces hs t 0 0 position
    rwa [Nat.zero_add] at hseam

/-- Brackets that close nothing, brackets of two kinds that are crossed, and one that is never closed. -/
def ragged : Text := " A>,B<C,D(E>),F) ,G[H, I".toList

def threeArguments : List Text :=
  ["Ns.Map\x7bSystem.String,``0\x7d".toList, "System.Int32[,]".toList, "C".toList]

theorem splitting_is_at_outer_separators_in_ragged_text :
    (isOpener ',' = false ∧ isCloser ',' = false) ∧
    (Text.isBlankText ragged = false ∧ ∃ untrimmed : List Text,
      splitTopLevel (· = ',') ragged = untrimmed.map Text.trim ∧ Text.join [','] untrimmed = ragged ∧
      ∀ position, position ∈ seams 0 untrimmed ↔
        ragged[position]? = some ',' ∧ depth (ragged.take position) = 0) ∧
    (Text.isBlankText "A>>,B".toList = false ∧ depth "A>>,B".toList = 0 ∧
      splitTopLevel (· = ',') ("A>>,B".toList ++ ',' :: ragged) =
        splitTopLevel (· = ',') "A>>,B".toList ++ splitTopLevel (· = ',') ragged) ∧
    (∀ t ∈ threeArguments, IsPart ',' t) ∧
    splitTopLevel (· = ',') (Text.join [','] threeArguments) = threeArguments := by
  have ho : isOpener ',' = false := by decide
  have hc : isCloser ',' = false := by decide
  have hragged : Text.isBlankText ragged = false := by decide
  have hfirst : Text.isBlankText "A>>,B".toList = false := by decide
  have hdepth : depth "A>>,B".toList = 0 := by decide
  have harguments : ∀ t ∈ threeArguments, IsPart ',' t := by decide +kernel
  obtain ⟨hpieces, happend, hjoin⟩ := splitting_is_at_outer_separators ho hc
  exact ⟨⟨ho, hc⟩, ⟨hragged, hpieces ragged hragged⟩,
    ⟨hfirst, hdepth, happend _ _ hfirst hragged hdepth⟩, harguments, hjoin threeArguments harguments⟩

end ApiPages.Signature
