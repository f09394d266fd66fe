import ApiPages.Proofs.Signature.Bracket
import ApiPages.Proofs.Signature.Marker
import ApiPages.Signature.TypeReference

/-! The characters that come out of each step in the making of a label: those of the text it is given, and
else only word characters and the signs between names. -/
namespace ApiPages.Signature

/-- The characters that labels bring in. -/
def isLabelChar (c : Char) : Bool := isWordChar c || ['<', '>', ',', '.', ' '].contains c

theorem isLabelChar_of_isWordChar {c : Char} (h : isWordChar c = true) : isLabelChar c = true := by
  rw [isLabelChar, h, Bool.true_or]

theorem keyword_word {a : Text × Text} (h : a ∈ typeAliases) :
    a.2 ≠ [] ∧ ∀ c ∈ a.2, isWordChar c = true := by
  have htable : ∀ a ∈ typeAliases, a.2 ≠ [] ∧ a.2.all isWordChar = true := by decide +kernel
  exact (htable a h).imp_right List.all_eq_true.mp

theorem mem_applyAliasesFrom {skip : Nat} {inWord : Bool} {t : Text} {c : Char}
    (h : c ∈ applyAliasesFrom skip inWord t) : c ∈ t ∨ isWordChar c = true := by
  induction t generalizing skip inWord with
  | nil => cases skip <;> cases h
  | cons d ds ih =>
    cases skip with
    | succ skip => exact (ih h).imp_left (List.mem_cons_of_mem d)
    | zero =>
      rw [applyAliasesFrom] at h
      split at h
      · next name keyword ha =>
        rcases List.mem_append.mp h with h | h
        · split at ha
          · cases ha
          · exact Or.inr ((keyword_word (List.mem_of_find?_eq_some ha)).2 c h)
        · exact (ih h).imp_left (List.mem_cons_of_mem d)
      · rcases List.mem_cons.mp h with rfl | h
        · exact Or.inl List.mem_cons_self
        · exact (ih h).imp_left (List.mem_cons_of_mem d)

/-- A rule for markers brings in nothing but its images. -/
theorem MarkerRule.mem_applyFrom {rule : MarkerRule} {skip : Nat} {before : Option Char} {t : Text}
    {c : Char} (h : c ∈ rule.applyFrom skip before t) : c ∈ t ∨ ∃ m, c ∈ rule.image m := by
  induction t generalizing skip before with
  | nil => cases skip <;> cases h
  | cons d ds ih =>
    cases skip with
    | succ skip => exact (ih h).imp_left (List.mem_cons_of_mem d)
    | zero =>
      rw [applyFrom] at h
      split at h
      · next m _ =>
        rcases List.mem_append.mp h with h | h
        · exact Or.inr ⟨m, h⟩
        · exact (ih h).imp_left (List.mem_cons_of_mem d)
      · rcases List.mem_cons.mp h with rfl | h
        · exact Or.inl List.mem_cons_self
        · exact (ih h).imp_left (List.mem_cons_of_mem d)

theorem mem_dropArity {t : Text} {c : Char} (h : c ∈ dropArity t) : c ∈ t := by
  rcases MarkerRule.mem_applyFrom h with h | ⟨_, h⟩
  · exact h
  · cases h

private theorem isLabelChar_of_mem_parameterNames {n : Nat} {c : Char} (h : c ∈ parameterNames n) :
    isLabelChar c = true := by
  have hsigns : ∀ c ∈ ['<', ',', '>'], isLabelChar c = true := Text.of_all rfl
  exact (mem_parameterNames h).elim isLabelChar_of_isWordChar (hsigns c)

theorem mem_expandArity {t : Text} {c : Char} (h : c ∈ expandArity t) :
    c ∈ t ∨ isLabelChar c = true := by
  rcases MarkerRule.mem_applyFrom h with h | ⟨m, h⟩
  · rcases MarkerRule.mem_applyFrom h with h | ⟨_, h⟩
    · rcases MarkerRule.mem_applyFrom h with h | ⟨m, h⟩
      · exact Or.inl h
      · exact Or.inr (isLabelChar_of_isWordChar (isWordChar_of_mem_parameterName h))
    · cases h
  · exact Or.inr (isLabelChar_of_mem_parameterNames h)

theorem mem_bracesToAngles {t : Text} {c : Char} (h : c ∈ bracesToAngles t) :
    c ∈ t ∨ isLabelChar c = true := by
  rcases Text.mem_exchange h with h | rfl
  · rcases Text.mem_exchange h with h | rfl
    · exact Or.inl h
    · exact Or.inr rfl
  · exact Or.inr rfl

theorem bracesToAngles_append (t u : Text) :
    bracesToAngles (t ++ u) = bracesToAngles t ++ bracesToAngles u := by
  rw [bracesToAngles, Text.exchange_append, Text.exchange_append]
  rfl

theorem bracesToAngles_eq_self {t : Text} (hopen : '{' ∉ t) (hclose : '}' ∉ t) :
    bracesToAngles t = t := by
  rw [bracesToAngles, Text.exchange_of_not_mem hopen, Text.exchange_of_not_mem hclose]

theorem not_mem_bracesToAngles (t : Text) : '{' ∉ bracesToAngles t ∧ '}' ∉ bracesToAngles t := by
  refine ⟨fun h => ?_, Text.not_mem_exchange (by decide) _⟩
  rcases Text.mem_exchange h with h | h
  · exact Text.not_mem_exchange (by decide) t h
  · cases h

theorem byReference?_eq_some {t referent : Text} :
    byReference? t = some referent ↔ t = referent ++ ['@'] := by
  rw [byReference?]
  constructor
  · intro h
    split at h
    · next hlast => rw [← Option.some.inj h, List.dropLast_append_getLast? '@' hlast]
    · cases h
  · rintro rfl
    rw [List.getLast?_concat, if_pos rfl, List.dropLast_concat]

theorem mem_shortHead {t : Text} {c : Char} (h : c ∈ shortHead t) :
    c ∈ t ∨ isWordChar c = true :=
  mem_applyAliasesFrom (Text.mem_of_mem_afterLast h)

private theorem mem_of_mem_pieces {isSeparator : Char → Bool} {depth : Nat} {t piece : Text} {c : Char}
    (hp : piece ∈ pieces isSeparator depth t) (hc : c ∈ piece) : c ∈ t := by
  induction t generalizing depth piece with
  | nil =>
    rw [pieces, List.mem_singleton] at hp
    rw [hp] at hc
    cases hc
  | cons d ds ih =>
    rw [pieces] at hp
    split at hp
    · rcases List.mem_cons.mp hp with rfl | hp
      · cases hc
      · exact List.mem_cons_of_mem d (ih hp hc)
    · cases hs : pieces isSeparator (depthAfter depth d) ds with
      | nil => exact absurd hs (pieces_ne_nil _ _)
      | cons first rest =>
        rw [hs] at hp
        rcases List.mem_cons.mp hp with rfl | hp
        · rcases List.mem_cons.mp hc with rfl | hc
          · exact List.mem_cons_self
          · exact List.mem_cons_of_mem d (ih (by rw [hs]; exact List.mem_cons_self) hc)
        · exact List.mem_cons_of_mem d (ih (by rw [hs]; exact List.mem_cons_of_mem first hp) hc)

theorem mem_of_mem_splitTopLevel {isSeparator : Char → Bool} {t piece : Text} {c : Char}
    (hp : piece ∈ splitTopLevel isSeparator t) (hc : c ∈ piece) : c ∈ t := by
  rw [splitTopLevel] at hp
  split at hp
  · cases hp
  · obtain ⟨whole, hw, rfl⟩ := List.mem_map.mp hp
    exact mem_of_mem_pieces hw (Text.mem_trim hc)

/-- What stands before, inside and behind the brackets, in one text. -/
theorem enclosed_eq_closed {opener closer : Char} {t before inside after : Text}
    (h : enclosed opener closer t = .closed before inside after) :
    (∀ c ∈ before, c ∈ t) ∧ (∀ c ∈ inside, c ∈ t) ∧ ∀ c ∈ after, c ∈ t := by
  obtain ⟨rfl, -⟩ := eq_of_enclosed_closed h
  have hbehind {c : Char} (hc : c ∈ inside ++ closer :: after) :
      c ∈ before ++ opener :: (inside ++ closer :: after) :=
    List.mem_append_right before (List.mem_cons_of_mem opener hc)
  exact ⟨fun c hc => List.mem_append_left _ hc, fun c hc => hbehind (List.mem_append_left _ hc),
    fun c hc => hbehind (List.mem_append_right inside (List.mem_cons_of_mem closer hc))⟩

theorem enclosed_eq_unclosed {opener closer : Char} {t before rest : Text}
    (h : enclosed opener closer t = .unclosed before rest) :
    (∀ c ∈ before, c ∈ t) ∧ ∀ c ∈ rest, c ∈ t := by
  rw [enclosed] at h
  cases hcut : Text.cutFirst opener t with
  | none =>
    rw [hcut] at h
    cases h
  | some cut =>
    obtain ⟨front, behind⟩ := cut
    rw [hcut] at h
    obtain ⟨rfl, _⟩ := Text.cutFirst_eq_some_iff.mp hcut
    cases hoffset : closingOffset? opener closer 1 behind with
    | some offset => simp [hoffset] at h
    | none =>
      simp only [hoffset, Enclosed.unclosed.injEq] at h
      obtain ⟨rfl, rfl⟩ := h
      exact ⟨fun c hc => List.mem_append_left _ hc,
        fun c hc => List.mem_append_right front (List.mem_cons_of_mem opener hc)⟩

end ApiPages.Signature
