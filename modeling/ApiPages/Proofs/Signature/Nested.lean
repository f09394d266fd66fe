import ApiPages.Proofs.Keyed
import ApiPages.Proofs.Signature.Bracket
import ApiPages.Proofs.Signature.Marker

/-! Well nested brackets, as a grammar and as a reader that keeps the brackets which are still to be
closed. The grammar serves to find the partner of a bracket and to split a text, the reader to see that a
change somewhere in a text leaves the brackets nested. -/
namespace ApiPages.Signature

/-! ### The grammar -/

/-- The bracket that closes this one, if it is one of the openers. -/
def partner? (openers : List Char) (c : Char) : Option Char :=
  if c ∈ openers then closer? c else none

/-- The brackets that close the openers. -/
def closers (openers : List Char) : List Char := openers.filterMap closer?

/-- The character is no bracket of these kinds. -/
def Neutral (openers : List Char) (c : Char) : Prop :=
  partner? openers c = none ∧ c ∉ closers openers

instance (openers : List Char) (c : Char) : Decidable (Neutral openers c) :=
  inferInstanceAs (Decidable (_ ∧ _))

/-- The brackets of these kinds are well nested: every one has its partner, and what is between the two
is well nested. -/
inductive Nested (openers : List Char) : Text → Prop
  | nil : Nested openers []
  | cons {c t} : Neutral openers c → Nested openers t → Nested openers (c :: t)
  | enclose {opener closer inside after} : partner? openers opener = some closer →
      Nested openers inside → Nested openers after →
      Nested openers (opener :: (inside ++ closer :: after))

variable {openers : List Char} {opener closer c : Char} {t u : Text}

private theorem partner?_eq_some :
    partner? openers opener = some closer ↔ opener ∈ openers ∧ closer? opener = some closer := by
  rw [partner?]
  split
  · next h => exact (and_iff_right h).symm
  · next h => exact iff_of_false (fun he => nomatch he) fun he => h he.1

private theorem mem_closers : c ∈ closers openers ↔ ∃ opener, partner? openers opener = some c := by
  rw [closers, List.mem_filterMap]
  exact exists_congr fun opener => partner?_eq_some.symm

private theorem mem_bracketPairs (h : partner? openers opener = some closer) :
    (opener, closer) ∈ bracketPairs :=
  Keyed.mem_of_lookup_eq_some (partner?_eq_some.mp h).2

theorem isBracket_of_partner? (h : partner? openers opener = some closer) :
    isOpener opener = true ∧ isCloser closer = true ∧ isOpener closer = false := by
  have hpairs : ∀ p ∈ bracketPairs,
      isOpener p.1 = true ∧ isCloser p.2 = true ∧ isOpener p.2 = false := by decide
  exact hpairs _ (mem_bracketPairs h)

/-- No bracket both opens and closes. -/
theorem ne_of_partner? {opener' closer' : Char} (h : partner? openers opener = some closer)
    (h' : partner? openers opener' = some closer') : closer ≠ opener' := by
  have hpairs : ∀ p ∈ bracketPairs, ∀ q ∈ bracketPairs, p.2 ≠ q.1 := by decide
  exact hpairs _ (mem_bracketPairs h) _ (mem_bracketPairs h')

/-- Different brackets are closed by different ones. -/
theorem eq_of_partner? {opener' : Char} (h : partner? openers opener = some closer)
    (h' : partner? openers opener' = some closer) : opener = opener' := by
  have hpairs : ∀ p ∈ bracketPairs, ∀ q ∈ bracketPairs, p.2 = q.2 → p.1 = q.1 := by decide
  exact hpairs _ (mem_bracketPairs h) _ (mem_bracketPairs h') rfl

private theorem partner?_of_mem_closers (h : c ∈ closers openers) : partner? openers c = none := by
  obtain ⟨opener, hopener⟩ := mem_closers.mp h
  cases hc : partner? openers c with
  | none => rfl
  | some closer => exact absurd rfl (ne_of_partner? hopener hc)

theorem Nested.append (ht : Nested openers t) (hu : Nested openers u) :
    Nested openers (t ++ u) := by
  induction ht with
  | nil => exact hu
  | cons hc _ ih => exact .cons hc ih
  | enclose hpartner hinside _ _ ih =>
    rw [List.cons_append, List.append_assoc, List.cons_append]
    exact .enclose hpartner hinside ih

theorem nested_of_forall (h : ∀ c ∈ t, Neutral openers c) : Nested openers t := by
  induction t with
  | nil => exact .nil
  | cons c cs ih =>
    exact .cons (h c List.mem_cons_self) (ih fun d hd => h d (List.mem_cons_of_mem c hd))

/-- What holds of no bracket holds of neutral characters only. -/
theorem neutral_of_holds {p : Char → Bool} (hp : ∀ pair ∈ bracketPairs, p pair.1 = false ∧ p pair.2 = false)
    (hc : p c = true) : Neutral openers c := by
  refine ⟨?_, fun hm => ?_⟩
  · cases hpartner : partner? openers c with
    | none => rfl
    | some closer =>
      rw [(hp _ (mem_bracketPairs hpartner)).1] at hc
      cases hc
  · obtain ⟨opener, hopener⟩ := mem_closers.mp hm
    rw [(hp _ (mem_bracketPairs hopener)).2] at hc
    cases hc

theorem partner?_self (h : closer? opener = some closer) : partner? [opener] opener = some closer :=
  partner?_eq_some.mpr ⟨List.mem_singleton_self opener, h⟩

theorem neutral_singleton_iff (h : closer? opener = some closer) :
    Neutral [opener] c ↔ c ≠ opener ∧ c ≠ closer := by
  have hclosers : closers [opener] = [closer] := by simp [closers, h]
  rw [Neutral, hclosers, List.mem_singleton]
  refine and_congr_left fun _ => ⟨?_, fun hc => if_neg fun hm => hc (List.mem_singleton.mp hm)⟩
  rintro hc rfl
  rw [partner?_self h] at hc
  cases hc

/-- There are as many brackets of a kind that open as there are that close. -/
theorem Nested.count_eq (h : partner? openers opener = some closer) (ht : Nested openers t) :
    t.count opener = t.count closer := by
  induction ht with
  | nil => rfl
  | @cons c t hc _ ih =>
    have ho : c ≠ opener := by
      rintro rfl
      exact absurd h (by rw [hc.1]; exact nofun)
    have hcloser : c ≠ closer := by
      rintro rfl
      exact hc.2 (mem_closers.mpr ⟨opener, h⟩)
    rw [List.count_cons_of_ne ho, List.count_cons_of_ne hcloser, ih]
  | @enclose first last inside after hpartner _ _ ihinside ihafter =>
    have hcross : first ≠ closer ∧ last ≠ opener :=
      ⟨(ne_of_partner? h hpartner).symm, ne_of_partner? hpartner h⟩
    have hsame : first = opener ↔ last = closer := by
      constructor
      · rintro rfl
        exact Option.some.inj (hpartner.symm.trans h)
      · rintro rfl
        exact eq_of_partner? hpartner h
    simp only [List.count_cons, List.count_append, beq_iff_eq, hcross.1, hcross.2, hsame, ihinside,
      ihafter, if_false, Nat.add_zero]
    omega

/-- Looking for the partner of a bracket passes over what is well nested. -/
theorem Nested.balanced (ht : Nested openers t) (h : partner? openers opener = some closer) :
    Balanced opener closer t := by
  induction ht with
  | nil => exact balanced_nil
  | @cons c t hc _ ih =>
    refine (balanced_singleton ?_ ?_).append ih
    · rintro rfl
      rw [hc.1] at h
      cases h
    · rintro rfl
      exact hc.2 (mem_closers.mpr ⟨opener, h⟩)
  | @enclose first last inside after hpartner _ _ ihinside ihafter =>
    have hsplit : first :: (inside ++ last :: after) = first :: inside ++ [last] ++ after := by simp
    rw [hsplit]
    refine Balanced.append ?_ ihafter
    by_cases hfirst : first = opener
    · subst hfirst
      rw [h] at hpartner
      obtain rfl := Option.some.inj hpartner
      exact ihinside.enclose (ne_of_partner? h h)
    · have hlast : last ≠ closer := by
        rintro rfl
        exact hfirst (eq_of_partner? hpartner h)
      have hfront : Balanced opener closer [first] :=
        balanced_singleton hfirst (ne_of_partner? h hpartner).symm
      have hback : Balanced opener closer [last] :=
        balanced_singleton (ne_of_partner? hpartner h) hlast
      exact (hfront.append ihinside).append hback

theorem nested_join {separator : Text} {ts : List Text}
    (hseparator : ∀ c ∈ separator, Neutral openers c) (h : ∀ t ∈ ts, Nested openers t) :
    Nested openers (Text.join separator ts) := by
  induction ts with
  | nil => exact .nil
  | cons t ts ih =>
    rw [List.forall_mem_cons] at h
    by_cases hts : ts = []
    · rw [hts]
      exact h.1
    · rw [Text.join_cons hts]
      exact (h.1.append (nested_of_forall hseparator)).append (ih h.2)

/-- Of brackets that are nested together, those of some kinds are nested alone. -/
theorem Nested.of_subset {fewer : List Char} (hsubset : fewer ⊆ openers) (ht : Nested openers t) :
    Nested fewer t := by
  have hmore {opener closer : Char} (h : partner? fewer opener = some closer) :
      partner? openers opener = some closer := by
    rw [partner?_eq_some] at h ⊢
    exact h.imp_left fun hm => hsubset hm
  induction ht with
  | nil => exact .nil
  | @cons c t hc _ ih =>
    refine .cons ⟨?_, fun hm => ?_⟩ ih
    · cases hp : partner? fewer c with
      | none => rfl
      | some closer => exact absurd (hmore hp) (by rw [hc.1]; exact nofun)
    · obtain ⟨opener, hopener⟩ := mem_closers.mp hm
      exact hc.2 (mem_closers.mpr ⟨opener, hmore hopener⟩)
  | @enclose first last inside after hpartner _ _ ihinside ihafter =>
    by_cases hfirst : first ∈ fewer
    · have hfewer : partner? fewer first = some last :=
        partner?_eq_some.mpr ⟨hfirst, (partner?_eq_some.mp hpartner).2⟩
      exact .enclose hfewer ihinside ihafter
    · have hfront : Neutral fewer first := by
        refine ⟨if_neg hfirst, fun hm => ?_⟩
        obtain ⟨opener, hopener⟩ := mem_closers.mp hm
        exact ne_of_partner? (hmore hopener) hpartner rfl
      have hback : Neutral fewer last := by
        refine ⟨?_, fun hm => ?_⟩
        · cases hp : partner? fewer last with
          | none => rfl
          | some closer => exact absurd rfl (ne_of_partner? hpartner (hmore hp))
        · obtain ⟨opener, hopener⟩ := mem_closers.mp hm
          obtain rfl := eq_of_partner? (hmore hopener) hpartner
          exact hfirst (partner?_eq_some.mp hopener).1
      exact .cons hfront (ihinside.append (.cons hback ihafter))

/-- Behind the first bracket of a kind stand its partner and, between the two, what is well nested. -/
theorem Nested.exists_inside (h : partner? openers opener = some closer) (ht : Nested openers t)
    {before rest : Text} (hsplit : t = before ++ opener :: rest) (hbefore : opener ∉ before) :
    ∃ inside after, rest = inside ++ closer :: after ∧ Nested openers inside := by
  induction ht generalizing before rest with
  | nil => simp at hsplit
  | @cons c t hc _ ih =>
    cases before with
    | nil =>
      rw [List.nil_append, List.cons.injEq] at hsplit
      rw [hsplit.1, Neutral, h] at hc
      cases hc.1
    | cons d ds =>
      rw [List.cons_append, List.cons.injEq] at hsplit
      exact ih hsplit.2 fun hm => hbefore (List.mem_cons_of_mem d hm)
  | @enclose first last inside after hpartner hinside hafter ihinside ihafter =>
    cases before with
    | nil =>
      rw [List.nil_append, List.cons.injEq] at hsplit
      obtain ⟨rfl, rfl⟩ := hsplit
      rw [h] at hpartner
      obtain rfl := Option.some.inj hpartner
      exact ⟨inside, after, rfl, hinside⟩
    | cons d ds =>
      rw [List.cons_append, List.cons.injEq] at hsplit
      obtain ⟨-, hsplit⟩ := hsplit
      have hds : opener ∉ ds := fun hm => hbefore (List.mem_cons_of_mem d hm)
      -- The first bracket of the kind stands inside, or behind the closing one.
      rcases List.append_eq_append_iff.mp hsplit with ⟨more, hmore, hrest⟩ | ⟨more, hmore, hrest⟩
      · cases more with
        | nil =>
          rw [List.nil_append, List.cons.injEq] at hrest
          exact absurd hrest.1.symm (ne_of_partner? hpartner h).symm
        | cons e es =>
          rw [List.cons_append, List.cons.injEq] at hrest
          obtain ⟨rfl, rfl⟩ := hrest
          rw [hmore, List.mem_append, not_or] at hds
          exact ihafter rfl fun hm => hds.2 (List.mem_cons_of_mem _ hm)
      · cases more with
        | nil =>
          rw [List.nil_append, List.cons.injEq] at hrest
          exact absurd hrest.1 (ne_of_partner? hpartner h).symm
        | cons e es =>
          rw [List.cons_append, List.cons.injEq] at hrest
          obtain ⟨rfl, rfl⟩ := hrest
          obtain ⟨inner, outer, rfl, hinner⟩ := ihinside hmore hds
          exact ⟨inner, outer ++ last :: after, by simp, hinner⟩

/-- In a well nested text, the first bracket of a kind encloses what is well nested. -/
theorem Nested.enclosed (h : partner? openers opener = some closer) (ht : Nested openers t) :
    enclosed opener closer t = .absent ∨
      ∃ before inside after, enclosed opener closer t = .closed before inside after ∧
        Nested openers inside := by
  rw [Signature.enclosed]
  cases hcut : Text.cutFirst opener t with
  | none => exact Or.inl rfl
  | some cut =>
    obtain ⟨before, rest⟩ := cut
    obtain ⟨hsplit, hbefore⟩ := Text.cutFirst_eq_some_iff.mp hcut
    obtain ⟨inside, after, rfl, hinside⟩ := ht.exists_inside h hsplit hbefore
    have henclosed := enclosed_append hbefore (ne_of_partner? h h) (hinside.balanced h) after
    rw [Signature.enclosed, Text.cutFirst_append hbefore] at henclosed
    exact Or.inr ⟨before, inside, after, henclosed, hinside⟩

theorem Nested.enclosed_ne_unclosed (h : partner? openers opener = some closer)
    (ht : Nested openers t) (before rest : Text) :
    Signature.enclosed opener closer t ≠ .unclosed before rest := by
  rcases ht.enclosed h with habsent | ⟨_, _, _, hclosed, -⟩
  · rw [habsent]
    exact nofun
  · rw [hclosed]
    exact nofun

theorem Nested.inside_of_enclosed (h : partner? openers opener = some closer)
    (ht : Nested openers t) {before inside after : Text}
    (he : Signature.enclosed opener closer t = .closed before inside after) :
    Nested openers inside := by
  rcases ht.enclosed h with habsent | ⟨_, inner, _, hclosed, hinner⟩
  · rw [habsent] at he
    cases he
  · rw [hclosed, Enclosed.closed.injEq] at he
    exact he.2.1 ▸ hinner

/-- Without a bracket of the kind that opens there is none that closes. -/
theorem Nested.closer_not_mem (h : partner? openers opener = some closer) (ht : Nested openers t)
    (hopener : opener ∉ t) : closer ∉ t := by
  induction ht with
  | nil => exact List.not_mem_nil
  | @cons c t hc _ ih =>
    rw [List.mem_cons, not_or] at hopener ⊢
    refine ⟨?_, ih hopener.2⟩
    rintro rfl
    exact hc.2 (mem_closers.mpr ⟨opener, h⟩)
  | @enclose first last inside after hpartner _ _ ihinside ihafter =>
    simp only [List.mem_cons, List.mem_append, not_or] at hopener ⊢
    obtain ⟨hfirst, hinside, hlast, hafter⟩ := hopener
    refine ⟨ne_of_partner? h hpartner, ihinside hinside, ?_, ihafter hafter⟩
    rintro rfl
    exact hfirst (eq_of_partner? h hpartner)

/-! ### The reader -/

/-- The closing brackets that are still to come after one more character, the innermost first. There are
none when the character closes a bracket that is not the innermost open one. -/
def awaitedAfter? (openers : List Char) (awaited : List Char) (c : Char) : Option (List Char) :=
  match partner? openers c with
  | some closer => some (closer :: awaited)
  | none =>
    if c ∈ closers openers then
      if awaited.head? = some c then some awaited.tail else none
    else some awaited

/-- The closing brackets that are still to come after a text. -/
def read? (openers : List Char) (awaited : List Char) (t : Text) : Option (List Char) :=
  t.foldlM (awaitedAfter? openers) awaited

variable {awaited : List Char}

private theorem read?_cons : read? openers awaited (c :: t) =
    (awaitedAfter? openers awaited c).bind fun more => read? openers more t :=
  List.foldlM_cons

private theorem read?_append : read? openers awaited (t ++ u) =
    (read? openers awaited t).bind fun more => read? openers more u :=
  List.foldlM_append

private theorem awaitedAfter?_opener (h : partner? openers opener = some closer) :
    awaitedAfter? openers awaited opener = some (closer :: awaited) := by
  rw [awaitedAfter?, h]

private theorem awaitedAfter?_closer (h : closer ∈ closers openers) :
    awaitedAfter? openers (closer :: awaited) closer = some awaited := by
  rw [awaitedAfter?, partner?_of_mem_closers h]
  simp [h]

private theorem awaitedAfter?_neutral (h : Neutral openers c) :
    awaitedAfter? openers awaited c = some awaited := by
  rw [awaitedAfter?, h.1]
  simp [h.2]

private theorem read?_neutral (h : ∀ c ∈ t, Neutral openers c) : read? openers awaited t = some awaited := by
  induction t with
  | nil => rfl
  | cons c cs ih =>
    rw [read?_cons, awaitedAfter?_neutral (h c List.mem_cons_self), Option.bind_some,
      ih fun d hd => h d (List.mem_cons_of_mem c hd)]

/-- Behind a well nested text the same brackets are open as before. -/
theorem Nested.read? (ht : Nested openers t) : read? openers awaited t = some awaited := by
  induction ht generalizing awaited with
  | nil => rfl
  | cons hc _ ih => rw [read?_cons, awaitedAfter?_neutral hc, Option.bind_some, ih]
  | enclose hpartner _ _ ihinside ihafter =>
    rw [read?_cons, awaitedAfter?_opener hpartner, Option.bind_some, read?_append, ihinside,
      Option.bind_some, read?_cons, awaitedAfter?_closer (mem_closers.mpr ⟨_, hpartner⟩),
      Option.bind_some, ihafter]

/-- When everything is closed in the end, the bracket that is awaited somewhere is read behind all those
that are awaited before it. -/
theorem exists_of_read? (inner : List Char) {outer : List Char}
    (h : read? openers (inner ++ closer :: outer) t = some []) :
    ∃ inside after, t = inside ++ closer :: after ∧ read? openers inner inside = some [] ∧
      read? openers outer after = some [] := by
  induction t generalizing inner with
  | nil =>
    have hempty : inner ++ closer :: outer = [] := Option.some.inj h
    simp at hempty
  | cons c cs ih =>
    rw [read?_cons] at h
    obtain ⟨more, hmore, hrest⟩ := Option.bind_eq_some_iff.mp h
    have hlater {inner' : List Char} (hstep : awaitedAfter? openers inner c = some inner')
        (he : more = inner' ++ closer :: outer) :
        ∃ inside after, c :: cs = inside ++ closer :: after ∧ read? openers inner inside = some [] ∧
          read? openers outer after = some [] := by
      rw [he] at hrest
      obtain ⟨inside, after, rfl, hinside, hafter⟩ := ih inner' hrest
      exact ⟨c :: inside, after, rfl, by rw [read?_cons, hstep, Option.bind_some, hinside], hafter⟩
    cases hpartner : partner? openers c with
    | some last =>
      rw [awaitedAfter?_opener hpartner] at hmore
      exact hlater (awaitedAfter?_opener hpartner) (Option.some.inj hmore).symm
    | none =>
      by_cases hcloser : c ∈ closers openers
      · rw [awaitedAfter?, hpartner] at hmore
        simp only [hcloser, if_true] at hmore
        split at hmore
        · next hhead =>
          cases inner with
          | nil =>
            obtain rfl := Option.some.inj hhead
            obtain rfl := Option.some.inj hmore
            exact ⟨[], cs, rfl, rfl, hrest⟩
          | cons d ds =>
            obtain rfl := Option.some.inj hhead
            exact hlater (awaitedAfter?_closer hcloser) (Option.some.inj hmore).symm
        · cases hmore
      · have hneutral : Neutral openers c := ⟨hpartner, hcloser⟩
        rw [awaitedAfter?_neutral hneutral] at hmore
        exact hlater (awaitedAfter?_neutral hneutral) (Option.some.inj hmore).symm

/-- Well nested is what the reader reads to the end with nothing left open. -/
theorem nested_iff_read? : Nested openers t ↔ Signature.read? openers [] t = some [] := by
  refine ⟨fun h => h.read?, fun h => ?_⟩
  -- A bracket is taken with its partner, so the induction is on the length.
  induction hn : t.length using Nat.strong_induction_on generalizing t with
  | _ n ih =>
    subst hn
    cases t with
    | nil => exact .nil
    | cons c cs =>
      rw [read?_cons] at h
      obtain ⟨more, hmore, hrest⟩ := Option.bind_eq_some_iff.mp h
      cases hpartner : partner? openers c with
      | some last =>
        rw [awaitedAfter?_opener hpartner] at hmore
        obtain rfl := Option.some.inj hmore
        obtain ⟨inside, after, rfl, hinside, hafter⟩ := exists_of_read? [] hrest
        refine .enclose hpartner (ih _ ?_ hinside rfl) (ih _ ?_ hafter rfl)
        · simp only [List.length_cons, List.length_append]
          omega
        · simp only [List.length_cons, List.length_append]
          omega
      | none =>
        have hcloser : c ∉ closers openers := by
          intro hm
          rw [awaitedAfter?, hpartner] at hmore
          simp [hm] at hmore
        have hneutral : Neutral openers c := ⟨hpartner, hcloser⟩
        rw [awaitedAfter?_neutral hneutral] at hmore
        obtain rfl := Option.some.inj hmore
        exact .cons hneutral (ih _ (Nat.lt_succ_self _) hrest rfl)

theorem nested_between {front back : Text} (hfront : ∀ c ∈ front, Neutral openers c)
    (hback : ∀ c ∈ back, Neutral openers c) :
    Nested openers (front ++ t ++ back) ↔ Nested openers t := by
  have hend : ∀ more, read? openers more back = some more := fun _ => read?_neutral hback
  rw [nested_iff_read?, nested_iff_read?, List.append_assoc, read?_append, read?_neutral hfront,
    Option.bind_some, read?_append]
  simp only [hend]
  rw [Option.bind_fun_some]

/-- A bracket of a kind, its partner and what is well nested between them can be taken out, when they are
the first. -/
theorem nested_around_iff {before inside after : Text} (h : closer? opener = some closer)
    (hbefore : opener ∉ before) (hinside : Nested [opener] inside) :
    Nested [opener] (before ++ opener :: (inside ++ closer :: after)) ↔
      closer ∉ before ∧ Nested [opener] after := by
  have hpartner := partner?_self h
  have hcloser : closer ∈ closers [opener] := mem_closers.mpr ⟨opener, hpartner⟩
  have hneutral {t : Text} (ho : opener ∉ t) (hc : closer ∉ t) : ∀ c ∈ t, Neutral [opener] c := by
    intro c hm
    refine (neutral_singleton_iff h).mpr ⟨?_, ?_⟩
    · rintro rfl
      exact ho hm
    · rintro rfl
      exact hc hm
  by_cases hc : closer ∈ before
  · -- The first closing bracket has nothing to close.
    refine iff_of_false (fun hn => ?_) fun hn => hn.1 hc
    obtain ⟨front, back, rfl, hfront⟩ := List.eq_append_cons_of_mem hc
    rw [List.mem_append, not_or] at hbefore
    rw [nested_iff_read?, List.append_assoc, read?_append, read?_neutral (hneutral hbefore.1 hfront),
      Option.bind_some, List.cons_append, read?_cons, awaitedAfter?,
      partner?_of_mem_closers hcloser] at hn
    simp [hcloser] at hn
  · rw [nested_iff_read?, nested_iff_read?, read?_append, read?_neutral (hneutral hbefore hc),
      Option.bind_some, read?_cons, awaitedAfter?_opener hpartner, Option.bind_some, read?_append,
      hinside.read?, Option.bind_some, read?_cons, awaitedAfter?_closer hcloser, Option.bind_some]
    exact (and_iff_right hc).symm

/-- What stands before the partner that is found is well nested. -/
theorem nested_of_closingOffset? (h : closer? opener = some closer) {offset : Nat}
    (ht : closingOffset? opener closer 1 t = some offset) : Nested [opener] (t.take offset) := by
  have hpartner := partner?_self h
  have hcloser : closer ∈ closers [opener] := mem_closers.mpr ⟨opener, hpartner⟩
  have hread : ∀ depth, closingOffset? opener closer (depth + 1) t = some offset →
      read? [opener] (List.replicate depth closer) (t.take offset) = some [] := by
    clear ht
    induction t generalizing offset with
    | nil => exact fun _ ht => nomatch ht
    | cons c cs ih =>
      intro depth ht
      rw [closingOffset?] at ht
      split at ht
      · next hc =>
        obtain ⟨less, hless, rfl⟩ := Option.map_eq_some_iff.mp ht
        rw [List.take_succ_cons, hc, read?_cons, awaitedAfter?_opener hpartner, Option.bind_some]
        exact ih (depth + 1) hless
      · next ho =>
        split at ht
        · next hc =>
          cases depth with
          | zero =>
            rw [if_pos (Nat.le_refl _)] at ht
            rw [← Option.some.inj ht]
            rfl
          | succ depth =>
            rw [if_neg (by omega)] at ht
            obtain ⟨less, hless, rfl⟩ := Option.map_eq_some_iff.mp ht
            rw [List.take_succ_cons, hc, read?_cons, List.replicate_succ,
              awaitedAfter?_closer hcloser, Option.bind_some]
            exact ih depth hless
        · next hc =>
          obtain ⟨less, hless, rfl⟩ := Option.map_eq_some_iff.mp ht
          rw [List.take_succ_cons, read?_cons,
            awaitedAfter?_neutral ((neutral_singleton_iff h).mpr ⟨ho, hc⟩), Option.bind_some]
          exact ih depth hless
  exact nested_iff_read?.mpr (hread 0 ht)

theorem nested_of_enclosed (h : closer? opener = some closer) {before inside after : Text}
    (ht : enclosed opener closer t = .closed before inside after) : Nested [opener] inside := by
  rw [enclosed] at ht
  cases hcut : Text.cutFirst opener t with
  | none =>
    rw [hcut] at ht
    cases ht
  | some cut =>
    rw [hcut] at ht
    cases hoffset : closingOffset? opener closer 1 cut.2 with
    | none => simp [hoffset] at ht
    | some offset =>
      simp only [hoffset, Enclosed.closed.injEq] at ht
      rw [← ht.2.1]
      exact nested_of_closingOffset? h hoffset

instance (openers : List Char) (t : Text) : Decidable (Nested openers t) :=
  decidable_of_iff _ nested_iff_read?.symm

/-! ### Parts of well nested texts -/

section
variable {isSeparator : Char → Bool}

/-- Inside of brackets, a well nested text is not cut. -/
theorem Nested.uncut (hcovers : ∀ c ∈ t, Neutral openers c → isOpener c = false ∧ isCloser c = false)
    (ht : Nested openers t) : Uncut isSeparator 1 t := by
  induction ht with
  | nil => exact uncut_nil 1
  | @cons c t hc _ ih =>
    obtain ⟨ho, hcloser⟩ := hcovers c List.mem_cons_self hc
    exact (uncut_singleton ho hcloser (Or.inr Nat.one_pos)).append
      (ih fun d hd => hcovers d (List.mem_cons_of_mem c hd))
  | @enclose first last inside after hpartner _ _ ihinside ihafter =>
    obtain ⟨ho, hc, hn⟩ := isBracket_of_partner? hpartner
    have hinside : Uncut isSeparator 1 inside := ihinside fun d hd =>
      hcovers d (List.mem_cons_of_mem first (List.mem_append_left _ hd))
    have hafter : Uncut isSeparator 1 after := ihafter fun d hd =>
      hcovers d (List.mem_cons_of_mem first (List.mem_append_right inside (List.mem_cons_of_mem last hd)))
    have hsplit : first :: (inside ++ last :: after) = first :: inside ++ [last] ++ after := by simp
    rw [hsplit]
    exact ((hinside.mono (by omega)).enclose ho hc hn).append hafter

/-- The pieces of a well nested text are well nested. -/
theorem Nested.of_mem_pieces
    (hcovers : ∀ c ∈ t, Neutral openers c → isOpener c = false ∧ isCloser c = false)
    (ht : Nested openers t) : ∀ piece ∈ pieces isSeparator 0 t, Nested openers piece := by
  induction ht with
  | nil =>
    intro piece hp
    rw [List.mem_singleton.mp hp]
    exact .nil
  | @cons c t hc _ ih =>
    have hpieces := ih fun d hd => hcovers d (List.mem_cons_of_mem c hd)
    obtain ⟨ho, hcloser⟩ := hcovers c List.mem_cons_self hc
    rw [pieces, depthAfter_of_not_bracket ho hcloser]
    split
    · exact List.forall_mem_cons.mpr ⟨.nil, hpieces⟩
    · cases hp : pieces isSeparator 0 t with
      | nil => exact absurd hp (pieces_ne_nil _ _)
      | cons piece rest =>
        rw [hp, List.forall_mem_cons] at hpieces
        exact List.forall_mem_cons.mpr ⟨.cons hc hpieces.1, hpieces.2⟩
  | @enclose first last inside after hpartner hinside _ _ ihafter =>
    obtain ⟨ho, hc, hn⟩ := isBracket_of_partner? hpartner
    have huncut : Uncut isSeparator 1 inside := hinside.uncut fun d hd =>
      hcovers d (List.mem_cons_of_mem first (List.mem_append_left _ hd))
    have hpieces := ihafter fun d hd =>
      hcovers d (List.mem_cons_of_mem first (List.mem_append_right inside (List.mem_cons_of_mem last hd)))
    have hsplit : first :: (inside ++ last :: after) = first :: inside ++ [last] ++ after := by simp
    have hfront : Nested openers (first :: inside ++ [last]) := .enclose hpartner hinside .nil
    rw [hsplit, huncut.enclose ho hc hn 0 after (Nat.le_refl 0)]
    cases hp : pieces isSeparator 0 after with
    | nil => exact absurd hp (pieces_ne_nil _ _)
    | cons piece rest =>
      rw [hp, List.forall_mem_cons] at hpieces
      exact List.forall_mem_cons.mpr ⟨hfront.append hpieces.1, hpieces.2⟩

end

/-! ### Blanks and markers -/

theorem neutral_of_isBlank (h : Text.isBlank c = true) : Neutral openers c :=
  neutral_of_holds (by decide) h

private theorem neutral_of_isWordChar (h : isWordChar c = true) : Neutral openers c :=
  neutral_of_holds (by decide) h

private theorem neutral_of_ne_brackets (h : ∀ pair ∈ bracketPairs, c ≠ pair.1 ∧ c ≠ pair.2) :
    Neutral openers c :=
  neutral_of_holds (p := (· == c)) (fun pair hp => by simp [(h pair hp).1.symm, (h pair hp).2.symm])
    (beq_self_eq_true c)

private theorem neutral_of_mem_marker {m : Marker} (hm : m.IsReadable) (h : c ∈ m.text) :
    Neutral openers c := by
  rcases Marker.mem_text hm h with rfl | hdigit
  · exact neutral_of_ne_brackets (by decide)
  · exact neutral_of_holds (by decide +kernel) hdigit

theorem nested_trim_iff : Nested openers (Text.trim t) ↔ Nested openers t := by
  obtain ⟨front, back, hsplit, hfront, hback⟩ := Text.exists_blanks_around_trim t
  have hbetween : Nested openers (front ++ Text.trim t ++ back) ↔ Nested openers (Text.trim t) :=
    nested_between (fun c hc => neutral_of_isBlank (hfront c hc))
      fun c hc => neutral_of_isBlank (hback c hc)
  rw [← hsplit] at hbetween
  exact hbetween.symm

/-- A pass with nested images leaves the brackets as they are. -/
theorem MarkerRule.Rewrites.read? {rule : MarkerRule} (himage : ∀ m, Nested openers (rule.image m))
    {before : Option Char} {out : Text} (h : rule.Rewrites before t out) :
    Signature.read? openers awaited out = Signature.read? openers awaited t := by
  induction h generalizing awaited with
  | nil => rfl
  | @keep before c rest out _ _ ih =>
    rw [read?_cons, read?_cons]
    exact congrArg _ (funext fun _ => ih)
  | @replace before m rest out hm _ _ _ ih =>
    rw [read?_append, read?_append, (himage m).read?,
      read?_neutral fun c hc => neutral_of_mem_marker hm hc, Option.bind_some, Option.bind_some, ih]

private theorem nested_parameterNames (n : Nat) : Nested openers (parameterNames n) := by
  -- With angle brackets among the openers, they enclose the names.
  refine Nested.of_subset (List.subset_cons_self '<' openers) ?_
  refine .enclose (partner?_eq_some.mpr ⟨List.mem_cons_self, rfl⟩) (nested_of_forall fun c hc => ?_) .nil
  rcases Text.mem_join hc with hc | ⟨t, ht, hc⟩
  · rw [List.mem_singleton.mp hc]
    exact neutral_of_ne_brackets (by decide)
  · obtain ⟨i, _, rfl⟩ := List.mem_map.mp ht
    exact neutral_of_isWordChar (isWordChar_of_mem_parameterName hc)

/-- The expansion of markers brings in only what is well nested. -/
theorem nested_expandArity_iff : Nested openers (expandArity t) ↔ Nested openers t := by
  have hplaceholder : ∀ m, Nested openers (placeholderRule.image m) := fun m =>
    nested_of_forall fun c hc => neutral_of_isWordChar (isWordChar_of_mem_parameterName hc)
  have harity : ∀ m, Nested openers (arityRule.image m) := fun m => nested_parameterNames m.value
  rw [nested_iff_read?, nested_iff_read?, expandArity, MarkerRule.apply, MarkerRule.apply,
    MarkerRule.apply, (arityRule.rewrites_applyFrom _ none).read? harity,
    (redundantRule.rewrites_applyFrom _ none).read? fun _ => .nil,
    (placeholderRule.rewrites_applyFrom t none).read? hplaceholder]

end ApiPages.Signature
