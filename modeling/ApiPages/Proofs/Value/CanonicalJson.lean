import ApiPages.Digest
import ApiPages.Proofs.Value.JsonShape
import Mathlib.Data.List.Perm.Basic

/-! The digest of a configuration is taken over a canonical text: two JSON values have the same one
just when they differ in nothing but the order of keys. -/
namespace ApiPages

namespace Value

/-- Equal but for the order of the keys in each mapping, at every depth. -/
inductive EqualUpToOrder : Value → Value → Prop where
  | scalar (s : Scalar) : EqualUpToOrder (.scalar s) (.scalar s)
  | list {items items' : List Value} (h : List.Forall₂ EqualUpToOrder items items') :
      EqualUpToOrder (.list items) (.list items')
  | mapping {entries reordered entries' : Entries}
      (hkeys : entries.map Prod.fst = reordered.map Prod.fst)
      (hvalues : List.Forall₂ EqualUpToOrder (entries.map Prod.snd) (reordered.map Prod.snd))
      (hperm : reordered.Perm entries') : EqualUpToOrder (.mapping entries) (.mapping entries')

/-- What tells the kinds of JSON values apart. -/
inductive Kind where
  | null
  | bool (b : Bool)
  | number
  | text
  | list
  | mapping

def kind : Value → Kind
  | .scalar .null => .null
  | .scalar (.bool b) => .bool b
  | .scalar (.int _) => .number
  | .list _ => .list
  | .mapping _ => .mapping
  | _ => .text

/-- The kind of value that a first character tells of. -/
def Kind.ofChar (c : Char) : Option Kind :=
  if c.isDigit || c = '-' then some .number
  else if c = 'n' then some .null
  else if c = 't' then some (.bool true)
  else if c = 'f' then some (.bool false)
  else if c = '"' then some .text
  else if c = '[' then some .list
  else if c = '\x7b' then some .mapping
  else none

theorem WrittenAs.kind {v : Value} {t : Text} (hv : v.IsJson) (h : v.WrittenAs t) :
    ∃ c cs, t = c :: cs ∧ Kind.ofChar c = some v.kind := by
  cases hv with
  | null => exact ⟨_, _, (Option.some.inj h).symm, rfl⟩
  | bool b => cases b <;> exact ⟨_, _, (Option.some.inj h).symm, rfl⟩
  | int i =>
    obtain rfl := Option.some.inj h
    cases i with
    | ofNat n =>
      obtain ⟨c, cs, hn⟩ := List.exists_cons_of_ne_nil (Text.ofNat_ne_nil n)
      have hc : c.isDigit = true := Text.isDigit_of_mem_ofNat (hn ▸ List.mem_cons_self)
      exact ⟨c, cs, hn, if_pos (Bool.or_eq_true_iff.mpr (Or.inl hc))⟩
    | negSucc n => exact ⟨_, _, rfl, rfl⟩
  | text u => exact ⟨_, _, (Option.some.inj h).symm, rfl⟩
  | list _ =>
    obtain ⟨parts, -, rfl⟩ := writtenAs_list.mp h
    exact ⟨_, _, rfl, rfl⟩
  | mapping _ hkeys _ =>
    obtain ⟨written, -, rfl⟩ := (writtenAs_mapping hkeys).mp h
    exact ⟨_, _, rfl, rfl⟩

section Reading

variable {α : Type} {write : α → Text} {xs ys : List α} {closer : Char} {r s : Text}

private theorem join_map_cons (sep : Text) (write : α → Text) (x : α) (xs : List α) :
    Text.join sep ((x :: xs).map write) = write x ++ xs.flatMap fun y => sep ++ write y := by
  induction xs generalizing x with
  | nil => exact (List.append_nil _).symm
  | cons y ys ih =>
    rw [List.map_cons, List.map_cons, Text.join_cons_cons, ← List.map_cons, ih, List.flatMap_cons,
      List.append_assoc, List.append_assoc]

/-- The parts behind the first, each behind a separator, end before the closing character. -/
private theorem eq_of_parts_append (hdigit : closer.isDigit = false) (hcomma : closer ≠ ',')
    (hread : ∀ x ∈ xs, ∀ y ∈ ys, ∀ {r s : Text}, r.EndsNumber → s.EndsNumber →
      write x ++ r = write y ++ s → x = y)
    (h : (xs.flatMap fun x => ", ".toList ++ write x) ++ closer :: r =
      (ys.flatMap fun y => ", ".toList ++ write y) ++ closer :: s) : xs = ys := by
  have hends (zs : List α) (r : Text) :
      Text.EndsNumber ((zs.flatMap fun z => ", ".toList ++ write z) ++ closer :: r) := by
    cases zs with
    | nil => exact fun c hc => Option.some.inj hc ▸ hdigit
    | cons z zs => exact fun c hc => Option.some.inj hc ▸ rfl
  induction xs generalizing ys with
  | nil =>
    cases ys with
    | nil => rfl
    | cons y ys => exact absurd (List.cons.inj h).1 hcomma
  | cons x xs ih =>
    cases ys with
    | nil => exact absurd (List.cons.inj h).1.symm hcomma
    | cons y ys =>
      simp only [List.flatMap_cons, List.append_assoc] at h
      have hwritten := List.append_cancel_left h
      obtain rfl := hread x List.mem_cons_self y List.mem_cons_self (hends xs r) (hends ys s) hwritten
      rw [ih (fun x hx y hy => hread x (List.mem_cons_of_mem _ hx) y (List.mem_cons_of_mem _ hy))
        (List.append_cancel_left hwritten)]

/-- Parts with separators between them end before a closing character that starts none of them. -/
theorem eq_of_join_append (hdigit : closer.isDigit = false) (hcomma : closer ≠ ',')
    (hread : ∀ x ∈ xs, ∀ y ∈ ys, ∀ {r s : Text}, r.EndsNumber → s.EndsNumber →
      write x ++ r = write y ++ s → x = y)
    (hxs : ∀ x ∈ xs, ∀ r s, write x ++ r ≠ closer :: s)
    (hys : ∀ y ∈ ys, ∀ r s, write y ++ r ≠ closer :: s)
    (h : Text.join ", ".toList (xs.map write) ++ closer :: r =
      Text.join ", ".toList (ys.map write) ++ closer :: s) : xs = ys := by
  cases xs with
  | nil =>
    cases ys with
    | nil => rfl
    | cons y ys =>
      rw [join_map_cons, List.append_assoc] at h
      exact absurd h.symm (hys y List.mem_cons_self _ _)
  | cons x xs =>
    rw [join_map_cons, List.append_assoc] at h
    cases ys with
    | nil => exact absurd h (hxs x List.mem_cons_self _ _)
    | cons y ys =>
      rw [join_map_cons, List.append_assoc] at h
      have hparts : ((x :: xs).flatMap fun x => ", ".toList ++ write x) ++ closer :: r =
          ((y :: ys).flatMap fun y => ", ".toList ++ write y) ++ closer :: s := by
        simp only [List.flatMap_cons, List.append_assoc]
        rw [h]
      exact eq_of_parts_append hdigit hcomma hread hparts

end Reading

private theorem append_ne_of_ofChar {v : Value} (hv : v.IsJson) {t : Text} (ht : v.WrittenAs t) {c : Char}
    (hc : Kind.ofChar c = none) (r s : Text) : t ++ r ≠ c :: s := by
  obtain ⟨first, rest, rfl, hfirst⟩ := ht.kind hv
  intro h
  rw [(List.cons.inj h).1, hc] at hfirst
  cases hfirst

/-- What is written for the value, with the end of a number behind it, is written for no other value
but one that is equal up to the order of keys. -/
def IsReadBack (v : Value) : Prop :=
  ∀ ⦃w : Value⦄ ⦃t u r s : Text⦄, w.IsJson → v.WrittenAs t → w.WrittenAs u → r.EndsNumber →
    s.EndsNumber → t ++ r = u ++ s → t = u ∧ v.EqualUpToOrder w

private theorem kind_eq_of_append {v w : Value} (hv : v.IsJson) (hw : w.IsJson) {t u r s : Text}
    (ht : v.WrittenAs t) (hu : w.WrittenAs u) (h : t ++ r = u ++ s) : v.kind = w.kind := by
  obtain ⟨c, cs, rfl, hc⟩ := ht.kind hv
  obtain ⟨d, ds, rfl, hd⟩ := hu.kind hw
  exact Option.some.inj (hc.symm.trans ((List.cons.inj h).1 ▸ hd))

private theorem IsReadBack.equalUpToOrder {v w : Value} (hv : v.IsReadBack) (hw : w.IsJson) {t : Text}
    (ht : v.WrittenAs t) (hu : w.WrittenAs t) : v.EqualUpToOrder w :=
  (hv hw ht hu Text.endsNumber_nil Text.endsNumber_nil rfl).2

private theorem isReadBack_list {items : List Value} (hitems : ∀ v ∈ items, v.IsJson)
    (ih : ∀ v ∈ items, v.IsReadBack) : IsReadBack (.list items) := by
  intro w t u r s hw ht hu _ _ h
  have hkind := kind_eq_of_append (.list hitems) hw ht hu h
  cases hw <;> cases hkind
  next items' hitems' =>
  obtain ⟨parts, hparts, rfl⟩ := writtenAs_list.mp ht
  obtain ⟨parts', hparts', rfl⟩ := writtenAs_list.mp hu
  have hopen {items : List Value} (hitems : ∀ v ∈ items, v.IsJson) {parts : List Text}
      (hparts : List.Forall₂ WrittenAs items parts) (t : Text) (ht : t ∈ parts) (r s : Text) :
      t ++ r ≠ ']' :: s := by
    obtain ⟨v, hv, hvt⟩ := exists_of_mem_forall₂ hparts ht
    exact append_ne_of_ofChar (hitems v hv) hvt rfl r s
  have hread : ∀ t ∈ parts, ∀ u ∈ parts', ∀ {r s : Text}, r.EndsNumber → s.EndsNumber →
      id t ++ r = id u ++ s → t = u := by
    intro t ht u hu r s hr hs h
    obtain ⟨v, hv, hvt⟩ := exists_of_mem_forall₂ hparts ht
    obtain ⟨w, hw, hwu⟩ := exists_of_mem_forall₂ hparts' hu
    exact (ih v hv (hitems' w hw) hvt hwu hr hs h).1
  have hinside : Text.join ", ".toList (parts.map id) ++ ']' :: r =
      Text.join ", ".toList (parts'.map id) ++ ']' :: s := by
    simpa using h
  obtain rfl := eq_of_join_append rfl (by decide) hread (hopen hitems hparts)
    (hopen hitems' hparts') hinside
  exact ⟨rfl, .list (forall₂_of_common hparts hparts' fun v hv w hw t _ hvt hwt =>
    (ih v hv).equalUpToOrder (hitems' w hw) hvt hwt)⟩

private theorem isReadBack_mapping {entries : Entries} (hdistinct : entries.DistinctKeys)
    (hkeys : ∀ e ∈ entries, ∃ t, e.1 = .text t) (hvalues : ∀ e ∈ entries, e.2.IsJson)
    (ih : ∀ e ∈ entries, e.2.IsReadBack) : IsReadBack (.mapping entries) := by
  intro w t u r s hw ht hu _ _ h
  have hkind := kind_eq_of_append (.mapping hdistinct hkeys hvalues) hw ht hu h
  cases hw <;> cases hkind
  next entries' _ hkeys' hvalues' =>
  obtain ⟨written, hwritten, rfl⟩ := (writtenAs_mapping hkeys).mp ht
  obtain ⟨written', hwritten', rfl⟩ := (writtenAs_mapping hkeys').mp hu
  have hread : ∀ x ∈ sortBy byKey written, ∀ y ∈ sortBy byKey written', ∀ {r s : Text},
      r.EndsNumber → s.EndsNumber → member x ++ r = member y ++ s → x = y := by
    intro x hx y hy r s hr hs h
    obtain ⟨e, he, hex⟩ := exists_of_mem_forall₂ hwritten ((sortBy_perm _ _).mem_iff.mp hx)
    obtain ⟨e', he', hey⟩ := exists_of_mem_forall₂ hwritten' ((sortBy_perm _ _).mem_iff.mp hy)
    rw [member, member, List.append_assoc, List.append_assoc] at h
    obtain ⟨hplain, hrest⟩ := eq_of_jsonString_append h
    have hkey : x.1 = y.1 :=
      eq_of_plain_eq (hex.1 ▸ hkeys e he) (hey.1 ▸ hkeys' e' he') hplain
    have hvalue : x.2 ++ r = y.2 ++ s := (List.cons.inj (List.cons.inj hrest).2).2
    exact Prod.ext hkey (ih e he (hvalues' e' he') hex.2 hey.2 hr hs hvalue).1
  have hopen (x : Scalar × Text) (r s : Text) : member x ++ r ≠ '\x7d' :: s :=
    fun h => absurd (List.cons.inj h).1 (by decide)
  have hinside : Text.join ", ".toList ((sortBy byKey written).map member) ++ '\x7d' :: r =
      Text.join ", ".toList ((sortBy byKey written').map member) ++ '\x7d' :: s := by
    simpa using h
  have hsorted : sortBy byKey written = sortBy byKey written' :=
    eq_of_join_append rfl (by decide) hread (fun x _ => hopen x) (fun y _ => hopen y) hinside
  have hperm : written.Perm written' :=
    (sortBy_perm byKey written).symm.trans (hsorted ▸ sortBy_perm byKey written')
  -- The entries of the second mapping in the order in which the first one writes its own.
  obtain ⟨reordered, hreordered, hentries'⟩ := List.perm_comp_forall₂ hperm hwritten'.flip
  have hbeside : List.Forall₂ (WithKey EqualUpToOrder) entries reordered :=
    forall₂_of_common hwritten hreordered.flip fun e he e' he' x _ hex hex' =>
      ⟨hex.1.trans hex'.1.symm,
        (ih e he).equalUpToOrder (hvalues' e' (hentries'.mem_iff.mp he')) hex.2 hex'.2⟩
  obtain ⟨hkeysEq, hvaluesEq⟩ := forall₂_withKey.mp hbeside
  exact ⟨by rw [hsorted], .mapping hkeysEq hvaluesEq hentries'⟩

/-- The JSON of a value is read in one way. -/
theorem IsJson.isReadBack {v : Value} (h : v.IsJson) : v.IsReadBack := by
  induction h with
  | null =>
    intro w t u r s hw ht hu _ _ h
    have hkind := kind_eq_of_append .null hw ht hu h
    cases hw <;> cases hkind
    exact ⟨ht.unique hu, .scalar _⟩
  | bool b =>
    intro w t u r s hw ht hu _ _ h
    have hkind := kind_eq_of_append (.bool b) hw ht hu h
    cases hw <;> cases hkind
    exact ⟨ht.unique hu, .scalar _⟩
  | int i =>
    intro w t u r s hw ht hu hr hs h
    have hkind := kind_eq_of_append (.int i) hw ht hu h
    cases hw <;> cases hkind
    obtain rfl := Option.some.inj ht
    obtain rfl := Option.some.inj hu
    obtain rfl := Text.eq_of_ofInt_append hr hs h
    exact ⟨rfl, .scalar _⟩
  | text a =>
    intro w t u r s hw ht hu _ _ h
    have hkind := kind_eq_of_append (.text a) hw ht hu h
    cases hw <;> cases hkind
    obtain rfl := Option.some.inj ht
    obtain rfl := Option.some.inj hu
    obtain ⟨rfl, -⟩ := eq_of_jsonString_append h
    exact ⟨rfl, .scalar _⟩
  | list hitems ih => exact isReadBack_list hitems ih
  | mapping hdistinct hkeys hvalues ih => exact isReadBack_mapping hdistinct hkeys hvalues ih

/-- The order in which the keys come is not seen behind the sorting. -/
theorem sortBy_byKey_eq {written' : List (Scalar × Text)} (hkeys : ∀ x ∈ written, ∃ t, x.1 = .text t)
    (hdistinct : (written.map Prod.fst).Nodup) (h : written'.Perm written) :
    sortBy byKey written' = sortBy byKey written := by
  have htotal (x y : Scalar × Text) : byKey x y = true ∨ byKey y x = true :=
    Text.le_total x.1.plain y.1.plain
  have htrans (x y z : Scalar × Text) : byKey x y = true → byKey y z = true → byKey x z = true :=
    Text.le_trans x.1.plain y.1.plain z.1.plain
  have hperm' := (sortBy_perm byKey written').trans h
  have hperm := sortBy_perm byKey written
  refine List.Perm.eq_of_pairwise (fun x y hx hy hxy hyx => ?_)
    (pairwise_sortBy htotal htrans written') (pairwise_sortBy htotal htrans written)
    (hperm'.trans hperm.symm)
  have hx := hperm'.mem_iff.mp hx
  have hy := hperm.mem_iff.mp hy
  have hkey := eq_of_plain_eq (hkeys x hx) (hkeys y hy) (Text.le_antisymm hxy hyx)
  exact List.inj_on_of_nodup_map hdistinct hx hy hkey

private theorem EqualUpToOrder.writtenAs {v w : Value} (hv : v.IsJson) (h : v.EqualUpToOrder w) {t : Text}
    (ht : v.WrittenAs t) : w.WrittenAs t := by
  induction hv generalizing w t with
  | list hitems ih =>
    cases h with
    | list h =>
      obtain ⟨parts, hparts, rfl⟩ := writtenAs_list.mp ht
      refine writtenAs_list.mpr ⟨parts, ?_, rfl⟩
      exact forall₂_of_common h.flip hparts.flip fun w _ t _ v hv hvw hvt => ih v hv hvw hvt
  | @mapping entries hdistinct hkeys _ ih =>
    cases h with
    | @mapping _ reordered entries' hkeysEq hvaluesEq hperm =>
      obtain ⟨written, hwritten, rfl⟩ := (writtenAs_mapping hkeys).mp ht
      have hbeside := forall₂_withKey.mpr ⟨hkeysEq, hvaluesEq⟩
      have hreordered : List.Forall₂ (WithKey WrittenAs) reordered written :=
        forall₂_of_common hbeside.flip hwritten.flip fun e' _ x _ e he hee' hex =>
          ⟨hee'.1.symm.trans hex.1, ih e he hee'.2 hex.2⟩
      obtain ⟨written', hwritten', hperm'⟩ := List.perm_comp_forall₂ hperm.symm hreordered
      have htexts := texts_of_forall₂ hkeys hwritten
      have hdistinctWritten : (written.map Prod.fst).Nodup :=
        (forall₂_withKey.mp hwritten).1 ▸ hdistinct.nodup_map_fst
      have hkeys' : ∀ e' ∈ entries', ∃ t, e'.1 = .text t := by
        intro e' he'
        obtain ⟨e, he, hee'⟩ := exists_of_mem_forall₂ hbeside (hperm.mem_iff.mpr he')
        exact hee'.1 ▸ hkeys e he
      refine (writtenAs_mapping hkeys').mpr ⟨written', hwritten', ?_⟩
      rw [sortBy_byKey_eq htexts hdistinctWritten hperm']
  | _ =>
    cases h
    exact ht

end Value

/-- Two different messages with one digest. -/
def Digest.Collide (message message' : List UInt8) : Prop :=
  message ≠ message' ∧ Digest.sha256 message = Digest.sha256 message'

private theorem configHash?_of_writtenAs {v : Value} (hv : v.IsJson) {t : Text} (ht : v.WrittenAs t) :
    configHash? v = some (Digest.sha256 (Files.encode t)) := by
  rw [configHash?, ht, Files.encode_of_isAscii (hv.isAscii ht)]
  rfl

/-- The digest of a JSON configuration is that of a text which two configurations share just when they
are equal up to the order of keys. So the order of keys never counts, and configurations that differ in
more share a digest only when their texts collide. -/
theorem configHash_is_over_canonical_text {v w : Value} (hv : v.IsJson) (hw : w.IsJson) :
    ∃ t u, v.canonicalJson? = some t ∧ w.canonicalJson? = some u ∧
      configHash? v = some (Digest.sha256 (Files.encode t)) ∧
      configHash? w = some (Digest.sha256 (Files.encode u)) ∧
      (t = u ↔ v.EqualUpToOrder w) ∧
      (v.EqualUpToOrder w → configHash? v = configHash? w) ∧
      (configHash? v = configHash? w → ¬v.EqualUpToOrder w →
        Digest.Collide (Files.encode t) (Files.encode u)) := by
  obtain ⟨t, ht⟩ := hv.exists_writtenAs
  obtain ⟨u, hu⟩ := hw.exists_writtenAs
  have hv' := configHash?_of_writtenAs hv ht
  have hw' := configHash?_of_writtenAs hw hu
  have htext : t = u ↔ v.EqualUpToOrder w := by
    constructor
    · rintro rfl
      exact hv.isReadBack.equalUpToOrder hw ht hu
    · intro h
      exact (h.writtenAs hv ht).unique hu
  refine ⟨t, u, ht, hu, hv', hw', htext, fun h => ?_, fun h hne => ⟨fun he => ?_, ?_⟩⟩
  · rw [hv', hw', htext.mpr h]
  · exact hne (htext.mp (Files.encode_injective he))
  · exact Option.some.inj (hv'.symm.trans (h.trans hw'))

/-- A configuration with a mapping inside, and keys out of order in both. -/
def unordered : Value :=
  .record [("b".toList, .int (-2)), ("a".toList, .text "\t😀".toList),
    ("nested".toList, .record [("y".toList, .list []), ("x".toList, .bool true)])]

/-- The same with the keys in order. -/
def ordered : Value :=
  .record [("a".toList, .text "\t😀".toList), ("b".toList, .int (-2)),
    ("nested".toList, .record [("x".toList, .bool true), ("y".toList, .list [])])]

theorem configHash_is_over_canonical_text_of_unordered :
    unordered.IsJson ∧ ordered.IsJson ∧ unordered.EqualUpToOrder ordered ∧
      configHash? unordered = configHash? ordered := by
  have hempty : Value.IsJson (.list []) := .list fun v hv => absurd hv List.not_mem_nil
  have hu : unordered.IsJson := by
    have hinner : Value.IsJson (.record [("y".toList, .list []), ("x".toList, .bool true)]) :=
      Value.isJson_record (by decide)
        (List.forall_mem_cons.mpr ⟨hempty, List.forall_mem_singleton.mpr (.bool true)⟩)
    refine Value.isJson_record (by decide) ?_
    exact List.forall_mem_cons.mpr ⟨.int (-2), List.forall_mem_cons.mpr ⟨.text _,
      List.forall_mem_singleton.mpr hinner⟩⟩
  have ho : ordered.IsJson := by
    have hinner : Value.IsJson (.record [("x".toList, .bool true), ("y".toList, .list [])]) :=
      Value.isJson_record (by decide)
        (List.forall_mem_cons.mpr ⟨.bool true, List.forall_mem_singleton.mpr hempty⟩)
    refine Value.isJson_record (by decide) ?_
    exact List.forall_mem_cons.mpr ⟨.text _, List.forall_mem_cons.mpr ⟨.int (-2),
      List.forall_mem_singleton.mpr hinner⟩⟩
  obtain ⟨t, u, ht, hu', -, -, htext, hsame, -⟩ := configHash_is_over_canonical_text hu ho
  have hwritten : unordered.canonicalJson? = ordered.canonicalJson? := by decide +kernel
  have hequal : unordered.EqualUpToOrder ordered :=
    htext.mp (Option.some.inj (ht.symm.trans (hwritten.trans hu')))
  exact ⟨hu, ho, hequal, hsame hequal⟩

end ApiPages
