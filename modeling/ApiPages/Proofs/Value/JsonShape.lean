import ApiPages.Proofs.Order
import ApiPages.Proofs.Value.JsonString
import ApiPages.Proofs.Value.Overlay
import Mathlib.Data.List.Forall2

/-! The JSON of a value on one line, part by part: its items and its members in the order of their
keys. -/
namespace ApiPages

section Rows

variable {α β γ : Type} {R : α → β → Prop} {S : γ → β → Prop}

private theorem exists_forall₂ {xs : List α} (h : ∀ x ∈ xs, ∃ y, R x y) :
    ∃ ys, List.Forall₂ R xs ys := by
  induction xs with
  | nil => exact ⟨[], .nil⟩
  | cons x xs ih =>
    obtain ⟨⟨y, hy⟩, hxs⟩ := List.forall_mem_cons.mp h
    obtain ⟨ys, hys⟩ := ih hxs
    exact ⟨y :: ys, .cons hy hys⟩

theorem exists_of_mem_forall₂ {xs : List α} {ys : List β} (h : List.Forall₂ R xs ys) {y : β}
    (hy : y ∈ ys) : ∃ x ∈ xs, R x y := by
  induction h with
  | nil => cases hy
  | @cons x first xs ys hfirst _ ih =>
    rcases List.mem_cons.mp hy with rfl | hy
    · exact ⟨x, List.mem_cons_self, hfirst⟩
    · obtain ⟨z, hz, hzy⟩ := ih hy
      exact ⟨z, List.mem_cons_of_mem x hz, hzy⟩

/-- Two rows beside a common third stand beside each other. -/
theorem forall₂_of_common {Q : α → γ → Prop} {xs : List α} {ys : List β} {zs : List γ}
    (hxs : List.Forall₂ R xs ys) (hzs : List.Forall₂ S zs ys)
    (h : ∀ x ∈ xs, ∀ z ∈ zs, ∀ y ∈ ys, R x y → S z y → Q x z) : List.Forall₂ Q xs zs := by
  induction hxs generalizing zs with
  | nil =>
    cases hzs
    exact .nil
  | cons hx _ ih =>
    cases hzs with
    | cons hz hzs =>
      have hfirst := h _ List.mem_cons_self _ List.mem_cons_self _ List.mem_cons_self hx hz
      refine .cons hfirst (ih hzs fun x hx z hz y hy => ?_)
      exact h x (List.mem_cons_of_mem _ hx) z (List.mem_cons_of_mem _ hz) y (List.mem_cons_of_mem _ hy)

end Rows

namespace Value

/-- The same key over parts in a relation. -/
def WithKey {α β : Type} (R : α → β → Prop) (a : Scalar × α) (b : Scalar × β) : Prop :=
  a.1 = b.1 ∧ R a.2 b.2

/-- Null, truth values, integers, texts, lists, and mappings whose keys are texts and stand once. -/
inductive IsJson : Value → Prop where
  | null : IsJson (.scalar .null)
  | bool (b : Bool) : IsJson (.scalar (.bool b))
  | int (i : Int) : IsJson (.scalar (.int i))
  | text (t : Text) : IsJson (.scalar (.text t))
  | list {items : List Value} (h : ∀ v ∈ items, IsJson v) : IsJson (.list items)
  | mapping {entries : Entries} (hdistinct : entries.DistinctKeys)
      (hkeys : ∀ e ∈ entries, ∃ t, e.1 = .text t) (h : ∀ e ∈ entries, IsJson e.2) :
      IsJson (.mapping entries)

theorem forall₂_withKey {α β : Type} {R : α → β → Prop} {xs : List (Scalar × α)}
    {ys : List (Scalar × β)} :
    List.Forall₂ (WithKey R) xs ys ↔
      xs.map Prod.fst = ys.map Prod.fst ∧ List.Forall₂ R (xs.map Prod.snd) (ys.map Prod.snd) := by
  induction xs generalizing ys with
  | nil => cases ys <;> simp
  | cons x xs ih =>
    cases ys with
    | nil => simp
    | cons y ys =>
      rw [List.forall₂_cons, ih, WithKey]
      simp only [List.map_cons, List.forall₂_cons, List.cons.injEq]
      tauto

/-- Fields under different names make a JSON value of JSON values. -/
theorem isJson_record {fields : List (Text × Value)} (hdistinct : (fields.map Prod.fst).Nodup)
    (h : ∀ field ∈ fields, field.2.IsJson) : IsJson (.record fields) := by
  refine .mapping ?_ (fun e he => ?_) (fun e he => ?_)
  · have hkeys : Entries.keys (fields.map fun field => (Scalar.text field.1, field.2)) =
        (fields.map Prod.fst).map fun t => (Scalar.text t).key := by
      rw [Entries.keys, List.map_map, List.map_map]
      rfl
    have hinj : Function.Injective fun t => (Scalar.text t).key := fun _ _ h =>
      Scalar.text.inj (Scalar.key_eq_text_iff.mp h)
    rw [Entries.DistinctKeys, hkeys]
    exact List.Nodup.map hinj hdistinct
  · obtain ⟨field, -, rfl⟩ := List.mem_map.mp he
    exact ⟨field.1, rfl⟩
  · obtain ⟨field, hfield, rfl⟩ := List.mem_map.mp he
    exact h field hfield

def WrittenAs (v : Value) (t : Text) : Prop := v.canonicalJson? = some t

theorem WrittenAs.unique {v : Value} {t u : Text} (ht : v.WrittenAs t) (hu : v.WrittenAs u) : t = u :=
  Option.some.inj (ht.symm.trans hu)

private theorem canonicalItems?_eq_some {items : List Value} {parts : List Text} :
    canonicalItems? items = some parts ↔ List.Forall₂ WrittenAs items parts := by
  induction items generalizing parts with
  | nil => cases parts <;> simp [canonicalItems?]
  | cons v vs ih =>
    simp only [canonicalItems?, Option.bind_eq_bind, Option.bind_eq_some_iff, ih,
      List.forall₂_cons_left_iff]
    constructor
    · rintro ⟨t, ht, ts, hts, h⟩
      exact ⟨t, ts, ht, hts, (Option.some.inj h).symm⟩
    · rintro ⟨t, ts, ht, hts, rfl⟩
      exact ⟨t, ht, ts, hts, rfl⟩

private theorem canonicalEntries?_eq_some {entries : Entries} {written : List (Scalar × Text)} :
    canonicalEntries? entries = some written ↔
      List.Forall₂ (WithKey WrittenAs) entries written := by
  induction entries generalizing written with
  | nil => cases written <;> simp [canonicalEntries?]
  | cons e es ih =>
    simp only [canonicalEntries?, Option.bind_eq_bind, Option.bind_eq_some_iff, ih,
      List.forall₂_cons_left_iff]
    constructor
    · rintro ⟨t, ht, ts, hts, h⟩
      exact ⟨(e.1, t), ts, ⟨rfl, ht⟩, hts, (Option.some.inj h).symm⟩
    · rintro ⟨⟨key, t⟩, ts, ⟨rfl, ht⟩, hts, rfl⟩
      exact ⟨t, ht, ts, hts, rfl⟩

theorem writtenAs_list {items : List Value} {t : Text} :
    WrittenAs (.list items) t ↔ ∃ parts, List.Forall₂ WrittenAs items parts ∧
      t = '[' :: Text.join ", ".toList parts ++ [']'] := by
  simp only [WrittenAs, canonicalJson?, Option.bind_eq_bind, Option.bind_eq_some_iff,
    canonicalItems?_eq_some]
  refine exists_congr fun parts => and_congr_right fun _ => ?_
  exact ⟨fun h => (Option.some.inj h).symm, fun h => h ▸ rfl⟩

section Writable

private theorem mapM_isSome {α β : Type} (f : α → Option β) (xs : List α) :
    (xs.mapM f).isSome = true ↔ ∀ x ∈ xs, (f x).isSome = true := by
  induction xs with
  | nil => simp
  | cons x xs ih =>
    rw [List.mapM_cons, List.forall_mem_cons, ← ih]
    cases f x with
    | none => simp
    | some y => cases xs.mapM f <;> simp

/-- The keys can be put in order, and each of them can be written. -/
def KeysWritable (keys : List Scalar) : Prop :=
  (2 ≤ keys.length → ∀ key ∈ keys, ∀ first ∈ keys.head?, (keyLe? first key).isSome = true) ∧
    ∀ key ∈ keys, (jsonKey? key).isSome = true

private theorem sortByKey?_isSome {α : Type} (entries : List (Scalar × α)) :
    (sortByKey? entries).isSome = true ↔ (2 ≤ (entries.map Prod.fst).length →
      ∀ key ∈ entries.map Prod.fst, ∀ first ∈ (entries.map Prod.fst).head?,
        (keyLe? first key).isSome = true) := by
  match entries with
  | [] => simp [sortByKey?]
  | [entry] => simp [sortByKey?]
  | entry :: next :: rest =>
    rw [sortByKey?]
    · rw [Option.isSome_ite, List.all_eq_true]
      simp
    · simp

private theorem perm_of_sortByKey? {α : Type} {entries sorted : List (Scalar × α)}
    (h : sortByKey? entries = some sorted) : sorted.Perm entries := by
  unfold sortByKey? at h
  split at h
  · exact Option.some.inj h ▸ .refl _
  · exact Option.some.inj h ▸ .refl _
  · split at h
    · exact Option.some.inj h ▸ sortBy_perm _ _
    · cases h

/-- A mapping can be written when its values and its keys can be. -/
theorem isSome_canonicalJson?_mapping (entries : Entries) :
    (Value.mapping entries).canonicalJson?.isSome = true ↔
      (∀ entry ∈ entries, entry.2.canonicalJson?.isSome = true) ∧
        KeysWritable (entries.map Prod.fst) := by
  have hmember {written : List (Scalar × Text)} :
      (written.mapM jsonMember?).isSome = true ↔
        ∀ key ∈ written.map Prod.fst, (jsonKey? key).isSome = true := by
    rw [mapM_isSome, List.forall_mem_map]
    simp [jsonMember?]
  constructor
  · intro h
    obtain ⟨t, ht⟩ := Option.isSome_iff_exists.mp h
    simp only [canonicalJson?, Option.bind_eq_bind, Option.bind_eq_some_iff,
      canonicalEntries?_eq_some] at ht
    obtain ⟨written, hwritten, sorted, hsorted, members, hmembers, -⟩ := ht
    have hkeys := (forall₂_withKey.mp hwritten).1
    refine ⟨fun entry hentry => ?_, ?_, ?_⟩
    · obtain ⟨x, -, -, hx⟩ := exists_of_mem_forall₂ hwritten.flip hentry
      exact Option.isSome_iff_exists.mpr ⟨x.2, hx⟩
    · rw [hkeys]
      exact (sortByKey?_isSome written).mp (hsorted ▸ rfl)
    · rw [hkeys]
      intro key hkey
      have hperm := (perm_of_sortByKey? hsorted).map Prod.fst
      exact hmember.mp (hmembers ▸ rfl) key (hperm.mem_iff.mpr hkey)
  · rintro ⟨hvalues, hsort, hkey⟩
    have hwritable : ∀ entry ∈ entries, ∃ x, WithKey WrittenAs entry x := fun entry hentry =>
      (Option.isSome_iff_exists.mp (hvalues entry hentry)).imp' (Prod.mk entry.1) fun _ ht => ⟨rfl, ht⟩
    obtain ⟨written, hwritten⟩ := exists_forall₂ hwritable
    have hkeys := (forall₂_withKey.mp hwritten).1
    rw [hkeys] at hsort hkey
    obtain ⟨sorted, hsorted⟩ := Option.isSome_iff_exists.mp ((sortByKey?_isSome written).mpr hsort)
    have hperm := (perm_of_sortByKey? hsorted).map Prod.fst
    obtain ⟨members, hmembers⟩ := Option.isSome_iff_exists.mp
      (hmember.mpr fun key h => hkey key (hperm.mem_iff.mp h))
    simp [canonicalJson?, canonicalEntries?_eq_some.mpr hwritten, hsorted, hmembers]

end Writable

/-- One member of a mapping in JSON, under a key that is a text. -/
def member (x : Scalar × Text) : Text := jsonString x.1.plain ++ ':' :: ' ' :: x.2

def byKey (x y : Scalar × Text) : Bool := Text.le x.1.plain y.1.plain

variable {written : List (Scalar × Text)}

private theorem sortByKey?_of_texts (hkeys : ∀ x ∈ written, ∃ t, x.1 = .text t) :
    sortByKey? written = some (sortBy byKey written) := by
  have hle : ∀ x ∈ written, ∀ y ∈ written, keyLe? x.1 y.1 = some (byKey x y) := by
    intro x hx y hy
    obtain ⟨t, ht⟩ := hkeys x hx
    obtain ⟨u, hu⟩ := hkeys y hy
    rw [byKey, ht, hu]
    rfl
  match written with
  | [] => rfl
  | [x] => rfl
  | x :: y :: rest =>
    have hall : ((x :: y :: rest).all fun other => (keyLe? x.1 other.1).isSome) = true := by
      refine List.all_eq_true.mpr fun z hz => ?_
      rw [hle x List.mem_cons_self z hz]
      rfl
    rw [sortByKey?, if_pos hall, sortBy_congr fun x hx y hy => by rw [hle x hx y hy, Option.getD_some]]
    exact List.cons_ne_nil y rest

private theorem mapM_jsonMember? (hkeys : ∀ x ∈ written, ∃ t, x.1 = .text t) :
    written.mapM jsonMember? = some (written.map member) := by
  induction written with
  | nil => rfl
  | cons x xs ih =>
    obtain ⟨⟨t, ht⟩, hxs⟩ := List.forall_mem_cons.mp hkeys
    have hx : jsonMember? x = some (member x) := by
      rw [jsonMember?, member, ht]
      rfl
    rw [List.mapM_cons, hx, ih hxs]
    rfl

theorem eq_of_plain_eq {a b : Scalar} (ha : ∃ t, a = .text t) (hb : ∃ t, b = .text t)
    (h : a.plain = b.plain) : a = b := by
  obtain ⟨t, rfl⟩ := ha
  obtain ⟨u, rfl⟩ := hb
  exact congrArg Scalar.text h

theorem texts_of_forall₂ {entries : Entries} (hkeys : ∀ e ∈ entries, ∃ t, e.1 = .text t)
    (h : List.Forall₂ (WithKey WrittenAs) entries written) :
    ∀ x ∈ written, ∃ t, x.1 = .text t := by
  intro x hx
  obtain ⟨e, he, hkey, -⟩ := exists_of_mem_forall₂ h hx
  exact hkey ▸ hkeys e he

theorem writtenAs_mapping {entries : Entries} (hkeys : ∀ e ∈ entries, ∃ t, e.1 = .text t)
    {t : Text} : WrittenAs (.mapping entries) t ↔
      ∃ written, List.Forall₂ (WithKey WrittenAs) entries written ∧
        t = '\x7b' :: Text.join ", ".toList ((sortBy byKey written).map member) ++ ['\x7d'] := by
  simp only [WrittenAs, canonicalJson?, Option.bind_eq_bind, Option.bind_eq_some_iff,
    canonicalEntries?_eq_some]
  refine exists_congr fun written => and_congr_right fun hwritten => ?_
  have htexts := texts_of_forall₂ hkeys hwritten
  have hsorted : ∀ x ∈ sortBy byKey written, ∃ t, x.1 = .text t := fun x hx =>
    htexts x ((sortBy_perm byKey written).mem_iff.mp hx)
  simp only [sortByKey?_of_texts htexts, Option.some.injEq, exists_eq_left', mapM_jsonMember? hsorted]
  exact ⟨fun h => (Option.some.inj h).symm, fun h => h ▸ rfl⟩

theorem IsJson.exists_writtenAs {v : Value} (h : v.IsJson) : ∃ t, v.WrittenAs t := by
  induction h with
  | list _ ih =>
    obtain ⟨parts, hparts⟩ := exists_forall₂ ih
    exact ⟨_, writtenAs_list.mpr ⟨parts, hparts, rfl⟩⟩
  | @mapping entries _ hkeys _ ih =>
    have hmembers : ∀ e ∈ entries, ∃ x, WithKey WrittenAs e x := fun e he =>
      (ih e he).imp' (Prod.mk e.1) fun _ ht => ⟨rfl, ht⟩
    obtain ⟨written, hwritten⟩ := exists_forall₂ hmembers
    exact ⟨_, (writtenAs_mapping hkeys).mpr ⟨written, hwritten, rfl⟩⟩
  | _ => exact ⟨_, rfl⟩

theorem IsJson.isAscii {v : Value} (hv : v.IsJson) {t : Text} (ht : v.WrittenAs t) : t.IsAscii := by
  induction hv generalizing t with
  | null => exact Option.some.inj ht ▸ by decide
  | bool b => cases b <;> exact Option.some.inj ht ▸ by decide
  | int i => exact Option.some.inj ht ▸ Text.isAscii_ofInt i
  | text a => exact Option.some.inj ht ▸ isAscii_jsonString a
  | list _ ih =>
    obtain ⟨parts, hparts, rfl⟩ := writtenAs_list.mp ht
    have hinside : Text.IsAscii (Text.join ", ".toList parts) := by
      refine Text.IsAscii.join (by decide) fun t ht => ?_
      obtain ⟨v, hv, hvt⟩ := exists_of_mem_forall₂ hparts ht
      exact ih v hv hvt
    exact (hinside.cons (by decide)).append (by decide)
  | mapping _ hkeys _ ih =>
    obtain ⟨written, hwritten, rfl⟩ := (writtenAs_mapping hkeys).mp ht
    have hinside : Text.IsAscii (Text.join ", ".toList ((sortBy byKey written).map member)) := by
      refine Text.IsAscii.join (by decide) fun t ht => ?_
      obtain ⟨x, hx, rfl⟩ := List.mem_map.mp ht
      obtain ⟨e, he, hex⟩ := exists_of_mem_forall₂ hwritten ((sortBy_perm _ _).mem_iff.mp hx)
      exact (isAscii_jsonString _).append (((ih e he hex.2).cons (by decide)).cons (by decide))
    exact (hinside.cons (by decide)).append (by decide)

end Value
end ApiPages
