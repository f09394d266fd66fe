import ApiPages.Proofs.Inheritance.Nearest
import ApiPages.Proofs.Loading
import ApiPages.Proofs.Text.Lines

/-! The source that the heuristic finds: the entry that the mark names, or else the method of the same
signature on the nearest of the types and namespaces around. -/
namespace ApiPages

open Markup

/-- The last number below a bound for which there is a value gives the value. -/
theorem findSome?_reverse_range {α : Type} {f : Nat → Option α} {bound : Nat} {a : α} :
    (List.range bound).reverse.findSome? f = some a ↔
      ∃ n < bound, f n = some a ∧ ∀ m, n < m → m < bound → f m = none := by
  induction bound with
  | zero => simp
  | succ bound ih =>
    rw [List.range_succ, List.reverse_append, List.reverse_singleton, List.singleton_append,
      List.findSome?_cons]
    cases hlast : f bound with
    | some b =>
      constructor
      · intro h
        exact ⟨bound, Nat.lt_succ_self _, hlast.trans h, fun m hm hb => by omega⟩
      · rintro ⟨n, hn, hvalue, hlater⟩
        rcases Nat.lt_succ_iff_lt_or_eq.mp hn with hn | rfl
        · rw [hlater bound hn (Nat.lt_succ_self _)] at hlast
          cases hlast
        · exact hlast.symm.trans hvalue
    | none =>
      refine ih.trans (exists_congr fun n => ⟨?_, ?_⟩)
      · rintro ⟨hn, hvalue, hlater⟩
        refine ⟨Nat.lt_succ_of_lt hn, hvalue, fun m hm hb => ?_⟩
        rcases Nat.lt_succ_iff_lt_or_eq.mp hb with hb | rfl
        · exact hlater m hm hb
        · exact hlast
      · rintro ⟨hn, hvalue, hlater⟩
        rcases Nat.lt_succ_iff_lt_or_eq.mp hn with hn | rfl
        · exact ⟨hn, hvalue, fun m hm hb => hlater m hm (Nat.lt_succ_of_lt hb)⟩
        · rw [hlast] at hvalue
          cases hvalue

namespace Identifier

/-! ### Methods around -/

/-- The identifier is that of a member of the owner: what precedes its parameters is cut at the last dot,
and the signature is the name behind it with the parameters. -/
structure IsCut (i : Identifier) (owner signature : Text) : Prop where
  id : i.id = owner ++ '.' :: signature
  owner : '(' ∉ owner
  name : '.' ∉ Text.beforeFirst '(' signature

theorem IsCut.beforeFirst {i : Identifier} {owner signature : Text} (h : i.IsCut owner signature) :
    Text.beforeFirst '(' i.id = owner ++ '.' :: Text.beforeFirst '(' signature := by
  have hdot : '(' ∉ ['.'] := by decide
  rw [h.id, Text.beforeFirst_append h.owner]
  exact congrArg (owner ++ ·) (Text.beforeFirst_append hdot signature)

theorem IsCut.cutLast {i : Identifier} {owner signature : Text} (h : i.IsCut owner signature) :
    Text.cutLast '.' (Text.beforeFirst '(' i.id) =
      some (owner, Text.beforeFirst '(' signature) := by
  rw [h.beforeFirst, Text.cutLast_eq_some_iff]
  exact ⟨rfl, h.name⟩

private theorem exists_isCut {i : Identifier} (h : '.' ∈ Text.beforeFirst '(' i.id) :
    ∃ owner signature, i.IsCut owner signature := by
  cases hcut : Text.cutLast '.' (Text.beforeFirst '(' i.id) with
  | none => exact absurd h (Text.cutLast_eq_none_iff.mp hcut)
  | some cut =>
    obtain ⟨owner, name⟩ := cut
    obtain ⟨hhead, hname⟩ := Text.cutLast_eq_some_iff.mp hcut
    obtain ⟨rest, hid, -⟩ := Text.exists_beforeFirst_append '(' i.id
    have howner : '(' ∉ owner ++ ['.'] := by
      have hparen := Text.not_mem_beforeFirst '(' i.id
      rw [hhead, List.mem_append, not_or] at hparen
      rw [List.mem_append, not_or]
      exact ⟨hparen.1, by decide⟩
    rw [hhead, List.append_assoc, List.cons_append] at hid
    have hsignature := Text.beforeFirst_append howner (name ++ rest)
    rw [List.append_assoc, List.singleton_append, ← hid, hhead, List.append_assoc,
      List.append_cancel_left_eq, List.singleton_append, List.cons.injEq] at hsignature
    refine ⟨owner, name ++ rest, hid, fun hm => howner (List.mem_append_left _ hm), ?_⟩
    rw [← hsignature.2]
    exact hname

/-- The method of a signature on the first so many segments of the owner. -/
def methodAround (owner signature : Text) (count : Nat) : Identifier :=
  "M:".toList ++ Text.join ['.'] ((Text.splitOn '.' owner).take count) ++ '.' :: signature

theorem IsCut.outerMethods {i : Identifier} {owner signature : Text} (h : i.IsCut owner signature) :
    Strategy.outerMethods i = (List.range ((Text.splitOn '.' owner).length - 1)).reverse.map
      fun n => methodAround owner signature (n + 1) := by
  have hsignature : i.id.drop (owner.length + 1) = signature := by
    rw [h.id, ← List.drop_drop, List.drop_left, List.drop_one, List.tail_cons]
  rw [Strategy.outerMethods]
  simp only [h.cutLast, hsignature]
  rw [Strategy.properStarts, ← List.map_reverse, List.map_map]
  rfl

/-- On fewer segments than the owner has the method is another one. -/
theorem IsCut.methodAround_ne {i : Identifier} {owner signature : Text}
    (h : i.IsCut owner signature) {count : Nat} (hpos : 1 ≤ count)
    (hless : count < (Text.splitOn '.' owner).length) : methodAround owner signature count ≠ i := by
  intro he
  have hid : i.id = Text.join ['.'] ((Text.splitOn '.' owner).take count) ++ '.' :: signature := by
    rw [← he]
    rfl
  have howner : Text.join ['.'] ((Text.splitOn '.' owner).take count) = owner := by
    rw [h.id] at hid
    exact (List.append_cancel_right hid).symm
  have hfront : (Text.splitOn '.' owner).take count ≠ [] := by
    rw [Ne, List.take_eq_nil_iff, not_or]
    exact ⟨by omega, Text.splitOn_ne_nil '.' owner⟩
  have hback : (Text.splitOn '.' owner).drop count ≠ [] := by
    rw [Ne, List.drop_eq_nil_iff]
    omega
  have hwhole := Text.join_append ['.'] hfront hback
  rw [List.take_append_drop, Text.join_splitOn, howner] at hwhole
  have hlength := congrArg List.length hwhole
  simp only [List.length_append, List.length_singleton] at hlength
  omega

end Identifier

namespace Strategy

/-! ### Marks -/

/-- The first mark of the entry names the source. -/
def Names (e source : Entry) : Prop :=
  ∃ mark cref, e.element.child? inheritTag = some mark ∧ mark.attr? "cref".toList = some cref ∧
    source.identifier = Text.trim cref

private theorem Names.explicitSource_eq {e source : Entry} (h : Names e source) :
    explicitSource e = source.identifier := by
  obtain ⟨mark, cref, hmark, hcref, hsource⟩ := h
  rw [hsource, explicitSource]
  simp only [hmark, Element.attr, hcref, Option.getD_some]

private theorem names_of_explicitSource {e source : Entry} (hne : source.identifier ≠ [])
    (h : explicitSource e = source.identifier) : Names e source := by
  rw [← h] at hne
  rw [explicitSource] at h hne
  cases hmark : e.element.child? inheritTag with
  | none => simp [hmark] at hne
  | some mark =>
    simp only [hmark, Element.attr] at h hne
    cases hcref : mark.attr? "cref".toList with
    | none =>
      rw [hcref] at hne
      exact absurd rfl hne
    | some cref =>
      rw [hcref] at h
      exact ⟨mark, cref, hmark, hcref, h.symm⟩

variable {root : Element} {e source : Entry}

private theorem identifier_ne_nil (h : source ∈ (Catalog.ofDocument root).entries) :
    source.identifier ≠ [] := by
  have hget := Catalog.get?_eq_some_iff.mpr ⟨h, rfl⟩
  have hnamed := (Catalog.get?_ofDocument_eq_some_iff.mp hget).1.named
  intro he
  rw [he] at hnamed
  cases hnamed

private theorem heuristic_of_names (hsource : source ∈ (Catalog.ofDocument root).entries)
    (h : Names e source) : heuristic (Catalog.ofDocument root) e = some source := by
  have hne := List.isEmpty_eq_false_iff.mpr (identifier_ne_nil hsource)
  rw [heuristic, h.explicitSource_eq, hne, if_neg Bool.false_ne_true,
    Catalog.get?_eq_some_iff.mpr ⟨hsource, rfl⟩]

private theorem heuristic_of_not_names
    (h : ∀ source ∈ (Catalog.ofDocument root).entries, ¬ Names e source) :
    heuristic (Catalog.ofDocument root) e = nearest (Catalog.ofDocument root) e := by
  rw [heuristic]
  split
  · next found hfound =>
    split at hfound
    · cases hfound
    · obtain ⟨hmem, hidentifier⟩ := Catalog.get?_eq_some_iff.mp hfound
      have hnames := names_of_explicitSource (identifier_ne_nil hmem) hidentifier.symm
      exact absurd hnames (h found hmem)
  · rfl

/-! ### The nearest method around -/

/-- The source is the method on the longest beginning of the owner, short of the whole, that the catalogue
has. -/
def IsNearest (catalog : Catalog) (owner signature : Text) (source : Entry) : Prop :=
  ∃ count, 1 ≤ count ∧ count < (Text.splitOn '.' owner).length ∧ source ∈ catalog.entries ∧
    source.identifier = Identifier.methodAround owner signature count ∧
    ∀ more, count < more → more < (Text.splitOn '.' owner).length →
      Identifier.methodAround owner signature more ∉ catalog.identifiers

private theorem get?_eq_none_iff {catalog : Catalog} {i : Identifier} :
    catalog.get? i = none ↔ i ∉ catalog.identifiers := by
  rw [Catalog.get?, List.find?_eq_none, Catalog.identifiers, List.mem_map, not_exists]
  refine forall_congr' fun found => ?_
  rw [beq_iff_eq, not_and]

section

variable {owner signature : Text} (hcut : e.identifier.IsCut owner signature)

include hcut

private theorem nearest_eq (catalog : Catalog) :
    nearest catalog e = (List.range ((Text.splitOn '.' owner).length - 1)).reverse.findSome?
      fun n => catalog.get? (Identifier.methodAround owner signature (n + 1)) := by
  have hother : ∀ n ∈ (List.range ((Text.splitOn '.' owner).length - 1)).reverse,
      (catalog.get? (Identifier.methodAround owner signature (n + 1))).filter
          (fun found => found.identifier ≠ e.identifier) =
        catalog.get? (Identifier.methodAround owner signature (n + 1)) := by
    intro n hn
    have hless := List.mem_range.mp (List.mem_reverse.mp hn)
    cases hget : catalog.get? (Identifier.methodAround owner signature (n + 1)) with
    | none => rfl
    | some found =>
      -- What is found under the identifier of another entry is another entry.
      refine (Option.filter_some).trans (if_pos (decide_eq_true ?_))
      rw [Catalog.identifier_of_get? hget]
      exact hcut.methodAround_ne (Nat.succ_pos n) (by omega)
  rw [nearest, hcut.outerMethods, List.findSome?_map, ← List.head?_filterMap,
    ← List.head?_filterMap]
  exact congrArg List.head? (List.filterMap_congr hother)

private theorem nearest_eq_some_iff : nearest (Catalog.ofDocument root) e = some source ↔
    IsNearest (Catalog.ofDocument root) owner signature source := by
  rw [nearest_eq hcut, findSome?_reverse_range]
  constructor
  · rintro ⟨n, hn, hget, hlater⟩
    obtain ⟨hmem, hidentifier⟩ := Catalog.get?_eq_some_iff.mp hget
    refine ⟨n + 1, Nat.succ_pos n, by omega, hmem, hidentifier, fun more hmore hless => ?_⟩
    obtain ⟨m, rfl⟩ := Nat.exists_eq_succ_of_ne_zero (n := more) (by omega)
    exact get?_eq_none_iff.mp (hlater m (by omega) (by omega))
  · rintro ⟨count, hpos, hless, hmem, hidentifier, hlater⟩
    obtain ⟨n, rfl⟩ := Nat.exists_eq_succ_of_ne_zero (n := count) (by omega)
    refine ⟨n, by omega, Catalog.get?_eq_some_iff.mpr ⟨hmem, hidentifier⟩, fun m hm hb => ?_⟩
    exact get?_eq_none_iff.mpr (hlater (m + 1) (by omega) (by omega))

private theorem nearest_eq_none_iff : nearest (Catalog.ofDocument root) e = none ↔
    ∀ count, 1 ≤ count → count < (Text.splitOn '.' owner).length →
      Identifier.methodAround owner signature count ∉ (Catalog.ofDocument root).identifiers := by
  rw [nearest_eq hcut, List.findSome?_eq_none_iff]
  constructor
  · intro h count hpos hless
    obtain ⟨n, rfl⟩ := Nat.exists_eq_succ_of_ne_zero (n := count) (by omega)
    exact get?_eq_none_iff.mp (h n (List.mem_reverse.mpr (List.mem_range.mpr (by omega))))
  · intro h n hn
    have hless := List.mem_range.mp (List.mem_reverse.mp hn)
    exact get?_eq_none_iff.mpr (h (n + 1) (Nat.succ_pos n) (by omega))

end

private theorem nearest_of_not_mem (h : '.' ∉ Text.beforeFirst '(' e.identifier.id) (catalog : Catalog) :
    nearest catalog e = none := by
  rw [nearest, outerMethods]
  simp only [Text.cutLast_eq_none_iff.mpr h]
  rfl

/-- An entry inherits from the entry that its first mark names. Where the mark names none, the part of
its identifier before the parameters is cut at the last dot, and it inherits from the method of the same
signature on the longest beginning of the owner that has one, which is never the entry itself. -/
theorem nearest_method_around_is_found (root : Element) (e : Entry) :
    let catalog := Catalog.ofDocument root
    (∀ source ∈ catalog.entries, Names e source → heuristic catalog e = some source) ∧
    ((∀ source ∈ catalog.entries, ¬ Names e source) →
      ('.' ∉ Text.beforeFirst '(' e.identifier.id ∧ heuristic catalog e = none ∨
        ∃ owner signature, e.identifier.IsCut owner signature ∧
          (∀ source, heuristic catalog e = some source ↔
            IsNearest catalog owner signature source) ∧
          (heuristic catalog e = none ↔
            ∀ count, 1 ≤ count → count < (Text.splitOn '.' owner).length →
              Identifier.methodAround owner signature count ∉ catalog.identifiers)) ∧
      ∀ source, heuristic catalog e = some source → source.identifier ≠ e.identifier) := by
  intro catalog
  refine ⟨fun source => heuristic_of_names, fun hnone => ?_⟩
  rw [heuristic_of_not_names hnone]
  by_cases hdot : '.' ∈ Text.beforeFirst '(' e.identifier.id
  · obtain ⟨owner, signature, hcut⟩ := Identifier.exists_isCut hdot
    refine ⟨.inr ⟨owner, signature, hcut, fun source => nearest_eq_some_iff hcut,
      nearest_eq_none_iff hcut⟩, fun source hsource => ?_⟩
    obtain ⟨count, hpos, hless, -, hidentifier, -⟩ := (nearest_eq_some_iff hcut).mp hsource
    rw [hidentifier]
    exact hcut.methodAround_ne hpos hless
  · refine ⟨.inl ⟨hdot, nearest_of_not_mem hdot catalog⟩, fun source hsource => ?_⟩
    rw [nearest_of_not_mem hdot] at hsource
    cases hsource

open Inheritance in
/-- Three methods of one signature on types around one another, with references to nothing and to the
outermost type. -/
def enclosing : Element :=
  ⟨"doc".toList, [], [],
    [inheriting "M:A.B.C.Run(System.Int32)" "M:A.Gone" [], inheriting "M:A.B.Run(System.Int32)" "" [],
      inheriting "M:A.Run(System.Int32)" " T:A " [], inheriting "T:A" "" []],
    []⟩

theorem nearest_method_around_is_found_past_dangling_reference :
    let catalog := Catalog.ofDocument enclosing
    ∃ inner middle outer type, catalog.entries = [inner, middle, outer, type] ∧
      Names outer type ∧ heuristic catalog outer = some type ∧
      (∀ source ∈ catalog.entries, ¬ Names inner source) ∧
      IsNearest catalog "A.B.C".toList "Run(System.Int32)".toList middle ∧
      heuristic catalog inner = some middle := by
  intro catalog
  obtain ⟨inner, middle, outer, type, hentries, hinner, hmiddle, houter, hgone⟩ :
      ∃ inner middle outer type, catalog.entries = [inner, middle, outer, type] ∧
        inner.identifier = "M:A.B.C.Run(System.Int32)".toList ∧
        middle.identifier = Identifier.methodAround "A.B.C".toList "Run(System.Int32)".toList 2 ∧
        Names outer type ∧ explicitSource inner ∉ catalog.identifiers :=
    ⟨_, _, _, _, rfl, rfl, rfl, ⟨_, _, rfl, rfl, rfl⟩, by decide +kernel⟩
  have hmem : ∀ e ∈ [inner, middle, outer, type], e ∈ catalog.entries := by
    rw [hentries]
    exact fun _ => id
  have hnone : ∀ source ∈ catalog.entries, ¬ Names inner source := by
    intro source hsource hnames
    rw [hnames.explicitSource_eq] at hgone
    exact hgone (List.mem_map_of_mem hsource)
  have hnearest : IsNearest catalog "A.B.C".toList "Run(System.Int32)".toList middle := by
    refine ⟨2, by decide, by decide, hmem middle (by simp), hmiddle, fun more hmore hless => ?_⟩
    exact absurd hless (Nat.not_lt.mpr hmore)
  obtain ⟨hexplicit, -⟩ := nearest_method_around_is_found enclosing outer
  obtain ⟨-, hwalk⟩ := nearest_method_around_is_found enclosing inner
  obtain ⟨⟨hdot, -⟩ | ⟨owner, signature, hcut, hfound, -⟩, -⟩ := hwalk hnone
  · rw [hinner] at hdot
    exact absurd (by decide +kernel) hdot
  · have hsegments := hcut.cutLast
    rw [hinner] at hsegments
    have hparts := hsegments.symm.trans (rfl : _ = some ("A.B.C".toList, "Run".toList))
    obtain ⟨rfl, -⟩ := Prod.mk.inj (Option.some.inj hparts)
    have hid := hcut.id
    rw [hinner] at hid
    have hbehind : "A.B.C".toList ++ '.' :: "Run(System.Int32)".toList =
        "A.B.C".toList ++ '.' :: signature := hid
    obtain ⟨-, rfl⟩ := List.cons.inj (List.append_cancel_left hbehind)
    exact ⟨inner, middle, outer, type, hentries, houter, hexplicit type (hmem type (by simp)) houter,
      hnone, hnearest, (hfound middle).mpr hnearest⟩

end Strategy
end ApiPages
