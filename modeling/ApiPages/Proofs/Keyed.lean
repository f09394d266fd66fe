import Mathlib.Data.List.Induction
import Mathlib.Data.List.Nodup

/-! Lists with keys: an element takes the place of the one with its key, or it comes last. -/
namespace ApiPages.Keyed

variable {α κ : Type} [DecidableEq κ]

/-- The list with the element of a key exchanged, or with a new one at the end. -/
def exchange (key : α → κ) (k : κ) (f : Option α → α) : List α → List α
  | [] => [f none]
  | x :: xs => if key x = k then f (some x) :: xs else x :: exchange key k f xs

/-- The keys with one more, which keeps its place when it was there. -/
def withKey (ks : List κ) (k : κ) : List κ := if k ∈ ks then ks else ks ++ [k]

theorem nodup_withKey {ks : List κ} (h : ks.Nodup) (k : κ) : (withKey ks k).Nodup := by
  rw [withKey]
  split
  · exact h
  · next hn =>
    refine List.nodup_append.mpr ⟨h, List.nodup_singleton k, ?_⟩
    rintro a ha b hb rfl
    rw [List.mem_singleton.mp hb] at ha
    exact hn ha

theorem mem_withKey {ks : List κ} {k a : κ} : a ∈ withKey ks k ↔ a ∈ ks ∨ a = k := by
  rw [withKey]
  split
  · next hm =>
    constructor
    · exact Or.inl
    · rintro (ha | rfl)
      · exact ha
      · exact hm
  · rw [List.mem_append, List.mem_singleton]

variable {key : α → κ} {k : κ} {f : Option α → α}

theorem keys_exchange (hnone : key (f none) = k) (hsome : ∀ x, key x = k → key (f (some x)) = k)
    (xs : List α) : (exchange key k f xs).map key = withKey (xs.map key) k := by
  induction xs with
  | nil => simp [exchange, withKey, hnone]
  | cons x xs ih =>
    rw [exchange]
    by_cases h : key x = k
    · simp [withKey, h, hsome x h]
    · have hmem : k ∈ (x :: xs).map key ↔ k ∈ xs.map key := by simp [Ne.symm h]
      rw [if_neg h, List.map_cons, ih, withKey, withKey]
      simp only [hmem]
      split <;> rfl

/-- An element behind the exchange has another key, or it is the exchanged one, or the new one. -/
theorem mem_exchange {xs : List α} (hkeys : (xs.map key).Nodup) {x : α}
    (h : x ∈ exchange key k f xs) :
    (x ∈ xs ∧ key x ≠ k) ∨ (∃ former ∈ xs, key former = k ∧ x = f (some former)) ∨
      (k ∉ xs.map key ∧ x = f none) := by
  induction xs with
  | nil => exact Or.inr (Or.inr ⟨List.not_mem_nil, List.mem_singleton.mp h⟩)
  | cons first rest ih =>
    obtain ⟨hfirst, hrest⟩ := List.nodup_cons.mp hkeys
    rw [exchange] at h
    by_cases hk : key first = k
    · rw [if_pos hk] at h
      rcases List.mem_cons.mp h with rfl | h
      · exact Or.inr (Or.inl ⟨first, List.mem_cons_self, hk, rfl⟩)
      · refine Or.inl ⟨List.mem_cons_of_mem _ h, fun he => hfirst ?_⟩
        rw [hk, ← he]
        exact List.mem_map_of_mem h
    · rw [if_neg hk] at h
      rcases List.mem_cons.mp h with rfl | h
      · exact Or.inl ⟨List.mem_cons_self, hk⟩
      · rcases ih hrest h with ⟨hm, hn⟩ | ⟨former, hm, hf⟩ | ⟨hn, hx⟩
        · exact Or.inl ⟨List.mem_cons_of_mem _ hm, hn⟩
        · exact Or.inr (Or.inl ⟨former, List.mem_cons_of_mem _ hm, hf⟩)
        · refine Or.inr (Or.inr ⟨?_, hx⟩)
          rw [List.map_cons, List.mem_cons, not_or]
          exact ⟨Ne.symm hk, hn⟩

theorem exchange_of_notMem {xs : List α} (h : k ∉ xs.map key) :
    exchange key k f xs = xs ++ [f none] := by
  induction xs with
  | nil => rfl
  | cons x xs ih =>
    rw [List.map_cons, List.mem_cons, not_or] at h
    rw [exchange, if_neg (Ne.symm h.1), ih h.2]
    rfl

/-- The keys of a row of elements, each where it first comes. -/
def firstKeys (key : α → κ) (xs : List α) : List κ :=
  xs.foldl (fun ks x => withKey ks (key x)) []

private theorem firstKeys_concat (xs : List α) (x : α) :
    firstKeys key (xs ++ [x]) = withKey (firstKeys key xs) (key x) := by
  rw [firstKeys, List.foldl_append]
  rfl

theorem mem_firstKeys {xs : List α} : k ∈ firstKeys key xs ↔ ∃ x ∈ xs, key x = k := by
  induction xs using List.reverseRec with
  | nil => simp [firstKeys]
  | append_singleton xs x ih =>
    rw [firstKeys_concat, mem_withKey, ih]
    simp only [List.mem_append, List.mem_singleton, or_and_right, exists_or, exists_eq_left]
    exact or_congr_right eq_comm

/-- In a row whose elements come one before the other, the keys are ordered by where they first come:
some element of a key comes before every element of a later key. -/
theorem pairwise_firstKeys (key : α → κ) {before : α → α → Prop} {xs : List α} (h : xs.Pairwise before) :
    (firstKeys key xs).Pairwise fun a b =>
      ∃ x ∈ xs, key x = a ∧ ∀ y ∈ xs, key y = b → before x y := by
  induction xs using List.reverseRec with
  | nil => exact List.Pairwise.nil
  | append_singleton xs z ih =>
    obtain ⟨hxs, -, hz⟩ := List.pairwise_append.mp h
    have hlast (x : α) (hx : x ∈ xs) : before x z := hz x hx z List.mem_cons_self
    have hformer : (firstKeys key xs).Pairwise fun a b =>
        ∃ x ∈ xs ++ [z], key x = a ∧ ∀ y ∈ xs ++ [z], key y = b → before x y := by
      refine (ih hxs).imp ?_
      rintro a b ⟨x, hx, ha, hb⟩
      refine ⟨x, List.mem_append_left _ hx, ha, fun y hy hyb => ?_⟩
      rcases List.mem_append.mp hy with hy | hy
      · exact hb y hy hyb
      · rw [List.mem_singleton.mp hy]
        exact hlast x hx
    rw [firstKeys_concat, withKey]
    split
    · exact hformer
    · next hnew =>
      refine List.pairwise_append.mpr ⟨hformer, List.pairwise_singleton _ _, fun a ha b hb => ?_⟩
      obtain ⟨x, hx, rfl⟩ := mem_firstKeys.mp ha
      rw [List.mem_singleton.mp hb]
      refine ⟨x, List.mem_append_left _ hx, rfl, fun y hy hyz => ?_⟩
      rcases List.mem_append.mp hy with hy | hy
      · exact absurd (mem_firstKeys.mpr ⟨y, hy, hyz⟩) hnew
      · rw [List.mem_singleton.mp hy]
        exact hlast x hx

section Lookup

variable {κ ν : Type} [BEq κ] [LawfulBEq κ] [DecidableEq κ]

/-- Under its own key an element is found that took the place of another or came last; under other keys
nothing changes. -/
theorem find?_exchange (key : α → κ) (x : α) (xs : List α) (k : κ) :
    (exchange key (key x) (fun _ => x) xs).find? (fun y => key y == k) =
      if key x = k then some x else xs.find? fun y => key y == k := by
  induction xs with
  | nil => simp [exchange, List.find?_singleton]
  | cons y ys ih =>
    rw [exchange]
    by_cases hy : key y = key x
    · rw [if_pos hy]
      by_cases hk : key x = k
      · rw [if_pos hk, List.find?_cons_of_pos (by simp [hk])]
      · rw [if_neg hk, List.find?_cons_of_neg (by simp [hk]),
          List.find?_cons_of_neg (by simp [hy, hk])]
    · rw [if_neg hy]
      by_cases hk : key y = k
      · have hx : key x ≠ k := fun he => hy (hk.trans he.symm)
        rw [if_neg hx, List.find?_cons_of_pos (by simp [hk]), List.find?_cons_of_pos (by simp [hk])]
      · rw [List.find?_cons_of_neg (by simp [hk]), List.find?_cons_of_neg (by simp [hk]), ih]

omit [DecidableEq κ] in
/-- What is found under a key stands there with the key. -/
theorem mem_of_lookup_eq_some {entries : List (κ × ν)} {k : κ} {v : ν}
    (h : entries.lookup k = some v) : (k, v) ∈ entries := by
  obtain ⟨front, back, rfl, -⟩ := List.lookup_eq_some_iff.mp h
  exact List.mem_append_right front List.mem_cons_self

theorem lookup_cons (entry : κ × ν) (entries : List (κ × ν)) (k : κ) :
    List.lookup k (entry :: entries) =
      if k = entry.1 then some entry.2 else List.lookup k entries := by
  rw [List.lookup_cons]
  by_cases h : k = entry.1
  · rw [if_pos h, beq_iff_eq.mpr h]
  · rw [if_neg h, beq_false_of_ne h]

theorem lookup_filter_of_ne {k k' : κ} (h : k ≠ k') (entries : List (κ × ν)) :
    (entries.filter fun entry => entry.1 ≠ k').lookup k = entries.lookup k := by
  induction entries with
  | nil => rfl
  | cons entry rest ih =>
    rw [List.filter_cons, lookup_cons]
    by_cases hentry : entry.1 = k'
    · have hk : k ≠ entry.1 := fun he => h (he.trans hentry)
      rw [if_neg (by simp [hentry]), if_neg hk, ih]
    · rw [if_pos (by simp [hentry]), lookup_cons, ih]

theorem lookup_filter_self (k : κ) (entries : List (κ × ν)) :
    (entries.filter fun entry => entry.1 ≠ k).lookup k = none := by
  induction entries with
  | nil => rfl
  | cons entry rest ih =>
    rw [List.filter_cons]
    by_cases hentry : entry.1 = k
    · rw [if_neg (by simp [hentry]), ih]
    · rw [if_pos (by simp [hentry]), lookup_cons, if_neg (Ne.symm hentry), ih]

end Lookup

end ApiPages.Keyed
