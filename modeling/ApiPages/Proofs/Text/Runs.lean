import ApiPages.Text.Basic
import Mathlib.Data.List.Basic
import Mathlib.Data.List.Chain

/-! Runs replaced by one character: what the replacement leaves as it was, and when it leaves all. -/
namespace ApiPages.Text

variable {p : Char → Bool} {image : Char}

private theorem mem_replaceRunsFrom {inRun : Bool} {t : Text} {c : Char}
    (h : c ∈ replaceRunsFrom p image inRun t) : c ∈ t ∨ c = image := by
  induction t generalizing inRun with
  | nil => cases h
  | cons d ds ih =>
    rw [replaceRunsFrom] at h
    split at h
    · split at h
      · exact (ih h).imp_left (List.mem_cons_of_mem d)
      · rcases List.mem_cons.mp h with rfl | h
        · exact Or.inr rfl
        · exact (ih h).imp_left (List.mem_cons_of_mem d)
    · rcases List.mem_cons.mp h with rfl | h
      · exact Or.inl List.mem_cons_self
      · exact (ih h).imp_left (List.mem_cons_of_mem d)

theorem mem_replaceRuns {t : Text} {c : Char} (h : c ∈ replaceRuns p image t) :
    c ∈ t ∨ c = image :=
  mem_replaceRunsFrom h

theorem replaceRuns_append {t : Text} (h : ∀ c ∈ t, p c = false) (u : Text) :
    replaceRuns p image (t ++ u) = t ++ replaceRuns p image u := by
  unfold replaceRuns
  induction t with
  | nil => rfl
  | cons c cs ih =>
    have hc : ¬ p c = true := by simp [h c List.mem_cons_self]
    rw [List.cons_append, replaceRunsFrom, if_neg hc,
      ih fun d hd => h d (List.mem_cons_of_mem c hd), List.cons_append]

private theorem replaceRunsFrom_append_cons {c : Char} (hc : p c = false) (inRun : Bool)
    (t u : Text) : replaceRunsFrom p image inRun (t ++ c :: u) =
      replaceRunsFrom p image inRun t ++ c :: replaceRuns p image u := by
  induction t generalizing inRun with
  | nil =>
    have hne : ¬ p c = true := Bool.eq_false_iff.mp hc
    rw [List.nil_append, replaceRunsFrom, replaceRunsFrom, if_neg hne]
    rfl
  | cons d ds ih =>
    rw [List.cons_append, replaceRunsFrom, replaceRunsFrom]
    split
    · split
      · exact ih true
      · rw [ih true, List.cons_append]
    · rw [ih false, List.cons_append]

/-- Runs end at a character that is in none. -/
theorem replaceRuns_append_cons {c : Char} (hc : p c = false) (t u : Text) :
    replaceRuns p image (t ++ c :: u) = replaceRuns p image t ++ c :: replaceRuns p image u :=
  replaceRunsFrom_append_cons hc false t u

theorem replaceRuns_enclosed {c : Char} (hc : p c = false) (t : Text) :
    replaceRuns p image (c :: t ++ [c]) = c :: replaceRuns p image t ++ [c] := by
  have hfirst : replaceRuns p image (c :: t) = c :: replaceRuns p image t :=
    replaceRuns_append_cons hc [] t
  rw [replaceRuns_append_cons hc, hfirst]
  rfl

/-- Dropping a beginning that covers whole runs comes to the same before and after. -/
private theorem dropWhile_replaceRunsFrom {q : Char → Bool} (hp : ∀ c, p c = true → q c = true)
    (himage : q image = true) (inRun : Bool) (t : Text) :
    (replaceRunsFrom p image inRun t).dropWhile q =
      replaceRunsFrom p image false (t.dropWhile q) := by
  induction t generalizing inRun with
  | nil => rfl
  | cons c cs ih =>
    rw [replaceRunsFrom]
    by_cases hc : p c = true
    · rw [if_pos hc, List.dropWhile_cons_of_pos (hp c hc)]
      cases inRun with
      | true => exact ih true
      | false =>
        rw [if_neg Bool.false_ne_true, List.dropWhile_cons_of_pos himage]
        exact ih true
    · rw [if_neg hc]
      by_cases hq : q c = true
      · rw [List.dropWhile_cons_of_pos hq, List.dropWhile_cons_of_pos hq]
        exact ih false
      · rw [List.dropWhile_cons_of_neg hq, List.dropWhile_cons_of_neg hq, replaceRunsFrom,
          if_neg hc]

theorem dropWhile_replaceRuns {q : Char → Bool} (hp : ∀ c, p c = true → q c = true)
    (himage : q image = true) (t : Text) :
    (replaceRuns p image t).dropWhile q = replaceRuns p image (t.dropWhile q) :=
  dropWhile_replaceRunsFrom hp himage false t

/-- A beginning without the image was a beginning before. -/
theorem prefix_of_prefix_replaceRuns {start t : Text} (hn : image ∉ start)
    (h : start <+: replaceRuns p image t) : start <+: t := by
  unfold replaceRuns at h
  induction start generalizing t with
  | nil => exact List.nil_prefix
  | cons s ss ih =>
    rw [List.mem_cons, not_or] at hn
    cases t with
    | nil => exact h
    | cons c cs =>
      rw [replaceRunsFrom] at h
      split at h
      · rw [if_neg Bool.false_ne_true, List.cons_prefix_cons] at h
        exact absurd h.1.symm hn.1
      · rw [List.cons_prefix_cons] at h ⊢
        exact ⟨h.1, ih hn.2 h.2⟩

private theorem not_of_mem_replaceRunsFrom {inRun : Bool} {t : Text} {c : Char} (hc : c ≠ image)
    (h : c ∈ replaceRunsFrom p image inRun t) : p c = false := by
  induction t generalizing inRun with
  | nil => cases h
  | cons d ds ih =>
    rw [replaceRunsFrom] at h
    split at h
    · split at h
      · exact ih h
      · exact ih ((List.mem_cons.mp h).resolve_left hc)
    · next hd =>
      rcases List.mem_cons.mp h with rfl | h
      · exact Bool.eq_false_iff.mpr hd
      · exact ih h

theorem not_of_mem_replaceRuns {t : Text} {c : Char} (hc : c ≠ image)
    (h : c ∈ replaceRuns p image t) : p c = false :=
  not_of_mem_replaceRunsFrom hc h

private theorem isChain_replaceRunsFrom (himage : p image = true) (inRun : Bool) (t : Text) :
    (replaceRunsFrom p image inRun t).IsChain (fun c d => c = image → d ≠ image) ∧
      (inRun = true → ∀ d ∈ (replaceRunsFrom p image inRun t).head?, d ≠ image) := by
  induction t generalizing inRun with
  | nil => exact ⟨.nil, fun _ d hd => by cases hd⟩
  | cons c cs ih =>
    rw [replaceRunsFrom]
    by_cases hc : p c = true
    · rw [if_pos hc]
      cases inRun with
      | true => exact ih true
      | false =>
        rw [if_neg Bool.false_ne_true]
        exact ⟨List.isChain_cons.mpr ⟨fun d hd _ => (ih true).2 rfl d hd, (ih true).1⟩,
          fun hf => by cases hf⟩
    · have hne : c ≠ image := by
        rintro rfl
        exact hc himage
      rw [if_neg hc]
      refine ⟨List.isChain_cons.mpr ⟨fun d _ he => absurd he hne, (ih false).1⟩, fun _ d hd => ?_⟩
      rw [List.head?_cons, Option.mem_some_iff] at hd
      exact hd ▸ hne

/-- Where runs were replaced, no two images stand side by side. -/
theorem isChain_replaceRuns (himage : p image = true) (t : Text) :
    (replaceRuns p image t).IsChain fun c d => c = image → d ≠ image :=
  (isChain_replaceRunsFrom himage false t).1

private theorem replaceRunsFrom_eq_self {inRun : Bool} {t : Text}
    (hp : ∀ c ∈ t, p c = true → c = image) (h : t.IsChain fun c d => c = image → d ≠ image)
    (hrun : inRun = true → ∀ d ∈ t.head?, d ≠ image) : replaceRunsFrom p image inRun t = t := by
  induction t generalizing inRun with
  | nil => rfl
  | cons c cs ih =>
    obtain ⟨hc, hcs⟩ := List.forall_mem_cons.mp hp
    obtain ⟨hnext, hchain⟩ := List.isChain_cons.mp h
    rw [replaceRunsFrom]
    split
    · next hpc =>
      have he : c = image := hc hpc
      have hfirst : inRun = false := by
        cases inRun with
        | true => exact absurd he (hrun rfl c rfl)
        | false => rfl
      rw [hfirst, if_neg Bool.false_ne_true, ih hcs hchain fun _ d hd => hnext d hd he, he]
    · rw [ih hcs hchain fun hf => by cases hf]

/-- A text in which every run is a single image already is left alone. -/
theorem replaceRuns_eq_self {t : Text} (hp : ∀ c ∈ t, p c = true → c = image)
    (h : t.IsChain fun c d => c = image → d ≠ image) : replaceRuns p image t = t :=
  replaceRunsFrom_eq_self hp h fun hf => by cases hf

end ApiPages.Text
