import ApiPages.Proofs.Prose.Pass

/-! The pass over the lines of a prose text, one line at a time: what it writes for a line, and where
it stands behind it. It stands inside of code when an odd number of fences was read. -/
namespace ApiPages.Prose

/-- In a state a line is read, these lines are written, and the pass goes on from the other state. -/
inductive Step : State → Text → List Text → State → Prop
  | closes {line} : isFence (Text.trim line) = true →
      Step .code line [Text.trim line, []] (.text false [])
  | copies {line} : isFence (Text.trim line) = false → Step .code line [line] .code
  | opens {open_ paragraph line} : isFence (tidy line) = true →
      Step (.text open_ paragraph) line (endParagraph open_ paragraph ++ [tidy line]) .code
  | breaks {open_ paragraph line} : tidy line = [] →
      Step (.text open_ paragraph) line (endParagraph open_ paragraph) (.text false [])
  | starts {open_ paragraph line} : isFence (tidy line) = false → tidy line ≠ [] →
      startsBlock (tidy line) = true →
      Step (.text open_ paragraph) line (paragraphLines paragraph)
        (.text (open_ || !paragraph.isEmpty) [tidy line])
  | joins {open_ paragraph line} : isFence (tidy line) = false → tidy line ≠ [] →
      startsBlock (tidy line) = false →
      Step (.text open_ paragraph) line [] (.text open_ (paragraph ++ [tidy line]))

/-- The lines are read one after another, and these are written meanwhile. -/
inductive Run : State → List Text → List Text → State → Prop
  | nil {state} : Run state [] [] state
  | cons {state line out next lines outs last} : Step state line out next →
      Run next lines outs last → Run state (line :: lines) (out ++ outs) last

theorem Step.pass_cons {state next : State} {line : Text} {out : List Text}
    (h : Step state line out next) (lines : List Text) :
    pass state (line :: lines) = out ++ pass next lines := by
  cases h with
  | closes hf =>
    rw [pass, if_pos hf]
    rfl
  | copies hf =>
    rw [pass, if_neg (by simp [hf])]
    rfl
  | opens hf =>
    rw [pass, if_pos hf, List.append_assoc]
    rfl
  | breaks hempty =>
    have hf : isFence (tidy line) = false := by rw [hempty]; rfl
    rw [pass, if_neg (by simp [hf]), if_pos (by simp [hempty])]
  | starts hf hempty hblock =>
    rw [pass, if_neg (by simp [hf]), if_neg (by simp [hempty]), if_pos hblock]
  | joins hf hempty hblock =>
    rw [pass, if_neg (by simp [hf]), if_neg (by simp [hempty]), if_neg (by simp [hblock])]
    rfl

theorem exists_step (state : State) (line : Text) :
    ∃ out next, Step state line out next ∧
      ∀ lines, pass state (line :: lines) = out ++ pass next lines := by
  have hstep : ∃ out next, Step state line out next := by
    cases state with
    | code =>
      cases hf : isFence (Text.trim line) with
      | true => exact ⟨_, _, .closes hf⟩
      | false => exact ⟨_, _, .copies hf⟩
    | text open_ paragraph =>
      cases hf : isFence (tidy line) with
      | true => exact ⟨_, _, .opens hf⟩
      | false =>
        by_cases hempty : tidy line = []
        · exact ⟨_, _, .breaks hempty⟩
        · cases hblock : startsBlock (tidy line) with
          | true => exact ⟨_, _, .starts hf hempty hblock⟩
          | false => exact ⟨_, _, .joins hf hempty hblock⟩
  obtain ⟨out, next, h⟩ := hstep
  exact ⟨out, next, h, h.pass_cons⟩

theorem Run.pass_append {state last : State} {lines out : List Text} (h : Run state lines out last)
    (rest : List Text) : pass state (lines ++ rest) = out ++ pass last rest := by
  induction h with
  | nil => rfl
  | cons hstep hrun ih => rw [List.cons_append, hstep.pass_cons, ih, List.append_assoc]

theorem Run.concat {state next last : State} {lines out more : List Text} {line : Text}
    (h : Run state lines out next) (hstep : Step next line more last) :
    Run state (lines ++ [line]) (out ++ more) last := by
  induction h with
  | nil =>
    have hrun := Run.cons hstep Run.nil
    rw [List.append_nil] at hrun
    exact hrun
  | cons hfirst hrun ih =>
    rw [List.append_assoc]
    exact .cons hfirst (ih hstep)

/-- Whatever is read later, the lines that were read are done with. -/
theorem exists_run (state : State) (lines : List Text) :
    ∃ out last, Run state lines out last ∧
      ∀ rest, pass state (lines ++ rest) = out ++ pass last rest := by
  have hrun : ∃ out last, Run state lines out last := by
    induction lines generalizing state with
    | nil => exact ⟨[], state, .nil⟩
    | cons line lines ih =>
      obtain ⟨out, next, hstep, -⟩ := exists_step state line
      obtain ⟨outs, last, hrun⟩ := ih next
      exact ⟨out ++ outs, last, .cons hstep hrun⟩
  obtain ⟨out, last, h⟩ := hrun
  exact ⟨out, last, h, h.pass_append⟩

/-- What every step keeps true of the state and the lines written so far holds after a run. -/
theorem Run.preserves {P : State → List Text → Prop} {state last : State}
    {lines out written : List Text} (h : Run state lines out last)
    (hstep : ∀ {state line out next written}, line ∈ lines → Step state line out next →
      P state written → P next (written ++ out))
    (hs : P state written) : P last (written ++ out) := by
  induction h generalizing written with
  | nil =>
    rw [List.append_nil]
    exact hs
  | cons hfirst hrun ih =>
    rw [← List.append_assoc]
    exact ih (fun hl => hstep (List.mem_cons_of_mem _ hl)) (hstep List.mem_cons_self hfirst hs)

/-- A line that opens or closes fenced code, with blanks around it or not. -/
def isFenceLine (line : Text) : Bool := isFence (Text.trim line)

/-- The text read line by line ends inside of code that is not closed: an odd number of its lines are
fences. -/
def endsInCode (t : Text) : Bool := (Text.lines t).countP isFenceLine % 2 == 1

def State.inCode : State → Bool
  | .code => true
  | .text _ _ => false

/-- Every fence changes the side. -/
theorem Step.inCode {state next : State} {line : Text} {out : List Text}
    (h : Step state line out next) : next.inCode = (state.inCode != isFenceLine line) := by
  cases h with
  | closes hf => simp [State.inCode, isFenceLine, hf]
  | copies hf => simp [State.inCode, isFenceLine, hf]
  | opens hf => simp [State.inCode, isFenceLine, ← isFence_tidy, hf]
  | breaks hempty =>
    have hf : isFence (tidy line) = false := by rw [hempty]; rfl
    simp [State.inCode, isFenceLine, ← isFence_tidy, hf]
  | starts hf _ _ => simp [State.inCode, isFenceLine, ← isFence_tidy, hf]
  | joins hf _ _ => simp [State.inCode, isFenceLine, ← isFence_tidy, hf]

theorem Run.inCode {state last : State} {lines out : List Text} (h : Run state lines out last) :
    last.inCode = (state.inCode != (lines.countP isFenceLine % 2 == 1)) := by
  induction h with
  | nil => simp
  | @cons state line out next lines outs last hstep hrun ih =>
    rw [ih, hstep.inCode, List.countP_cons, Bool.bne_assoc]
    congr 1
    cases isFenceLine line with
    | false => simp
    | true =>
      rcases Nat.mod_two_eq_zero_or_one (lines.countP isFenceLine) with h0 | h1
      · have hs : (lines.countP isFenceLine + 1) % 2 = 1 := by omega
        simp [h0, hs]
      · have hs : (lines.countP isFenceLine + 1) % 2 = 0 := by omega
        simp [h1, hs]

end ApiPages.Prose
