/-! Texts are lists of code points, so every cut and join below is a list function. -/
namespace ApiPages

/-- A text is the list of its code points; positions count code points. -/
abbrev Text := List Char

namespace Text

/-- The text ends where its longest suffix of such characters begins. -/
def dropEndWhile (p : Char → Bool) (t : Text) : Text :=
  (t.reverse.dropWhile p).reverse

/-- Such characters are dropped at both ends and kept inside. -/
def trimBoth (p : Char → Bool) (t : Text) : Text :=
  dropEndWhile p (t.dropWhile p)

/-- The pieces between the separators; a text without one is a single piece. -/
def splitOn (sep : Char) : Text → List Text
  | [] => [[]]
  | c :: cs =>
    if c = sep then [] :: splitOn sep cs
    else
      match splitOn sep cs with
      | [] => [[c]]
      | piece :: pieces => (c :: piece) :: pieces

/-- The lines of a text, which only a line feed separates. -/
def lines (t : Text) : List Text := splitOn '\n' t

def normalizeLineEnds : Text → Text
  | [] => []
  | '\r' :: '\n' :: cs => '\n' :: normalizeLineEnds cs
  | '\r' :: cs => '\n' :: normalizeLineEnds cs
  | c :: cs => c :: normalizeLineEnds cs

/-- The text without the line feed at its end, if there is one. -/
def dropFinalLineFeed (t : Text) : Text := if t.getLast? = some '\n' then t.dropLast else t

/-- Texts one after another with a separator between neighbours. -/
def join (sep : Text) : List Text → Text
  | [] => []
  | [t] => t
  | t :: ts => t ++ sep ++ join sep ts

def unlines (ts : List Text) : Text := join ['\n'] ts

/-- The parts before and after the first separator, if there is one. -/
def cutFirst (sep : Char) : Text → Option (Text × Text)
  | [] => none
  | c :: cs =>
    if c = sep then some ([], cs)
    else (cutFirst sep cs).map fun (before, after) => (c :: before, after)

/-- The parts before and after the last separator, if there is one. -/
def cutLast (sep : Char) : Text → Option (Text × Text)
  | [] => none
  | c :: cs =>
    match cutLast sep cs with
    | some (before, after) => some (c :: before, after)
    | none => if c = sep then some ([], cs) else none

/-- What follows the last separator, or the whole text. -/
def afterLast (sep : Char) (t : Text) : Text :=
  match cutLast sep t with
  | some (_, after) => after
  | none => t

/-- What precedes the first separator, or the whole text. -/
def beforeFirst (sep : Char) (t : Text) : Text :=
  t.takeWhile (· ≠ sep)

/-- One character exchanged for another wherever it stands. -/
def exchange (old new : Char) (t : Text) : Text :=
  t.map fun c => if c = old then new else c

/-- Runs replaced from a place on; `inRun` tells whether the run before the place goes on. -/
def replaceRunsFrom (p : Char → Bool) (image : Char) : Bool → Text → Text
  | _, [] => []
  | inRun, c :: cs =>
    if p c then
      if inRun then replaceRunsFrom p image true cs else image :: replaceRunsFrom p image true cs
    else c :: replaceRunsFrom p image false cs

/-- Every maximal run of such characters as one character. -/
def replaceRuns (p : Char → Bool) (image : Char) (t : Text) : Text :=
  replaceRunsFrom p image false t

def dropStart? (start : Text) (t : Text) : Option Text :=
  if start.isPrefixOf t then some (t.drop start.length) else none

def ofNat (n : Nat) : Text := (Nat.repr n).toList

/-- An integer in decimal digits, with a sign only when it is negative. -/
def ofInt : Int → Text
  | .ofNat n => ofNat n
  | .negSucc n => '-' :: ofNat (n + 1)

/-- Code point order, by which names and identifiers are sorted. -/
def le : Text → Text → Bool
  | [], _ => true
  | _ :: _, [] => false
  | a :: as, b :: bs => a.val < b.val || (a == b && le as bs)

/-- Of two or more texts, the first is followed by the separator. -/
theorem join_cons_cons (sep a b : Text) (ts : List Text) :
    join sep (a :: b :: ts) = a ++ sep ++ join sep (b :: ts) := rfl

theorem splitOn_ne_nil (sep : Char) (t : Text) : splitOn sep t ≠ [] := by
  cases t with
  | nil => simp [splitOn]
  | cons c cs =>
    unfold splitOn
    by_cases h : c = sep
    · simp [h]
    · simp only [h, if_false]
      split <;> simp

/-- Joining the pieces with the separator gives the text back. -/
theorem join_splitOn (sep : Char) (t : Text) : join [sep] (splitOn sep t) = t := by
  induction t with
  | nil => rfl
  | cons c cs ih =>
    unfold splitOn
    by_cases h : c = sep
    · subst h
      simp only [if_true]
      cases hs : splitOn c cs with
      | nil => exact absurd hs (splitOn_ne_nil c cs)
      | cons p ps => rw [hs] at ih; simp [join, ih]
    · simp only [h, if_false]
      cases hs : splitOn sep cs with
      | nil => exact absurd hs (splitOn_ne_nil sep cs)
      | cons p ps =>
        rw [hs] at ih
        cases ps with
        | nil => simpa [join] using ih
        | cons q qs => simpa [join] using ih

end Text
end ApiPages
