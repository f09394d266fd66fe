import ApiPages.Proofs.Signature.Bracket
import ApiPages.Proofs.Text.Digit
import ApiPages.Signature.TypeReference

/-! Type expressions: what a compiler writes for the types of parameters, as trees. One rule writes
them, and a spelling says with which names, brackets and separators. -/
namespace ApiPages.Signature

/-- A name of ASCII letters, digits and underscores. -/
structure Name where
  text : Text
  nonempty : text ≠ []
  word : ∀ c ∈ text, isWordChar c = true

/-- Names with dots between them. -/
structure Path where
  outer : List Name
  last : Name

namespace Path

/-- The path as it is written. -/
def dotted (p : Path) : Text := p.outer.flatMap (fun n => n.text ++ ['.']) ++ p.last.text

/-- The keyword for the last two names if they have one, else the last name. -/
def label (p : Path) : Text :=
  match p.outer.getLast? with
  | none => p.last.text
  | some n => (typeAliases.lookup (n.text ++ '.' :: p.last.text)).getD p.last.text

end Path

/-- What may follow a type: it is an array, one of a higher rank, or a pointer. -/
inductive Suffix where
  | array
  | ranked (more : Nat)
  | pointer

/-- The suffix as it is written: a ranked array has its lower bound for every dimension. -/
def Suffix.text : Suffix → Text
  | .array => ['[', ']']
  | .ranked more => '[' :: Text.join [','] (List.replicate (more + 1) ['0', ':']) ++ [']']
  | .pointer => ['*']

def suffixText (suffixes : List Suffix) : Text := suffixes.flatMap Suffix.text

/-- The expression of a type: a path, with arguments or without, or a generic parameter of the type
or of the method by its number, and suffixes behind. -/
inductive TypeExpression where
  | named (path : Path) (arguments : List TypeExpression) (suffixes : List Suffix)
  | parameter (ofMethod : Bool) (number : Nat) (suffixes : List Suffix)

/-- How expressions are spelled. -/
structure Spelling where
  path : Path → Text
  opening : Char
  closing : Char
  separator : Text
  parameter : Bool → Nat → Text

/-- Arguments with brackets around them, if there are any. -/
def Spelling.enclose (s : Spelling) (arguments : List Text) : Text :=
  if arguments.isEmpty then []
  else s.opening :: Text.join s.separator arguments ++ [s.closing]

theorem Spelling.enclose_of_ne_nil (s : Spelling) {arguments : List Text} (h : arguments ≠ [])
    (rest : Text) : s.enclose arguments ++ rest =
      s.opening :: (Text.join s.separator arguments ++ s.closing :: rest) := by
  rw [enclose, List.isEmpty_eq_false_iff.mpr h, if_neg Bool.false_ne_true]
  simp

namespace TypeExpression

mutual

/-- The expression in a spelling. -/
def write (s : Spelling) : TypeExpression → Text
  | .named path arguments suffixes =>
    s.path path ++ s.enclose (writeAll s arguments) ++ suffixText suffixes
  | .parameter ofMethod number suffixes => s.parameter ofMethod number ++ suffixText suffixes

def writeAll (s : Spelling) : List TypeExpression → List Text
  | [] => []
  | t :: ts => write s t :: writeAll s ts

end

theorem writeAll_eq_map (s : Spelling) (ts : List TypeExpression) :
    writeAll s ts = ts.map (write s) := by
  induction ts with
  | nil => rfl
  | cons t ts ih => rw [writeAll, ih, List.map_cons]

theorem write_named (s : Spelling) (path : Path) (arguments : List TypeExpression)
    (suffixes : List Suffix) : write s (.named path arguments suffixes) =
      s.path path ++ s.enclose (arguments.map (write s)) ++ suffixText suffixes := by
  rw [write, writeAll_eq_map]

theorem write_plain (s : Spelling) (path : Path) (suffixes : List Suffix) :
    write s (.named path [] suffixes) = s.path path ++ suffixText suffixes := by
  rw [write_named, Spelling.enclose, List.map_nil, List.isEmpty_nil, if_pos rfl, List.append_nil]

theorem write_generic (s : Spelling) (path : Path) {arguments : List TypeExpression}
    (h : arguments ≠ []) (suffixes : List Suffix) :
    write s (.named path arguments suffixes) = s.path path ++ s.opening ::
      (Text.join s.separator (arguments.map (write s)) ++ s.closing :: suffixText suffixes) := by
  have hne : arguments.map (write s) ≠ [] := fun hn => h (List.map_eq_nil_iff.mp hn)
  rw [write_named, List.append_assoc, s.enclose_of_ne_nil hne]

mutual

/-- What holds of an expression when it holds of its arguments holds of every expression. -/
theorem induct {motive : TypeExpression → Prop}
    (named : ∀ path arguments suffixes, (∀ t ∈ arguments, motive t) →
      motive (.named path arguments suffixes))
    (parameter : ∀ ofMethod number suffixes, motive (.parameter ofMethod number suffixes)) :
    ∀ t, motive t
  | .named path arguments suffixes =>
    named path arguments suffixes (inductAll named parameter arguments)
  | .parameter ofMethod number suffixes => parameter ofMethod number suffixes

theorem inductAll {motive : TypeExpression → Prop}
    (named : ∀ path arguments suffixes, (∀ t ∈ arguments, motive t) →
      motive (.named path arguments suffixes))
    (parameter : ∀ ofMethod number suffixes, motive (.parameter ofMethod number suffixes)) :
    ∀ ts : List TypeExpression, ∀ t ∈ ts, motive t
  | [] => fun _ h => absurd h List.not_mem_nil
  | t :: ts =>
    List.forall_mem_cons.mpr ⟨induct named parameter t, inductAll named parameter ts⟩

end

end TypeExpression

namespace Spelling

/-- A generic parameter by one or two backticks and its number, counted from 0. -/
def marker (ofMethod : Bool) (number : Nat) : Text :=
  (if ofMethod then ['`', '`'] else ['`']) ++ Text.ofNat number

/-- As the compiler writes it. -/
def source : Spelling := ⟨Path.dotted, '{', '}', [','], marker⟩

/-- With angle brackets for braces. -/
def angled : Spelling := ⟨Path.dotted, '<', '>', [','], marker⟩

/-- With the names of the parameters as well. -/
def expanded : Spelling :=
  ⟨Path.dotted, '<', '>', [','], fun _ number => parameterName (number + 1)⟩

/-- As it is shown: with keywords and short names, and a blank behind every comma. -/
def shown : Spelling :=
  ⟨Path.label, '<', '>', [',', ' '], fun _ number => parameterName (number + 1)⟩

end Spelling

/-- The characters of names, of the dots between them, and of markers. -/
def isPlain (c : Char) : Bool := isWordChar c || c = '.' || c = '`'

def suffixChars : List Char := ['[', ']', '0', ':', ',', '*']

private theorem toNat_lt_of_isWordChar {c : Char} (h : isWordChar c = true) : c.toNat < 128 := by
  rcases Bool.or_eq_true_iff.mp h with h | h
  · have hupper : c.isUpper = true → c.toNat ≤ 90 := fun h =>
      UInt32.le_iff_toNat_le.mp (of_decide_eq_true h).2
    have hlower : c.isLower = true → c.toNat ≤ 122 := fun h =>
      UInt32.le_iff_toNat_le.mp (of_decide_eq_true (Bool.and_eq_true_iff.mp h).2)
    have hdigit : c.isDigit = true → c.toNat ≤ 57 := fun h =>
      UInt32.le_iff_toNat_le.mp (of_decide_eq_true (Bool.and_eq_true_iff.mp h).2)
    rcases Bool.or_eq_true_iff.mp h with h | h
    · rcases Bool.or_eq_true_iff.mp h with h | h
      · exact Nat.lt_of_le_of_lt (hupper h) (by decide)
      · exact Nat.lt_of_le_of_lt (hlower h) (by decide)
    · exact Nat.lt_of_le_of_lt (hdigit h) (by decide)
  · rw [of_decide_eq_true h]
    decide

private theorem toNat_lt_of_isPlain {c : Char} (h : isPlain c = true) : c.toNat < 128 := by
  simp only [isPlain, Bool.or_eq_true, decide_eq_true_eq] at h
  rcases h with (h | rfl) | rfl
  · exact toNat_lt_of_isWordChar h
  · decide
  · decide

/-- A plain character is neither blank nor a bracket nor one of the other marks. -/
theorem isPlain_cases {c : Char} (h : isPlain c = true) :
    Text.isBlank c = false ∧ isOpener c = false ∧ isCloser c = false ∧
      c ∉ [',', ':', '*', '@', '~', '#'] :=
  Text.of_ascii (P := fun c => isPlain c = true → Text.isBlank c = false ∧ isOpener c = false ∧
    isCloser c = false ∧ c ∉ [',', ':', '*', '@', '~', '#']) (by decide +kernel)
    (toNat_lt_of_isPlain h) h

end ApiPages.Signature
