import ApiPages.Text.Basic

/-! Keywords that stand for well-known framework types. -/
namespace ApiPages.Signature

/-- An ASCII letter, a decimal digit or an underscore: a neighbour that makes a name longer. -/
def isWordChar (c : Char) : Bool := c.isAlphanum || c = '_'

def typeAliases : List (Text × Text) :=
  [("System.Boolean".toList, "bool".toList),
   ("System.Byte".toList, "byte".toList),
   ("System.SByte".toList, "sbyte".toList),
   ("System.Char".toList, "char".toList),
   ("System.Decimal".toList, "decimal".toList),
   ("System.Double".toList, "double".toList),
   ("System.Single".toList, "float".toList),
   ("System.Int16".toList, "short".toList),
   ("System.UInt16".toList, "ushort".toList),
   ("System.Int32".toList, "int".toList),
   ("System.UInt32".toList, "uint".toList),
   ("System.Int64".toList, "long".toList),
   ("System.UInt64".toList, "ulong".toList),
   ("System.IntPtr".toList, "nint".toList),
   ("System.UIntPtr".toList, "nuint".toList),
   ("System.Object".toList, "object".toList),
   ("System.String".toList, "string".toList),
   ("System.Void".toList, "void".toList)]

/-- The text does not go on with a character that would make a name longer. -/
def endsWord : Text → Bool
  | [] => true
  | c :: _ => !isWordChar c

/-- The alias whose full name the text begins with, as a whole word. -/
def aliasAt? (t : Text) : Option (Text × Text) :=
  typeAliases.find? fun (name, _) => name.isPrefixOf t && endsWord (t.drop name.length)

/-- Aliases put in from a place on: `skip` characters were already replaced, and `inWord` tells
whether the character before the place would make a name longer. -/
def applyAliasesFrom : Nat → Bool → Text → Text
  | _, _, [] => []
  | skip + 1, _, c :: cs => applyAliasesFrom skip (isWordChar c) cs
  | 0, inWord, c :: cs =>
    match if inWord then none else aliasAt? (c :: cs) with
    | some (name, keyword) => keyword ++ applyAliasesFrom (name.length - 1) (isWordChar c) cs
    | none => c :: applyAliasesFrom 0 (isWordChar c) cs

/-- Framework types become keywords where their full names are whole words; a longer name such as
that of a comparer keeps its spelling. -/
def applyTypeAliases (t : Text) : Text := applyAliasesFrom 0 false t

example : applyTypeAliases "System.Int32[]".toList = "int[]".toList := by decide
example : applyTypeAliases "System.StringComparer".toList = "System.StringComparer".toList := by
  decide

end ApiPages.Signature
