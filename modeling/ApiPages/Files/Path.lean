import ApiPages.Text.Basic

/-! Paths of files and directories, without empty segments and single dots. -/
namespace ApiPages.Files

/-- A path: what it begins with, if it is absolute, and its segments. -/
structure Path where
  root : Text
  segments : List Text
  deriving DecidableEq

namespace Path

/-- The slashes at the front of an absolute path: one, or exactly two. -/
def rootOf (t : Text) : Text :=
  match (t.takeWhile (· = '/')).length with
  | 0 => []
  | 2 => ['/', '/']
  | _ => ['/']

def ofText (t : Text) : Path :=
  ⟨rootOf t, (Text.splitOn '/' t).filter fun segment => !segment.isEmpty && segment ≠ ['.']⟩

/-- The text of a path; the path without segments is a dot. -/
def text (p : Path) : Text :=
  if p.root.isEmpty && p.segments.isEmpty then ['.'] else p.root ++ Text.join ['/'] p.segments

def isAbsolute (p : Path) : Bool := !p.root.isEmpty

def parent (p : Path) : Path := { p with segments := p.segments.dropLast }

/-- A path taken from inside a directory; an absolute one stands for itself. -/
def join (directory : Path) (inner : Path) : Path :=
  if inner.isAbsolute then inner
  else { directory with segments := directory.segments ++ inner.segments }

end Path
end ApiPages.Files
