import ApiPages.Files.Path
import ApiPages.Text.Quoted

/-! A tree of files below a working directory, and what goes wrong when it is read or changed. -/
namespace ApiPages.Files

/-- What a name in the tree stands for. -/
inductive Node where
  | directory
  | file (content : List UInt8)
  deriving DecidableEq

/-- Files and directories by their places, as seen from the working directory. -/
structure Tree where
  nodes : List (List Text × Node)

/-- What went wrong. -/
inductive Cause where
  | missing
  | alreadyThere
  | notDirectory
  | isDirectory
  | nameTooLong
  /-- No path has a character of code zero. -/
  | zeroInPath
  deriving DecidableEq

def Cause.number? : Cause → Option Nat
  | .missing => some 2
  | .alreadyThere => some 17
  | .notDirectory => some 20
  | .isDirectory => some 21
  | .nameTooLong => some 36
  | .zeroInPath => none

def Cause.wording : Cause → Text
  | .zeroInPath => "embedded null byte".toList
  | .missing => "No such file or directory".toList
  | .alreadyThere => "File exists".toList
  | .notDirectory => "Not a directory".toList
  | .isDirectory => "Is a directory".toList
  | .nameTooLong => "File name too long".toList

/-- A cause and the path at which it arose. -/
structure FileError where
  cause : Cause
  path : Path

/-- Number, wording and path of an error; its wording alone if it has no number. -/
def FileError.message (e : FileError) : Text :=
  match e.cause.number? with
  | none => e.cause.wording
  | some number =>
    "[Errno ".toList ++ Text.ofNat number ++ "] ".toList ++ e.cause.wording ++ ": ".toList ++
      Text.quoted e.path.text

def encode (t : Text) : List UInt8 := (String.ofList t).toUTF8.toList

def decode? (bytes : List UInt8) : Option Text :=
  (String.fromUTF8? ⟨bytes.toArray⟩).map String.toList

namespace Tree

def outwards : Text := ['.', '.']

/-- The place at which absolute paths begin. No segment of a path is a slash. -/
def top : List Text := [['/']]

/-- The working directory, a directory around it, or the top. -/
def isAlwaysThere (place : List Text) : Bool := place = top || place.all (· = outwards)

def node? (tree : Tree) (place : List Text) : Option Node :=
  if isAlwaysThere place then some .directory else tree.nodes.lookup place

/-- The place of the directory around a place; the top is inside itself. -/
def around (place : List Text) : List Text :=
  if place = top then top
  else if place.all (· = outwards) then place ++ [outwards]
  else place.dropLast

def pathOf (place : List Text) : Path :=
  if place.take 1 = top then ⟨['/'], place.tail⟩ else ⟨[], place⟩

/-- The greatest number of bytes in a name. -/
def nameLimit : Nat := 255

def isTooLong (segment : Text) : Bool := nameLimit < (encode segment).length

/-- The greatest number of bytes in a path, its end mark included. -/
def pathLimit : Nat := 4096

/-- The place to which segments lead from a directory. All but the last have to be directories. -/
def resolveFrom (tree : Tree) : List Text → List Text → Except Cause (List Text)
  | place, [] => .ok place
  | place, segment :: rest =>
    if segment = outwards then tree.resolveFrom (around place) rest
    else if isTooLong segment then .error .nameTooLong
    else if rest.isEmpty then .ok (place ++ [segment])
    else
      match tree.node? (place ++ [segment]) with
      | none => .error .missing
      | some (.file _) => .error .notDirectory
      | some .directory => tree.resolveFrom (place ++ [segment]) rest

def resolve (tree : Tree) (p : Path) : Except Cause (List Text) :=
  if p.text.contains (Char.ofNat 0) then .error .zeroInPath
  else if pathLimit ≤ (encode p.text).length then .error .nameTooLong
  else tree.resolveFrom (if p.isAbsolute then top else []) p.segments

def find (tree : Tree) (p : Path) : Except Cause Node := do
  match tree.node? (← tree.resolve p) with
  | some node => .ok node
  | none => .error .missing

/-- What stands at a path, if anything does. A path through a file leads nowhere; a name that is
too long is an error. -/
def find? (tree : Tree) (p : Path) : Except FileError (Option Node) :=
  match tree.find p with
  | .ok node => .ok (some node)
  | .error .nameTooLong => .error ⟨.nameTooLong, p⟩
  | .error _ => .ok none

def isFile (tree : Tree) (p : Path) : Except FileError Bool := do
  match ← tree.find? p with
  | some (.file _) => return true
  | _ => return false

def read (tree : Tree) (p : Path) : Except FileError (List UInt8) :=
  match tree.find p with
  | .ok (.file content) => .ok content
  | .ok .directory => .error ⟨.isDirectory, p⟩
  | .error cause => .error ⟨cause, p⟩

/-- The tree with a node put at a place, over what was there. -/
def put (tree : Tree) (place : List Text) (node : Node) : Tree :=
  ⟨(tree.nodes.filter fun entry => entry.1 ≠ place) ++ [(place, node)]⟩

/-- The tree with a file written: its directory has to be there. -/
def write (tree : Tree) (p : Path) (content : List UInt8) : Except FileError Tree :=
  match tree.resolve p with
  | .error cause => .error ⟨cause, p⟩
  | .ok place =>
    match tree.node? place with
    | some .directory => .error ⟨.isDirectory, p⟩
    | _ => .ok (tree.put place (.file content))

/-- The tree with one more directory, inside one that is there. -/
def makeDirectory (tree : Tree) (p : Path) : Except Cause Tree := do
  let place ← tree.resolve p
  match tree.node? place with
  | some _ => .error .alreadyThere
  | none => .ok (tree.put place .directory)

/-- A directory that is already there is as good as a new one. -/
def orPresent (tree : Tree) (p : Path) (made : Except Cause Tree) : Except FileError Tree :=
  match made with
  | .ok changed => .ok changed
  | .error cause =>
    match tree.find p with
    | .ok .directory => .ok tree
    | _ => .error ⟨cause, p⟩

/-- The tree with a directory and those around it, from the segments in reverse, innermost first.
What was made before an error stays. -/
def makeDirectoriesRev (root : Text) : List Text → Tree → Tree × Except FileError Unit
  | segments, tree =>
    let p : Path := ⟨root, segments.reverse⟩
    let finish (tree : Tree) (made : Except Cause Tree) : Tree × Except FileError Unit :=
      match tree.orPresent p made with
      | .ok changed => (changed, .ok ())
      | .error e => (tree, .error e)
    match tree.makeDirectory p with
    | .error .missing =>
      match segments with
      | [] => (tree, .error ⟨.missing, p⟩)
      | _ :: outer =>
        match makeDirectoriesRev root outer tree with
        | (tree, .error e) => (tree, .error e)
        | (tree, .ok ()) => finish tree (tree.makeDirectory p)
    | made => finish tree made

def makeDirectories (tree : Tree) (p : Path) : Tree × Except FileError Unit :=
  makeDirectoriesRev p.root p.segments.reverse tree

/-- A tree from files and directories, with the directories around them. -/
def ofList (entries : List (Path × Node)) : Tree :=
  entries.foldl (fun tree (p, node) =>
    match node with
    | .directory => (tree.makeDirectories p).1
    | .file content =>
      let tree := (tree.makeDirectories p.parent).1
      match tree.write p content with
      | .ok changed => changed
      | .error _ => tree) ⟨[]⟩

end Tree
end ApiPages.Files
