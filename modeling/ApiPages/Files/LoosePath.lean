import ApiPages.Files.Path
import ApiPages.Text.Loose

/-! Paths with halves of surrogate pairs in them. They cannot be encoded, so no file has one. -/
namespace ApiPages.Files

/-- A path with halves of pairs in some of its segments. -/
structure LoosePath where
  root : Text
  segments : List Wording

/-- The first halves of pairs in a text, and how many characters stand before them. -/
structure EncodingError where
  position : Nat
  halves : List (Fin 0x800)

namespace EncodingError

def ofPoints (points : List CodePoint) : EncodingError :=
  let behind := points.dropWhile fun point => point.half?.isNone
  ⟨points.length - behind.length,
    (behind.takeWhile fun point => point.half?.isSome).filterMap CodePoint.half?⟩

def message (e : EncodingError) : Text :=
  let place : Text :=
    match e.halves with
    | [h] =>
      " '".toList ++ CodePoint.escape h ++ "' in position ".toList ++ Text.ofNat e.position
    | halves =>
      "s in position ".toList ++ Text.ofNat e.position ++ '-' ::
        Text.ofNat (e.position + halves.length - 1)
  "'utf-8' codec can't encode character".toList ++ place ++ ": surrogates not allowed".toList

end EncodingError

namespace LoosePath

def ofLoose (t : Loose) : LoosePath :=
  let segments := (t.points.splitOn (.char '/')).map Wording.ofPoints
  ⟨Path.rootOf t.before, segments.filter fun segment => !segment.isEmpty && segment ≠ .text ['.']⟩

def points (p : LoosePath) : List CodePoint :=
  p.root.map .char ++ List.intercalate [.char '/'] (p.segments.map Wording.points)

/-- The text of the path, with escapes for halves of pairs. -/
def shown (p : LoosePath) : Text := p.points.flatMap CodePoint.escaped

/-- The directory around it, if no halves of pairs stand in that. -/
def directory? (p : LoosePath) : Option Path :=
  (p.segments.dropLast.mapM Wording.text?).map fun segments => ⟨p.root, segments⟩

def error (p : LoosePath) : EncodingError := .ofPoints p.points

end LoosePath
end ApiPages.Files
