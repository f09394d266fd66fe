import ApiPages.Value.Basic

/-! Laying one mapping over another, section by section. -/
namespace ApiPages

abbrev Entries := List (Scalar × Value)

namespace Entries

/-- What stands under a key. -/
def get? (key : Scalar) : Entries → Option Value
  | [] => none
  | (k, value) :: rest => if k.key = key.key then some value else get? key rest

/-- The entries with a value put under a key: in its place if the key is there, as it is written there,
else at the end. -/
def put (key : Scalar) (value : Value) : Entries → Entries
  | [] => [(key, value)]
  | (k, v) :: rest => if k.key = key.key then (k, value) :: rest else (k, v) :: put key value rest

end Entries

namespace Value

mutual

/-- What a value becomes when an update is laid over it: mappings are merged, all else replaced. -/
def overlay (base : Option Value) : Value → Value
  | .mapping update =>
    match base with
    | some (.mapping entries) => .mapping (overlayEntries entries update)
    | _ => .mapping update
  | update => update

/-- Entries with an update laid over them, entry by entry. -/
def overlayEntries (base : Entries) : Entries → Entries
  | [] => base
  | (key, value) :: rest =>
    overlayEntries (Entries.put key (overlay (base.get? key) value) base) rest

end

end Value

/-- Why an update cannot be laid over a value. -/
inductive OverlayError where
  /-- A value without entries is given as the update, or a value that is no collection is the
  base. -/
  | noEntries
  /-- A list is the base, and a list has no place for a key. -/
  | listBase
  deriving DecidableEq

def deepMerge (base update : Value) : Except OverlayError Value :=
  match base, update with
  | .mapping entries, .mapping changes => .ok (.mapping (Value.overlayEntries entries changes))
  | .list items, .mapping [] => .ok (.list items)
  | .list _, .mapping _ => .error .listBase
  | .set members, .mapping [] => .ok (.set members)
  | .set _, .mapping _ => .error .listBase
  | _, _ => .error .noEntries

end ApiPages
