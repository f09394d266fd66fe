import ApiPages.Value.Overlay
import ApiPages.Yaml.Node

/-! The value of a YAML text. -/
namespace ApiPages.Yaml

/-- A node is a mapping that others can be merged from. -/
def Node.entries? : Node → Option (List (Node × Node))
  | .mapping _ entries => some entries
  | _ => none

namespace Merged

mutual

/-- A node in which every mapping has the entries that it merges from others in front of its own. -/
def node : Node → Reading Node
  | .scalar tag content => .ok (.scalar tag content)
  | .sequence tag items => return .sequence tag (← nodes items)
  | .mapping tag entries => do
    let (merged, own) ← pairs entries
    return .mapping tag (merged ++ own)

def nodes : List Node → Reading (List Node)
  | [] => .ok []
  | n :: ns => do return (← node n) :: (← nodes ns)

def pairs : List (Node × Node) → Reading (List (Node × Node) × List (Node × Node))
  | [] => .ok ([], [])
  | (key, value) :: rest => do
    let key ← node key
    let value ← node value
    let (merged, own) ← pairs rest
    match key with
    | .scalar .merge _ =>
      match value with
      | .mapping _ entries => return (entries ++ merged, own)
      | .sequence _ items =>
        match items.mapM Node.entries? with
        | some sources => return (sources.reverse.flatten ++ merged, own)
        | none => throw .malformed
      | _ => throw .malformed
    | .scalar .defaultValue content => return (merged, (.scalar .text content, value) :: own)
    | _ => return (merged, (key, value) :: own)

end

end Merged

namespace Node

/-- The last value given under a key stands in the place of the first. -/
def mappingOf (entries : List (Scalar × Value)) : Entries :=
  entries.foldl (fun kept (key, value) => Entries.put key value kept) []

/-- The pairs of a list in which every item is a mapping with one entry. -/
def pairsOf? (items : List Value) : Option (List Value) :=
  items.mapM fun item =>
    match item with
    | .mapping [(key, value)] => some (.pair (.scalar key) value)
    | _ => none

mutual

def value : Node → Reading Value
  | .scalar tag content => (tag.scalar content).map Value.scalar
  | .sequence tag items => do
    let items ← values items
    match tag with
    | .sequence => return .list items
    | .orderedMapping => (pairsOf? items).elim (throw .malformed) (return .list ·)
    | .pairs => (pairsOf? items).elim (throw .malformed) (return .list ·)
    | _ => throw .malformed
  | .mapping tag entries => do
    let entries ← entryValues entries
    match tag with
    | .mapping => return .mapping (mappingOf entries)
    | .set => return .set ((mappingOf entries).map Prod.fst)
    | _ => throw .malformed

def values : List Node → Reading (List Value)
  | [] => .ok []
  | n :: ns => do return (← value n) :: (← values ns)

def entryValues : List (Node × Node) → Reading (List (Scalar × Value))
  | [] => .ok []
  | (key, n) :: rest => do
    match ← value key with
    | .scalar s => return (s, ← value n) :: (← entryValues rest)
    | _ => throw .malformed

end

end Node

/-- The value of a YAML text, nothing for a blank one. -/
def read (t : Text) : Reading Value := do
  match ← Node.ofText? t with
  | none => return .null
  | some root => (← Merged.node root).value

end ApiPages.Yaml
