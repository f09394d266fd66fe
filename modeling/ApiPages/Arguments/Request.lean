import ApiPages.Arguments.Word
import ApiPages.Files.Path

/-! What a row of arguments asks for. -/
namespace ApiPages

/-- A conversion that is asked for. What is not given leaves the configuration as it is. -/
structure Request where
  source : Files.Path
  /-- Where to write; none if a second divider stands in its place. -/
  output : Option Files.Path
  single : Bool
  fileNames : Option Text
  rootNamespace : Option Text
  trimsRoot : Bool
  codeLanguage : Option Text
  config : Option Text
  report : Option Text
  isDryRun : Bool
  isVerbose : Bool

namespace Arguments

/-- Why reading ends before the end of the arguments. -/
inductive Stop where
  | helpWanted
  | refused (error : UsageError)

/-- What the next word may be. -/
inductive Awaited where
  | anything
  /-- The value of a switch, and nothing else. -/
  | value (s : Switch)
  /-- A divider may come that goes with the operand before it. -/
  | dividerOfOperand
  /-- An operand may come that goes with the divider before it. -/
  | operandOfDivider

/-- What was read so far. -/
structure Given where
  /-- The switches with their values, the latest first. -/
  switches : List (Switch × Text)
  /-- The operands; none for a divider in the place of one. -/
  operands : List (Option Text)
  /-- What is neither switch nor operand. -/
  left : List Text
  awaited : Awaited

namespace Given

def empty : Given := ⟨[], [], [], .anything⟩

def operandNames : List Text := ["xml".toList, "out".toList]

def wantsOperand (given : Given) : Bool := given.operands.length < operandNames.length

def addOperand (operand : Option Text) (given : Given) : Given :=
  { given with operands := given.operands ++ [operand] }

def leave (t : Text) (given : Given) : Given := { given with left := given.left ++ [t] }

def addSwitch (s : Switch) (value : Text) (given : Given) : Except Stop Given :=
  if s = .help then .error .helpWanted
  else
    match s.parameter with
    | .oneOf choices =>
      if choices.contains value then
        .ok { given with switches := (s, value) :: given.switches }
      else .error (.refused (.notAChoice s value choices))
    | _ => .ok { given with switches := (s, value) :: given.switches }

def addFlags (given : Given) : List Switch → Except Stop Given
  | [] => .ok given
  | s :: ss => do addFlags (← given.addSwitch s []) ss

def awaiting (awaited : Awaited) (given : Given) : Given := { given with awaited }

/-- A switch with or without a value behind an equals sign. -/
def readSwitch (given : Given) (s : Switch) (value : Option Text) : Except Stop Given :=
  match s.parameter, value with
  | .nothing, none => given.addSwitch s []
  | .nothing, some value => .error (.refused (.valueIgnored s value))
  | _, none => .ok (given.awaiting (.value s))
  | _, some value => given.addSwitch s value

/-- Switches by their letters; what stands for none is left. -/
def readLetters (given : Given) (t : Text) : Except Stop Given := do
  let (flags, left) ← (Word.lettered t).mapError Stop.refused
  let given ← given.addFlags flags
  return match left with
    | some t => given.leave t
    | none => given

/-- A word where any may come. A divider that stands alone in the place of an operand is taken for
it, and leaves none. -/
def readWord (given : Given) : Word → Except Stop Given
  | .plain t =>
    if given.wantsOperand then
      let operand := if t = Word.dividerText then none else some t
      .ok ((given.addOperand operand).awaiting .dividerOfOperand)
    else .ok (given.leave t)
  | .divider =>
    .ok (if given.wantsOperand then given.awaiting .operandOfDivider
      else given.leave Word.dividerText)
  | .switch s value => given.readSwitch s value
  | .letters t => given.readLetters t
  | .unknown t => .ok (given.leave t)

def read (given : Given) (word : Word) : Except Stop Given :=
  let free := given.awaiting .anything
  match given.awaited, word with
  | .value s, .plain t => free.addSwitch s t
  | .value s, _ => .error (.refused (.valueMissing s))
  | .dividerOfOperand, .divider => .ok free
  | .operandOfDivider, .plain t => .ok (free.addOperand (some t))
  | _, word => free.readWord word

def finish (given : Given) : Except Stop Given :=
  match given.awaited with
  | .value s => .error (.refused (.valueMissing s))
  | .operandOfDivider => .ok (given.leave Word.dividerText)
  | _ => .ok given

def ofWords (words : List Word) : Except Stop Given := words.foldlM read empty >>= finish

def has (given : Given) (s : Switch) : Bool := (given.switches.lookup s).isSome

def value? (given : Given) (s : Switch) : Option Text := given.switches.lookup s

end Given
end Arguments

namespace Request

open Arguments

def paths (request : Request) : List Files.Path :=
  request.source :: request.output.toList ++
    (request.config.toList ++ request.report.toList).map Files.Path.ofText

/-- The request that was read, if the operands are there and nothing is left. -/
def ofGiven (given : Given) : Except UsageError Request :=
  match given.operands, given.left with
  | some source :: output :: _, [] =>
    .ok {
      source := Files.Path.ofText source
      output := output.map Files.Path.ofText
      single := given.has .single
      fileNames := given.value? .fileNames
      rootNamespace := given.value? .rootNamespace
      trimsRoot := given.has .trimRoot
      codeLanguage := given.value? .codeLanguage
      config := given.value? .config
      report := given.value? .report
      isDryRun := given.has .dryRun
      isVerbose := given.has .verbose }
  | _ :: _ :: _, left => .error (.unrecognized left)
  | operands, _ => .error (.operandsMissing (Given.operandNames.drop operands.length))

def ofArguments (arguments : List Text) : Except Stop Request := do
  let words ← (Word.ofTexts arguments).mapError Stop.refused
  let given ← Given.ofWords words
  (ofGiven given).mapError Stop.refused

end Request
end ApiPages
