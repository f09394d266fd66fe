/-! Character properties given as lists of ranges of code points. -/
namespace ApiPages

abbrev CharRange := Nat × Nat

namespace CharRange

def holds (r : CharRange) (c : Char) : Bool := r.1 ≤ c.toNat && c.toNat ≤ r.2

def anyHolds (rs : List CharRange) (c : Char) : Bool := rs.any (holds · c)

end CharRange
end ApiPages
