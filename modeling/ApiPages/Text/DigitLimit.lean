import ApiPages.Text.Digit

/-! The limit for numbers in digits: those with more are neither read nor written. -/
namespace ApiPages.Text

/-- The most digits that a number may have. -/
def digitLimit : Nat := 4300

/-- Why a number stays out of a text. -/
inductive DigitError where
  /-- There are so many digits to read. -/
  | read (count : Nat)
  | write
  deriving DecidableEq

def DigitError.message (error : DigitError) : Text :=
  let count : Text :=
    match error with
    | .read count => ": value has ".toList ++ ofNat count ++ " digits".toList
    | .write => []
  "Exceeds the limit (".toList ++ ofNat digitLimit ++ " digits) for integer string conversion".toList ++
    count ++ "; use sys.set_int_max_str_digits() to increase the limit".toList

/-- Whether the number that the digits spell can be read, whatever it is. -/
def checkReading (digits : Text) : Except DigitError Unit :=
  if digits.length ≤ digitLimit then .ok () else .error (.read digits.length)

/-- Whether the number can be written. -/
def checkWriting (n : Nat) : Except DigitError Unit :=
  if (ofNat n).length ≤ digitLimit then .ok () else .error .write

end ApiPages.Text
