import ContractShell.Number.Decimal
import ContractShell.Text.Quoted

/-!
Amounts of the token: decimal numbers as people write them, whole numbers of base units as the chain counts them.

An amount with too many decimal places is refused rather than rounded to fit the base unit. Yet digits beyond those that
decimal arithmetic keeps are rounded away before the places are looked at.
-/

namespace ContractShell.Amount

/-- The name of the token. -/
def symbol : String := "KOIN"

/-- The decimal places of the token. -/
def places : Int := 8

/-! ## 1. From text to base units -/

/-- Why a text is not an amount. -/
inductive Fault where
  /-- The text is not a finite number of at least zero. -/
  | notAnAmount (text : String)
  /-- The number has more decimal places than the token. -/
  | tooPrecise (text : String) (places : Int)
  /-- The number is out of the range of decimal arithmetic. -/
  | arithmetic (fault : Decimal.Fault)
  deriving DecidableEq, Repr

/-- The wording of a fault. -/
def Fault.message : Fault → String
  | .notAnAmount text => Text.withContext "invalid amount" text
  | .tooPrecise text places => Text.withContext "invalid amount" s!"{text} has more than {places} decimal places"
  | .arithmetic .overflow => "[<class 'decimal.Overflow'>]"
  | .arithmetic .invalidOperation => "[<class 'decimal.InvalidOperation'>]"

/-- The base units of an amount. -/
def toUnits (text : String) (places : Int) : Except Fault Int :=
  match Decimal.ofText? text with
  | none => .error (.notAnAmount text)
  | some d =>
    if d.negative ∧ d.coefficient ≠ 0 then .error (.notAnAmount text)
    else
      match d.scale places with
      | .error f => .error (.arithmetic f)
      | .ok scaled => if scaled.isIntegral then .ok scaled.toInt else .error (.tooPrecise text places)

/-! ## 2. From base units to text -/

/-- Base units as a decimal number. -/
def ofUnits (units places : Int) : Except Decimal.Fault Decimal := (Decimal.ofInt units).scale (-places)

/-- Why base units cannot be shown. -/
inductive ShowFault where
  /-- The number is out of the range of decimal arithmetic. -/
  | arithmetic (fault : Decimal.Fault)
  /-- The number of places is negative. -/
  | negativePlaces
  deriving DecidableEq, Repr

/-- The wording of a fault. -/
def ShowFault.message : ShowFault → String
  | .arithmetic f => (Fault.arithmetic f).message
  | .negativePlaces => "invalid format string"

/-- Base units as an amount with all its places and the token's name. -/
def text (units places : Int) : Except ShowFault String :=
  match ofUnits units places with
  | .error f => .error (.arithmetic f)
  | .ok d => if places < 0 then .error .negativePlaces else .ok (d.toFixed places.toNat ++ " " ++ symbol)

end ContractShell.Amount
