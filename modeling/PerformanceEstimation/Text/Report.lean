import PerformanceEstimation.Certificate
import PerformanceEstimation.Decimal.Rounded
import PerformanceEstimation.Text.Formula
import PerformanceEstimation.Text.Printable

/-!
# Texts of certificates and classes

A certificate is written as the bound it proves, with a line for each multiplier and its constraint.
Bounds and multipliers have six places. A class given by a rule is written by its name, quoted, and
by whether it is single-valued.
-/

set_option autoImplicit false

namespace PerformanceEstimation

def CertificateEntry.text (e : CertificateEntry Float) : String :=
  s!"  {Decimal.scientific 6 e.multiplier} * [{e.constraint}] ({e.origin})\n"

instance : ToString (Certificate Float) where
  toString c :=
    s!"{c.metric} <= {Decimal.scientific 6 c.bound}\n" ++ String.join (c.entries.map (·.text))

/-- A character as it stands between quotation marks. A hidden one is given by its number. -/
def quotedChar (c : Char) : String :=
  match c with
  | '"' => "\\\""
  | '\\' => "\\\\"
  | '\n' => "\\n"
  | '\r' => "\\r"
  | '\t' => "\\t"
  | '\x00' => "\\0"
  | c =>
    if isHidden c then
      "\\u\x7b" ++ String.ofList (Nat.toDigits 16 c.toNat) ++ "\x7d"
    else toString c

def quoted (text : String) : String :=
  "\"" ++ String.join (text.toList.map quotedChar) ++ "\""

/-- How a class given by a rule is written, the rule aside. -/
def customClassText (name : String) (singleValued : Bool) : String :=
  "CustomClass \x7b name: " ++ quoted name ++
    ", reuse_gradient: " ++ toString singleValued ++ " \x7d"

end PerformanceEstimation
