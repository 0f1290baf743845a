import StyleGrammar.Token.Basic
import StyleGrammar.Number.Binary64

/-!
**Number tokens.**

A number token is an optional sign, digits with an optional fraction (a point and at least one
digit), at least one digit in all, and an optional exponent (`e` or `E`, an optional sign, at
least one digit). A letter `e` without digits after it is not part of the token.

* `numberSpan`: the length of the number token at the start of the bytes;
* `Decimal.ofToken`: the exact decimal value that a number token writes.
-/

namespace StyleGrammar.Token

/-- The length of the run of digits at the start of `bytes`. -/
def digitRun (bytes : List UInt8) : Nat :=
  (bytes.takeWhile isDigit).length

/-- The length of an optional leading sign. -/
def signLen : List UInt8 → Nat
  | b :: _ => if b == 0x2B || b == 0x2D then 1 else 0
  | [] => 0

/-- The length of a fraction: a point followed by at least one digit, or nothing. -/
def fractionLen : List UInt8 → Nat
  | b :: rest =>
    if b == 0x2E then
      let digits := digitRun rest
      if digits = 0 then 0 else 1 + digits
    else 0
  | [] => 0

/-- The length of an exponent: `e` or `E`, an optional sign and at least one digit, or nothing. -/
def exponentLen : List UInt8 → Nat
  | b :: rest =>
    if b == 0x65 || b == 0x45 then
      let sign := signLen rest
      let digits := digitRun (rest.drop sign)
      if digits = 0 then 0 else 1 + sign + digits
    else 0
  | [] => 0

/-- The length of the number token that opens `bytes`, if one does. -/
def numberSpan (bytes : List UInt8) : Option Nat :=
  let sign := signLen bytes
  let body := bytes.drop sign
  let whole := digitRun body
  let fraction := fractionLen (body.drop whole)
  if whole + fraction = 0 then none
  else some (sign + whole + fraction + exponentLen (bytes.drop (sign + whole + fraction)))

/-- The signed exponent written after `e` or `E` in an exponent part. -/
def exponentValue (part : List UInt8) : Int :=
  match part.drop 1 with
  | s :: digits =>
    if s == 0x2D then -(digitsValue digits : Int)
    else if s == 0x2B then (digitsValue digits : Int)
    else (digitsValue (s :: digits) : Int)
  | [] => 0

theorem signLen_le (bytes : List UInt8) : signLen bytes ≤ bytes.length := by
  cases bytes with
  | nil => simp [signLen]
  | cons b rest => simp only [signLen, List.length_cons]; split <;> omega

theorem digitRun_le (bytes : List UInt8) : digitRun bytes ≤ bytes.length :=
  (List.takeWhile_sublist _).length_le

theorem fractionLen_le (bytes : List UInt8) : fractionLen bytes ≤ bytes.length := by
  cases bytes with
  | nil => simp [fractionLen]
  | cons b rest =>
    have := digitRun_le rest
    simp only [fractionLen, List.length_cons]
    split
    · split <;> omega
    · omega

theorem exponentLen_le (bytes : List UInt8) : exponentLen bytes ≤ bytes.length := by
  cases bytes with
  | nil => simp [exponentLen]
  | cons b rest =>
    have := digitRun_le (rest.drop (signLen rest))
    have := signLen_le rest
    simp only [exponentLen, List.length_cons, List.length_drop] at *
    split
    · split <;> omega
    · omega

/-- A number token lies within the bytes it opens. -/
theorem numberSpan_le {bytes : List UInt8} {len : Nat} (h : numberSpan bytes = some len) :
    len ≤ bytes.length := by
  simp only [numberSpan] at h
  split at h
  · cases h
  · cases h
    have sign := signLen_le bytes
    have whole := digitRun_le (bytes.drop (signLen bytes))
    have fraction := fractionLen_le ((bytes.drop (signLen bytes)).drop
      (digitRun (bytes.drop (signLen bytes))))
    have exponent := exponentLen_le (bytes.drop (signLen bytes +
      digitRun (bytes.drop (signLen bytes)) +
      fractionLen ((bytes.drop (signLen bytes)).drop (digitRun (bytes.drop (signLen bytes))))))
    simp only [List.length_drop] at *
    omega

end StyleGrammar.Token

namespace StyleGrammar

/-- The exact decimal that a number token writes: its digits with the point removed, and the
written exponent less the count of fraction digits. -/
def Decimal.ofToken (token : List UInt8) : Decimal :=
  let sign := Token.signLen token
  let body := token.drop sign
  let whole := Token.digitRun body
  let fraction := Token.fractionLen (body.drop whole)
  let fractionDigits := (body.drop (whole + 1)).take (fraction - 1)
  let exponentPart := body.drop (whole + fraction)
  let exponent := if Token.exponentLen exponentPart = 0 then 0 else Token.exponentValue exponentPart
  { negative := token.head? == some 0x2D
    digits := Token.digitsValue (body.take whole ++ fractionDigits)
    exponent := exponent - fractionDigits.length }

end StyleGrammar
