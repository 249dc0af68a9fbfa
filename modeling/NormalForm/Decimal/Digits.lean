/-!
Decimal numerals of natural numbers, and their values.
-/

set_option autoImplicit false

namespace NormalForm.Decimal

def digitChar (d : Nat) : Char := Char.ofNat (48 + d)

def digitsBefore (n : Nat) (text : List Char) : List Char :=
  if n < 10 then digitChar n :: text else digitsBefore (n / 10) (digitChar (n % 10) :: text)

def digits (n : Nat) : List Char := digitsBefore n []

theorem digits_before_append (n : Nat) (text rest : List Char) :
    digitsBefore n (text ++ rest) = digitsBefore n text ++ rest := by
  induction n using Nat.strongRecOn generalizing text with
  | ind n smaller =>
    unfold digitsBefore
    split
    · rfl
    · exact smaller (n / 10) (by omega) (digitChar (n % 10) :: text)

theorem digits_of_lt {n : Nat} (small : n < 10) : digits n = [digitChar n] := by
  rw [digits, digitsBefore, if_pos small]

theorem digits_of_ge {n : Nat} (large : 10 ≤ n) :
    digits n = digits (n / 10) ++ [digitChar (n % 10)] := by
  rw [digits, digitsBefore, if_neg (Nat.not_lt.2 large)]
  exact digits_before_append (n / 10) [] [digitChar (n % 10)]

def isDigit (c : Char) : Bool := '0' ≤ c && c ≤ '9'

def digitValue (c : Char) : Nat := c.toNat - 48

def valueOf (text : List Char) : Nat :=
  text.foldl (fun value c => 10 * value + digitValue c) 0

def padded (width n : Nat) : List Char :=
  let numeral := digits n
  List.replicate (width - numeral.length) '0' ++ numeral

end NormalForm.Decimal
