namespace CompilerSymbols.Text

def hexDigit (n : Nat) : Char :=
  if n < 10 then Char.ofNat ('0'.toNat + n) else Char.ofNat ('a'.toNat + (n - 10))

def hexDigits (n : Nat) : List Char :=
  if n < 16 then [hexDigit n] else hexDigits (n / 16) ++ [hexDigit (n % 16)]

def hexDigitValue? (c : Char) : Option Nat :=
  if '0' ≤ c ∧ c ≤ '9' then some (c.toNat - '0'.toNat)
  else if 'a' ≤ c ∧ c ≤ 'f' then some (c.toNat - 'a'.toNat + 10)
  else if 'A' ≤ c ∧ c ≤ 'F' then some (c.toNat - 'A'.toNat + 10)
  else none

def hexValueFrom? (n : Nat) : List Char → Option Nat
  | [] => some n
  | c :: cs => (hexDigitValue? c).bind fun d => hexValueFrom? (16 * n + d) cs

/-- Reads at least one digit, after a plus sign if there is one. -/
def hexValue? : List Char → Option Nat
  | [] | ['+'] => none
  | '+' :: cs => hexValueFrom? 0 cs
  | cs => hexValueFrom? 0 cs

end CompilerSymbols.Text
