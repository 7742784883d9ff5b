/-!
Hexadecimal numerals with upper-case digits.

`numeral width n` is `0x` followed by the digits of `n`, filled up with zeros on
the left to `width` digits; a larger number keeps all of its digits.
-/

namespace Chip8VM.Hex

def digit (n : Nat) : Char :=
  Char.ofNat (if n < 10 then 48 + n else 55 + n)

def digits (n : Nat) : List Char :=
  if n < 16 then [digit n] else digits (n / 16) ++ [digit (n % 16)]
termination_by n
decreasing_by omega

def numeral (width n : Nat) : List Char :=
  '0' :: 'x' :: (List.replicate (width - (digits n).length) '0' ++ digits n)

def word (n : Nat) : List Char := numeral 4 n

end Chip8VM.Hex
