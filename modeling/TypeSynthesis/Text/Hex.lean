/-!
# Hexadecimal numerals of fixed width

* `hexDigits`: the last digits of a number in lower case, most significant first;
* `hexNumeral`: the same as a text.
-/

namespace TypeSynthesis.Text

/-- The last `k` hexadecimal digits of `n`, most significant first. -/
def hexDigits : Nat → Nat → List Char
  | 0, _ => []
  | k + 1, n => hexDigits k (n / 16) ++ [Nat.digitChar (n % 16)]

/-- The numeral of the last `k` hexadecimal digits of `n`. -/
def hexNumeral (k n : Nat) : String := String.ofList (hexDigits k n)

end TypeSynthesis.Text
