/-! # Integers written in digits

    A whole number is read from ASCII digits with at most one sign, and only
    as a whole: no blank, no separator, no empty digit run.  The bounded
    readers refuse what their width cannot hold instead of wrapping. -/

namespace PcAssembly.Number

/-- The value of a non-empty run of digits in base ten. -/
def natOfDigits? (s : List Char) : Option Nat :=
  if s.isEmpty || !s.all Char.isDigit then none else some (Nat.ofDigitChars 10 s 0)

/-- The digits of a number, without leading zeros. -/
def natDigits (n : Nat) : List Char :=
  Nat.toDigits 10 n

/-- The digits of an integer, after a minus sign if it is negative. -/
def intDigits (i : Int) : List Char :=
  if i < 0 then '-' :: natDigits i.natAbs else natDigits i.natAbs

/-- A sign, at most one, in front of what `magnitude?` reads. -/
def signed? (magnitude? : List Char → Option Nat) : List Char → Option Int
  | '-' :: rest => (magnitude? rest).map fun n => -(n : Int)
  | '+' :: rest => (magnitude? rest).map Int.ofNat
  | s => (magnitude? s).map Int.ofNat

/-- An integer with an optional sign. -/
def intOfText? (s : List Char) : Option Int :=
  signed? natOfDigits? s

/-- The integer as a signed 64-bit number, if it is one. -/
def int64? (i : Int) : Option Int64 :=
  if Int64.minValue.toInt ≤ i ∧ i ≤ Int64.maxValue.toInt then some (Int64.ofInt i) else none

/-- The integer as an unsigned 64-bit number, if it is one. -/
def uint64? (i : Int) : Option UInt64 :=
  if 0 ≤ i ∧ i < UInt64.size then some (UInt64.ofNat i.toNat) else none

/-- The integer as an unsigned 32-bit number, if it is one. -/
def uint32? (i : Int) : Option UInt32 :=
  if 0 ≤ i ∧ i < UInt32.size then some (UInt32.ofNat i.toNat) else none

/-- A signed 64-bit number written in digits. -/
def int64OfText? (s : List Char) : Option Int64 :=
  (intOfText? s).bind int64?

/-- The value of a hexadecimal digit of either case. -/
def hexDigit? (c : Char) : Option Nat :=
  if c.isDigit then some (c.toNat - '0'.toNat)
  else if 'a' ≤ c ∧ c ≤ 'f' then some (c.toNat - 'a'.toNat + 10)
  else if 'A' ≤ c ∧ c ≤ 'F' then some (c.toNat - 'A'.toNat + 10)
  else none

/-- The value of a non-empty run of digits in base sixteen. -/
def natOfHex? (s : List Char) : Option Nat :=
  if s.isEmpty then none
  else s.foldl (fun value c => do return 16 * (← value) + (← hexDigit? c)) (some 0)

/-- The number in base sixteen with small letters, padded with zeros to the
    given width. -/
def hexDigits (width n : Nat) : List Char :=
  let digits := Nat.toDigits 16 n
  List.replicate (width - digits.length) '0' ++ digits

theorem int64?_toInt (x : Int64) : int64? x.toInt = some x := by
  simp only [int64?, Int64.ofInt_toInt]
  exact if_pos ⟨x.minValue_le_toInt, x.toInt_le⟩

end PcAssembly.Number
