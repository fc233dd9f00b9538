/-! # Blank characters and the edges of a text

    Every reader of the library forgives blanks around a word, and "blank"
    always means the same thing: the Unicode property White_Space, which is
    wider than the ASCII blanks (it holds the no-break space and the
    ideographic space) and does not hold the zero-width space.  Letter case,
    on the other hand, is folded for the 26 ASCII letters alone. -/

namespace PcAssembly.Text

/-- The first and last code point of every run of blanks, in order. -/
def blankRuns : List (Nat × Nat) :=
  [(0x9, 0xD), (0x20, 0x20), (0x85, 0x85), (0xA0, 0xA0), (0x1680, 0x1680),
   (0x2000, 0x200A), (0x2028, 0x2029), (0x202F, 0x202F), (0x205F, 0x205F),
   (0x3000, 0x3000)]

/-- A character with the Unicode property White_Space. -/
def isBlank (c : Char) : Bool :=
  blankRuns.any fun run => run.1 ≤ c.toNat && c.toNat ≤ run.2

/-- The text without the blanks at its two ends. -/
def trim (s : List Char) : List Char :=
  ((s.dropWhile isBlank).reverse.dropWhile isBlank).reverse

/-- `trim` on strings. -/
def trimmed (s : String) : String :=
  String.ofList (trim s.toList)

/-- The string with its ASCII capitals made small; no other letter changes. -/
def lowered (s : String) : String :=
  String.ofList (s.toList.map Char.toLower)

/-- The pieces between the separators, empty ones included; a text without a
    separator is one piece. -/
def split (separator : Char) : List Char → List (List Char)
  | [] => [[]]
  | c :: rest =>
      if c = separator then [] :: split separator rest
      else match split separator rest with
        | [] => [[c]]
        | piece :: pieces => (c :: piece) :: pieces

/-- `split` on strings. -/
def splitString (separator : Char) (s : String) : List String :=
  (split separator s.toList).map String.ofList

/-- What follows `head` in `s`, if `s` starts with it. -/
def dropStart? : List Char → List Char → Option (List Char)
  | [], s => some s
  | _ :: _, [] => none
  | h :: head, c :: s => if h = c then dropStart? head s else none

/-- `s` starts with `head`. -/
def startsWith (head s : String) : Bool :=
  (dropStart? head.toList s.toList).isSome

theorem split_ne_nil (separator : Char) (s : List Char) :
    split separator s ≠ [] := by
  cases s with
  | nil => simp [split]
  | cons c rest =>
      unfold split
      split
      · simp
      · split <;> simp

end PcAssembly.Text
