import PcAssembly.Category
import PcAssembly.Number.DoubleText

/-! # How much each category counts

    A composite score weighs the scores of a build's parts.  The weights are
    multiples of one half, so they are kept as a number of halves: adding
    the adjustments of priority tags is then exact, in whatever order the
    tags come.  Four categories have a weight; the others count nothing. -/

namespace PcAssembly

/-- A weight, in halves; it may be negative. -/
structure Weight where
  halves : Int
  deriving DecidableEq, Repr, Inhabited

namespace Weight

/-- A whole weight. -/
def whole (n : Int) : Weight := ⟨2 * n⟩

/-- The sum of two weights. -/
def add (x y : Weight) : Weight := ⟨x.halves + y.halves⟩

instance : Add Weight := ⟨add⟩

/-- The weight as a double. -/
def toFloat (weight : Weight) : Float :=
  Float.ofInt weight.halves / 2

/-- The weight in digits, with a `.5` if it is no whole number. -/
def toText (weight : Weight) : String :=
  let magnitude := weight.halves.natAbs
  let digits := Number.natDigits (magnitude / 2)
  let half := if magnitude % 2 = 1 then ['.', '5'] else []
  String.ofList (Binary64.signedText (weight.halves < 0) (digits ++ half))

end Weight

/-- The weights of the four categories that count. -/
structure Weights where
  cpu : Weight
  ram : Weight
  gpu : Weight
  storage : Weight
  deriving DecidableEq, Repr

namespace Weights

/-- The weights without any priority. -/
def base : Weights where
  cpu := .whole 4
  ram := .whole 2
  gpu := .whole 5
  storage := .whole 2

/-- No weight anywhere. -/
def zero : Weights := ⟨.whole 0, .whole 0, .whole 0, .whole 0⟩

/-- The sum of two sets of weights. -/
def add (x y : Weights) : Weights where
  cpu := x.cpu + y.cpu
  ram := x.ram + y.ram
  gpu := x.gpu + y.gpu
  storage := x.storage + y.storage

instance : Add Weights := ⟨add⟩

/-- A priority that a request can name. -/
inductive Priority where
  | gaming
  | office
  | silent
  deriving DecidableEq, Repr

/-- The word for a priority. -/
def Priority.word : Priority → String
  | .gaming => "gaming"
  | .office => "office"
  | .silent => "silent"

/-- The priority a tag names: blanks around the word and the case of its
    letters do not matter. -/
def Priority.ofTag? (tag : String) : Option Priority :=
  let word := Text.lowered (Text.trimmed tag)
  [Priority.gaming, .office, .silent].find? fun priority => priority.word == word

/-- What a priority adds. -/
def Priority.adjustment : Priority → Weights
  | .gaming => { zero with gpu := .whole 2, cpu := .whole 1 }
  | .office => { zero with cpu := .whole 2, storage := .whole 1 }
  | .silent => { zero with gpu := .whole (-1), cpu := ⟨-1⟩ }

/-- What a tag adds; a tag that names no priority adds nothing. -/
def adjustment (tag : String) : Weights :=
  ((Priority.ofTag? tag).map Priority.adjustment).getD zero

/-- The base weights with the adjustments of all tags; a repeated tag counts
    again. -/
def ofTags (tags : List String) : Weights :=
  tags.foldl (fun weights tag => weights + adjustment tag) base

/-- The weight of a category. -/
def of (weights : Weights) : Category → Weight
  | .cpu => weights.cpu
  | .ram => weights.ram
  | .gpu => weights.gpu
  | .storage => weights.storage
  | .motherboard | .psu | .chassis | .cooler => .whole 0

/-- The four weights, in the order of the categories. -/
def toText (weights : Weights) : String :=
  s!"cpu={weights.cpu.toText}, ram={weights.ram.toText}, " ++
    s!"gpu={weights.gpu.toText}, storage={weights.storage.toText}"

end Weights

end PcAssembly
