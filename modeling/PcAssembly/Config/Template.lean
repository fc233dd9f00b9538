/-! # Placeholders

    A configuration text may name variables of the environment between `${`
    and the next closing brace.  The text is read once from left to right;
    what a variable holds is put in as it is and not read again.  A name that
    stands for nothing stays as it was written. -/

namespace PcAssembly

/-- A piece of a text with placeholders. -/
inductive TemplatePiece where
  | char (c : Char)
  | placeholder (name : List Char)
  deriving DecidableEq, Repr

namespace TemplatePiece

/-- The name in a placeholder that starts the text, and the text after it.  A
    name has a character at least. -/
def spanPlaceholder? : List Char → Option (List Char × List Char)
  | '$' :: '\x7b' :: rest =>
      let name := rest.takeWhile (· != '\x7d')
      match name, rest.dropWhile (· != '\x7d') with
      | _ :: _, _ :: after => some (name, after)
      | _, _ => none
  | _ => none

theorem length_lt_of_spanPlaceholder? {s name after : List Char}
    (h : spanPlaceholder? s = some (name, after)) : after.length < s.length := by
  unfold spanPlaceholder? at h
  split at h
  · rename_i rest
    have dropped : (rest.dropWhile (· != '\x7d')).length ≤ rest.length :=
      (List.dropWhile_suffix _).length_le
    dsimp only at h
    split at h
    · rename_i d _ _ heq
      simp only [Option.some.injEq, Prod.mk.injEq] at h
      rw [heq, h.2] at dropped
      simp only [List.length_cons] at dropped ⊢
      omega
    · simp at h
  · simp at h

/-- The pieces of a text. -/
def ofText : List Char → List TemplatePiece
  | [] => []
  | c :: rest =>
      match _h : spanPlaceholder? (c :: rest) with
      | some (name, after) => .placeholder name :: ofText after
      | none => .char c :: ofText rest
termination_by s => s.length
decreasing_by
  · exact length_lt_of_spanPlaceholder? _h
  · exact Nat.lt_succ_self rest.length

/-- The text of a piece, given what the variables hold. -/
def fill (envValue? : String → Option String) : TemplatePiece → List Char
  | .char c => [c]
  | .placeholder name =>
      match envValue? (String.ofList name) with
      | some value => value.toList
      | none => '$' :: '\x7b' :: name ++ ['\x7d']

/-- The name in a piece that is a placeholder. -/
def name? : TemplatePiece → Option String
  | .char _ => none
  | .placeholder name => some (String.ofList name)

end TemplatePiece

namespace Template

/-- The names of the variables that a text mentions. -/
def names (text : String) : List String :=
  (TemplatePiece.ofText text.toList).filterMap TemplatePiece.name?

/-- The text with every placeholder replaced that stands for something. -/
def substitute (envValue? : String → Option String) (text : String) : String :=
  String.ofList ((TemplatePiece.ofText text.toList).flatMap (TemplatePiece.fill envValue?))

end Template

end PcAssembly
