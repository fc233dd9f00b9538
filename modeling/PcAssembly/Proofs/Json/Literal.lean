import PcAssembly.Json.Number
import PcAssembly.Proofs.Number.Canonical

/-! # The grammar of number literals

    A literal is a sign, digits with no zero in front of another, and possibly
    a fraction and an exponent (`IsLiteral`).  A literal has no closing mark:
    the reader takes as much as it can, so it finds a literal if nothing behind
    it could belong to it (`Stops`).  The literals of an integer that fits in
    64 bits are its digits and nothing else: with a fraction or an exponent, or
    as a negative zero, a number is a double (`exists_isLiteral_integer_iff`). -/

namespace PcAssembly.Json.Number

open PcAssembly.Number

/-- The digits after a point, which stands there only with digits. -/
inductive IsFraction : List Char → List Char → Prop
  | absent : IsFraction [] []
  | present {digits : List Char} (hdigits : AreDigits digits) :
      IsFraction ('.' :: digits) digits

/-- The sign of an exponent, negative or not. -/
inductive IsExponentSign : List Char → Bool → Prop
  | absent : IsExponentSign [] false
  | plus : IsExponentSign ['+'] false
  | minus : IsExponentSign ['-'] true

/-- The exponent after its mark, which stands there only with digits. -/
inductive IsExponent : List Char → Option Int → Prop
  | absent : IsExponent [] none
  | present {mark : Char} {sign digits : List Char} {negative : Bool}
      (hmark : mark = 'e' ∨ mark = 'E') (hsign : IsExponentSign sign negative)
      (hdigits : AreDigits digits) :
      IsExponent (mark :: (sign ++ digits))
        (some (if negative then -(Nat.ofDigitChars 10 digits 0 : Int)
          else Nat.ofDigitChars 10 digits 0))

/-- The parts of a number as they are written. -/
inductive IsLiteral : List Char → Literal → Prop
  | parts {whole fractionText fraction exponentText : List Char} {exponent : Option Int}
      (negative : Bool) (hwhole : AreCanonical whole) (hfraction : IsFraction fractionText fraction)
      (hexponent : IsExponent exponentText exponent) :
      IsLiteral ((if negative then ['-'] else []) ++ (whole ++ (fractionText ++ exponentText)))
        { negative, whole, fraction, exponent }

/-- No digit follows. -/
def StopsDigits (rest : List Char) : Prop := ∀ c ∈ rest.head?, c.isDigit = false

/-- Nothing follows that could belong to a number. -/
def Stops (rest : List Char) : Prop :=
  ∀ c ∈ rest.head?, c.isDigit = false ∧ c ≠ '.' ∧ c ≠ 'e' ∧ c ≠ 'E'

/-- Digits are taken up to where they stop. -/
theorem spanDigits_append {digits rest : List Char} (hdigits : ∀ c ∈ digits, c.isDigit = true)
    (hrest : StopsDigits rest) : spanDigits (digits ++ rest) = (digits, rest) := by
  have hnone : rest.takeWhile Char.isDigit = [] ∧ rest.dropWhile Char.isDigit = rest := by
    cases rest with
    | nil => exact ⟨rfl, rfl⟩
    | cons c rest =>
        have hc : c.isDigit = false := hrest c rfl
        simp [hc]
  rw [spanDigits, List.takeWhile_append_of_pos hdigits, List.dropWhile_append_of_pos hdigits,
    hnone.1, hnone.2, List.append_nil]

/-- Whatever follows digits, a digit comes first. -/
theorem isDigit_of_mem_head? {digits : List Char} (hdigits : AreDigits digits)
    {rest : List Char} : ∀ c ∈ (digits ++ rest).head?, c.isDigit = true := by
  obtain ⟨first, after, rfl⟩ := List.exists_cons_of_ne_nil hdigits.ne_nil
  intro c hc
  cases hc
  exact hdigits.isDigit _ List.mem_cons_self

/-- Only digits are taken, and nothing is lost. -/
theorem eq_append_of_spanDigits {s digits rest : List Char} (h : spanDigits s = (digits, rest)) :
    s = digits ++ rest ∧ ∀ c ∈ digits, c.isDigit = true := by
  cases h
  exact ⟨List.takeWhile_append_dropWhile.symm, List.all_eq_true.mp List.all_takeWhile⟩

/-! ### The digits before the point -/

/-- The digits before the point are read up to where they stop. -/
theorem whole?_append {digits rest : List Char} (hdigits : AreCanonical digits)
    (hrest : StopsDigits rest) : whole? (digits ++ rest) = some (digits, rest) := by
  rw [whole?, spanDigits_append hdigits.isDigit hrest]
  split
  · rename_i hnil
    exact absurd (congrArg Prod.fst hnil) hdigits.ne_nil
  · rename_i hzero
    exact nomatch hdigits.eq_nil_of_zero _ (congrArg Prod.fst hzero)
  · rename_i hread
    rw [hread]

/-- What is read before the point are canonical digits. -/
theorem of_whole? {s digits rest : List Char} (h : whole? s = some (digits, rest)) :
    s = digits ++ rest ∧ AreCanonical digits := by
  rw [whole?] at h
  split at h
  · cases h
  · cases h
  · rename_i hsome hzero hspan
    cases h
    obtain ⟨hs, hdigits⟩ := eq_append_of_spanDigits hspan
    refine ⟨hs, ⟨hsome, hdigits⟩, fun after hafter => ?_⟩
    cases after with
    | nil => rfl
    | cons c after => exact (hzero c after hafter).elim

/-! ### The fraction -/

/-- A fraction is read up to where it stops. -/
theorem fraction?_append {text fraction rest : List Char} (h : IsFraction text fraction)
    (hrest : StopsDigits rest) (hpoint : ∀ c ∈ rest.head?, c ≠ '.') :
    fraction? (text ++ rest) = some (fraction, rest) := by
  cases h with
  | absent =>
      unfold fraction?
      split
      · rename_i after hafter
        rw [List.nil_append] at hafter
        exact absurd rfl (hpoint '.' (by rw [hafter]; rfl))
      · rfl
  | present hdigits =>
      rw [List.cons_append, fraction?, spanDigits_append hdigits.isDigit hrest]
      split
      · rename_i hnil
        exact absurd (congrArg Prod.fst hnil) hdigits.ne_nil
      · rename_i hread
        rw [hread]

/-- What is read as a fraction is one. -/
theorem exists_of_fraction? {s fraction rest : List Char}
    (h : fraction? s = some (fraction, rest)) :
    ∃ text, s = text ++ rest ∧ IsFraction text fraction := by
  unfold fraction? at h
  split at h
  · split at h
    · cases h
    · rename_i hsome hspan
      cases h
      obtain ⟨rfl, hdigits⟩ := eq_append_of_spanDigits hspan
      exact ⟨_, rfl, .present ⟨hsome, hdigits⟩⟩
  · cases h
    exact ⟨[], rfl, .absent⟩

/-! ### The exponent -/

/-- The sign of an exponent is read if a digit follows. -/
theorem exponentSign_append {sign s : List Char} {negative : Bool}
    (hsign : IsExponentSign sign negative) (hs : ∀ c ∈ s.head?, c.isDigit = true) :
    exponentSign (sign ++ s) = (negative, s) := by
  cases hsign with
  | absent =>
      rw [List.nil_append]
      unfold exponentSign
      split
      · exact nomatch hs '-' rfl
      · exact nomatch hs '+' rfl
      · rfl
  | plus => rfl
  | minus => rfl

/-- What is read as the sign of an exponent is one. -/
theorem exists_of_exponentSign {s rest : List Char} {negative : Bool}
    (h : exponentSign s = (negative, rest)) :
    ∃ sign, s = sign ++ rest ∧ IsExponentSign sign negative := by
  unfold exponentSign at h
  split at h
  · cases h
    exact ⟨['-'], rfl, .minus⟩
  · cases h
    exact ⟨['+'], rfl, .plus⟩
  · cases h
    exact ⟨[], rfl, .absent⟩

/-- An exponent is read up to where it stops. -/
theorem exponent?_append {text rest : List Char} {exponent : Option Int}
    (h : IsExponent text exponent) (hrest : Stops rest) :
    exponent? (text ++ rest) = some (exponent, rest) := by
  cases h with
  | absent =>
      cases rest with
      | nil => rfl
      | cons c rest =>
          obtain ⟨-, -, hsmall, hlarge⟩ := hrest c rfl
          exact if_neg (not_or.mpr ⟨hsmall, hlarge⟩)
  | @present mark sign digits negative hmark hsign hdigits =>
      have hstops : StopsDigits rest := fun c hc => (hrest c hc).1
      rw [List.cons_append, List.append_assoc, exponent?, if_pos hmark,
        exponentSign_append hsign (isDigit_of_mem_head? hdigits)]
      simp only [spanDigits_append hdigits.isDigit hstops]
      split
      · rename_i hnil
        exact absurd (congrArg Prod.fst hnil) hdigits.ne_nil
      · rename_i hread
        cases hread
        rfl

/-- What is read as an exponent is one. -/
theorem exists_of_exponent? {s rest : List Char} {exponent : Option Int}
    (h : exponent? s = some (exponent, rest)) :
    ∃ text, s = text ++ rest ∧ IsExponent text exponent := by
  unfold exponent? at h
  split at h
  · rename_i mark after
    split at h
    · rename_i hmark
      cases hsign : exponentSign after with
      | mk negative unsigned =>
          obtain ⟨sign, rfl, hissign⟩ := exists_of_exponentSign hsign
          rw [hsign] at h
          dsimp only at h
          split at h
          · cases h
          · rename_i digits rest hsome hspan
            cases h
            obtain ⟨rfl, hdigits⟩ := eq_append_of_spanDigits hspan
            exact ⟨mark :: (sign ++ digits), by rw [List.cons_append, List.append_assoc],
              .present hmark hissign ⟨hsome, hdigits⟩⟩
    · cases h
      exact ⟨[], rfl, .absent⟩
  · cases h
    exact ⟨[], rfl, .absent⟩

/-! ### Literals -/

/-- An exponent, or what stops a number, ends a fraction. -/
theorem IsExponent.stops {text rest : List Char} {exponent : Option Int}
    (h : IsExponent text exponent) (hrest : Stops rest) :
    ∀ c ∈ (text ++ rest).head?, c.isDigit = false ∧ c ≠ '.' := by
  cases h with
  | absent => exact fun c hc => ⟨(hrest c hc).1, (hrest c hc).2.1⟩
  | present hmark =>
      intro c hc
      cases hc
      rcases hmark with rfl | rfl <;> decide

/-- A fraction, or what stops digits, ends the digits in front of it. -/
theorem IsFraction.stopsDigits {text fraction rest : List Char} (h : IsFraction text fraction)
    (hrest : StopsDigits rest) : StopsDigits (text ++ rest) := by
  cases h with
  | absent => exact hrest
  | present =>
      intro c hc
      cases hc
      rfl

/-- A literal begins with its sign or a digit. -/
theorem IsLiteral.exists_cons {text : List Char} {l : Literal} (h : IsLiteral text l) :
    ∃ c rest, text = c :: rest ∧ ∀ d : Char, d.isDigit = false → d ≠ '-' → c ≠ d := by
  cases h with
  | parts negative hwhole =>
      cases negative with
      | true => exact ⟨'-', _, rfl, fun d _ hd => hd.symm⟩
      | false =>
          obtain ⟨c, rest, rfl⟩ := List.exists_cons_of_ne_nil hwhole.ne_nil
          refine ⟨c, _, rfl, ?_⟩
          rintro d hd - rfl
          exact nomatch hd.symm.trans (hwhole.isDigit c List.mem_cons_self)

/-- **A literal is found** at the start of a text, if nothing behind it could
    belong to it. -/
theorem literal?_append {text rest : List Char} {l : Literal} (h : IsLiteral text l)
    (hrest : Stops rest) : literal? (text ++ rest) = some (l, rest) := by
  cases h with
  | @parts whole fractionText fraction exponentText exponent negative hwhole hfraction hexponent =>
      have hstops := hexponent.stops hrest
      have hdigits : StopsDigits (exponentText ++ rest) := fun c hc => (hstops c hc).1
      have hreadWhole := whole?_append hwhole (hfraction.stopsDigits hdigits)
      have hreadFraction := fraction?_append hfraction hdigits fun c hc => (hstops c hc).2
      have hreadExponent := exponent?_append hexponent hrest
      have hunsigned : ∀ tail, whole ++ (fractionText ++ (exponentText ++ rest)) ≠ '-' :: tail := by
        intro tail htail
        exact nomatch isDigit_of_mem_head? hwhole.toAreDigits '-' (by rw [htail]; rfl)
      simp only [List.append_assoc]
      -- `hunsigned` is what keeps the digits out of the branch of the sign
      cases negative with
      | true => simp [literal?, hreadWhole, hreadFraction, hreadExponent]
      | false => simp [literal?, hreadWhole, hreadFraction, hreadExponent]

/-- **What is found is a literal** at the start of the text. -/
theorem exists_of_literal? {s rest : List Char} {l : Literal}
    (h : literal? s = some (l, rest)) : ∃ text, s = text ++ rest ∧ IsLiteral text l := by
  unfold literal? at h
  split at h
  rename_i negative unsigned hsigned
  have hs : s = (if negative then ['-'] else []) ++ unsigned := by
    split at hsigned <;> cases hsigned <;> rfl
  obtain ⟨⟨whole, afterWhole⟩, hwhole, h⟩ := Option.bind_eq_some_iff.mp h
  obtain ⟨⟨fraction, afterFraction⟩, hfraction, h⟩ := Option.bind_eq_some_iff.mp h
  obtain ⟨⟨exponent, afterExponent⟩, hexponent, h⟩ := Option.bind_eq_some_iff.mp h
  cases h
  obtain ⟨rfl, hcanonical⟩ := of_whole? hwhole
  obtain ⟨fractionText, rfl, hisFraction⟩ := exists_of_fraction? hfraction
  obtain ⟨exponentText, rfl, hisExponent⟩ := exists_of_exponent? hexponent
  refine ⟨_, ?_, .parts negative hcanonical hisFraction hisExponent⟩
  rw [hs]
  simp only [List.append_assoc]

/-! ### Integer literals -/

/-- **An integer in 64 bits** is meant by a literal without a fraction and an
    exponent, whose sign is there only for a negative integer. -/
theorem ofLiteral_eq_integer_iff {value : Int} (hmin : Int64.minValue.toInt ≤ value)
    (hmax : value < UInt64.size) {l : Literal} :
    ofLiteral l = .integer value ↔
      (l.fraction = [] ∧ l.exponent = none) ∧
        l.negative = decide (value < 0) ∧ Nat.ofDigitChars 10 l.whole 0 = value.natAbs := by
  obtain ⟨negative, whole, fraction, exponent⟩ := l
  simp only [ofLiteral]
  split
  · rename_i hnonnegative
    simp only [Bool.and_eq_true, List.isEmpty_iff, Option.isNone_iff_eq_none, Bool.not_eq_true',
      decide_eq_true_eq] at hnonnegative
    obtain ⟨⟨⟨rfl, rfl⟩, rfl⟩, -⟩ := hnonnegative
    rw [Number.integer.injEq, eq_comm (a := false), decide_eq_false_iff_not]
    simp only [true_and]
    omega
  · rename_i hnotNonnegative
    split
    · rename_i hnegative
      simp only [Bool.and_eq_true, List.isEmpty_iff, Option.isNone_iff_eq_none,
        decide_eq_true_eq] at hnegative
      obtain ⟨⟨⟨rfl, rfl⟩, rfl⟩, hpositive, -⟩ := hnegative
      rw [Number.integer.injEq, eq_comm (a := true), decide_eq_true_eq]
      simp only [true_and]
      omega
    · rename_i hnotNegative
      constructor
      · intro h
        split at h <;> cases h
      · rintro ⟨⟨rfl, rfl⟩, rfl, hvalue⟩
        simp only [List.isEmpty_nil, Option.isNone_none, Bool.and_true, Bool.true_and,
          Bool.and_eq_true, Bool.not_eq_true', decide_eq_true_eq, decide_eq_false_iff_not] at *
        omega

/-- A fraction without digits is not written. -/
theorem IsFraction.text_eq_nil {text : List Char} (h : IsFraction text []) : text = [] := by
  cases h with
  | absent => rfl
  | present hdigits => exact absurd rfl hdigits.ne_nil

/-- An exponent without a value is not written. -/
theorem IsExponent.text_eq_nil {text : List Char} (h : IsExponent text none) : text = [] := by
  cases h
  rfl

/-- **The literals of an integer.** An integer that fits in 64 bits, signed or
    unsigned, has one literal: its digits. -/
theorem exists_isLiteral_integer_iff {value : Int} (hmin : Int64.minValue.toInt ≤ value)
    (hmax : value < UInt64.size) {text : List Char} :
    (∃ l, IsLiteral text l ∧ ofLiteral l = .integer value) ↔ text = intDigits value := by
  have hdigits : intDigits value =
      (if decide (value < 0) then ['-'] else []) ++ (natDigits value.natAbs ++ ([] ++ [])) := by
    rw [intDigits]
    split <;> simp [*]
  rw [hdigits]
  constructor
  · rintro ⟨l, hl, hvalue⟩
    obtain ⟨⟨hfraction, hexponent⟩, hnegative, hmagnitude⟩ :=
      (ofLiteral_eq_integer_iff hmin hmax).mp hvalue
    cases hl with
    | parts negative hwhole hisFraction hisExponent =>
        dsimp only at hfraction hexponent hnegative hmagnitude
        subst hfraction hexponent hnegative
        rw [hisFraction.text_eq_nil, hisExponent.text_eq_nil,
          natDigits_eq_iff.mpr ⟨hwhole, hmagnitude⟩]
  · rintro rfl
    obtain ⟨hcanonical, hmagnitude⟩ := natDigits_eq_iff.mp (Eq.refl (natDigits value.natAbs))
    exact ⟨_, .parts _ hcanonical .absent .absent,
      (ofLiteral_eq_integer_iff hmin hmax).mpr ⟨⟨rfl, rfl⟩, rfl, hmagnitude⟩⟩

end PcAssembly.Json.Number
