import PcAssembly.Proofs.Json.Grammar

/-! # The reader accepts the grammar

    What the reader returns for a text is a value that the grammar gives the
    text, and every value that the grammar gives it is returned
    (`read?_eq_some_iff`).  Both directions are inductions on the reader's
    fuel, over values, items and members at once: the fuel is no part of the
    grammar, and twice the length of a text is enough for its value. -/

namespace PcAssembly.Json

/-! ### What a value begins with -/

/-- The text begins with a character that is no blank and closes nothing. -/
def Begins (s : List Char) : Prop :=
  ∃ c rest, s = c :: rest ∧ isSpace c = false ∧ c ≠ ']' ∧ c ≠ '\x7d'

/-- What begins a value still does with a rest behind it. -/
theorem Begins.append {s : List Char} (h : Begins s) (rest : List Char) : Begins (s ++ rest) := by
  obtain ⟨c, tail, rfl, hc⟩ := h
  exact ⟨c, tail ++ rest, rfl, hc⟩

/-- No blank is skipped where a value begins. -/
theorem Begins.skipSpaces {s : List Char} (h : Begins s) : skipSpaces s = s := by
  obtain ⟨c, tail, rfl, hspace, -⟩ := h
  exact skipSpaces_eq_self fun d hd => by cases hd; exact hspace

/-- A quoted text begins with no blank. -/
theorem IsQuoted.begins {text : List Char} {content : Quoted} (h : IsQuoted text content) :
    Begins text := by
  cases h
  exact ⟨_, _, rfl, by decide, by decide, by decide⟩

/-- A value begins with no blank. -/
theorem IsValue.begins {text : List Char} {value : Json} (h : IsValue text value) :
    Begins text := by
  cases h with
  | number hl =>
      obtain ⟨c, rest, rfl, hc⟩ := hl.exists_cons
      refine ⟨c, rest, rfl, ?_, hc _ rfl (by decide), hc _ rfl (by decide)⟩
      simp only [isSpace, Bool.or_eq_false_iff, decide_eq_false_iff_not]
      exact ⟨⟨⟨hc _ rfl (by decide), hc _ rfl (by decide)⟩, hc _ rfl (by decide)⟩,
        hc _ rfl (by decide)⟩
  | string hquoted => exact hquoted.begins
  | _ => exact ⟨_, _, rfl, by decide, by decide, by decide⟩

/-- Items begin with no blank. -/
theorem AreItems.begins {text : List Char} {items : List Json} (h : AreItems text items) :
    Begins text := by
  cases h with
  | last hitem => exact hitem.begins.append _
  | comma hitem => exact hitem.begins.append _

/-- Members begin with no blank. -/
theorem AreMembers.begins {text : List Char} {members : List (Quoted × Json)}
    (h : AreMembers text members) : Begins text := by
  cases h with
  | last hmember => 
      cases hmember with
      | colon hname => exact (hname.begins.append _).append _
  | comma hmember =>
      cases hmember with
      | colon hname => exact (hname.begins.append _).append _

/-! ### One step of the reader -/

/-- Reading an array is reading its items. -/
theorem value?_array {blanks s : List Char} (hblanks : AreBlanks blanks) (hs : Begins s)
    (fuel : Nat) :
    value? (fuel + 1) ('[' :: (blanks ++ s)) =
      (items? fuel s).map fun (items, rest) => (.array items, rest) := by
  rw [value?, skipSpaces_append hblanks, hs.skipSpaces]
  obtain ⟨c, tail, rfl, -, hc, -⟩ := hs
  split
  · rename_i hclose
    exact absurd (List.cons.inj hclose).1 hc
  · cases items? fuel (c :: tail) <;> rfl

/-- Reading an object is reading its members. -/
theorem value?_object {blanks s : List Char} (hblanks : AreBlanks blanks) (hs : Begins s)
    (fuel : Nat) :
    value? (fuel + 1) ('\x7b' :: (blanks ++ s)) =
      (members? fuel s).map fun (members, rest) => (.object members, rest) := by
  rw [value?, skipSpaces_append hblanks, hs.skipSpaces]
  obtain ⟨c, tail, rfl, -, -, hc⟩ := hs
  split
  · rename_i hclose
    exact absurd (List.cons.inj hclose).1 hc
  · cases members? fuel (c :: tail) <;> rfl

/-- A literal is read up to where it stops. -/
theorem value?_number {text rest : List Char} {l : Number.Literal}
    (hl : Number.IsLiteral text l) (hrest : Number.Stops rest) (fuel : Nat) :
    value? (fuel + 1) (text ++ rest) = some (.number (Number.ofLiteral l), rest) := by
  have hread := Number.literal?_append hl hrest
  obtain ⟨c, tail, rfl, hc⟩ := hl.exists_cons
  rw [List.cons_append] at hread ⊢
  have hscalar : scalar? (c :: (tail ++ rest)) = some (.number (Number.ofLiteral l), rest) := by
    unfold scalar?
    split
    · rename_i heq
      exact absurd (List.cons.inj heq).1 (hc _ rfl (by decide))
    · rename_i heq
      exact absurd (List.cons.inj heq).1 (hc _ rfl (by decide))
    · rename_i heq
      exact absurd (List.cons.inj heq).1 (hc _ rfl (by decide))
    · rename_i heq
      exact absurd (List.cons.inj heq).1 (hc _ rfl (by decide))
    · rw [hread]
      rfl
  unfold value?
  split
  · rename_i heq
    exact absurd (List.cons.inj heq).1 (hc _ rfl (by decide))
  · rename_i heq
    exact absurd (List.cons.inj heq).1 (hc _ rfl (by decide))
  · exact hscalar

/-- A quoted text is read up to its closing quote. -/
theorem value?_quoted {text : List Char} {content : Quoted} (h : IsQuoted text content)
    (fuel : Nat) (rest : List Char) :
    value? (fuel + 1) (text ++ rest) = some (.string content, rest) := by
  cases h with
  | @quotes text _ hcontent =>
    have hread := Quoted.read?_eq_some_iff.mpr ⟨text, Eq.refl (text ++ '"' :: rest), hcontent⟩
    rw [List.cons_append, List.append_assoc]
    exact congrArg (Option.map _) hread

/-- A name is read with its colon and the blanks around it. -/
theorem name?_append {text before after s : List Char} {name : Quoted} (h : IsQuoted text name)
    (hbefore : AreBlanks before) (hafter : AreBlanks after) (hs : Begins s) :
    name? (text ++ (before ++ ':' :: (after ++ s))) = some (name, s) := by
  cases h with
  | @quotes text _ hcontent =>
    have hread := Quoted.read?_eq_some_iff.mpr
      ⟨text, Eq.refl (text ++ '"' :: (before ++ ':' :: (after ++ s))), hcontent⟩
    have hcolon : skipSpaces (before ++ ':' :: (after ++ s)) = ':' :: (after ++ s) := by
      rw [skipSpaces_append hbefore]
      rfl
    simp only [List.cons_append, List.append_assoc, List.nil_append, name?, hread,
      Option.bind_eq_bind, Option.bind_some, hcolon, skipSpaces_append hafter, hs.skipSpaces]

/-- What is read as a name is one, with a colon behind it. -/
theorem exists_of_name? {s rest : List Char} {name : Quoted} (h : name? s = some (name, rest)) :
    ∃ text before after, s = text ++ (before ++ ':' :: (after ++ rest)) ∧
      IsQuoted text name ∧ AreBlanks before ∧ AreBlanks after := by
  unfold name? at h
  split at h
  · obtain ⟨⟨content, tail⟩, hread, hcolon⟩ := Option.bind_eq_some_iff.mp h
    obtain ⟨text, rfl, hcontent⟩ := Quoted.read?_eq_some_iff.mp hread
    dsimp only at hcolon
    split at hcolon
    · rename_i afterColon hskip
      obtain ⟨before, hbefore, rfl⟩ := exists_blanks hskip
      cases hcolon
      obtain ⟨after, hafter, hrest⟩ := exists_blanks (Eq.refl (skipSpaces afterColon))
      refine ⟨'"' :: (text ++ ['"']), before, after, ?_, .quotes hcontent, hbefore, hafter⟩
      rw [← hrest]
      simp only [List.cons_append, List.append_assoc, List.nil_append]
    · cases hcolon
  · cases h

/-- What is read as a value without parts is one. -/
theorem exists_of_scalar? {s rest : List Char} {value : Json} (h : scalar? s = some (value, rest)) :
    ∃ text, s = text ++ rest ∧ IsValue text value := by
  unfold scalar? at h
  split at h
  · cases h
    exact ⟨_, rfl, .null⟩
  · cases h
    exact ⟨_, rfl, .true⟩
  · cases h
    exact ⟨_, rfl, .false⟩
  · obtain ⟨⟨content, tail⟩, hread, hvalue⟩ := Option.map_eq_some_iff.mp h
    cases hvalue
    obtain ⟨text, rfl, hcontent⟩ := Quoted.read?_eq_some_iff.mp hread
    exact ⟨'"' :: (text ++ ['"']), by rw [List.cons_append, List.append_assoc]; rfl,
      .string (.quotes hcontent)⟩
  · obtain ⟨⟨l, tail⟩, hread, hvalue⟩ := Option.map_eq_some_iff.mp h
    cases hvalue
    obtain ⟨text, rfl, hl⟩ := Number.exists_of_literal? hread
    exact ⟨text, rfl, .number hl⟩

/-! ### What is read has a derivation -/

mutual

/-- What is read as a value is one. -/
theorem exists_of_value? (fuel : Nat) {s rest : List Char} {value : Json}
    (h : value? fuel s = some (value, rest)) :
    ∃ text, s = text ++ rest ∧ IsValue text value := by
  match fuel with
  | 0 => cases h
  | fuel + 1 =>
      unfold value? at h
      split at h
      · split at h
        · rename_i hskip
          obtain ⟨blanks, hblanks, rfl⟩ := exists_blanks hskip
          cases h
          exact ⟨_, by simp, .emptyArray hblanks⟩
        · obtain ⟨⟨items, tail⟩, hitems, hvalue⟩ := Option.bind_eq_some_iff.mp h
          cases hvalue
          obtain ⟨text, htext, hderived⟩ := exists_of_items? fuel hitems
          obtain ⟨blanks, hblanks, rfl⟩ := exists_blanks htext
          exact ⟨_, by simp, .array hblanks hderived⟩
      · split at h
        · rename_i hskip
          obtain ⟨blanks, hblanks, rfl⟩ := exists_blanks hskip
          cases h
          exact ⟨_, by simp, .emptyObject hblanks⟩
        · obtain ⟨⟨members, tail⟩, hmembers, hvalue⟩ := Option.bind_eq_some_iff.mp h
          cases hvalue
          obtain ⟨text, htext, hderived⟩ := exists_of_members? fuel hmembers
          obtain ⟨blanks, hblanks, rfl⟩ := exists_blanks htext
          exact ⟨_, by simp, .object hblanks hderived⟩
      · exact exists_of_scalar? h

/-- What is read as items is items and their closing bracket. -/
theorem exists_of_items? (fuel : Nat) {s rest : List Char} {items : List Json}
    (h : items? fuel s = some (items, rest)) :
    ∃ text, s = text ++ ']' :: rest ∧ AreItems text items := by
  match fuel with
  | 0 => cases h
  | fuel + 1 =>
      unfold items? at h
      obtain ⟨⟨item, tail⟩, hitem, hmark⟩ := Option.bind_eq_some_iff.mp h
      obtain ⟨text, rfl, hvalue⟩ := exists_of_value? fuel hitem
      dsimp only at hmark
      split at hmark
      · rename_i hskip
        obtain ⟨blanks, hblanks, rfl⟩ := exists_blanks hskip
        cases hmark
        exact ⟨_, (List.append_assoc ..).symm, .last hvalue hblanks⟩
      · rename_i hskip
        obtain ⟨before, hbefore, rfl⟩ := exists_blanks hskip
        obtain ⟨⟨others, _⟩, hothers, hitems⟩ := Option.bind_eq_some_iff.mp hmark
        cases hitems
        obtain ⟨others, hskip, hderived⟩ := exists_of_items? fuel hothers
        obtain ⟨after, hafter, rfl⟩ := exists_blanks hskip
        exact ⟨_, by simp, .comma hvalue hbefore hafter hderived⟩
      · cases hmark

/-- What is read as members is members and their closing brace. -/
theorem exists_of_members? (fuel : Nat) {s rest : List Char} {members : List (Quoted × Json)}
    (h : members? fuel s = some (members, rest)) :
    ∃ text, s = text ++ '\x7d' :: rest ∧ AreMembers text members := by
  match fuel with
  | 0 => cases h
  | fuel + 1 =>
      unfold members? at h
      obtain ⟨⟨name, afterName⟩, hname, hitem⟩ := Option.bind_eq_some_iff.mp h
      obtain ⟨⟨item, afterItem⟩, hitem, hmark⟩ := Option.bind_eq_some_iff.mp hitem
      obtain ⟨nameText, before, after, rfl, hisName, hbefore, hafter⟩ := exists_of_name? hname
      obtain ⟨text, rfl, hvalue⟩ := exists_of_value? fuel hitem
      have hmember := IsMember.colon hisName hbefore hafter hvalue
      dsimp only at hmark
      split at hmark
      · rename_i hskip
        obtain ⟨blanks, hblanks, rfl⟩ := exists_blanks hskip
        cases hmark
        exact ⟨_, by simp, .last hmember hblanks⟩
      · rename_i hskip
        obtain ⟨beforeComma, hbeforeComma, rfl⟩ := exists_blanks hskip
        obtain ⟨⟨others, _⟩, hothers, hmembers⟩ := Option.bind_eq_some_iff.mp hmark
        cases hmembers
        obtain ⟨others, hskip, hderived⟩ := exists_of_members? fuel hothers
        obtain ⟨afterComma, hafterComma, rfl⟩ := exists_blanks hskip
        exact ⟨_, by simp, .comma hmember hbeforeComma hafterComma hderived⟩
      · cases hmark

end

/-! ### What has a derivation is read -/

/-- A member is its name, found by the reader, and the text of its value. -/
theorem IsMember.exists_name {text : List Char} {member : Quoted × Json}
    (h : IsMember text member) :
    ∃ valueText, IsValue valueText member.2 ∧ valueText.length ≤ text.length ∧
      ∀ rest, name? (text ++ rest) = some (member.1, valueText ++ rest) := by
  cases h with
  | @colon nameText before after text name item hname hbefore hafter hitem =>
      refine ⟨text, hitem, ?_, fun rest => ?_⟩
      · simp only [List.length_append, List.length_cons]
        omega
      · simp only [List.append_assoc, List.cons_append]
        exact name?_append hname hbefore hafter (hitem.begins.append rest)

/-- A comma or a closing bracket ends every value before it. -/
theorem stops_mark {blanks : List Char} {mark : Char} (hblanks : AreBlanks blanks)
    (hmark : mark = ',' ∨ mark = ']' ∨ mark = '\x7d') (rest : List Char) :
    Number.Stops (blanks ++ mark :: rest) := by
  refine stops_append hblanks fun c hc => ?_
  cases hc
  rcases hmark with rfl | rfl | rfl <;> decide

/-- Blanks are skipped up to the next mark. -/
theorem skipSpaces_append_cons {blanks : List Char} (hblanks : AreBlanks blanks) (c : Char)
    (hc : isSpace c = false) (rest : List Char) :
    skipSpaces (blanks ++ c :: rest) = c :: rest := by
  rw [skipSpaces_append hblanks]
  exact skipSpaces_eq_self fun d hd => by cases hd; exact hc

-- A member's value is reached through its name, so no argument but the fuel gets
-- smaller in every call: the recursion is on the fuel, and the derivation is
-- taken apart on the way.
mutual

/-- A value is read, with fuel for twice its length. -/
theorem value?_append (fuel : Nat) {text : List Char} {value : Json} (h : IsValue text value)
    (hfuel : 2 * text.length ≤ fuel) {rest : List Char} (hrest : Number.Stops rest) :
    value? fuel (text ++ rest) = some (value, rest) := by
  match fuel with
  | 0 =>
      -- no value has an empty text
      obtain ⟨c, tail, rfl, -⟩ := h.begins
      rw [List.length_cons] at hfuel
      omega
  | fuel + 1 =>
      cases h with
      | null => rfl
      | true => rfl
      | false => rfl
      | number hl => exact value?_number hl hrest fuel
      | string hquoted => exact value?_quoted hquoted fuel rest
      | emptyArray hblanks =>
          simp only [List.cons_append, List.append_assoc, List.nil_append, value?,
            skipSpaces_append_cons hblanks ']' rfl]
      | array hblanks hitems =>
          simp only [List.length_cons, List.length_append, List.length_nil] at hfuel
          simp only [List.cons_append, List.append_assoc, List.nil_append]
          rw [value?_array hblanks (hitems.begins.append _),
            items?_append fuel hitems (by omega) rest]
          rfl
      | emptyObject hblanks =>
          simp only [List.cons_append, List.append_assoc, List.nil_append, value?,
            skipSpaces_append_cons hblanks '\x7d' rfl]
      | object hblanks hmembers =>
          simp only [List.length_cons, List.length_append, List.length_nil] at hfuel
          simp only [List.cons_append, List.append_assoc, List.nil_append]
          rw [value?_object hblanks (hmembers.begins.append _),
            members?_append fuel hmembers (by omega) rest]
          rfl

/-- Items are read up to their closing bracket. -/
theorem items?_append (fuel : Nat) {text : List Char} {items : List Json}
    (h : AreItems text items) (hfuel : 2 * text.length < fuel) (rest : List Char) :
    items? fuel (text ++ ']' :: rest) = some (items, rest) := by
  match fuel with
  | 0 => exact absurd hfuel (Nat.not_lt_zero _)
  | fuel + 1 =>
      cases h with
      | last hitem hblanks =>
          rw [List.length_append] at hfuel
          have hread := value?_append fuel hitem (by omega)
            (stops_mark hblanks (.inr (.inl rfl)) rest)
          simp only [List.append_assoc, items?, hread, Option.bind_eq_bind, Option.bind_some,
            skipSpaces_append_cons hblanks ']' rfl]
      | @comma _ _ after others _ _ hitem hbefore hafter hothers =>
          simp only [List.length_append, List.length_cons] at hfuel
          have hread := value?_append fuel hitem (by omega)
            (stops_mark hbefore (.inl rfl) (after ++ (others ++ ']' :: rest)))
          have hrest := items?_append fuel hothers (by omega) rest
          simp only [List.append_assoc, List.cons_append, items?, hread, Option.bind_eq_bind,
            Option.bind_some, skipSpaces_append_cons hbefore ',' rfl,
            skipSpaces_append hafter, (hothers.begins.append _).skipSpaces, hrest, Option.pure_def]

/-- Members are read up to their closing brace. -/
theorem members?_append (fuel : Nat) {text : List Char} {members : List (Quoted × Json)}
    (h : AreMembers text members) (hfuel : 2 * text.length < fuel) (rest : List Char) :
    members? fuel (text ++ '\x7d' :: rest) = some (members, rest) := by
  match fuel with
  | 0 => exact absurd hfuel (Nat.not_lt_zero _)
  | fuel + 1 =>
      cases h with
      | last hmember hblanks =>
          obtain ⟨valueText, hitem, hlength, hname⟩ := hmember.exists_name
          rw [List.length_append] at hfuel
          have hread := value?_append fuel hitem (by omega)
            (stops_mark hblanks (.inr (.inr rfl)) rest)
          simp only [List.append_assoc, members?, hname, hread, Option.bind_eq_bind,
            Option.bind_some, skipSpaces_append_cons hblanks '\x7d' rfl]
      | @comma _ _ after others _ _ hmember hbefore hafter hothers =>
          obtain ⟨valueText, hitem, hlength, hname⟩ := hmember.exists_name
          simp only [List.length_append, List.length_cons] at hfuel
          have hread := value?_append fuel hitem (by omega)
            (stops_mark hbefore (.inl rfl) (after ++ (others ++ '\x7d' :: rest)))
          have hrest := members?_append fuel hothers (by omega) rest
          simp only [List.append_assoc, List.cons_append, members?, hname, hread,
            Option.bind_eq_bind, Option.bind_some,
            skipSpaces_append_cons hbefore ',' rfl,
            skipSpaces_append hafter, (hothers.begins.append _).skipSpaces, hrest, Option.pure_def]

end

/-- **Reading a data text.** The reader returns a value for a text if and only
    if the text is one of that value's by the grammar. -/
theorem read?_eq_some_iff {s : List Char} {value : Json} :
    read? s = some value ↔ IsText s value := by
  constructor
  · intro h
    obtain ⟨⟨found, tail⟩, hread, hend⟩ := Option.bind_eq_some_iff.mp h
    obtain ⟨text, htext, hvalue⟩ := exists_of_value? _ hread
    obtain ⟨before, hbefore, rfl⟩ := exists_blanks htext
    dsimp only at hend
    split at hend
    · rename_i hempty
      cases hend
      obtain ⟨after, hafter, rfl⟩ := exists_blanks (List.isEmpty_iff.mp hempty)
      rw [List.append_nil]
      exact .value hbefore hvalue hafter
    · cases hend
  · intro h
    cases h with
    | @value before text after _ hbefore hvalue hafter =>
        have hend : skipSpaces after = [] := by
          rw [← List.append_nil after, skipSpaces_append hafter]
          rfl
        have hstops : Number.Stops after := by
          rw [← List.append_nil after]
          exact stops_append hafter fun c hc => nomatch hc
        have hread := value?_append (2 * (before ++ (text ++ after)).length + 1) hvalue
          (by simp only [List.length_append]; omega) hstops
        rw [read?, skipSpaces_append hbefore, (hvalue.begins.append after).skipSpaces, hread]
        simp only [Option.bind_eq_bind, Option.bind_some, hend, List.isEmpty_nil, if_true]

/-- A text is that of one value at most. -/
theorem IsText.value_unique {s : List Char} {first second : Json} (hfirst : IsText s first)
    (hsecond : IsText s second) : first = second :=
  Option.some.inj ((read?_eq_some_iff.mpr hfirst).symm.trans (read?_eq_some_iff.mpr hsecond))

/-- **The texts of an integer.** An integer that fits in 64 bits has one text,
    its digits: a text with a fraction or an exponent is that of a double, and
    so is a negative zero. -/
theorem isValue_int_iff {value : Int} (hmin : Int64.minValue.toInt ≤ value)
    (hmax : value < UInt64.size) {text : List Char} :
    IsValue text (.int value) ↔ text = PcAssembly.Number.intDigits value := by
  rw [← Number.exists_isLiteral_integer_iff hmin hmax]
  constructor
  · intro h
    generalize hint : Json.int value = found at h
    cases h with
    | number hl =>
        rw [Json.int, Json.number.injEq] at hint
        exact ⟨_, hl, hint.symm⟩
    | _ => cases hint
  · rintro ⟨l, hl, hvalue⟩
    rw [Json.int, ← hvalue]
    exact .number hl

end PcAssembly.Json
