import PcAssembly.Config.Template

/-! # Placeholders are filled in one pass

    The pieces of a text are found without looking at any variable: characters
    up to the first placeholder, the placeholder, and the pieces of what follows
    it.  Hence filling them in is a single pass from left to right
    (`substitute_one_pass`): what a variable holds is never looked at again, and
    a text none of whose variables is set stays as it is, since an unfilled
    placeholder is written as it was found. -/

namespace PcAssembly

namespace TemplatePiece

/-- **A placeholder starts a text** if the text goes on with a name that has no
    closing brace, and a closing brace. -/
theorem spanPlaceholder?_eq_some_iff {s name after : List Char} :
    spanPlaceholder? s = some (name, after) ↔
      name ≠ [] ∧ '\x7d' ∉ name ∧ s = '$' :: '\x7b' :: (name ++ '\x7d' :: after) := by
  constructor
  · intro h
    unfold spanPlaceholder? at h
    split at h
    · rename_i rest
      dsimp only at h
      split at h
      · rename_i first others brace tail hname hafter
        cases h
        have hbrace : brace = '\x7d' := by
          have hhead := List.head?_dropWhile_not (· != '\x7d') rest
          rw [hafter] at hhead
          simpa using hhead
        have hnone : '\x7d' ∉ rest.takeWhile (· != '\x7d') := fun hmem =>
          absurd (List.all_eq_true.mp List.all_takeWhile _ hmem) (by decide)
        refine ⟨by rw [hname]; exact List.cons_ne_nil _ _, hnone, ?_⟩
        rw [← hbrace, ← hafter, hbrace, List.takeWhile_append_dropWhile]
      · cases h
    · cases h
  · rintro ⟨hname, hnone, rfl⟩
    have hall : ∀ c ∈ name, (c != '\x7d') = true := by
      intro c hc
      rw [bne_iff_ne]
      rintro rfl
      exact hnone hc
    obtain ⟨first, others, rfl⟩ := List.exists_cons_of_ne_nil hname
    simp only [spanPlaceholder?, List.takeWhile_append_of_pos hall,
      List.dropWhile_append_of_pos hall]
    simp

/-- A placeholder at the start is taken as one piece. -/
theorem ofText_of_spanPlaceholder? {s name after : List Char}
    (h : spanPlaceholder? s = some (name, after)) :
    ofText s = .placeholder name :: ofText after := by
  cases s with
  | nil => cases h
  | cons c rest =>
      rw [ofText]
      split
      · rename_i hspan
        rw [h] at hspan
        cases hspan
        rfl
      · rename_i hspan
        rw [h] at hspan
        cases hspan

/-- Where no placeholder starts, one character is taken. -/
theorem ofText_cons {c : Char} {rest : List Char} (h : spanPlaceholder? (c :: rest) = none) :
    ofText (c :: rest) = .char c :: ofText rest := by
  rw [ofText]
  split
  · rename_i hspan
    rw [h] at hspan
    cases hspan
  · rfl

/-- Characters where no placeholder starts are pieces of their own. -/
theorem ofText_append {before rest : List Char}
    (h : ∀ head tail, before = head ++ tail → tail ≠ [] → spanPlaceholder? (tail ++ rest) = none) :
    ofText (before ++ rest) = before.map .char ++ ofText rest := by
  induction before with
  | nil => rfl
  | cons c before ih =>
      have hrest := ih fun head tail hsplit => h (c :: head) tail (congrArg (c :: ·) hsplit)
      have hc : spanPlaceholder? (c :: (before ++ rest)) = none :=
        h [] (c :: before) rfl (List.cons_ne_nil _ _)
      rw [List.cons_append, ofText_cons hc, hrest]
      rfl

/-- Characters stand for themselves. -/
theorem flatMap_fill_char (envValue? : String → Option String) (s : List Char) :
    (s.map TemplatePiece.char).flatMap (fill envValue?) = s := by
  induction s with
  | nil => rfl
  | cons c s ih => exact congrArg (c :: ·) ih

/-- Characters name nothing. -/
theorem filterMap_name?_char (s : List Char) :
    (s.map TemplatePiece.char).filterMap name? = [] := by
  rw [List.filterMap_eq_nil_iff]
  intro piece hpiece
  obtain ⟨c, -, rfl⟩ := List.mem_map.mp hpiece
  rfl

/-- A placeholder stands for the value of its name, or for itself. -/
theorem fill_placeholder (envValue? : String → Option String) (name : String) :
    (placeholder name.toList).fill envValue? =
      ((envValue? name).getD ("$\x7b" ++ name ++ "\x7d")).toList := by
  rw [fill, String.ofList_toList]
  cases envValue? name with
  | none => simp
  | some value => rfl

/-- What is left unfilled is written as it was found. -/
theorem flatMap_fill_none (s : List Char) : (ofText s).flatMap (fill fun _ => none) = s := by
  fun_induction ofText s with
  | case1 => rfl
  | case2 c rest name after hspan ih =>
      obtain ⟨-, -, hs⟩ := spanPlaceholder?_eq_some_iff.mp hspan
      rw [List.flatMap_cons, ih, hs]
      simp [fill]
  | case3 c rest hspan ih =>
      rw [List.flatMap_cons, ih]
      rfl

/-- An unset name makes no difference. -/
theorem fill_eq_of_unset {envValue? : String → Option String} {piece : TemplatePiece}
    (h : ∀ name ∈ piece.name?, envValue? name = none) :
    piece.fill envValue? = piece.fill fun _ => none := by
  cases piece with
  | char c => rfl
  | placeholder name => simp only [fill, h _ rfl]

end TemplatePiece

namespace Template

/-- The text is `before`, a placeholder with this name, and `after`.  A name has
    a character at least and no closing brace; it may have any other character,
    line breaks and further opening marks among them. -/
structure HasPlaceholder (text before name after : String) : Prop where
  name_ne : name ≠ ""
  no_brace : '\x7d' ∉ name.toList
  text_eq : text = before ++ "$\x7b" ++ name ++ "\x7d" ++ after

/-- No placeholder of the text starts earlier than this one. -/
structure HasFirstPlaceholder (text before name after : String) : Prop
    extends HasPlaceholder text before name after where
  before_le : ∀ before' name' after',
    HasPlaceholder text before' name' after' → before.length ≤ before'.length

/-- The text around a placeholder, character by character. -/
theorem HasPlaceholder.toList_eq {text before name after : String}
    (h : HasPlaceholder text before name after) :
    text.toList = before.toList ++
      '$' :: '\x7b' :: (name.toList ++ '\x7d' :: after.toList) := by
  rw [h.text_eq]
  simp

/-- A placeholder in a text is found where it starts. -/
theorem HasPlaceholder.span {text before name after : String}
    (h : HasPlaceholder text before name after) :
    TemplatePiece.spanPlaceholder? ('$' :: '\x7b' :: (name.toList ++ '\x7d' :: after.toList)) =
      some (name.toList, after.toList) := by
  exact TemplatePiece.spanPlaceholder?_eq_some_iff.mpr
    ⟨fun hnil => h.name_ne (String.toList_eq_nil_iff.mp hnil), h.no_brace, rfl⟩

/-- A text with a placeholder has a closing brace. -/
theorem HasPlaceholder.brace_mem {text before name after : String}
    (h : HasPlaceholder text before name after) : '\x7d' ∈ text.toList := by
  rw [h.toList_eq]
  simp

/-- Where no dollar sign comes earlier no placeholder does. -/
theorem HasPlaceholder.first {text before name after : String}
    (h : HasPlaceholder text before name after) (hnone : '$' ∉ before.toList) :
    HasFirstPlaceholder text before name after := by
  refine ⟨h, fun before' name' after' h' => Nat.le_of_not_lt fun hlt => hnone ?_⟩
  rw [← String.length_toList, ← String.length_toList] at hlt
  have hsame := h.toList_eq.symm.trans h'.toList_eq
  have hdollar : before.toList[before'.toList.length]? = some '$' := by
    rw [← List.getElem?_append_left hlt, hsame, List.getElem?_append_right (Nat.le_refl _),
      Nat.sub_self]
    rfl
  exact List.mem_of_getElem? hdollar

/-- Where a placeholder can be read the text has one. -/
theorem hasPlaceholder_of_span {text : String} {head tail name after : List Char}
    (htext : text.toList = head ++ tail)
    (hspan : TemplatePiece.spanPlaceholder? tail = some (name, after)) :
    HasPlaceholder text (String.ofList head) (String.ofList name) (String.ofList after) := by
  obtain ⟨hname, hbrace, rfl⟩ := TemplatePiece.spanPlaceholder?_eq_some_iff.mp hspan
  refine ⟨fun hempty => hname ?_, by rwa [String.toList_ofList], ?_⟩
  · rw [← String.toList_ofList (l := name), String.toList_eq_nil_iff.mpr hempty]
  · apply String.toList_inj.mp
    rw [htext]
    simp

/-- A text without a placeholder is a run of characters. -/
theorem ofText_of_not_hasPlaceholder {text : String}
    (h : ∀ before name after, ¬ HasPlaceholder text before name after) :
    TemplatePiece.ofText text.toList = text.toList.map .char := by
  have hpieces : TemplatePiece.ofText (text.toList ++ []) =
      text.toList.map .char ++ TemplatePiece.ofText [] := by
    refine TemplatePiece.ofText_append fun head tail hsplit _ => ?_
    rw [List.append_nil, Option.eq_none_iff_forall_ne_some]
    rintro ⟨name, after⟩ hspan
    exact h _ _ _ (hasPlaceholder_of_span hsplit hspan)
  simpa [TemplatePiece.ofText] using hpieces

/-- Up to its first placeholder a text is a run of characters. -/
theorem HasFirstPlaceholder.ofText_eq {text before name after : String}
    (h : HasFirstPlaceholder text before name after) :
    TemplatePiece.ofText text.toList =
      before.toList.map .char ++ .placeholder name.toList :: TemplatePiece.ofText after.toList := by
  rw [h.toList_eq, TemplatePiece.ofText_append, TemplatePiece.ofText_of_spanPlaceholder? h.span]
  intro head tail hsplit htail
  rw [Option.eq_none_iff_forall_ne_some]
  rintro ⟨name', after'⟩ hspan
  -- a placeholder that starts inside `before` would be an earlier one
  have hearlier := h.before_le _ _ _
    (hasPlaceholder_of_span (h.toList_eq.trans (by rw [hsplit, List.append_assoc])) hspan)
  rw [← String.length_toList, hsplit, List.length_append, String.length_ofList] at hearlier
  have hpos := List.length_pos_iff.mpr htail
  omega

/-- **Placeholders are filled in one pass.**  A text without a placeholder stays
    as it is and names nothing.  Otherwise what stands before the first
    placeholder stays, what the named variable holds takes the place of the
    placeholder, which stays as it is written if the variable is not set, and
    the pass goes on behind it; nothing that was put in is read again.  And a
    text stays as it is, whatever unfinished, empty or nested placeholders it
    has, if none of the variables that it names in this way is set. -/
theorem substitute_one_pass (envValue? : String → Option String) (text : String) :
    ((∀ before name after, ¬ HasPlaceholder text before name after) →
      substitute envValue? text = text ∧ names text = []) ∧
    (∀ before name after, HasFirstPlaceholder text before name after →
      substitute envValue? text =
          before ++ (envValue? name).getD ("$\x7b" ++ name ++ "\x7d") ++
            substitute envValue? after ∧
        names text = name :: names after) ∧
    ((∀ name ∈ names text, envValue? name = none) → substitute envValue? text = text) := by
  refine ⟨fun h => ?_, fun before name after h => ?_, fun h => ?_⟩
  · rw [substitute, names, ofText_of_not_hasPlaceholder h, TemplatePiece.flatMap_fill_char]
    exact ⟨String.ofList_toList, TemplatePiece.filterMap_name?_char _⟩
  · rw [substitute, names, h.ofText_eq, List.flatMap_append, TemplatePiece.flatMap_fill_char,
      List.filterMap_append, TemplatePiece.filterMap_name?_char, List.flatMap_cons,
      TemplatePiece.fill_placeholder, List.nil_append]
    refine ⟨?_, congrArg (· :: names after) String.ofList_toList⟩
    simp only [String.ofList_append, String.ofList_toList, substitute, String.append_assoc]
  · have hpieces : (TemplatePiece.ofText text.toList).flatMap (TemplatePiece.fill envValue?) =
        (TemplatePiece.ofText text.toList).flatMap (TemplatePiece.fill fun _ => none) := by
      rw [List.flatMap_def, List.flatMap_def]
      refine congrArg List.flatten (List.map_congr_left fun piece hpiece => ?_)
      exact TemplatePiece.fill_eq_of_unset fun name hname =>
        h name (List.mem_filterMap.mpr ⟨piece, hpiece, hname⟩)
    rw [substitute, hpieces, TemplatePiece.flatMap_fill_none, String.ofList_toList]

/-- One variable is set, to a text that looks like a placeholder.  It is put in
    as it is, and what follows is no placeholder for want of a closing brace; a
    placeholder with an opening mark inside its name has that name, and its
    variable is not set. -/
theorem substitute_one_pass_nested :
    let env (name : String) := if name = "API" then some "$\x7bHOME\x7d" else none
    HasFirstPlaceholder "u=$\x7bAPI\x7d/$\x7bAPI" "u=" "API" "/$\x7bAPI" ∧
    (∀ before name after, ¬ HasPlaceholder "/$\x7bAPI" before name after) ∧
    substitute env "u=$\x7bAPI\x7d/$\x7bAPI" = "u=$\x7bHOME\x7d/$\x7bAPI" ∧
    names "$\x7b\n$\x7bAPI\x7d" = ["\n$\x7bAPI"] ∧
    (∀ name ∈ names "$\x7b\n$\x7bAPI\x7d", env name = none) ∧
    substitute env "$\x7b\n$\x7bAPI\x7d" = "$\x7b\n$\x7bAPI\x7d" := by
  intro env
  have hfirst : HasFirstPlaceholder "u=$\x7bAPI\x7d/$\x7bAPI" "u=" "API" "/$\x7bAPI" :=
    HasPlaceholder.first ⟨by decide, by decide, by decide⟩ (by decide)
  have hnone : ∀ before name after, ¬ HasPlaceholder "/$\x7bAPI" before name after :=
    fun _ _ _ h => absurd h.brace_mem (by decide)
  have hempty : ∀ before name after, ¬ HasPlaceholder "" before name after :=
    fun _ _ _ h => absurd h.brace_mem (by decide)
  have hnested : HasFirstPlaceholder "$\x7b\n$\x7bAPI\x7d" "" "\n$\x7bAPI" "" :=
    HasPlaceholder.first ⟨by decide, by decide, by decide⟩ (by decide)
  have hfilled := ((substitute_one_pass env _).2.1 _ _ _ hfirst).1
  rw [((substitute_one_pass env _).1 hnone).1] at hfilled
  have hnames := ((substitute_one_pass env _).2.1 _ _ _ hnested).2
  rw [((substitute_one_pass env _).1 hempty).2] at hnames
  have hunset : ∀ name ∈ names "$\x7b\n$\x7bAPI\x7d", env name = none := by
    rw [hnames]
    decide
  exact ⟨hfirst, hnone, hfilled.trans (by decide), hnames, hunset,
    (substitute_one_pass env _).2.2 hunset⟩

end Template

end PcAssembly
