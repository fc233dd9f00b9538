import PcAssembly.CommandLine.Options
import PcAssembly.Proofs.Text.Blank

/-! # Reading options word by word

    Options are read from left to right, and what a word does depends on the
    words before it only.  Hence the words in front of a command's name are read
    in the same way whatever command follows them; and options that are written
    in full with their values attached are read as what they say, one after the
    other. -/

namespace PcAssembly.CommandLine

variable {rules : List OptionRule} {commands : List String} {progress after : Progress}
  {word name : String} {words rest : List String}

/-- What succeeds step by step succeeds at every step. -/
theorem bind_eq_ok_iff {ε α β : Type} {first : Except ε α} {next : α → Except ε β} {b : β} :
    first.bind next = .ok b ↔ ∃ a, first = .ok a ∧ next a = .ok b := by
  constructor
  · intro h
    cases first with
    | error fault => exact nomatch h
    | ok a => exact ⟨a, rfl, h⟩
  · rintro ⟨a, rfl, h⟩
    exact h

namespace Progress

/-- What a word does that is neither a command nor two lone hyphens. -/
def take (rules : List OptionRule) (commands : List String) (progress : Progress)
    (word : String) : Except Fault Progress :=
  match word.toList with
  | '-' :: '-' :: body => progress.long rules body
  | '-' :: c :: body => progress.letters rules (c :: body)
  | _ =>
      match progress.pending with
      | some (rule, none) => .ok { progress with pending := some (rule, some word) }
      | _ => .error (surplus commands)

theorem take_long {body : List Char} (h : word.toList = '-' :: '-' :: body) :
    take rules commands progress word = progress.long rules body := by
  rw [take, h]
  rfl

theorem take_letters {c : Char} {body : List Char} (h : word.toList = '-' :: c :: body)
    (hc : c ≠ '-') : take rules commands progress word = progress.letters rules (c :: body) := by
  rw [take, h]
  split
  · rename_i heq
    exact absurd (List.cons.inj (List.cons.inj heq).2).1 hc
  · rename_i heq
    cases heq
    rfl
  · rename_i hother
    exact absurd rfl (hother _ _)

theorem take_value (h : ∀ c body, word.toList ≠ '-' :: c :: body) :
    take rules commands progress word = match progress.pending with
      | some (rule, none) => .ok { progress with pending := some (rule, some word) }
      | _ => .error (surplus commands) := by
  rw [take]
  split
  · rename_i heq
    exact absurd heq (h _ _)
  · rename_i heq
    exact absurd heq (h _ _)
  · rfl

end Progress

/-- The name of a command ends the options. -/
theorem readOptions_command (hname : name ∈ commands) (hawaits : progress.awaitsValue = false)
    (rest : List String) :
    readOptions rules commands progress (name :: rest) = .ok (progress, some (name, rest)) := by
  unfold readOptions
  rw [if_pos]
  rw [hawaits, List.contains_iff_mem.mpr hname]
  rfl

/-- Any other word has its effect, and the reading goes on. -/
theorem readOptions_word (hcommand : (commands.contains word && !progress.awaitsValue) = false)
    (hhyphens : word.toList ≠ ['-', '-']) (rest : List String) :
    readOptions rules commands progress (word :: rest) =
      (progress.take rules commands word).bind fun after =>
        readOptions rules commands after rest := by
  conv => lhs; unfold readOptions
  rw [if_neg (Bool.eq_false_iff.mp hcommand)]
  split
  · rename_i hword
    exact absurd hword hhyphens
  · rename_i hword
    rw [Progress.take_long hword]
    rfl
  · rename_i hc hword
    rw [Progress.take_letters hword hc]
    rfl
  · rename_i hshort
    rw [Progress.take_value hshort]
    rcases progress.pending with _ | ⟨rule, _ | value⟩ <;> rfl

/-- Two lone hyphens end the options without a command. -/
theorem readOptions_hyphens (hcommand : (commands.contains word && !progress.awaitsValue) = false)
    (hhyphens : word.toList = ['-', '-']) {found : String × List String} :
    readOptions rules commands progress (word :: rest) ≠ .ok (after, some found) := by
  unfold readOptions
  rw [if_neg (Bool.eq_false_iff.mp hcommand), hhyphens]
  cases rest <;> exact fun h => nomatch h

/-- **What stands in front of a command is read by itself**: another command
    there, with other words behind it, is found after the same options. -/
theorem exists_front_of_readOptions
    (h : readOptions rules commands progress words = .ok (after, some (name, rest))) :
    ∃ front, words = front ++ name :: rest ∧ name ∈ commands ∧
      ∀ name' ∈ commands, ∀ rest',
        readOptions rules commands progress (front ++ name' :: rest') =
          .ok (after, some (name', rest')) := by
  induction words generalizing progress with
  | nil => exact nomatch h
  | cons word words ih =>
      by_cases hcommand : (commands.contains word && !progress.awaitsValue) = true
      · obtain ⟨hcontains, hawaits⟩ := Bool.and_eq_true_iff.mp hcommand
        have hawaits : progress.awaitsValue = false := Bool.not_eq_eq_eq_not.mp hawaits
        have hmem : word ∈ commands := List.contains_iff_mem.mp hcontains
        rw [readOptions_command hmem hawaits] at h
        cases h
        exact ⟨[], rfl, hmem, fun name' hname' rest' =>
          readOptions_command hname' hawaits rest'⟩
      · have hcommand : (commands.contains word && !progress.awaitsValue) = false :=
          Bool.eq_false_iff.mpr hcommand
        by_cases hhyphens : word.toList = ['-', '-']
        · exact absurd h (readOptions_hyphens hcommand hhyphens)
        · rw [readOptions_word hcommand hhyphens] at h
          obtain ⟨next, htake, h⟩ := bind_eq_ok_iff.mp h
          obtain ⟨front, rfl, hname, hfront⟩ := ih h
          refine ⟨word :: front, rfl, hname, fun name' hname' rest' => ?_⟩
          rw [List.cons_append, readOptions_word hcommand hhyphens, htake]
          exact hfront name' hname' rest'

/-! ## Options with their values attached -/

/-- The option in full with a value attached. -/
def OptionRule.written (rule : OptionRule) (value : String) : String :=
  "--" ++ rule.long ++ "=" ++ value

/-- Under these rules the option takes the value, and takes it whole. -/
structure Attaches (rules : List OptionRule) (rule : OptionRule) (value : String) : Prop where
  find : (rules.find? fun other => other.long.toList == rule.long.toList) = some rule
  equals : '=' ∉ rule.long.toList
  takesValue : rule.arity.takesValue = true
  accepts : rule.accepts value = true
  comma : rule.arity = .list → ',' ∉ value.toList

variable {rule : OptionRule} {value : String} {given : List (String × List String)}

namespace Attaches

variable (h : Attaches rules rule value)

include h

/-- The one value of the option is the text behind the equals sign. -/
theorem giveText (progress : Progress) :
    progress.giveText rule value = progress.give rule [value] := by
  rw [Progress.giveText]
  split
  · rename_i hlist
    rw [Text.splitString, Text.split_eq_singleton (h.comma hlist), List.map_singleton,
      String.ofList_toList]
  · rfl

theorem give (hfresh : rule.arity = .list ∨ ∀ option ∈ given, option.1 ≠ rule.long) :
    Progress.give { given } rule [value] = .ok { given := given ++ [(rule.long, [value])] } := by
  have hhelp : rule.arity ≠ .help := by
    intro hhelp
    have htakes := h.takesValue
    rw [hhelp] at htakes
    exact nomatch htakes
  have honce : ¬ (rule.arity ≠ .list ∧ Progress.has { given } rule.long = true) := by
    rintro ⟨hsingle, hagain⟩
    obtain ⟨option, hmem, hlong⟩ := List.any_eq_true.mp hagain
    exact (hfresh.resolve_left hsingle) option hmem (beq_iff_eq.mp hlong)
  have haccepts : ([value].all rule.accepts) = true := by
    rw [List.all_cons, h.accepts]
    rfl
  rw [Progress.give, if_neg hhelp, if_neg honce, haccepts]
  rfl

theorem long_eq_give :
    Progress.long rules { given } (rule.long.toList ++ '=' :: value.toList) =
      Progress.give { given } rule [value] := by
  have hname : ∀ c ∈ rule.long.toList, (c != '=') = true := fun c hc =>
    bne_iff_ne.mpr fun heq => h.equals (heq ▸ hc)
  have htake : (rule.long.toList ++ '=' :: value.toList).takeWhile (· != '=') =
      rule.long.toList := by
    rw [List.takeWhile_append_of_pos hname]
    exact List.append_nil _
  have hdrop : (rule.long.toList ++ '=' :: value.toList).dropWhile (· != '=') =
      '=' :: value.toList := List.dropWhile_append_of_pos hname
  rw [Progress.long, htake, hdrop, h.find, ← h.giveText]
  show (if (true && !rule.arity.takesValue) = true then _ else
    Progress.meet { given } rule (some (String.ofList value.toList))) = _
  rw [h.takesValue, if_neg (by decide), String.ofList_toList, Progress.meet, h.takesValue]
  rfl

/-- The option in full is read as the option with its value. -/
theorem take_eq (commands : List String) :
    Progress.take rules commands { given } (rule.written value) =
      Progress.give { given } rule [value] := by
  have hword : (rule.written value).toList =
      '-' :: '-' :: (rule.long.toList ++ '=' :: value.toList) := by
    simp [OptionRule.written]
  rw [Progress.take_long hword, h.long_eq_give]

end Attaches

/-- **Options with their values attached are read as what they say.** -/
theorem readOptions_written (entries : List (OptionRule × String))
    (hattaches : ∀ entry ∈ entries, Attaches rules entry.1 entry.2)
    (hfresh : entries.Pairwise fun x y => y.1.arity = .list ∨ x.1.long ≠ y.1.long)
    (hgiven : ∀ entry ∈ entries, entry.1.arity = .list ∨
      ∀ option ∈ given, option.1 ≠ entry.1.long) :
    readOptions rules [] { given } (entries.map fun entry => entry.1.written entry.2) =
      .ok ({ given := given ++ entries.map fun entry => (entry.1.long, [entry.2]) }, none) := by
  induction entries generalizing given with
  | nil =>
      rw [List.map_nil, List.map_nil, List.append_nil]
      rfl
  | cons entry rest ih =>
      have hattach := hattaches entry List.mem_cons_self
      have hhyphens : (entry.1.written entry.2).toList ≠ ['-', '-'] := by
        simp [OptionRule.written]
      rw [List.map_cons, readOptions_word rfl hhyphens, hattach.take_eq,
        hattach.give (hgiven entry List.mem_cons_self)]
      show readOptions rules [] _ _ = _
      rw [ih (fun other hother => hattaches other (List.mem_cons_of_mem _ hother)) hfresh.of_cons]
      · rw [List.map_cons, List.append_assoc, List.singleton_append]
      · intro other hother
        -- what was given before the entry or by it
        rcases hgiven other (List.mem_cons_of_mem _ hother) with hlist | hbefore
        · exact Or.inl hlist
        · refine (List.rel_of_pairwise_cons hfresh hother).imp_right fun hne option hoption => ?_
          rcases List.mem_append.mp hoption with hoption | hoption
          · exact hbefore option hoption
          · rw [List.mem_singleton.mp hoption]
            exact hne

end PcAssembly.CommandLine
