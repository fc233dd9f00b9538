import PcAssembly.CommandLine.Basic
import PcAssembly.Proofs.CommandLine.Options
import PcAssembly.Proofs.Number.Digits

/-! # Selections on a command line

    A selection can be given as options, one for every part, each with its id
    attached.  The command that checks selections reads these options as the
    same selection: the options for slots are all different, and the one for
    drives may be given again.  And wherever a command stands on a command line
    that is understood, this one can stand in its place. -/

namespace PcAssembly

open CommandLine

/-- The digits of an id. -/
def idText (id : Int64) : String := String.ofList (Number.intDigits id.toInt)

/-- The text of an id is read as the id. -/
theorem integer?_idText (id : Int64) : integer? (idText id) = some id := by
  rw [integer?, idText, String.toList_ofList, Number.int64OfText?_intDigits]

namespace Selection

/-- The ids of a selection, by the names of the options for them. -/
def groups (selection : Selection) : List (String × List Int64) :=
  [("cpu", selection.cpu.toList), ("motherboard", selection.motherboard.toList),
   ("ram", selection.ram.toList), ("gpu", selection.gpu.toList), ("psu", selection.psu.toList),
   ("case", selection.chassis.toList), ("cooler", selection.cooler.toList),
   ("storage", selection.storage)]

/-- The option for ids under this name. -/
def idRule (name : String) : OptionRule where
  long := name
  arity := if name = "storage" then .list else .single
  accepts := isInteger

/-- The options of a selection with their values. -/
def options (selection : Selection) : List (OptionRule × String) :=
  selection.groups.flatMap fun group => group.2.map fun id => (idRule group.1, idText id)

/-- The words of a selection: `--slot=id` for every part. -/
def words (selection : Selection) : List String :=
  selection.options.map fun option => option.1.written option.2

variable {selection : Selection} {name : String} {ids : List Int64}

/-! ## Giving a selection -/

/-- The groups of a selection have different names. -/
theorem nodup_names (selection : Selection) : (selection.groups.map Prod.fst).Nodup := by
  show ["cpu", "motherboard", "ram", "gpu", "psu", "case", "cooler", "storage"].Nodup
  decide

/-- The command that checks selections knows the options for ids. -/
theorem attaches_idRule (hmem : (name, ids) ∈ selection.groups) (id : Int64) :
    Attaches validateRules (idRule name) (idText id) := by
  have hknown : ∀ name ∈ selection.groups.map Prod.fst,
      (validateRules.find? fun rule => rule.long.toList == name.toList) = some (idRule name) ∧
        '=' ∉ name.toList := by
    simp [groups, validateRules, idRule]
  obtain ⟨hfind, hequals⟩ := hknown name (List.mem_map.mpr ⟨_, hmem, rfl⟩)
  refine ⟨hfind, hequals, ?_, ?_, fun _ => ?_⟩
  · rw [idRule]
    split <;> rfl
  · show isInteger (idText id) = true
    rw [isInteger, integer?_idText]
    rfl
  · rw [idText, String.toList_ofList]
    exact Number.not_mem_intDigits (by decide) (by decide) _

/-- Every option of a selection takes a value. -/
theorem attaches_options :
    ∀ option ∈ selection.options, Attaches validateRules option.1 option.2 := by
  intro option hoption
  obtain ⟨⟨name, ids⟩, hmem, hoption⟩ := List.mem_flatMap.mp hoption
  obtain ⟨id, -, rfl⟩ := List.mem_map.mp hoption
  exact attaches_idRule hmem id

/-- Only for drives there is more than one id. -/
theorem length_ids_le (hmem : (name, ids) ∈ selection.groups) :
    name = "storage" ∨ ids.length ≤ 1 := by
  have hslot (id? : Option Int64) : id?.toList.length ≤ 1 := by
    cases id? <;> simp
  have hgroups : ∀ group ∈ selection.groups, group.1 = "storage" ∨ group.2.length ≤ 1 := by
    simp [groups, hslot]
  exact hgroups _ hmem

/-- Only options of lists may stand twice. -/
theorem pairwise_options (selection : Selection) :
    selection.options.Pairwise fun x y => y.1.arity = .list ∨ x.1.long ≠ y.1.long := by
  refine List.pairwise_flatMap.mpr ⟨?_, (List.pairwise_map.mp selection.nodup_names).imp ?_⟩
  · rintro ⟨name, ids⟩ hmem
    rcases length_ids_le hmem with rfl | hsize
    · exact List.pairwise_map.mpr (List.pairwise_of_forall fun _ _ => Or.inl rfl)
    · match ids, hsize with
      | [], _ => exact .nil
      | [id], _ => exact List.pairwise_singleton _ _
  · rintro ⟨name, ids⟩ ⟨name', ids'⟩ hne x hx y hy
    obtain ⟨_, -, rfl⟩ := List.mem_map.mp hx
    obtain ⟨_, -, rfl⟩ := List.mem_map.mp hy
    exact Or.inr hne

/-- The options for some ids as they are given. -/
def given (groups : List (String × List Int64)) : Progress where
  given := groups.flatMap fun group => group.2.map fun id => (group.1, [idText id])

/-- The words of a selection are read as its groups. -/
theorem readAll_words (selection : Selection) :
    readAll validateRules selection.words = .ok (given selection.groups) := by
  have hgiven : (given selection.groups).given =
      selection.options.map fun option => (option.1.long, [option.2]) := by
    rw [given, options, List.map_flatMap]
    simp only [List.map_map]
    rfl
  have hread : readOptions validateRules [] {} selection.words =
      .ok (given selection.groups, none) := by
    rw [words, readOptions_written selection.options attaches_options selection.pairwise_options
      (fun _ _ => Or.inr fun _ hnone => absurd hnone List.not_mem_nil), List.nil_append, ← hgiven]
    rfl
  rw [readAll, hread]
  rfl

/-! ## Reading it back -/

/-- The values of a name are those of its groups, in order. -/
theorem values_given_cons (group : String × List Int64) (groups : List (String × List Int64))
    (name : String) : (given (group :: groups)).values name =
      (if group.1 = name then group.2.map idText else []) ++ (given groups).values name := by
  obtain ⟨other, ids⟩ := group
  have hhead : ((ids.map fun id => (other, [idText id])).filter fun option =>
      option.1 == name).flatMap Prod.snd = if other = name then ids.map idText else [] := by
    by_cases hsame : other = name
    · rw [if_pos hsame, List.filter_eq_self.mpr (by simp [hsame]), List.flatMap_map]
      exact List.map_eq_flatMap.symm
    · rw [if_neg hsame, List.filter_eq_nil_iff.mpr (by simp [hsame]), List.flatMap_nil]
  rw [← hhead, Progress.values, Progress.values, given, given, List.flatMap_cons,
    List.filter_append, List.flatMap_append]

/-- A name without a group has no values. -/
theorem values_given_of_not_mem {groups : List (String × List Int64)}
    (hname : name ∉ groups.map Prod.fst) : (given groups).values name = [] := by
  induction groups with
  | nil => rfl
  | cons group rest ih =>
      have hne : group.1 ≠ name := (List.ne_of_not_mem_cons hname).symm
      rw [values_given_cons, if_neg hne, ih (List.not_mem_of_not_mem_cons hname), List.append_nil]

/-- Under each name the ids are found that are given under it. -/
theorem values_given {groups : List (String × List Int64)} (hnodup : (groups.map Prod.fst).Nodup)
    (hmem : (name, ids) ∈ groups) : (given groups).values name = ids.map idText := by
  induction groups with
  | nil => exact nomatch hmem
  | cons group rest ih =>
      obtain ⟨hnew, hnodup⟩ := List.nodup_cons.mp hnodup
      rw [values_given_cons]
      rcases List.mem_cons.mp hmem with rfl | hmem
      · rw [if_pos rfl, values_given_of_not_mem hnew, List.append_nil]
      · have hne : group.1 ≠ name := by
          rintro rfl
          exact hnew (List.mem_map.mpr ⟨_, hmem, rfl⟩)
        rw [if_neg hne, ih hnodup hmem, List.nil_append]

/-- Where each option has the ids of its group, the selection is stated. -/
theorem selection_eq {progress : Progress}
    (h : ∀ group ∈ selection.groups, progress.values group.1 = group.2.map idText) :
    CommandLine.selection progress = selection := by
  have hid (id? : Option Int64) : (id?.toList.map idText).head?.bind integer? = id? := by
    cases id? with
    | none => rfl
    | some id => exact integer?_idText id
  have hids (ids : List Int64) : (ids.map idText).filterMap integer? = ids := by
    have hread : integer? ∘ idText = some := funext integer?_idText
    rw [List.filterMap_map, hread, List.filterMap_some]
  simp only [groups, List.forall_mem_cons] at h
  obtain ⟨hcpu, hboard, hram, hgpu, hpsu, hcase, hcooler, hstorage, -⟩ := h
  simp only [CommandLine.selection, Progress.value?, hcpu, hboard, hram, hgpu, hpsu, hcase,
    hcooler, hstorage, hid, hids]

/-- **A selection is read back from its words.** -/
theorem readCommand_words (selection : Selection) :
    readCommand "validate" selection.words = .ok (.validate selection) := by
  have hselection : CommandLine.selection (given selection.groups) = selection :=
    selection_eq fun _ hmem => values_given selection.nodup_names hmem
  rw [readCommand, readAll_words]
  exact congrArg (fun selection => Except.ok (Command.validate selection)) hselection

end Selection

/-! ## In the place of another command -/

namespace CommandLine

variable {words : List String} {commandLine : CommandLine}

/-- The command line that a command and the options in front of it state. -/
def stated (general : Progress) (command : Command) : CommandLine :=
  let defaults : CommandLine := { command }
  { defaults with
    configPath := (general.value? "config").getD defaults.configPath
    catalogPath := general.value? "catalog"
    componentsPath := general.value? "components"
    verbose := general.has "verbose" }

/-- Words are understood if their options, their command and the words of the
    command are. -/
theorem ofWords_eq_ok_iff :
    ofWords words = .ok commandLine ↔
      ∃ progress name rest general command,
        readOptions generalRules commandNames {} words = .ok (progress, some (name, rest)) ∧
        readCommand name rest = .ok command ∧ progress.settle = .ok general ∧
        stated general command = commandLine := by
  constructor
  · intro h
    obtain ⟨⟨progress, found⟩, hread, h⟩ := bind_eq_ok_iff.mp h
    cases found with
    | none =>
        obtain ⟨_, -, h⟩ := bind_eq_ok_iff.mp h
        exact nomatch h
    | some found =>
        obtain ⟨name, rest⟩ := found
        obtain ⟨command, hcommand, h⟩ := bind_eq_ok_iff.mp h
        obtain ⟨general, hsettle, h⟩ := bind_eq_ok_iff.mp h
        exact ⟨progress, name, rest, general, command, hread, hcommand, hsettle, Except.ok.inj h⟩
  · rintro ⟨progress, name, rest, general, command, hread, hcommand, hsettle, rfl⟩
    exact bind_eq_ok_iff.mpr ⟨_, hread, bind_eq_ok_iff.mpr ⟨command, hcommand,
      bind_eq_ok_iff.mpr ⟨general, hsettle, rfl⟩⟩⟩

/-- **A command can be put in the place of another**: the options in front of
    it say what they said. -/
theorem exists_front_of_ofWords (h : ofWords words = .ok commandLine) :
    ∃ front name rest, words = front ++ name :: rest ∧
      readCommand name rest = .ok commandLine.command ∧
      ∀ name' ∈ commandNames, ∀ rest' command, readCommand name' rest' = .ok command →
        ofWords (front ++ name' :: rest') = .ok { commandLine with command } := by
  obtain ⟨progress, name, rest, general, command, hread, hcommand, hsettle, rfl⟩ :=
    ofWords_eq_ok_iff.mp h
  obtain ⟨front, hwords, -, hfront⟩ := exists_front_of_readOptions hread
  refine ⟨front, name, rest, hwords, hcommand, fun name' hname' rest' command' hcommand' => ?_⟩
  exact ofWords_eq_ok_iff.mpr ⟨progress, name', rest', general, command', hfront name' hname' rest',
    hcommand', hsettle, rfl⟩

/-- Only the command that builds states a request. -/
theorem eq_of_readCommand_eq_autoBuild {name : String} {request : BuildRequest}
    (h : readCommand name words = .ok (.autoBuild request)) : name = "auto-build" := by
  unfold readCommand at h
  split at h
  · cases hread : readAll validateRules words <;> rw [hread] at h <;> exact nomatch h
  · rfl
  · split at h <;> exact nomatch h

end CommandLine

end PcAssembly
