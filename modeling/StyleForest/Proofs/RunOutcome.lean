import StyleForest.Command.Run
import StyleForest.Machine.Model
import StyleForest.Proofs.Loading
import StyleForest.Proofs.WrittenFiles

/-!
# What a run comes to

A run prints on the error output as it goes, and does nothing else before it has the stylesheet of
its inputs: reading, loading and compiling are quiet (`quiet_compileInputs`), and the stylesheet is
that of all their trees in a row (`stylesheetOf_eq_ok_iff`). So a run is all or nothing. A build
delivers the stylesheet, to its output or to the standard output, or it fails and leaves the files
and the standard output as they were; a check always leaves them (`runArguments_outcome`).
-/

namespace StyleForest

namespace MachineState

private theorem printError_empty (state : MachineState) : state.printError "" = state := by
  rw [printError, String.append_empty]

private theorem printError_printError (state : MachineState) (first second : String) :
    (state.printError first).printError second = state.printError (first ++ second) := by
  simp [printError, String.append_assoc]

/-- The files, and what stands on the standard output. -/
def shown (state : MachineState) : FileTree × String :=
  (state.tree, state.output)

/-- Only the device of the standard output shows what is written to it. -/
theorem shown_of_writeDevice {state written : MachineState} {device : Device} {text : String}
    (h : state.writeDevice device text = .ok written) :
    written.shown =
      (state.tree, if device = .output then state.output ++ text else state.output) := by
  cases device with
  | null =>
    cases h
    rfl
  | full =>
    simp only [writeDevice] at h
    split at h
    · cases h
      rfl
    · cases h
  | terminal => cases h
  | output =>
    cases h
    rfl
  | errorOutput =>
    cases h
    rfl

private theorem map_shown_writeDevice_printError (state : MachineState) (printed : String)
    (device : Device) (text : String) :
    ((state.printError printed).writeDevice device text).map shown =
      (state.writeDevice device text).map shown := by
  cases device with
  | null => rfl
  | full =>
    simp only [writeDevice]
    split
    · rfl
    · rfl
  | terminal => rfl
  | output => rfl
  | errorOutput => rfl

/-- What has been printed on the error output does not matter for a write. -/
theorem map_shown_write_printError (state : MachineState) (printed path text : String) :
    ((state.printError printed).write path text).map shown =
      (state.write path text).map shown := by
  have htree : (state.printError printed).tree = state.tree := rfl
  rw [write, write, htree]
  cases state.tree.target path with
  | error fault => rfl
  | ok place =>
    simp only [bind, Except.bind]
    split
    · exact map_shown_writeDevice_printError state printed _ text
    · rfl

/-- A write changes the machine if it succeeds. -/
theorem run_write (state : MachineState) (path text : String) :
    (machine.write path text).run state =
      match state.write path text with
      | .ok written => (.ok (), written)
      | .error fault => (.error fault, state) := by
  unfold machine
  simp only [StateT.run_bind, StateT.run_get, pure_bind]
  cases state.write path text with
  | ok written => rfl
  | error fault => rfl

end MachineState

open MachineState (machine)

/-- A part of a run. -/
abbrev RunPart (α : Type) := ExceptT RunError (StateM MachineState) α

namespace RunPart

variable {α β : Type} {tree : FileTree} {first : RunPart α} {next : α → RunPart β}
  {before between : MachineState} {a : α} {error : RunError}

/-- The result of a part and the machine after it. -/
def outcome (part : RunPart α) (before : MachineState) : Except RunError α × MachineState :=
  part.run.run before

private theorem outcome_lift (action : StateM MachineState α) (before : MachineState) :
    RunPart.outcome (liftM action) before = (.ok (action.run before).1, (action.run before).2) :=
  rfl

private theorem outcome_bind_of_ok (h : first.outcome before = (.ok a, between)) :
    RunPart.outcome (first >>= next) before = (next a).outcome between := by
  rw [outcome] at h
  rw [outcome, ExceptT.run_bind, StateT.run_bind, h]
  rfl

/-- What follows a failure is not run. -/
theorem outcome_bind_of_error (h : first.outcome before = (.error error, between)) :
    RunPart.outcome (first >>= next) before = (.error error, between) := by
  rw [outcome] at h
  rw [outcome, ExceptT.run_bind, StateT.run_bind, h]
  rfl

/-- On a machine with these files the part has this result, and does nothing but print on the error
output. -/
def Quiet (tree : FileTree) (part : RunPart α) (result : Except RunError α) : Prop :=
  ∀ before : MachineState, before.tree = tree →
    ∃ printed, part.outcome before = (result, before.printError printed)

namespace Quiet

/-- Returning a value is quiet. -/
theorem of_pure (a : α) : Quiet tree (pure a) (.ok a) :=
  fun state _ => ⟨"", by rw [MachineState.printError_empty]; rfl⟩

/-- Failing is quiet. -/
theorem of_throw (error : RunError) : Quiet tree (throw error : RunPart α) (.error error) :=
  fun state _ => ⟨"", by rw [MachineState.printError_empty]; rfl⟩

/-- Reading a file is quiet and gives what the tree holds. -/
theorem of_read (path : String) : Quiet tree (machine.read path) (.ok (tree.read path)) :=
  fun state htree => ⟨"", by rw [MachineState.printError_empty, ← htree]; rfl⟩

/-- Logging is quiet. -/
theorem of_log (filter : LogFilter) (records : List LogRecord) :
    Quiet tree (machine.log filter records) (.ok ()) :=
  fun _ _ => ⟨filter.render records, rfl⟩

/-- Quiet parts in a row are quiet. -/
theorem bind_of_ok {result : Except RunError β} (hfirst : Quiet tree first (.ok a))
    (hnext : Quiet tree (next a) result) : Quiet tree (first >>= next) result := by
  intro before htree
  obtain ⟨earlier, hearlier⟩ := hfirst before htree
  obtain ⟨later, hlater⟩ := hnext (before.printError earlier) htree
  refine ⟨earlier ++ later, ?_⟩
  rw [outcome_bind_of_ok hearlier, hlater, MachineState.printError_printError]

/-- A quiet part after another is quiet. -/
theorem bind {result : Except RunError α} {further : α → Except RunError β}
    (hfirst : Quiet tree first result) (hnext : ∀ a, Quiet tree (next a) (further a)) :
    Quiet tree (first >>= next) (result >>= further) := by
  cases result with
  | ok a => exact hfirst.bind_of_ok (hnext a)
  | error error =>
    intro before htree
    obtain ⟨earlier, hearlier⟩ := hfirst before htree
    exact ⟨earlier, outcome_bind_of_error hearlier⟩

end Quiet

end RunPart

open RunPart (Quiet)

section Inputs

variable (tree : FileTree) (filter : LogFilter)

/-- What loading one more input from these files results in. -/
def Session.load (session : Session) (path : String) : Except RunError Session :=
  match tree.read path with
  | .error fault => .error (.unreadable path fault)
  | .ok text =>
    match loadForest text path with
    | .ok trees => .ok ⟨session.maps.insert path text, session.forest ++ trees⟩
    | .error (.style _) => .error (.refused path)
    | .error error => .error (.unloadable error)

/-- What compiling these inputs results in. -/
def stylesheetOf (inputs : List String) : Except RunError String := do
  let session ← inputs.foldlM (Session.load tree) Session.start
  (compile session.forest).mapError fun error => .uncompilable error.fault

/-- Loading an input is quiet and gives what the tree holds. -/
theorem quiet_loadInput (session : Session) (path : String) :
    Quiet tree (Command.loadInput machine filter session path) (session.load tree path) := by
  refine (Quiet.of_read path).bind_of_ok ?_
  unfold Session.load
  cases tree.read path with
  | error fault => exact Quiet.of_throw _
  | ok text =>
    dsimp only
    cases loadForest text path with
    | ok trees => exact (Quiet.of_log filter _).bind_of_ok (Quiet.of_pure _)
    | error error =>
      cases error with
      | style error => exact (Quiet.of_log filter _).bind_of_ok (Quiet.of_throw _)
      | notJson path => exact Quiet.of_throw _
      | shape path error => exact Quiet.of_throw _
      | attributeType path name found => exact Quiet.of_throw _

/-- Loading inputs one after the other is quiet. -/
theorem quiet_foldlM_loadInput (inputs : List String) (session : Session) :
    Quiet tree (inputs.foldlM (Command.loadInput machine filter) session)
      (inputs.foldlM (Session.load tree) session) := by
  induction inputs generalizing session with
  | nil => exact Quiet.of_pure session
  | cons path rest ih =>
    rw [List.foldlM_cons, List.foldlM_cons]
    exact (quiet_loadInput tree filter session path).bind ih

/-- Compiling inputs is quiet and gives the stylesheet of what the tree holds. -/
theorem quiet_compileInputs (inputs : List String) :
    Quiet tree (Command.compileInputs machine filter inputs) (stylesheetOf tree inputs) := by
  refine (quiet_foldlM_loadInput tree filter inputs Session.start).bind fun session => ?_
  refine (Quiet.of_log filter _).bind_of_ok ?_
  cases compile session.forest with
  | ok sheet => exact Quiet.of_pure sheet
  | error error => exact Quiet.of_throw _

/-- A check only says whether there is a stylesheet. -/
theorem quiet_runCheck (inputs : List String) :
    Quiet tree (Command.runCheck machine filter inputs)
      (stylesheetOf tree inputs >>= fun _ => .ok ()) :=
  (quiet_compileInputs tree filter inputs).bind fun _ => Quiet.of_log filter _

end Inputs

variable {tree : FileTree} {inputs : List String} {session after : Session} {path sheet : String}

/-- The input at a path can be read, and loads as these trees. -/
def Loads (tree : FileTree) (path : String) (trees : List Node) : Prop :=
  ∃ text, tree.read path = .ok text ∧ loadForest text path = .ok trees

/-- All inputs can be read and load, and their trees in a row compile to this stylesheet. -/
def Yields (tree : FileTree) (inputs : List String) (sheet : String) : Prop :=
  ∃ forests, inputs.Forall₂ (Loads tree) forests ∧ compile forests.flatten = .ok sheet

/-- An input is loaded when its file can be read and its text loaded; the source and the forest are
kept. -/
theorem Session.load_eq_ok_iff :
    session.load tree path = .ok after ↔
      ∃ text trees, tree.read path = .ok text ∧ loadForest text path = .ok trees ∧
        after = ⟨session.maps.insert path text, session.forest ++ trees⟩ := by
  unfold Session.load
  cases tree.read path with
  | error fault => simp
  | ok text =>
    cases hload : loadForest text path with
    | ok trees => simp [hload, eq_comm]
    | error error =>
      cases error with
      | _ => simp [hload]

/-- Inputs are loaded exactly when each of them is, and their trees are kept in order. -/
theorem exists_foldlM_load_iff {forest : List Node} :
    (∃ after, inputs.foldlM (Session.load tree) session = .ok after ∧ after.forest = forest) ↔
      ∃ forests, inputs.Forall₂ (Loads tree) forests ∧
        session.forest ++ forests.flatten = forest := by
  induction inputs generalizing session with
  | nil => simp [pure, Except.pure]
  | cons path rest ih =>
    simp only [List.foldlM_cons, bind_eq_ok_iff, Session.load_eq_ok_iff]
    constructor
    · rintro ⟨after, ⟨_, ⟨text, trees, hread, hload, rfl⟩, hrest⟩, hforest⟩
      obtain ⟨forests, hforests, hflat⟩ := ih.1 ⟨after, hrest, hforest⟩
      refine ⟨trees :: forests, .cons ⟨text, hread, hload⟩ hforests, ?_⟩
      rw [← hflat, List.flatten_cons, List.append_assoc]
    · rintro ⟨_, _ | @⟨_, trees, _, forests, ⟨text, hread, hload⟩, hforests⟩, hflat⟩
      have hnext : (Session.mk (session.maps.insert path text) (session.forest ++ trees)).forest ++
          forests.flatten = forest := by
        rw [← hflat, List.flatten_cons, List.append_assoc]
      obtain ⟨after, hrest, hforest⟩ := ih.2 ⟨forests, hforests, hnext⟩
      exact ⟨after, ⟨_, ⟨text, _, hread, hload, rfl⟩, hrest⟩, hforest⟩

/-- The inputs have a stylesheet exactly when they can all be read and load, and compile to it. -/
theorem stylesheetOf_eq_ok_iff :
    stylesheetOf tree inputs = .ok sheet ↔ Yields tree inputs sheet := by
  simp only [stylesheetOf, bind_eq_ok_iff, mapError_eq_ok_iff, Yields]
  constructor
  · rintro ⟨after, hfold, hcompile⟩
    obtain ⟨forests, hforests, hflat⟩ := exists_foldlM_load_iff.1 ⟨after, hfold, rfl⟩
    refine ⟨forests, hforests, ?_⟩
    rwa [← hflat] at hcompile
  · rintro ⟨forests, hforests, hcompile⟩
    obtain ⟨after, hfold, hforest⟩ := exists_foldlM_load_iff.2 ⟨forests, hforests, rfl⟩
    refine ⟨after, hfold, ?_⟩
    rwa [hforest]

/-- What a machine shows when a stylesheet has gone where it should: to the standard output, or to
the file at a path, or to the device that the path leads to. -/
inductive Delivered (before : MachineState) (sheet : String) :
    Option String → FileTree × String → Prop
  | printed : Delivered before sheet none (before.tree, before.output ++ sheet)
  | written {path : String} {place : Place} (leads : before.tree.resolve path = .ok place)
      (ordinary : ∀ device, before.tree.files[place]? ≠ some (.device device))
      (replaces : before.tree.Replaces place sheet (before.tree.put place sheet)) :
      Delivered before sheet (some path) (before.tree.put place sheet, before.output)
  | taken {path : String} {place : Place} {device : Device}
      (leads : before.tree.resolve path = .ok place)
      (found : before.tree.files[place]? = some (.device device)) :
      Delivered before sheet (some path)
        (before.tree, if device = .output then before.output ++ sheet else before.output)

/-- A write that succeeds delivers its text. -/
theorem delivered_of_write {state written : MachineState}
    (h : state.write path sheet = .ok written) :
    Delivered state sheet (some path) written.shown := by
  unfold MachineState.write at h
  obtain ⟨place, htarget, hwritten⟩ := bind_eq_ok_iff.1 h
  obtain ⟨hleads, hdirectory⟩ := FileTree.resolve_of_target htarget
  split at hwritten
  · next device hfound =>
    rw [MachineState.shown_of_writeDevice hwritten]
    exact .taken hleads hfound
  · next hordinary =>
    cases hwritten
    exact .written hleads (fun device hfound => hordinary device hfound)
      (FileTree.replaces_put hdirectory sheet)

/-- A write delivers its text or fails, as it would have before anything was printed on the error
output. -/
theorem delivered_or_refused (before : MachineState) (printed path sheet : String) :
    (∃ written, (before.printError printed).write path sheet = .ok written ∧
        Delivered before sheet (some path) written.shown) ∨
      ∃ fault, (before.printError printed).write path sheet = .error fault ∧
        before.write path sheet = .error fault := by
  have hshown := before.map_shown_write_printError printed path sheet
  cases hlater : (before.printError printed).write path sheet with
  | ok written =>
    cases hwrite : before.write path sheet with
    | ok direct =>
      rw [hlater, hwrite] at hshown
      have hsame : written.shown = direct.shown := Except.ok.inj hshown
      exact Or.inl ⟨written, rfl, hsame ▸ delivered_of_write hwrite⟩
    | error fault =>
      rw [hlater, hwrite] at hshown
      cases hshown
  | error fault =>
    cases hwrite : before.write path sheet with
    | ok direct =>
      rw [hlater, hwrite] at hshown
      cases hshown
    | error refusal =>
      rw [hlater, hwrite] at hshown
      have hsame : fault = refusal := Except.error.inj hshown
      exact Or.inr ⟨fault, rfl, hsame ▸ rfl⟩

/-- A build delivers the stylesheet of its inputs, or it fails and shows nothing: because there is
no stylesheet, or because it cannot be written. -/
theorem outcome_runBuild (before : MachineState) (filter : LogFilter) (inputs : List String)
    (output : Option String) :
    ∃ result after,
      RunPart.outcome (Command.runBuild machine filter inputs output) before = (result, after) ∧
      (result = .ok () ∧ (∃ sheet, stylesheetOf before.tree inputs = .ok sheet ∧
          Delivered before sheet output after.shown) ∨
        (∃ error, result = .error error) ∧ after.shown = before.shown ∧
          ∀ sheet, stylesheetOf before.tree inputs = .ok sheet →
            ∃ path fault, output = some path ∧ before.write path sheet = .error fault) := by
  obtain ⟨printed, hcompiled⟩ := quiet_compileInputs before.tree filter inputs before rfl
  unfold Command.runBuild
  cases hsheet : stylesheetOf before.tree inputs with
  | error error =>
    rw [hsheet] at hcompiled
    exact ⟨_, _, RunPart.outcome_bind_of_error hcompiled, Or.inr ⟨⟨error, rfl⟩, rfl, nofun⟩⟩
  | ok sheet =>
    rw [hsheet] at hcompiled
    rw [RunPart.outcome_bind_of_ok hcompiled]
    cases output with
    | none => exact ⟨_, _, rfl, Or.inl ⟨rfl, sheet, rfl, .printed⟩⟩
    | some path =>
      -- the write meets a machine that differs from the one before by the log alone
      have hwrite := RunPart.outcome_lift (machine.write path sheet) (before.printError printed)
      rw [MachineState.run_write] at hwrite
      dsimp only
      obtain ⟨written, hwritten, hdelivered⟩ | ⟨fault, hrefused, hfault⟩ :=
        delivered_or_refused before printed path sheet
      · rw [hwritten] at hwrite
        rw [RunPart.outcome_bind_of_ok hwrite]
        exact ⟨_, _, rfl, Or.inl ⟨rfl, sheet, rfl, hdelivered⟩⟩
      · rw [hrefused] at hwrite
        rw [RunPart.outcome_bind_of_ok hwrite]
        refine ⟨_, _, rfl, Or.inr ⟨⟨.unwritable path fault, rfl⟩, rfl, ?_⟩⟩
        rintro _ ⟨⟩
        exact ⟨path, fault, rfl, hfault⟩

/-- The program succeeds when its command does, and prints on the error output only after it. -/
theorem run_runArguments {before between : MachineState} {filter : LogFilter} {program : String}
    {arguments : List String} {command : Command} {result : Except RunError Unit}
    (hparse : Command.parse arguments = .ok command)
    (hcommand : RunPart.outcome (Command.run machine filter program command) before =
      (result, between)) :
    ∃ printed, (Command.runArguments machine filter program arguments).run before =
      (result.isOk, between.printError printed) := by
  have hrun : (Command.run machine filter program command).run.run before = (result, between) :=
    hcommand
  unfold Command.runArguments
  rw [hparse]
  simp only [StateT.run_bind, hrun]
  cases result with
  | ok _ => exact ⟨"", by rw [MachineState.printError_empty]; rfl⟩
  | error error => exact ⟨_, rfl⟩

variable {filter : LogFilter} {program : String} {arguments : List String}
  {before after : MachineState} {succeeds : Bool}

/-- A build delivers the stylesheet of its inputs and succeeds, or it fails and shows nothing,
because there is no stylesheet or because it cannot be written. A check shows nothing, and succeeds
exactly when there is a stylesheet. -/
theorem runArguments_outcome
    (hrun : (Command.runArguments machine filter program arguments).run before =
      (succeeds, after)) :
    (∀ inputs output, Command.parse arguments = .ok (.build inputs output) →
      (succeeds = true ∧ ∃ sheet, Yields before.tree inputs sheet ∧
          Delivered before sheet output after.shown) ∨
        succeeds = false ∧ after.shown = before.shown ∧
          ∀ sheet, Yields before.tree inputs sheet →
            ∃ path fault, output = some path ∧ before.write path sheet = .error fault) ∧
    ∀ inputs, Command.parse arguments = .ok (.check inputs) →
      after.shown = before.shown ∧
        (succeeds = true ↔ ∃ sheet, Yields before.tree inputs sheet) := by
  constructor
  · intro inputs output hparse
    obtain ⟨result, between, hbuild, hcases⟩ := outcome_runBuild before filter inputs output
    obtain ⟨printed, hprogram⟩ := run_runArguments hparse hbuild
    obtain ⟨rfl, rfl⟩ := Prod.mk.inj (hrun.symm.trans hprogram)
    simp only [stylesheetOf_eq_ok_iff] at hcases
    rcases hcases with ⟨rfl, hdelivered⟩ | ⟨⟨error, rfl⟩, hshown, hwrite⟩
    · exact Or.inl ⟨rfl, hdelivered⟩
    · exact Or.inr ⟨rfl, hshown, hwrite⟩
  · intro inputs hparse
    obtain ⟨checked, hcheck⟩ := quiet_runCheck before.tree filter inputs before rfl
    obtain ⟨printed, hprogram⟩ := run_runArguments hparse hcheck
    obtain ⟨rfl, rfl⟩ := Prod.mk.inj (hrun.symm.trans hprogram)
    refine ⟨rfl, ?_⟩
    simp only [← stylesheetOf_eq_ok_iff]
    cases stylesheetOf before.tree inputs with
    | ok sheet => exact ⟨fun _ => ⟨sheet, rfl⟩, fun _ => rfl⟩
    | error error => exact ⟨nofun, nofun⟩

/-- A build may replace its own input, because the input is read before the stylesheet is written. A
check leaves it. -/
theorem build_over_its_input :
    let card := "[\x7b\"element\": \"p\", \"children\": [\"color: red;\"]\x7d]"
    let before := MachineState.ofTree (FileTree.add ⟨[], ∅, [], [], []⟩ "a.json" (.text card))
    let build := (Command.runArguments machine .off "styles"
      ["build", "a.json", "-o", "a.json"]).run before
    let check := (Command.runArguments machine .off "styles" ["check", "a.json"]).run before
    (∃ sheet, Yields before.tree ["a.json"] sheet ∧ build.2.tree.read "a.json" = .ok sheet) ∧
      check.2.shown = before.shown ∧ ∃ sheet, Yields before.tree ["a.json"] sheet := by
  intro card before build check
  have hleads : before.tree.resolve "a.json" = .ok ["a.json"] := by decide +kernel
  have hfound : before.tree.files[["a.json"]]? = some (.text card) := by decide +kernel
  have hbuild : build.1 = true := by decide +kernel
  have hcheck : check.1 = true := by decide +kernel
  have hrunBuild : (Command.runArguments machine .off "styles"
      ["build", "a.json", "-o", "a.json"]).run before = (build.1, build.2) := rfl
  have hrunCheck : (Command.runArguments machine .off "styles" ["check", "a.json"]).run before =
      (check.1, check.2) := rfl
  obtain ⟨hshown, hsheet⟩ := (runArguments_outcome hrunCheck).2 ["a.json"] (by decide)
  refine ⟨?_, hshown, hsheet.1 hcheck⟩
  obtain ⟨-, sheet, hyields, hdelivered⟩ | ⟨hfails, -⟩ :=
    (runArguments_outcome hrunBuild).1 ["a.json"] (some "a.json") (by decide)
  · refine ⟨sheet, hyields, ?_⟩
    generalize hafter : build.2.shown = shown at hdelivered
    cases hdelivered with
    | written leads _ replaces =>
      have htree : build.2.tree = _ := congrArg Prod.fst hafter
      rw [htree]
      exact (replaces "a.json" sheet).2 (Or.inl ⟨leads, rfl⟩)
    | taken leads found =>
      obtain rfl := Except.ok.inj (leads.symm.trans hleads)
      rw [hfound] at found
      cases found
  · rw [hfails] at hbuild
    cases hbuild

end StyleForest
