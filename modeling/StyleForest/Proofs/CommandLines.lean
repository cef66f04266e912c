import StyleForest.Command.Basic
import StyleForest.Proofs.Steps

/-!
# Arguments of a build

The arguments of a build are a row of items: an input, or an output option together with the
argument behind it, whatever that looks like. Which rows are accepted, with which inputs and which
output, is read off the items (`Command.parse_build_iff`), and so is the error of the others: it is
that of the leftmost argument that starts no item. Output options may stand anywhere between the
items.
-/

namespace StyleForest

open Command (isOption isOutputOption)

/-- An item of the arguments of a build. An option that is unknown fits nowhere. -/
inductive BuildItem where
  | input (path : String) (isPath : isOption path = false)
  | output (option value : String) (isOutput : isOutputOption option = true)
  | unknown (option : String) (isFlag : isOption option = true)
    (isNoOutput : isOutputOption option = false)

namespace BuildItem

/-- The arguments that an item takes up. -/
def words : BuildItem → List String
  | input path _ => [path]
  | output option value _ => [option, value]
  | unknown option _ _ => [option]

/-- The item may stand in a build. -/
def Fits : BuildItem → Prop
  | unknown .. => False
  | _ => True

/-- The path of an input. -/
def input? : BuildItem → Option String
  | input path _ => some path
  | _ => none

/-- The value of an output option. -/
def value? : BuildItem → Option String
  | output _ value _ => some value
  | _ => none

/-- What a build asks for when the item stands in front of its arguments. -/
def add : BuildItem → Except UsageError (List String × Option String) →
    Except UsageError (List String × Option String)
  | input path _, result => result.map fun (paths, later) => (path :: paths, later)
  | output _ value _, result => result.map fun (paths, later) => (paths, later.or (some value))
  | unknown option _ _, _ => .error (.unknownOption option)

end BuildItem

namespace Command

open BuildItem (words)

variable {arguments : List String}

private theorem isOption_of_isOutputOption {argument : String}
    (h : isOutputOption argument = true) :
    isOption argument = true := by
  simp only [isOutputOption, Bool.or_eq_true, decide_eq_true_eq] at h
  rcases h with rfl | rfl
  · rfl
  · rfl

private theorem isOutputOption_of_isPath {path : String} (h : isOption path = false) :
    isOutputOption path = false := by
  rw [← Bool.not_eq_true] at h ⊢
  exact fun houtput => h (isOption_of_isOutputOption houtput)

/-- An item is read off the front of the arguments. -/
theorem buildItems_words (item : BuildItem) (rest : List String) :
    buildItems (item.words ++ rest) = item.add (buildItems rest) := by
  cases item with
  | input path isPath =>
    show buildItems (path :: rest) = _
    conv_lhs => unfold buildItems
    simp only [isPath, isOutputOption_of_isPath isPath, Bool.false_eq_true, if_false]
    rfl
  | output option value isOutput =>
    show buildItems (option :: value :: rest) = _
    conv_lhs => unfold buildItems
    rw [if_pos isOutput]
    rfl
  | unknown option isFlag isNoOutput =>
    show buildItems (option :: rest) = _
    conv_lhs => unfold buildItems
    simp only [isFlag, isNoOutput, Bool.false_eq_true, if_false, if_true]
    rfl

/-- Items in front of other arguments are read one by one. -/
theorem buildItems_flatMap_words (items : List BuildItem) (rest : List String) :
    buildItems (items.flatMap words ++ rest) = items.foldr BuildItem.add (buildItems rest) := by
  induction items with
  | nil => rfl
  | cons item later ih =>
    rw [List.flatMap_cons, List.append_assoc, buildItems_words, ih, List.foldr_cons]

/-- Items that fit ask for their inputs and the last of their outputs. -/
theorem foldr_add_of_fits {items : List BuildItem} (h : ∀ item ∈ items, item.Fits) :
    items.foldr BuildItem.add (.ok ([], none)) =
      .ok (items.filterMap BuildItem.input?, (items.filterMap BuildItem.value?).getLast?) := by
  induction items with
  | nil => rfl
  | cons item later ih =>
    obtain ⟨hitem, hlater⟩ := List.forall_mem_cons.1 h
    rw [List.foldr_cons, ih hlater]
    cases item with
    | input path => rfl
    | output option value =>
      have hlast : (value :: later.filterMap BuildItem.value?).getLast? =
          (later.filterMap BuildItem.value?).getLast?.or (some value) := by
        rw [List.getLast?_cons, Option.or_some]
      exact congrArg (fun last => Except.ok (later.filterMap BuildItem.input?, last)) hlast.symm
    | unknown => exact hitem.elim

/-- Arguments that are taken are a row of items that fit. -/
theorem exists_items_of_ok {inputs : List String} {output : Option String}
    (h : buildItems arguments = .ok (inputs, output)) :
    ∃ items : List BuildItem, (∀ item ∈ items, item.Fits) ∧ arguments = items.flatMap words := by
  fun_induction buildItems arguments generalizing inputs output with
  | case1 => exact ⟨[], by simp, rfl⟩
  | case2 => cases h
  | case3 option hoption value rest ih =>
    obtain ⟨⟨paths, last⟩, hrest, -⟩ := map_eq_ok_iff.1 h
    obtain ⟨items, hfits, rfl⟩ := ih hrest
    exact ⟨.output option value hoption :: items, List.forall_mem_cons.2 ⟨trivial, hfits⟩, rfl⟩
  | case4 => cases h
  | case5 path rest _ hpath ih =>
    obtain ⟨⟨paths, last⟩, hrest, -⟩ := map_eq_ok_iff.1 h
    obtain ⟨items, hfits, rfl⟩ := ih hrest
    exact ⟨.input path (Bool.not_eq_true _ ▸ hpath) :: items,
      List.forall_mem_cons.2 ⟨trivial, hfits⟩, rfl⟩

/-- Items that fit do not change an error behind them. -/
theorem foldr_add_error {items : List BuildItem} (h : ∀ item ∈ items, item.Fits)
    (error : UsageError) : items.foldr BuildItem.add (.error error) = .error error := by
  induction items with
  | nil => rfl
  | cons item later ih =>
    obtain ⟨hitem, hlater⟩ := List.forall_mem_cons.1 h
    rw [List.foldr_cons, ih hlater]
    cases item with
    | input => rfl
    | output => rfl
    | unknown => exact hitem.elim

/-- Arguments are taken when they are a row of items that fit, for the inputs and the last output
among them. -/
theorem buildItems_eq_ok_iff {inputs : List String} {output : Option String} :
    buildItems arguments = .ok (inputs, output) ↔
      ∃ items : List BuildItem, (∀ item ∈ items, item.Fits) ∧ arguments = items.flatMap words ∧
        inputs = items.filterMap BuildItem.input? ∧
        output = (items.filterMap BuildItem.value?).getLast? := by
  have hitems {items : List BuildItem} (hfits : ∀ item ∈ items, item.Fits) :
      buildItems (items.flatMap words) = .ok (items.filterMap BuildItem.input?,
        (items.filterMap BuildItem.value?).getLast?) := by
    rw [← List.append_nil (items.flatMap words), buildItems_flatMap_words,
      ← foldr_add_of_fits hfits]
    rfl
  constructor
  · intro h
    obtain ⟨items, hfits, rfl⟩ := exists_items_of_ok h
    rw [hitems hfits, Except.ok.injEq, Prod.mk.injEq] at h
    exact ⟨items, hfits, rfl, h.1.symm, h.2.symm⟩
  · rintro ⟨items, hfits, rfl, rfl, rfl⟩
    exact hitems hfits

/-- The rest of the arguments starts with no item that fits: with an option that is unknown, or with
an output option that lacks its value. -/
inductive Misfit : List String → UsageError → Prop
  | unknown {option : String} {rest : List String} :
      isOption option = true → isOutputOption option = false →
        Misfit (option :: rest) (.unknownOption option)
  | dangling {option : String} :
      isOutputOption option = true → Misfit [option] (.missingPath option)

/-- A misfit ends the reading of the items with its error. -/
theorem buildItems_of_misfit {error : UsageError} (h : Misfit arguments error) :
    buildItems arguments = .error error := by
  cases h with
  | unknown hflag houtput => exact buildItems_words (.unknown _ hflag houtput) _
  | dangling houtput =>
    unfold buildItems
    rw [if_pos houtput]

/-- Arguments are refused for the leftmost of them that starts no item that fits. -/
theorem buildItems_eq_error_iff {error : UsageError} :
    buildItems arguments = .error error ↔
      ∃ (items : List BuildItem) (rest : List String), (∀ item ∈ items, item.Fits) ∧
        arguments = items.flatMap words ++ rest ∧ Misfit rest error := by
  constructor
  · intro h
    fun_induction buildItems arguments with
    | case1 => cases h
    | case2 option houtput =>
      cases h
      exact ⟨[], [option], by simp, rfl, .dangling houtput⟩
    | case3 option houtput value rest ih =>
      obtain ⟨items, misfit, hfits, rfl, hmisfit⟩ := ih (map_eq_error_iff.1 h)
      exact ⟨.output option value houtput :: items, misfit,
        List.forall_mem_cons.2 ⟨trivial, hfits⟩, rfl, hmisfit⟩
    | case4 option rest houtput hflag =>
      cases h
      exact ⟨[], option :: rest, by simp, rfl, .unknown hflag (Bool.not_eq_true _ ▸ houtput)⟩
    | case5 path rest _ hpath ih =>
      obtain ⟨items, misfit, hfits, rfl, hmisfit⟩ := ih (map_eq_error_iff.1 h)
      exact ⟨.input path (Bool.not_eq_true _ ▸ hpath) :: items, misfit,
        List.forall_mem_cons.2 ⟨trivial, hfits⟩, rfl, hmisfit⟩
  · rintro ⟨items, rest, hfits, rfl, hmisfit⟩
    rw [buildItems_flatMap_words, buildItems_of_misfit hmisfit, foldr_add_error hfits]

/-- The inputs of arguments that are taken. -/
def takenInputs (arguments : List String) : Option (List String) :=
  (buildItems arguments).toOption.map Prod.fst

/-- The inputs that are taken are the ones of the items, when these can be read. -/
theorem takenInputs_eq_some_iff {inputs : List String} :
    takenInputs arguments = some inputs ↔
      ∃ output, buildItems arguments = .ok (inputs, output) := by
  unfold takenInputs
  cases buildItems arguments with
  | error error => simp [Except.toOption]
  | ok taken => simp [Except.toOption, Prod.ext_iff]

/-- An input comes in front of the inputs behind it. -/
theorem takenInputs_input {path : String} (isPath : isOption path = false) (rest : List String) :
    takenInputs (path :: rest) = (takenInputs rest).map (path :: ·) := by
  have hwords := buildItems_words (.input path isPath) rest
  simp only [BuildItem.words, List.singleton_append, BuildItem.add] at hwords
  unfold takenInputs
  rw [hwords]
  cases buildItems rest <;> rfl

/-- An output option is of no matter for the inputs. -/
theorem takenInputs_output {option : String} (isOutput : isOutputOption option = true)
    (value : String) (rest : List String) :
    takenInputs (option :: value :: rest) = takenInputs rest := by
  have hwords := buildItems_words (.output option value isOutput) rest
  simp only [BuildItem.words, List.cons_append, List.nil_append, BuildItem.add] at hwords
  unfold takenInputs
  rw [hwords]
  cases buildItems rest <;> rfl

/-- What items in front do to the inputs depends on the inputs behind them only. -/
theorem takenInputs_append_congr (items : List BuildItem) {rest other : List String}
    (h : takenInputs rest = takenInputs other) :
    takenInputs (items.flatMap words ++ rest) = takenInputs (items.flatMap words ++ other) := by
  induction items with
  | nil => exact h
  | cons item later ih =>
    rw [List.flatMap_cons, List.append_assoc, List.append_assoc]
    cases item with
    | input path isPath =>
      exact (takenInputs_input isPath _).trans (ih ▸ (takenInputs_input isPath _).symm)
    | output option value isOutput =>
      exact (takenInputs_output isOutput value _).trans
        (ih.trans (takenInputs_output isOutput value _).symm)
    | unknown =>
      unfold takenInputs
      rw [buildItems_words, buildItems_words]
      rfl

/-- The inputs are the same when an output option is left out, and so wherever it stands. -/
theorem takenInputs_moved {option : String} (isOutput : isOutputOption option = true)
    (value : String) (before middle : List BuildItem) (rest : List String) :
    takenInputs
        ((before ++ BuildItem.output option value isOutput :: middle).flatMap words ++ rest) =
      takenInputs
        ((before ++ middle ++ [BuildItem.output option value isOutput]).flatMap words ++ rest) := by
  have hfront : takenInputs (option :: value :: (middle.flatMap words ++ rest)) =
      takenInputs (middle.flatMap words ++ rest) :=
    takenInputs_output isOutput value _
  have hback : takenInputs (middle.flatMap words ++ option :: value :: rest) =
      takenInputs (middle.flatMap words ++ rest) :=
    takenInputs_append_congr middle (takenInputs_output isOutput value rest)
  have hmoved := takenInputs_append_congr before (hfront.trans hback.symm)
  simpa only [List.flatMap_append, List.flatMap_cons, List.flatMap_nil, BuildItem.words,
    List.append_assoc, List.cons_append, List.nil_append, List.append_nil] using hmoved

/-- The arguments after `build` are accepted when their items can be read and have an input. -/
theorem parseBuild_eq_ok_iff {command : Command} :
    parseBuild arguments = .ok command ↔ ∃ inputs output,
      buildItems arguments = .ok (inputs, output) ∧ inputs ≠ [] ∧
        command = .build inputs output := by
  simp only [parseBuild, bind_eq_ok_iff, Prod.exists]
  refine exists₂_congr fun inputs output => and_congr_right fun _ => ?_
  cases inputs with
  | nil => simp
  | cons path rest => simp [pure, Except.pure, eq_comm]

/-- The arguments after `build` are refused for an item, or because no input is among them. -/
theorem parseBuild_eq_error_iff {error : UsageError} :
    parseBuild arguments = .error error ↔
      buildItems arguments = .error error ∨
        ∃ output, buildItems arguments = .ok ([], output) ∧ error = .missingInput "build" := by
  simp only [parseBuild, bind_eq_error_iff, Prod.exists]
  refine or_congr_right ⟨?_, ?_⟩
  · rintro ⟨inputs, output, htaken, herror⟩
    cases inputs with
    | nil => exact ⟨output, htaken, (Except.error.inj herror).symm⟩
    | cons => cases herror
  · rintro ⟨output, htaken, rfl⟩
    exact ⟨[], output, htaken, rfl⟩

/-- Without an output, the arguments of a build are its inputs. -/
theorem buildItems_eq_ok_none_iff {inputs : List String} :
    buildItems arguments = .ok (inputs, none) ↔
      (∀ argument ∈ arguments, isOption argument = false) ∧ inputs = arguments := by
  constructor
  · intro h
    fun_induction buildItems arguments generalizing inputs with
    | case1 =>
      cases h
      exact ⟨by simp, rfl⟩
    | case2 => cases h
    | case3 =>
      obtain ⟨⟨paths, last⟩, -, hlast⟩ := map_eq_ok_iff.1 h
      simp at hlast
    | case4 => cases h
    | case5 path rest _ hpath ih =>
      obtain ⟨⟨paths, last⟩, hrest, ⟨⟩⟩ := map_eq_ok_iff.1 h
      obtain ⟨hpaths, rfl⟩ := ih hrest
      exact ⟨List.forall_mem_cons.2 ⟨Bool.not_eq_true _ ▸ hpath, hpaths⟩, rfl⟩
  · rintro ⟨hpaths, rfl⟩
    induction inputs with
    | nil => rfl
    | cons path rest ih =>
      obtain ⟨hpath, hrest⟩ := List.forall_mem_cons.1 hpaths
      have hwords := buildItems_words (.input path hpath) rest
      rw [ih hrest] at hwords
      exact hwords

/-- The arguments after `check` are accepted when they are paths, at least one. -/
theorem parseCheck_eq_ok_iff {command : Command} :
    parseCheck arguments = .ok command ↔
      (∀ argument ∈ arguments, isOption argument = false) ∧ arguments ≠ [] ∧
        command = .check arguments := by
  unfold parseCheck
  split
  · next option hfound =>
    have hoption := List.find?_some hfound
    have hmem := List.mem_of_find?_eq_some hfound
    refine ⟨nofun, fun h => ?_⟩
    rw [h.1 option hmem] at hoption
    cases hoption
  · next hnone =>
    have hpaths : ∀ argument ∈ arguments, isOption argument = false := by
      simpa using hnone
    cases arguments with
    | nil => simp
    | cons path rest =>
      constructor
      · rintro ⟨⟩
        exact ⟨hpaths, List.cons_ne_nil _ _, rfl⟩
      · rintro ⟨-, -, rfl⟩
        rfl

/-- A build is accepted for the inputs that are taken, when there are any. -/
theorem exists_parse_build_iff {inputs : List String} :
    (∃ output, parse ("build" :: arguments) = .ok (.build inputs output)) ↔
      takenInputs arguments = some inputs ∧ inputs ≠ [] := by
  have hparse : parse ("build" :: arguments) = parseBuild arguments := rfl
  simp only [hparse, parseBuild_eq_ok_iff, takenInputs_eq_some_iff]
  grind

/-- A build takes the rows of inputs and output options with at least one input, for its inputs in
order and the last of its outputs. Any other row is refused for its leftmost argument that starts no
such item, and one without inputs for that. An output option with its value may stand between any
two items. A check takes the inputs that a build takes without an output. -/
theorem parse_build_iff (arguments : List String) :
    (∀ command, parse ("build" :: arguments) = .ok command ↔
      ∃ items : List BuildItem, (∀ item ∈ items, item.Fits) ∧ arguments = items.flatMap words ∧
        items.filterMap BuildItem.input? ≠ [] ∧
        command = .build (items.filterMap BuildItem.input?)
          (items.filterMap BuildItem.value?).getLast?) ∧
    (∀ error, parse ("build" :: arguments) = .error error ↔
      ∃ (items : List BuildItem) (rest : List String), (∀ item ∈ items, item.Fits) ∧
        arguments = items.flatMap words ++ rest ∧
        (Misfit rest error ∨
          rest = [] ∧ items.filterMap BuildItem.input? = [] ∧ error = .missingInput "build")) ∧
    (∀ (option value : String) (isOutput : isOutputOption option = true)
        (before middle : List BuildItem) (rest inputs : List String),
      let moved := BuildItem.output option value isOutput
      (∃ output, parse ("build" :: ((before ++ moved :: middle).flatMap words ++ rest)) =
          .ok (.build inputs output)) ↔
        ∃ output, parse ("build" :: ((before ++ middle ++ [moved]).flatMap words ++ rest)) =
          .ok (.build inputs output)) ∧
    ∀ command, parse ("check" :: arguments) = .ok command ↔
      ∃ inputs, command = .check inputs ∧
        parse ("build" :: arguments) = .ok (.build inputs none) := by
  have hbuild : parse ("build" :: arguments) = parseBuild arguments := rfl
  have hcheck : parse ("check" :: arguments) = parseCheck arguments := rfl
  refine ⟨fun command => ?_, fun error => ?_, ?_, fun command => ?_⟩
  · rw [hbuild, parseBuild_eq_ok_iff]
    simp only [buildItems_eq_ok_iff]
    constructor
    · rintro ⟨_, _, ⟨items, hfits, rfl, rfl, rfl⟩, hinputs, rfl⟩
      exact ⟨items, hfits, rfl, hinputs, rfl⟩
    · rintro ⟨items, hfits, rfl, hinputs, rfl⟩
      exact ⟨_, _, ⟨items, hfits, rfl, rfl, rfl⟩, hinputs, rfl⟩
  · rw [hbuild, parseBuild_eq_error_iff]
    simp only [buildItems_eq_error_iff, buildItems_eq_ok_iff]
    constructor
    · rintro (⟨items, rest, hfits, rfl, hmisfit⟩ | ⟨_, ⟨items, hfits, rfl, hnone, -⟩, rfl⟩)
      · exact ⟨items, rest, hfits, rfl, Or.inl hmisfit⟩
      · exact ⟨items, [], hfits, (List.append_nil _).symm, Or.inr ⟨rfl, hnone.symm, rfl⟩⟩
    · rintro ⟨items, rest, hfits, rfl, hmisfit | ⟨rfl, hnone, rfl⟩⟩
      · exact Or.inl ⟨items, rest, hfits, rfl, hmisfit⟩
      · exact Or.inr ⟨_, ⟨items, hfits, List.append_nil _, hnone.symm, rfl⟩, rfl⟩
  · intro option value isOutput before middle rest inputs moved
    rw [exists_parse_build_iff, exists_parse_build_iff, takenInputs_moved]
  · rw [hcheck, hbuild, parseCheck_eq_ok_iff]
    simp only [parseBuild_eq_ok_iff, build.injEq]
    constructor
    · rintro ⟨hpaths, hne, rfl⟩
      exact ⟨arguments, rfl, arguments, none, buildItems_eq_ok_none_iff.2 ⟨hpaths, rfl⟩, hne,
        rfl, rfl⟩
    · rintro ⟨_, rfl, inputs, _, htaken, hne, rfl, rfl⟩
      obtain ⟨hpaths, rfl⟩ := buildItems_eq_ok_none_iff.1 htaken
      exact ⟨hpaths, hne, rfl⟩

/-- An output that looks like an option is taken before the first input and behind it. Both builds
have the inputs that a check takes. -/
theorem help_is_an_output :
    isOutputOption "-o" = true ∧
      (∃ output, parse ["build", "-o", "--help", "a.json", "b.json"] =
        .ok (.build ["a.json", "b.json"] output)) ∧
      (∃ output, parse ["build", "a.json", "-o", "--help", "b.json"] =
        .ok (.build ["a.json", "b.json"] output)) ∧
      parse ["check", "a.json", "b.json"] = .ok (.check ["a.json", "b.json"]) := by
  have hfront : parse ["build", "-o", "--help", "a.json", "b.json"] =
      .ok (.build ["a.json", "b.json"] (some "--help")) := by decide
  have hmoved := (parse_build_iff []).2.2.1 "-o" "--help" (by decide) []
    [.input "a.json" (by decide)] ["b.json"] ["a.json", "b.json"]
  have hcheck := (parse_build_iff ["a.json", "b.json"]).2.2.2 (.check ["a.json", "b.json"])
  exact ⟨by decide, ⟨_, hfront⟩, hmoved.1 ⟨_, hfront⟩, hcheck.2 ⟨_, rfl, by decide⟩⟩

end Command

end StyleForest
