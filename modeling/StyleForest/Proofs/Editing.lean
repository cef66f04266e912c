import StyleForest.Proofs.Placement

/-!
# Editing a table in place

A walk can also be written as a program that has one table from beginning to end and writes into
it step by step; what it has written stays when it fails. These are the programs. Each of them does
to the table what the functions on tables say (`Filing`, `Subclass`, `Assembly`), which return a
table or an error: filing and copying write nothing before their last check, so their errors leave
the table that was there, and a walk leaves the table of its `Progress`.
-/

namespace StyleForest

/-- A program that edits a table and may fail. -/
abbrev TableEdit := EStateM StyleError StyleTable

namespace TableEdit

/-- What such a program ends with. -/
abbrev Result := EStateM.Result StyleError StyleTable

/-- Refuses an entry that conflicts with one that is filed. -/
def checkConflict (path : Path) (entry existing : Entry) : TableEdit Unit :=
  match existing.conflict? path entry with
  | some error => throw error
  | none => pure ()

/-- Reads the declaration text of a node and files it under its path. -/
def register (path : Path) (element text : String) (range : Breakpoint)
    (source : Option Location) : TableEdit Unit := do
  let block ← MonadExcept.ofExcept (readBlock path element text source)
  let entry : Entry := { block, breakpoint := range, source }
  match (← get).get? path with
  | none => modify fun table => table.insert path (EntryList.single entry)
  | some list =>
    if list.cloned && list.hasRange range then
      modify fun table => table.modify path fun list => list.mergeAt range block
    else
      forM list.entries (checkConflict path entry)
      modify fun table => table.modify path fun list => list.push entry

/-- Adds a row unless its path has one by now. -/
def addNew (row : Path × EntryList) : TableEdit Unit := do
  unless (← get).contains row.1 do
    modify fun table => table.insert row.1 row.2

/-- Copies everything filed under a base fragment below another one. -/
def cloneBase (base target : Fragment) (source : Option Location) : TableEdit Unit := do
  let path := Path.root base
  unless (← get).contains path do
    throw ⟨.unknownBaseClass path.render, source⟩
  forM ((← get).clonesOf base target) addNew

/-- Copies the base of a node, if it has one. -/
def prepare (visit : Visit) : Option Fragment → TableEdit Unit
  | some base => cloneBase base visit.fragment visit.source
  | none => pure ()

/-- Places one node. -/
def place (visit : Visit) : TableEdit Unit := do
  MonadExcept.ofExcept visit.attributes.validate
  let range ← MonadExcept.ofExcept visit.breakpoint
  let base? ← MonadExcept.ofExcept (subclassBase visit.parent visit.fragment visit.source)
  prepare visit base?
  register visit.path visit.element visit.declarations range visit.source

mutual

/-- Places a node and then what is below it. -/
def walk (parent : Option Path) (scope : Option Scope) : Node → TableEdit Unit
  | .mk element attributes declarations children => do
    let visit : Visit := { parent, scope, element, attributes, declarations }
    place visit
    walkAll (some visit.path) visit.innerScope children

/-- Places trees in a row. -/
def walkAll (parent : Option Path) (scope : Option Scope) : List Node → TableEdit Unit
  | [] => pure ()
  | node :: rest => do
    walk parent scope node
    walkAll parent scope rest

end

variable {table : StyleTable}

/-- The end of an edit that writes its whole result after its last check. -/
def settle (table : StyleTable) : Except StyleError StyleTable → Result Unit
  | .ok edited => .ok () edited
  | .error error => .error error table

/-- An edit that settles fails with the error of its outcome, and leaves the table. -/
theorem settle_eq_error_iff {outcome : Except StyleError StyleTable} {error : StyleError}
    {left : StyleTable} :
    settle table outcome = .error error left ↔ outcome = .error error ∧ left = table := by
  cases outcome with
  | ok edited => simp [settle]
  | error reason => simp [settle, eq_comm]

private theorem run_ofExcept_bind {α β : Type} (outcome : Except StyleError α)
    (next : α → TableEdit β) (table : StyleTable) :
    (MonadExcept.ofExcept outcome >>= next).run table =
      match outcome with
      | .ok value => (next value).run table
      | .error error => .error error table := by
  cases outcome with
  | ok value => rfl
  | error error => rfl

private theorem run_get_bind {β : Type} (next : StyleTable → TableEdit β) (table : StyleTable) :
    (get >>= next).run table = (next table).run table := rfl

/-- The checks of an entry fail with the first conflict and write nothing. -/
theorem run_forM_checkConflict (path : Path) (entry : Entry) (entries : List Entry)
    (table : StyleTable) :
    (forM entries (checkConflict path entry)).run table =
      match entries.findSome? fun existing => existing.conflict? path entry with
      | some error => .error error table
      | none => .ok () table := by
  induction entries with
  | nil => rfl
  | cons existing rest ih =>
    rw [List.forM_cons, EStateM.run_bind, checkConflict, List.findSome?_cons]
    cases existing.conflict? path entry with
    | some error => rfl
    | none => exact ih

/-- Filing in place is filing, and an error leaves the table as it was. -/
theorem run_register (path : Path) (element text : String) (range : Breakpoint)
    (source : Option Location) (table : StyleTable) :
    (register path element text range source).run table =
      settle table (table.register path element text range source) := by
  rw [register, run_ofExcept_bind, StyleTable.register]
  cases readBlock path element text source with
  | error error => rfl
  | ok block =>
    show EStateM.run (get >>= _) table = settle table (table.filing path _ >>= _)
    rw [run_get_bind, StyleTable.filing]
    cases table.get? path with
    | none => rfl
    | some list =>
      dsimp only
      cases list.cloned && list.hasRange range with
      | true => rfl
      | false =>
        rw [if_neg Bool.false_ne_true, if_neg Bool.false_ne_true, EStateM.run_bind,
          run_forM_checkConflict]
        cases list.entries.findSome? fun existing =>
          existing.conflict? path { block, breakpoint := range, source } with
        | some error => rfl
        | none => rfl

private theorem run_addNew (row : Path × EntryList) (table : StyleTable) :
    (addNew row).run table = .ok () (table.addNew row) := by
  rw [addNew, run_get_bind, StyleTable.addNew]
  cases table.contains row.1 with
  | true => rfl
  | false => rfl

private theorem run_forM_addNew (rows : List (Path × EntryList)) (table : StyleTable) :
    (forM rows addNew).run table = .ok () (rows.foldl StyleTable.addNew table) := by
  induction rows generalizing table with
  | nil => rfl
  | cons row rest ih =>
    rw [List.forM_cons, EStateM.run_bind, run_addNew]
    exact ih _

/-- Copying in place is copying, and an error leaves the table as it was. -/
theorem run_cloneBase (base target : Fragment) (source : Option Location) (table : StyleTable) :
    (cloneBase base target source).run table =
      settle table (table.cloneBase base target source) := by
  rw [cloneBase, run_get_bind, StyleTable.cloneBase]
  cases table.contains (Path.root base) with
  | false => rfl
  | true => exact run_forM_addNew (table.clonesOf base target) table

/-- The end of an edit that leaves the table and the failure of a progress. -/
def ofProgress (progress : Progress) : Result Unit :=
  match progress.failure with
  | none => .ok () progress.table
  | some error => .error error progress.table

/-- An edit fails exactly when its progress does, with the same error and table. -/
theorem ofProgress_eq_error_iff {progress : Progress} {error : StyleError} {left : StyleTable} :
    ofProgress progress = .error error left ↔ progress = ⟨left, some error⟩ := by
  obtain ⟨table, failure⟩ := progress
  cases failure with
  | none => simp [ofProgress]
  | some reason => simp [ofProgress, and_comm]

/-- The edit does what placing the nodes in order does, also when that fails. -/
def Performs (edit : TableEdit Unit) (visits : List Visit) : Prop :=
  ∀ table, edit.run table = ofProgress ((Progress.start table).run visits)

/-- Doing nothing places no nodes. -/
theorem performs_nil : Performs (pure ()) [] := fun _ => rfl

/-- A failure of the first edit keeps the second one from anything. -/
theorem Performs.append {first second : TableEdit Unit} {before after : List Visit}
    (hfirst : Performs first before) (hsecond : Performs second after) :
    Performs (do first; second) (before ++ after) := by
  intro table
  rw [EStateM.run_bind, hfirst table, Progress.run_append]
  obtain ⟨reached, failure⟩ := (Progress.start table).run before
  cases failure with
  | none => exact hsecond reached
  | some error =>
    rw [Progress.run_of_failure rfl]
    rfl

/-- Preparing a visit is an edit that settles with the prepared table. -/
theorem run_prepare (visit : Visit) (placement : Placement) (table : StyleTable) :
    (prepare visit placement.base).run table = settle table (table.prepare visit placement) := by
  rw [StyleTable.prepare]
  cases placement.base with
  | none => rfl
  | some base => exact run_cloneBase ..

/-- Placing a node in place is placing it. -/
theorem run_place (visit : Visit) (table : StyleTable) :
    (place visit).run table = ofProgress (table.place visit) := by
  rw [place, run_ofExcept_bind, StyleTable.place]
  cases hvalid : visit.attributes.validate with
  | error error =>
    rw [Visit.placement, hvalid]
    rfl
  | ok checked =>
    dsimp only
    rw [run_ofExcept_bind]
    cases hrange : visit.breakpoint with
    | error error =>
      rw [Visit.placement, hvalid, hrange]
      rfl
    | ok range =>
      dsimp only
      rw [run_ofExcept_bind]
      cases hbase : subclassBase visit.parent visit.fragment visit.source with
      | error error =>
        rw [Visit.placement, hvalid, hrange, hbase]
        rfl
      | ok base? =>
        have hplacement : visit.placement = .ok ⟨range, base?⟩ :=
          Visit.placement_eq_ok_iff.2 ⟨hvalid, hrange, hbase⟩
        dsimp only
        rw [hplacement, EStateM.run_bind, run_prepare visit ⟨range, base?⟩]
        dsimp only
        cases table.prepare visit ⟨range, base?⟩ with
        | error error => rfl
        | ok prepared =>
          dsimp only [settle]
          rw [run_register]
          cases prepared.register visit.path visit.element visit.declarations range
            visit.source with
          | error error => rfl
          | ok filed => rfl

/-- Placing a node performs its visit. -/
theorem performs_place (visit : Visit) : Performs (place visit) [visit] :=
  run_place visit

mutual

/-- A walk in place places the nodes of a tree in order. -/
theorem performs_walk (parent : Option Path) (scope : Option Scope) :
    ∀ node : Node, Performs (walk parent scope node) (node.visits parent scope)
  | .mk element attributes declarations children => by
    let visit : Visit := { parent, scope, element, attributes, declarations }
    rw [walk, Node.visits]
    exact (performs_place visit).append
      (performs_walkAll (some visit.path) visit.innerScope children)

/-- Walking through nodes performs their visits. -/
theorem performs_walkAll (parent : Option Path) (scope : Option Scope) :
    ∀ nodes : List Node, Performs (walkAll parent scope nodes) (Node.visitsOfAll parent scope nodes)
  | [] => by
    rw [walkAll, Node.visitsOfAll]
    exact performs_nil
  | node :: rest => by
    rw [walkAll, Node.visitsOfAll]
    exact (performs_walk parent scope node).append (performs_walkAll parent scope rest)

end

/-- A walk in place leaves the table and the failure of the assembly. -/
theorem run_walk (node : Node) (table : StyleTable) :
    (walk none none node).run table = ofProgress (table.assemble node none none) :=
  performs_walk none none node table

end TableEdit

end StyleForest
