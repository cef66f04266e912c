import StyleForest.Forest.Visit
import StyleForest.Table.Filing
import StyleForest.Table.Subclass

/-!
# Assembling a forest

Every visit of a walk places its node in the table: the attributes are checked, a nested scope
is refused, a subclass copies its base, and the declarations are filed. The first failure ends
the walk; the table keeps what was placed before it, and the copies of the node at fault.
-/

namespace StyleForest

/-- A table and the failure that ended the work on it, if any. -/
structure Progress where
  table : StyleTable
  failure : Option StyleError

/-- What a visit does to a table once its attributes and its place in the tree are accepted. -/
structure Placement where
  range : Breakpoint
  /-- The base to copy first. -/
  base : Option Fragment
  deriving DecidableEq, Repr

namespace Visit

/-- Checks everything about a visit that does not depend on the table: the attributes, then the
scope, then the place of a subclass. -/
def placement (visit : Visit) : Except StyleError Placement := do
  visit.attributes.validate
  let range ← visit.breakpoint
  let base ← subclassBase visit.parent visit.fragment visit.source
  return { range, base }

/-- A visit is accepted exactly when it passes the three checks. -/
theorem placement_eq_ok_iff {visit : Visit} {placement : Placement} :
    visit.placement = .ok placement ↔
      visit.attributes.validate = .ok () ∧ visit.breakpoint = .ok placement.range ∧
        subclassBase visit.parent visit.fragment visit.source = .ok placement.base := by
  obtain ⟨range, base⟩ := placement
  unfold Visit.placement
  cases visit.attributes.validate with
  | error error => simp [bind, Except.bind]
  | ok checked =>
    cases visit.breakpoint with
    | error error => simp [bind, Except.bind]
    | ok own =>
      cases subclassBase visit.parent visit.fragment visit.source with
      | error error => simp [bind, Except.bind]
      | ok base? => simp [bind, Except.bind, pure, Except.pure]

end Visit

namespace StyleTable

/-- The table with the copies that a placement asks for. -/
def prepare (table : StyleTable) (visit : Visit) (placement : Placement) :
    Except StyleError StyleTable :=
  match placement.base with
  | some base => table.cloneBase base visit.fragment visit.source
  | none => .ok table

/-- Places one node in the table. -/
def place (table : StyleTable) (visit : Visit) : Progress :=
  match visit.placement with
  | .error error => ⟨table, some error⟩
  | .ok placement =>
    match table.prepare visit placement with
    | .error error => ⟨table, some error⟩
    | .ok prepared =>
      match prepared.register visit.path visit.element visit.declarations placement.range
          visit.source with
      | .error error => ⟨prepared, some error⟩
      | .ok filed => ⟨filed, none⟩

end StyleTable

namespace Progress

/-- The start of the work on a table. -/
def start (table : StyleTable) : Progress := ⟨table, none⟩

/-- Places one more node, unless a failure has ended the work. -/
def step (progress : Progress) (visit : Visit) : Progress :=
  match progress.failure with
  | some _ => progress
  | none => progress.table.place visit

/-- Places nodes in order up to the first failure. -/
def run (progress : Progress) (visits : List Visit) : Progress :=
  visits.foldl step progress

@[simp] theorem run_nil (progress : Progress) : progress.run [] = progress := rfl

/-- Placing two runs of nodes is placing the second after the first. -/
theorem run_append (progress : Progress) (first second : List Visit) :
    progress.run (first ++ second) = (progress.run first).run second :=
  List.foldl_append

/-- After a failure nothing changes any more. -/
theorem run_of_failure {progress : Progress} (h : progress.failure.isSome)
    (visits : List Visit) : progress.run visits = progress := by
  induction visits with
  | nil => rfl
  | cons visit rest ih =>
    obtain ⟨error, he⟩ := Option.isSome_iff_exists.1 h
    have hs : progress.step visit = progress := by simp [step, he]
    show (progress.step visit).run rest = progress
    rw [hs, ih]

/-- While nothing has failed, a run places the first visit and goes on from there. -/
theorem run_cons_of_running {progress : Progress} (h : progress.failure = none) (visit : Visit)
    (rest : List Visit) :
    progress.run (visit :: rest) = (progress.table.place visit).run rest := by
  have hstep : progress.step visit = progress.table.place visit := by rw [step, h]
  rw [← hstep]
  rfl

/-- A run that ends without a failure started without one. -/
theorem failure_eq_none_of_run {progress : Progress} {visits : List Visit}
    (h : (progress.run visits).failure = none) : progress.failure = none := by
  cases hfailure : progress.failure with
  | none => rfl
  | some error =>
    rw [run_of_failure (by rw [hfailure]; rfl), hfailure] at h
    cases h

end Progress

/-- Assembles a tree into a table, below a parent and inside a scope if there are any. -/
def StyleTable.assemble (table : StyleTable) (node : Node) (parent : Option Path)
    (scope : Option Scope) : Progress :=
  (Progress.start table).run (node.visits parent scope)

/-- Assembles the trees of a forest, in order, into an empty table. -/
def assembleForest (forest : List Node) : Progress :=
  (Progress.start StyleTable.empty).run (Node.visitsOfAll none none forest)

/-- Trees that are appended to a forest are assembled after it. -/
theorem assembleForest_append (first second : List Node) :
    assembleForest (first ++ second) =
      (assembleForest first).run (Node.visitsOfAll none none second) := by
  rw [assembleForest, Node.visitsOfAll_append, Progress.run_append]
  rfl

end StyleForest
