import StyleForest.Proofs.Acceptance
import StyleForest.Proofs.Merging

/-!
# Sessions of a compiler

One compiler serves many calls, and a compilation that fails leaves a table that is only half
built. The next call starts from an empty table, so it answers as a compiler that has compiled
nothing and leaves the same table (`Compiler.perform_eq`); only the reported errors pile up.
-/

namespace StyleForest.Compiler

/-- A call of a compiler. -/
inductive Call where
  | compile (forest : List Node)
  | compileNode (node : Node)
  | reset

/-- What a call returns. A reset returns nothing. -/
abbrev Answer := Option (Except StyleError String)

/-- The error with which a call failed. -/
def Answer.failure? : Answer → Option StyleError
  | some (.error error) => some error
  | _ => none

/-- Makes one call. -/
def perform (compiler : Compiler) : Call → Answer × Compiler
  | .compile forest =>
    let (sheet, after) := compiler.compile forest
    (some sheet, after)
  | .compileNode node =>
    let (sheet, after) := compiler.compileNode node
    (some sheet, after)
  | .reset => (none, compiler.reset)

/-- Makes calls in order: what they return, and the compiler after the last one. -/
def performAll (compiler : Compiler) : List Call → List Answer × Compiler
  | [] => ([], compiler)
  | call :: rest =>
    let (answer, after) := compiler.perform call
    let (answers, last) := after.performAll rest
    (answer :: answers, last)

/-- Calls in a row act one after the other. -/
theorem performAll_append (compiler : Compiler) (first second : List Call) :
    compiler.performAll (first ++ second) =
      ((compiler.performAll first).1 ++ ((compiler.performAll first).2.performAll second).1,
        ((compiler.performAll first).2.performAll second).2) := by
  induction first generalizing compiler with
  | nil => rfl
  | cons call rest ih =>
    simp only [List.cons_append, performAll]
    rw [ih]

/-- A failed compilation reports its error, and a successful one reports nothing. -/
theorem reported_compile (compiler : Compiler) (forest : List Node) :
    (compiler.compile forest).2.reported =
      compiler.reported ++ (Answer.failure? (some (compiler.compile forest).1)).toList := by
  simp only [compile, extend]
  split
  · exact (List.append_nil _).symm
  · rfl

/-- A compilation answers and leaves its table as if nothing had been compiled before. -/
theorem compile_eq (compiler : Compiler) (forest : List Node) :
    (compiler.compile forest).1 = (new.compile forest).1 ∧
      (compiler.compile forest).2.table = (new.compile forest).2.table := by
  rw [fst_compile, fst_compile, table_compile, table_compile]
  exact ⟨rfl, rfl⟩

/-- A call does what a compiler that has compiled nothing would do, and adds its error to those
that have been reported. -/
theorem perform_eq (compiler : Compiler) (call : Call) :
    (compiler.perform call).1 = (new.perform call).1 ∧
      (compiler.perform call).2.table = (new.perform call).2.table ∧
      (compiler.perform call).2.reported =
        compiler.reported ++ (compiler.perform call).1.failure?.toList := by
  cases call with
  | compile forest =>
    obtain ⟨hsheet, htable⟩ := compiler.compile_eq forest
    exact ⟨congrArg some hsheet, htable, compiler.reported_compile forest⟩
  | compileNode node =>
    obtain ⟨hsheet, htable⟩ := compiler.compile_eq [node]
    exact ⟨congrArg some hsheet, htable, compiler.reported_compile [node]⟩
  | reset => exact ⟨rfl, rfl, (List.append_nil _).symm⟩

/-- The reported errors are those that were there and those with which calls failed, in order. -/
theorem reported_performAll (compiler : Compiler) (calls : List Call) :
    (compiler.performAll calls).2.reported =
      compiler.reported ++ (compiler.performAll calls).1.filterMap Answer.failure? := by
  induction calls generalizing compiler with
  | nil => exact (List.append_nil _).symm
  | cons call rest ih =>
    obtain ⟨_, _, hreported⟩ := compiler.perform_eq call
    rw [performAll, ih, hreported, List.append_assoc, List.filterMap_cons]
    cases (compiler.perform call).1.failure? with
    | none => rfl
    | some error => rfl

/-- After any calls, failed ones among them, a compilation answers as a new compiler and leaves
the table a new compiler would leave, and a reset leaves no table. Each call adds to the reported
errors exactly the one it fails with, so that they are at any time those of all calls in order. -/
theorem perform_after_calls (compiler : Compiler) (earlier : List Call) (call : Call) :
    let before := (compiler.performAll earlier).2
    let answer := (before.perform call).1
    let after := (before.perform call).2
    (match call with
      | .compile forest =>
        answer = some (new.compile forest).1 ∧ after.table = (new.compile forest).2.table
      | .compileNode node =>
        answer = some (new.compileNode node).1 ∧ after.table = (new.compileNode node).2.table
      | .reset => answer = none ∧ after.table = StyleTable.empty) ∧
    after.reported = before.reported ++ answer.failure?.toList ∧
    compiler.performAll (earlier ++ [call]) =
      ((compiler.performAll earlier).1 ++ [answer], after) ∧
    after.reported = compiler.reported ++
      (compiler.performAll (earlier ++ [call])).1.filterMap Answer.failure? := by
  intro before answer after
  obtain ⟨hanswer, htable, hreported⟩ := before.perform_eq call
  have hall : compiler.performAll (earlier ++ [call]) =
      ((compiler.performAll earlier).1 ++ [answer], after) :=
    compiler.performAll_append earlier [call]
  refine ⟨?_, hreported, hall, ?_⟩
  · cases call with
    | compile forest => exact ⟨hanswer, htable⟩
    | compileNode node => exact ⟨hanswer, htable⟩
    | reset => exact ⟨hanswer, htable⟩
  · rw [← compiler.reported_performAll, hall]

end StyleForest.Compiler
