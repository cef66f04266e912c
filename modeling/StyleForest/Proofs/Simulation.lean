import StyleForest.Proofs.Placement

/-!
# Tables that a walk cannot tell apart

A relation between tables is kept by a walk when it is kept by copying a base and by filing an
entry, and when related tables decide both in the same way. Then a walk over the same nodes ends
on both tables with the same failure or with none, and the tables that it leaves are related
(`Progress.Related.run`).
-/

namespace StyleForest

/-- The visit is a subclass that may stand where it does, and this is its base. -/
def Visit.Copies (visit : Visit) (base : Fragment) : Prop :=
  subclassBase visit.parent visit.fragment visit.source = .ok (some base)

/-- An accepted visit copies what its placement asks for. -/
theorem Visit.copies_iff {visit : Visit} {placement : Placement}
    (hplacement : visit.placement = .ok placement) {base : Fragment} :
    visit.Copies base ↔ placement.base = some base := by
  rw [Copies, (placement_eq_ok_iff.1 hplacement).2.2, Except.ok.injEq]

/-- What a relation between tables has to meet for a visit to be placed alike in both. -/
structure PlacingLaw (R : StyleTable → StyleTable → Prop) (visit : Visit) : Prop where
  /-- The base of the visit is filed in both tables or in none. -/
  contains_base : ∀ {left right : StyleTable} {base : Fragment}, R left right →
    visit.Copies base → left.contains (Path.root base) = right.contains (Path.root base)
  /-- Copying the base keeps the relation. -/
  clone : ∀ {left right leftCloned rightCloned : StyleTable} {base : Fragment}, R left right →
    visit.Copies base → left.cloneBase base visit.fragment visit.source = .ok leftCloned →
    right.cloneBase base visit.fragment visit.source = .ok rightCloned →
    R leftCloned rightCloned
  /-- An entry is filed in the same way in both tables, or refused for the same reason. -/
  filing : ∀ {left right : StyleTable} (entry : Entry), R left right →
    left.filing visit.path entry = right.filing visit.path entry
  /-- Filing an entry keeps the relation. -/
  file : ∀ {left right : StyleTable} {entry : Entry} {filing : Filing}, R left right →
    left.filing visit.path entry = .ok filing →
    R (left.file visit.path entry filing) (right.file visit.path entry filing)

/-- Both works have ended with the same failure or with none, on related tables. -/
structure Progress.Related (R : StyleTable → StyleTable → Prop) (left right : Progress) :
    Prop where
  failure : left.failure = right.failure
  table : R left.table right.table

variable {R : StyleTable → StyleTable → Prop} {left right : StyleTable} {visit : Visit}

/-- What a placement asks for is refused on both tables for one reason, or prepared on both. -/
theorem PlacingLaw.prepare_cases (law : PlacingLaw R visit) (h : R left right)
    {placement : Placement} (hplacement : visit.placement = .ok placement) :
    (∃ error, left.prepare visit placement = .error error ∧
      right.prepare visit placement = .error error) ∨
    ∃ leftPrepared rightPrepared, left.prepare visit placement = .ok leftPrepared ∧
      right.prepare visit placement = .ok rightPrepared ∧ R leftPrepared rightPrepared := by
  unfold StyleTable.prepare
  cases hcopied : placement.base with
  | none => exact Or.inr ⟨left, right, rfl, rfl, h⟩
  | some base =>
    have hcopies := (Visit.copies_iff hplacement).2 hcopied
    have hsame := law.contains_base h hcopies
    cases hfiled : left.contains (Path.root base) with
    | false =>
      refine Or.inl ⟨⟨.unknownBaseClass (Path.root base).render, visit.source⟩, ?_, ?_⟩
      · simp only [StyleTable.cloneBase, hfiled, Bool.false_eq_true, if_false]
      · simp only [StyleTable.cloneBase, ← hsame, hfiled, Bool.false_eq_true, if_false]
    | true =>
      have hleft : left.cloneBase base visit.fragment visit.source =
          .ok ((left.clonesOf base visit.fragment).foldl StyleTable.addNew left) :=
        StyleTable.cloneBase_eq_ok_iff.2 ⟨hfiled, rfl⟩
      have hright : right.cloneBase base visit.fragment visit.source =
          .ok ((right.clonesOf base visit.fragment).foldl StyleTable.addNew right) :=
        StyleTable.cloneBase_eq_ok_iff.2 ⟨hsame ▸ hfiled, rfl⟩
      exact Or.inr ⟨_, _, hleft, hright, law.clone h hcopies hleft hright⟩

/-- Placing a visit takes related tables to related ones, with the same failure or with none. -/
theorem PlacingLaw.place (law : PlacingLaw R visit) (h : R left right) :
    Progress.Related R (left.place visit) (right.place visit) := by
  unfold StyleTable.place
  cases hplacement : visit.placement with
  | error error => exact ⟨rfl, h⟩
  | ok placement =>
    rcases law.prepare_cases h hplacement with
      ⟨error, hleft, hright⟩ | ⟨leftPrepared, rightPrepared, hleft, hright, hprepared⟩
    · simp only [hleft, hright]
      exact ⟨rfl, h⟩
    · simp only [hleft, hright, StyleTable.register]
      cases readBlock visit.path visit.element visit.declarations visit.source with
      | error error => exact ⟨rfl, hprepared⟩
      | ok block =>
        have hsame := law.filing ⟨block, placement.range, visit.source⟩ hprepared
        cases hfiling : leftPrepared.filing visit.path ⟨block, placement.range, visit.source⟩ with
        | error error =>
          simp only [bind, Except.bind, ← hsame, hfiling]
          exact ⟨rfl, hprepared⟩
        | ok filing =>
          simp only [bind, Except.bind, ← hsame, hfiling]
          exact ⟨rfl, law.file hprepared hfiling⟩

namespace Progress

variable {left right : Progress}

/-- Works that are related stay so when a visit is placed in both. -/
theorem Related.step (law : PlacingLaw R visit) (h : Related R left right) :
    Related R (left.step visit) (right.step visit) := by
  unfold Progress.step
  rw [← h.failure]
  cases left.failure with
  | some error => exact h
  | none => exact law.place h.table

/-- What placing each of the nodes does alike, a run over them does alike. -/
theorem Related.run {visits : List Visit} (law : ∀ visit ∈ visits, PlacingLaw R visit)
    (h : Related R left right) : Related R (left.run visits) (right.run visits) := by
  induction visits generalizing left right with
  | nil => exact h
  | cons visit rest ih =>
    exact ih (fun other hmem => law other (List.mem_cons_of_mem visit hmem))
      (h.step (law visit List.mem_cons_self))

end Progress

end StyleForest
