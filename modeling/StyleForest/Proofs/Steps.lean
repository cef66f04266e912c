import Mathlib.Data.List.Forall2

/-!
# Steps that may fail

A step gives a result or an error, and an error ends what it is part of. Steps in a row succeed
exactly when each of them does, and fail with the error of the first one that fails.
-/

namespace StyleForest

variable {ε α β : Type}

/-- A step after another succeeds exactly when both do. -/
theorem bind_eq_ok_iff {first : Except ε α} {next : α → Except ε β} {b : β} :
    first >>= next = .ok b ↔ ∃ a, first = .ok a ∧ next a = .ok b := by
  cases first with
  | error error => simp [bind, Except.bind]
  | ok a => simp [bind, Except.bind]

/-- A step after another fails exactly when one of them does. -/
theorem bind_eq_error_iff {first : Except ε α} {next : α → Except ε β} {e : ε} :
    first >>= next = .error e ↔ first = .error e ∨ ∃ a, first = .ok a ∧ next a = .error e := by
  cases first with
  | error error => simp [bind, Except.bind]
  | ok a => simp [bind, Except.bind]

/-- What is made of a result leaves the errors. -/
theorem map_eq_ok_iff {result : Except ε α} {change : α → β} {b : β} :
    result.map change = .ok b ↔ ∃ a, result = .ok a ∧ change a = b := by
  cases result with
  | error error => simp [Except.map]
  | ok a => simp [Except.map]

/-- A mapped result that is an error was that error before. -/
theorem map_eq_error_iff {result : Except ε α} {change : α → β} {e : ε} :
    result.map change = .error e ↔ result = .error e := by
  cases result with
  | error error => simp [Except.map]
  | ok a => simp [Except.map]

/-- Another wording of a failure does not make it a success. -/
theorem mapError_eq_ok_iff {δ : Type} {wording : ε → δ} {result : Except ε α} {a : α} :
    result.mapError wording = .ok a ↔ result = .ok a := by
  cases result with
  | error error => simp [Except.mapError]
  | ok value => simp [Except.mapError]

/-- A step is taken with every item of a list exactly when it can be taken with each of them. -/
theorem mapM_eq_ok_iff {step : α → Except ε β} {items : List α} {results : List β} :
    items.mapM step = .ok results ↔ items.Forall₂ (fun a b => step a = .ok b) results := by
  induction items generalizing results with
  | nil => simp [pure, Except.pure, eq_comm]
  | cons a rest ih =>
    simp only [List.mapM_cons, bind_eq_ok_iff, ih, List.forall₂_cons_left_iff]
    constructor
    · rintro ⟨b, hstep, later, hlater, ⟨⟩⟩
      exact ⟨b, later, hstep, hlater, rfl⟩
    · rintro ⟨b, later, hstep, hlater, rfl⟩
      exact ⟨b, hstep, later, hlater, rfl⟩

/-- Items with which a step gives nothing can be left out. -/
theorem mapM_filter_bind {γ : Type} {step : α → Except ε (Option β)} {kept : α → Bool}
    {items : List α} (h : ∀ item ∈ items, kept item = false → step item = .ok none)
    (next : List β → Except ε γ) :
    ((items.filter kept).mapM step >>= fun results => next (results.filterMap id)) =
      (items.mapM step >>= fun results => next (results.filterMap id)) := by
  have hcons (result : Option β) (results : List (Option β)) :
      (result :: results).filterMap id = result.toList ++ results.filterMap id := by
    cases result <;> rfl
  induction items generalizing next with
  | nil => rfl
  | cons item rest ih =>
    obtain ⟨hitem, hrest⟩ := List.forall_mem_cons.1 h
    rw [List.filter_cons, List.mapM_cons]
    cases hkept : kept item with
    | true =>
      simp only [if_true, List.mapM_cons, bind_assoc, pure_bind, hcons]
      exact bind_congr fun result => ih hrest fun results => next (result.toList ++ results)
    | false =>
      have hnone : step item = pure none := hitem hkept
      simp only [Bool.false_eq_true, if_false, hnone, bind_assoc, pure_bind, hcons,
        Option.toList_none, List.nil_append]
      exact ih hrest next

/-- A fold fails exactly when the steps before some item succeed and the item fails. -/
theorem foldlM_eq_error_iff {step : β → α → Except ε β} {items : List α} {start : β} {error : ε} :
    items.foldlM step start = .error error ↔
      ∃ before item after reached, items = before ++ item :: after ∧
        before.foldlM step start = .ok reached ∧ step reached item = .error error := by
  constructor
  · intro h
    induction items generalizing start with
    | nil => cases h
    | cons item rest ih =>
      rw [List.foldlM_cons, bind_eq_error_iff] at h
      rcases h with hfails | ⟨reached, hstep, hrest⟩
      · exact ⟨[], item, rest, start, rfl, rfl, hfails⟩
      · obtain ⟨before, failing, after, last, rfl, hbefore, hfails⟩ := ih hrest
        refine ⟨item :: before, failing, after, last, rfl, ?_, hfails⟩
        rw [List.foldlM_cons, bind_eq_ok_iff]
        exact ⟨reached, hstep, hbefore⟩
  · rintro ⟨before, item, after, reached, rfl, hbefore, hfails⟩
    rw [List.foldlM_append, bind_eq_error_iff]
    refine Or.inr ⟨reached, hbefore, ?_⟩
    rw [List.foldlM_cons, bind_eq_error_iff]
    exact Or.inl hfails

/-- The first item decides what is found, or else the items behind it. -/
theorem findSome?_cons_eq_or (find : α → Option β) (item : α) (rest : List α) :
    (item :: rest).findSome? find = (find item).or (rest.findSome? find) := by
  rw [List.findSome?_cons]
  cases find item with
  | none => rfl
  | some b => rfl

/-- What is found first among the parts of items is found in the first item that has it. -/
theorem findSome?_flatMap {γ : Type} (find : β → Option γ) (parts : α → List β) (items : List α) :
    (items.flatMap parts).findSome? find = items.findSome? fun item =>
      (parts item).findSome? find := by
  induction items with
  | nil => rfl
  | cons item rest ih =>
    rw [List.flatMap_cons, List.findSome?_append, ih, findSome?_cons_eq_or]

/-- The error of a step that fails. -/
def failure? : Except ε α → Option ε
  | .error e => some e
  | .ok _ => none

/-- A result fails with the error that is its failure. -/
theorem failure?_eq_some_iff {result : Except ε α} {e : ε} :
    failure? result = some e ↔ result = .error e := by
  cases result with
  | error error => simp [failure?]
  | ok a => simp [failure?]

/-- A result without a failure is a success. -/
theorem failure?_eq_none_iff {result : Except ε α} :
    failure? result = none ↔ ∃ a, result = .ok a := by
  cases result with
  | error error => simp [failure?]
  | ok a => simp [failure?]

/-- A step after another fails with the error of the first one, or else with that of the second. -/
theorem failure?_bind {first : Except ε α} {next : α → Except ε β} {later : Option ε}
    (h : ∀ a, failure? (next a) = later) :
    failure? (first >>= next) = (failure? first).or later := by
  cases first with
  | error error => rfl
  | ok a => exact h a

/-- What is made of a result does not fail. -/
theorem failure?_bind_pure (first : Except ε α) (change : α → β) :
    failure? (do return change (← first)) = failure? first := by
  cases first with
  | error error => rfl
  | ok a => rfl

/-- A run over items fails as the first item does that fails. -/
theorem failure?_mapM (step : α → Except ε β) (items : List α) :
    failure? (items.mapM step) = items.findSome? fun item => failure? (step item) := by
  induction items with
  | nil => rfl
  | cons item rest ih =>
    rw [List.mapM_cons, failure?_bind fun b => failure?_bind_pure (rest.mapM step) (b :: ·), ih,
      findSome?_cons_eq_or]

end StyleForest
