import StyleForest.Declaration.Basic
import StyleForest.Declaration.Error
import StyleForest.Property

/-!
# Declaration blocks

A block holds declarations in order. Pushing a declaration refuses a property that is
declared already and a shorthand that would reset an earlier longhand; folding in another
block replaces values by exact name and keeps what was replaced. Look-up ignores letter
case.
-/

namespace StyleForest

/-- The declarations of one block, in order. -/
structure Block where
  declarations : List Declaration
  deriving DecidableEq, Repr

namespace Block

/-- The block without declarations. -/
def empty : Block := ⟨[]⟩

/-- The number of declarations. -/
def size (block : Block) : Nat :=
  block.declarations.length

/-- The block holds no declaration. -/
def isEmpty (block : Block) : Bool :=
  block.declarations.isEmpty

/-- The names of the properties, in order. -/
def properties (block : Block) : List String :=
  block.declarations.map Declaration.property

/-- The first declaration of a property, ignoring letter case. -/
def get? (block : Block) (property : String) : Option Declaration :=
  block.declarations.find? fun declaration => Text.sameName declaration.property property

/-- The block declares a property, ignoring letter case. -/
def contains (block : Block) (property : String) : Bool :=
  (block.get? property).isSome

/-- Appends a declaration, unless its property is declared already or it is a shorthand of a
longhand that is. -/
def push (block : Block) (declaration : Declaration) : Except BlockError Block :=
  if block.contains declaration.property then
    .error (.duplicate declaration.property)
  else
    match (Property.longhands declaration.property).find? block.contains with
    | some longhand => .error (.overridden longhand declaration.property)
    | none => .ok ⟨block.declarations ++ [declaration]⟩

/-- Sets the value of the first declaration with exactly this name, or appends the incoming
declaration as it is. -/
def absorb (incoming : Declaration) : List Declaration → List Declaration
  | [] => [incoming]
  | declaration :: rest =>
    if declaration.property = incoming.property then
      declaration.replaceValue incoming.value :: rest
    else
      declaration :: absorb incoming rest

/-- Folds another block into this one, declaration by declaration; its values win. -/
def merge (block other : Block) : Block :=
  ⟨other.declarations.foldl (fun declarations incoming => absorb incoming declarations)
    block.declarations⟩

/-- A block on one line. -/
def render (block : Block) : String :=
  " ".intercalate (block.declarations.map Declaration.render)

/-- A push succeeds when neither the property nor a longhand of it is declared, and appends
exactly the declaration. -/
theorem push_eq_ok_iff {block pushed : Block} {declaration : Declaration} :
    block.push declaration = .ok pushed ↔
      block.contains declaration.property = false ∧
        (∀ longhand ∈ Property.longhands declaration.property, block.contains longhand = false) ∧
        pushed = ⟨block.declarations ++ [declaration]⟩ := by
  unfold push
  cases hown : block.contains declaration.property with
  | true => simp
  | false =>
    cases hreset : (Property.longhands declaration.property).find? block.contains with
    | none =>
      have hfree := List.find?_eq_none.1 hreset
      simp only [Bool.not_eq_true] at hfree
      simp only [Bool.false_eq_true, if_false, Except.ok.injEq, true_and, eq_comm (a := pushed)]
      exact (and_iff_right hfree).symm
    | some longhand =>
      have hmem := List.mem_of_find?_eq_some hreset
      have hcontains := List.find?_some hreset
      simp only [Bool.false_eq_true, if_false, reduceCtorEq, true_and, false_iff]
      rintro ⟨hfree, _⟩
      exact absurd (hfree longhand hmem) (by simp [hcontains])

/-- A successful push appends the name of the declaration. -/
theorem properties_of_push {block pushed : Block} {declaration : Declaration}
    (h : block.push declaration = .ok pushed) :
    pushed.properties = block.properties ++ [declaration.property] := by
  obtain ⟨_, _, rfl⟩ := push_eq_ok_iff.1 h
  exact List.map_append

/-- Absorbing a declaration puts its property at the end, unless the name is there already. -/
theorem properties_absorb (incoming : Declaration) (declarations : List Declaration) :
    (absorb incoming declarations).map Declaration.property =
      if incoming.property ∈ declarations.map Declaration.property then
        declarations.map Declaration.property
      else
        declarations.map Declaration.property ++ [incoming.property] := by
  induction declarations with
  | nil => simp [absorb]
  | cons declaration rest ih =>
    unfold absorb
    by_cases h : declaration.property = incoming.property
    · simp [h, Declaration.replaceValue]
    · rw [if_neg h, List.map_cons, ih]
      by_cases hmem : incoming.property ∈ rest.map Declaration.property
      · simp [hmem]
      · simp [hmem, Ne.symm h]

/-- A merged block has the properties of the block in their order, and then those that only the
other one declares, each once. -/
theorem properties_merge (block other : Block) :
    (block.merge other).properties =
      block.properties ++ (other.properties.removeAll block.properties).eraseDups := by
  obtain ⟨own⟩ := block
  obtain ⟨incoming⟩ := other
  simp only [properties, merge]
  induction incoming generalizing own with
  | nil => simp [List.removeAll]
  | cons first rest ih =>
    rw [List.foldl_cons, ih, properties_absorb, List.map_cons, List.cons_removeAll]
    by_cases hmem : first.property ∈ own.map Declaration.property
    · rw [if_pos hmem, if_neg (by simpa using hmem)]
    · have hrest : (rest.map Declaration.property).removeAll
          (own.map Declaration.property ++ [first.property]) =
            ((rest.map Declaration.property).removeAll (own.map Declaration.property)).filter
              fun name => !name == first.property := by
        rw [List.removeAll, List.removeAll, List.filter_filter]
        refine List.filter_congr fun name _ => ?_
        by_cases hname : name = first.property
        · simp [hname]
        · simp [hname, beq_eq_false_iff_ne.2 hname]
      rw [if_neg hmem, if_pos (by simpa using hmem), List.eraseDups_cons, hrest,
        List.append_assoc, List.singleton_append]

/-- The properties of a merged block are those of the two blocks. -/
theorem mem_properties_merge {block other : Block} {property : String} :
    property ∈ (block.merge other).properties ↔
      property ∈ block.properties ∨ property ∈ other.properties := by
  rw [properties_merge, List.mem_append, List.mem_eraseDups, List.removeAll, List.mem_filter]
  by_cases hmem : property ∈ block.properties
  · simp [hmem]
  · simp [hmem]

end Block

end StyleForest
