import Mathlib.Algebra.Order.Field.Rat
import Mathlib.Data.Rat.Cast.Order
import StyleForest.Proofs.LastValues
import StyleForest.Proofs.Loading

/-!
# Attributes from pairs

Pairs of a name and a value are taken when each of them by itself is acceptable and what the last
pair of each name gives passes the check of the attributes; numbers are met as the rational numbers
they stand for. Otherwise the first pair that is not acceptable is the fault, or else what the check
finds, and the last source of the whole list locates it (`Attributes.ofPairs_outcome`). What is
taken does not depend on the order of pairs whose names are different.
-/

namespace StyleForest

/-! ## Numbers -/

namespace Binary64

/-- The number that a value stands for, if it stands for one. -/
def toRat? : Binary64 → Option ℚ
  | .finite negative significand exponent =>
    some ((if negative then -1 else 1) * significand * 2 ^ exponent)
  | _ => none

/-- A fraction of a power of two is a natural number when the division leaves nothing. -/
theorem div_two_pow_eq_iff {m k n : Nat} :
    (m : ℚ) * 2 ^ (-(k : ℤ)) = n ↔ m % Nat.pow 2 k = 0 ∧ m / Nat.pow 2 k = n := by
  have hpower : (2 : ℚ) ^ k ≠ 0 := pow_ne_zero k two_ne_zero
  have hpositive : 0 < Nat.pow 2 k := Nat.pow_pos two_pos
  rw [zpow_neg, zpow_natCast, ← div_eq_mul_inv, div_eq_iff hpower]
  norm_cast
  constructor
  · rintro rfl
    exact ⟨Nat.mul_mod_left n _, Nat.mul_div_left n hpositive⟩
  · rintro ⟨hrest, rfl⟩
    exact (Nat.div_mul_cancel (Nat.dvd_of_mod_eq_zero hrest)).symm

/-- A value is taken for a natural number when it is that number. -/
theorem toNat?_eq_some_iff {value : Binary64} {n : Nat} :
    value.toNat? = some n ↔ value.toRat? = some (n : ℚ) := by
  cases value with
  | nan => simp [toNat?, toRat?]
  | infinite => simp [toNat?, toRat?]
  | finite negative significand exponent =>
    rw [toNat?, toRat?, Option.some.injEq]
    split
    · next hzero => simp [hzero, eq_comm]
    · next hzero =>
      cases negative with
      | true =>
        have hsignificand : (0 : ℚ) < significand := Nat.cast_pos.2 (Nat.pos_of_ne_zero hzero)
        have hpower : (0 : ℚ) < 2 ^ exponent := zpow_pos two_pos exponent
        have hbelow : (-1 : ℚ) * significand * 2 ^ exponent < n :=
          calc (-1 : ℚ) * significand * 2 ^ exponent
              = -(significand * 2 ^ exponent) := by rw [mul_assoc, neg_one_mul]
            _ < 0 := neg_lt_zero.2 (mul_pos hsignificand hpower)
            _ ≤ n := Nat.cast_nonneg n
        simp only [if_true, reduceCtorEq, hbelow.ne]
      | false =>
        simp only [Bool.false_eq_true, if_false, one_mul]
        split
        · next hwhole =>
          obtain ⟨k, rfl⟩ := Int.eq_ofNat_of_zero_le hwhole
          simp only [Int.toNat_natCast, zpow_natCast, Option.some.injEq]
          norm_cast
        · next hfraction =>
          obtain ⟨k, hk⟩ : ∃ k : Nat, exponent = -(k : ℤ) := ⟨(-exponent).toNat, by omega⟩
          simp only [hk, neg_neg, Int.toNat_natCast, div_two_pow_eq_iff,
            Option.ite_none_right_eq_some, Option.some.injEq]

end Binary64

namespace Attributes

/-- A number is read as a width when it is that whole number exactly. -/
theorem pixels?_eq_some_iff {value : Binary64} {width : UInt32} :
    pixels? value = some width ↔ value.toRat? = some (width.toNat : ℚ) := by
  rw [← Binary64.toNat?_eq_some_iff]
  unfold pixels?
  cases value.toNat? with
  | none => simp
  | some n =>
    simp only [Option.ite_none_right_eq_some, Option.some.injEq]
    constructor
    · rintro ⟨hn, rfl⟩
      rw [UInt32.toNat_ofNat_of_lt' hn]
    · rintro rfl
      exact ⟨width.toNat_lt, UInt32.ofNat_toNat⟩

/-! ## Pairs -/

/-- The attribute of a name takes values of a type. -/
inductive Takes : String → AttributeValue → Prop
  | className (text : String) : Takes "className" (.text text)
  | pseudo (text : String) : Takes "pseudoSelector" (.text text)
  | minWidth (number : Binary64) : Takes "minWidth" (.number number)
  | maxWidth (number : Binary64) : Takes "maxWidth" (.number number)
  | source (location : Location) : Takes "__source" (.source location)

/-- The number is a whole number of 32 bits. -/
def IsWidth (number : Binary64) : Prop :=
  ∃ n : Nat, n ≤ 4294967295 ∧ number.toRat? = some (n : ℚ)

/-- The pair has a name that is allowed and a value of its type, which is a width if it is a
number. -/
structure Acceptable (pair : String × AttributeValue) : Prop where
  takes : Takes pair.1 pair.2
  width : ∀ number, pair.2 = .number number → IsWidth number

/-- What is wrong with a pair. -/
inductive PairFault : String × AttributeValue → Fault → Prop
  | unknown {name : String} {value : AttributeValue} : name ∉ allowedAttributes →
      PairFault (name, value) (.invalidAttribute name allowedAttributes)
  | wrongType {name : String} {value : AttributeValue} :
      name ∈ allowedAttributes → ¬Takes name value →
      PairFault (name, value) (.invalidAttributeValue name s!"cannot be {value.typeName}")
  | noWidth {name : String} {number : Binary64} :
      Takes name (.number number) → ¬IsWidth number →
      PairFault (name, .number number) (.invalidAttributeValue name
        s!"must be a whole number of pixels, got {number.render plainNumber}")

/-- The attributes after an acceptable pair. -/
def assign (attributes : Attributes) : String × AttributeValue → Attributes
  | ("className", .text text) => { attributes with className := text }
  | ("pseudoSelector", .text text) => { attributes with pseudo := withColon text }
  | ("minWidth", .number number) => { attributes with minWidth := pixels? number }
  | ("maxWidth", .number number) => { attributes with maxWidth := pixels? number }
  | _ => attributes

variable {attributes : Attributes} {name : String} {value : AttributeValue}

private theorem isWidth_iff_isSome_pixels? {number : Binary64} :
    IsWidth number ↔ ∃ width, pixels? number = some width := by
  simp only [pixels?_eq_some_iff, IsWidth]
  constructor
  · rintro ⟨n, hn, hnumber⟩
    refine ⟨UInt32.ofNat n, ?_⟩
    rw [UInt32.toNat_ofNat_of_lt' (Nat.lt_succ_of_le hn), hnumber]
  · rintro ⟨width, hnumber⟩
    exact ⟨width.toNat, Nat.le_of_lt_succ width.toNat_lt, hnumber⟩

/-- An acceptable pair is set by assigning it. -/
theorem set_of_acceptable (h : Acceptable (name, value)) :
    attributes.set name value = .ok (attributes.assign (name, value)) := by
  obtain ⟨htakes, hwidth⟩ := h
  cases htakes with
  | className => rfl
  | pseudo => rfl
  | minWidth number =>
    obtain ⟨width, hpixels⟩ := isWidth_iff_isSome_pixels?.1 (hwidth number rfl)
    simp only [set, readPixels, hpixels, assign]
    rfl
  | maxWidth number =>
    obtain ⟨width, hpixels⟩ := isWidth_iff_isSome_pixels?.1 (hwidth number rfl)
    simp only [set, readPixels, hpixels, assign]
    rfl
  | source => rfl

private theorem mem_allowedAttributes_of_takes (h : Takes name value) :
    name ∈ allowedAttributes := by
  cases h <;> decide

/-- A faulty pair is refused with its fault, at the source of the attributes. -/
theorem set_of_pairFault {fault : Fault} (h : PairFault (name, value) fault) :
    attributes.set name value = .error ⟨fault, attributes.source⟩ := by
  have hdefault (hnot : ¬Takes name value) : attributes.set name value =
      if allowedAttributes.contains name then
        .error (attributes.invalidValue name s!"cannot be {value.typeName}")
      else .error ⟨.invalidAttribute name allowedAttributes, attributes.source⟩ := by
    unfold set
    split
    · exact absurd (.className _) hnot
    · exact absurd (.pseudo _) hnot
    · exact absurd (.minWidth _) hnot
    · exact absurd (.maxWidth _) hnot
    · exact absurd (.source _) hnot
    · rfl
  cases h with
  | unknown hname =>
    rw [hdefault fun htakes => hname (mem_allowedAttributes_of_takes htakes), if_neg]
    rwa [List.contains_iff_mem]
  | wrongType hname hnot =>
    rw [hdefault hnot, if_pos (List.contains_iff_mem.2 hname)]
    rfl
  | @noWidth _ number htakes hnot =>
    have hpixels : pixels? number = none := by
      rw [Option.eq_none_iff_forall_ne_some]
      exact fun width hwidth => hnot (isWidth_iff_isSome_pixels?.2 ⟨width, hwidth⟩)
    cases htakes with
    | minWidth =>
      simp only [set, readPixels, hpixels]
      rfl
    | maxWidth =>
      simp only [set, readPixels, hpixels]
      rfl

/-- Every pair is acceptable or has a fault. -/
theorem acceptable_or_pairFault (pair : String × AttributeValue) :
    Acceptable pair ∨ ∃ fault, PairFault pair fault := by
  obtain ⟨name, value⟩ := pair
  by_cases hname : name ∈ allowedAttributes
  · by_cases htakes : Takes name value
    · by_cases hwidth : ∀ number, value = .number number → IsWidth number
      · exact Or.inl ⟨htakes, hwidth⟩
      · simp only [not_forall] at hwidth
        obtain ⟨number, rfl, hnot⟩ := hwidth
        exact Or.inr ⟨_, .noWidth htakes hnot⟩
    · exact Or.inr ⟨_, .wrongType hname htakes⟩
  · exact Or.inr ⟨_, .unknown hname⟩

/-- The acceptable pairs are the ones that can be set, and setting assigns them. -/
theorem set_eq_ok_iff {changed : Attributes} :
    attributes.set name value = .ok changed ↔
      Acceptable (name, value) ∧ changed = attributes.assign (name, value) := by
  constructor
  · intro h
    rcases acceptable_or_pairFault (name, value) with hacceptable | ⟨fault, hfault⟩
    · rw [set_of_acceptable hacceptable] at h
      exact ⟨hacceptable, (Except.ok.inj h).symm⟩
    · rw [set_of_pairFault hfault] at h
      cases h
  · rintro ⟨hacceptable, rfl⟩
    exact set_of_acceptable hacceptable

/-- The faulty pairs are the ones that cannot be set. -/
theorem set_eq_error_iff {error : StyleError} :
    attributes.set name value = .error error ↔
      PairFault (name, value) error.fault ∧ error.location = attributes.source := by
  constructor
  · intro h
    rcases acceptable_or_pairFault (name, value) with hacceptable | ⟨fault, hfault⟩
    · rw [set_of_acceptable hacceptable] at h
      cases h
    · rw [set_of_pairFault hfault] at h
      cases h
      exact ⟨hfault, rfl⟩
  · rintro ⟨hfault, hlocation⟩
    rw [set_of_pairFault hfault, ← hlocation]

/-! ## Lists of pairs -/

/-- The attributes have the values of the last pairs of their names; the source is left open. -/
structure ScopeOfLast (pairs : List (String × AttributeValue)) (attributes : Attributes) :
    Prop where
  className : ∀ text, attributes.className = some text ↔
    lastValue? pairs "className" = some (.text text)
  minWidth : ∀ width : UInt32, attributes.minWidth = some width ↔
    ∃ number, lastValue? pairs "minWidth" = some (.number number) ∧
      number.toRat? = some (width.toNat : ℚ)
  maxWidth : ∀ width : UInt32, attributes.maxWidth = some width ↔
    ∃ number, lastValue? pairs "maxWidth" = some (.number number) ∧
      number.toRat? = some (width.toNat : ℚ)
  pseudo : ∀ suffix, attributes.pseudo = some suffix ↔
    ∃ text, lastValue? pairs "pseudoSelector" = some (.text text) ∧ suffix = withColon text

/-- The attributes have the values of the last pairs of their names. -/
structure LastOfEach (pairs : List (String × AttributeValue)) (attributes : Attributes) : Prop
    extends ScopeOfLast pairs attributes where
  source : ∀ location, attributes.source = some location ↔
    lastValue? pairs "__source" = some (.source location)

/-- The location of a pair that is a source. -/
def writtenAt? : String × AttributeValue → Option Location
  | ("__source", .source location) => some location
  | _ => none

variable {pairs : List (String × AttributeValue)}

/-- The last pairs determine the attributes. -/
theorem LastOfEach.eq {other : Attributes} (h : LastOfEach pairs attributes)
    (hother : LastOfEach pairs other) : attributes = other := by
  obtain ⟨className, minWidth, maxWidth, pseudo, source⟩ := attributes
  obtain ⟨className', minWidth', maxWidth', pseudo', source'⟩ := other
  rw [mk.injEq]
  exact ⟨Option.ext fun _ => (h.className _).trans (hother.className _).symm,
    Option.ext fun _ => (h.minWidth _).trans (hother.minWidth _).symm,
    Option.ext fun _ => (h.maxWidth _).trans (hother.maxWidth _).symm,
    Option.ext fun _ => (h.pseudo _).trans (hother.pseudo _).symm,
    Option.ext fun _ => (h.source _).trans (hother.source _).symm⟩

/-- An acceptable pair after others is the last one of its name. -/
theorem ScopeOfLast.concat {pair : String × AttributeValue} (h : ScopeOfLast pairs attributes)
    (hpair : Acceptable pair) : ScopeOfLast (pairs ++ [pair]) (attributes.assign pair) := by
  obtain ⟨name, value⟩ := pair
  obtain ⟨htakes, -⟩ := hpair
  obtain ⟨hclass, hmin, hmax, hpseudo⟩ := h
  cases htakes with
  | className => constructor <;> simp [lastValue?_concat, assign, *]
  | pseudo => constructor <;> simp [lastValue?_concat, assign, eq_comm, *]
  | minWidth => constructor <;> simp [lastValue?_concat, assign, pixels?_eq_some_iff, *]
  | maxWidth => constructor <;> simp [lastValue?_concat, assign, pixels?_eq_some_iff, *]
  | source => constructor <;> simp [lastValue?_concat, assign, *]

/-- Acceptable pairs give the values of the last of each name, whatever the source is. -/
theorem scopeOfLast_foldl_assign (h : ∀ pair ∈ pairs, Acceptable pair) (source : Option Location) :
    ScopeOfLast pairs (pairs.foldl assign { source }) := by
  induction pairs using List.reverseRecOn with
  | nil => constructor <;> simp [lastValue?]
  | append_singleton pairs pair ih =>
    obtain ⟨hpairs, hpair⟩ := List.forall_mem_append.1 h
    rw [List.foldl_append]
    exact (ih hpairs).concat (hpair pair (List.mem_singleton_self pair))

private theorem source_assign (attributes : Attributes) (pair : String × AttributeValue) :
    (attributes.assign pair).source = attributes.source := by
  unfold assign
  split <;> rfl

/-- Assigning pairs leaves the source as it was. -/
theorem source_foldl_assign (pairs : List (String × AttributeValue)) (attributes : Attributes) :
    (pairs.foldl assign attributes).source = attributes.source := by
  induction pairs generalizing attributes with
  | nil => rfl
  | cons pair rest ih => rw [List.foldl_cons, ih, source_assign]

/-- Pairs are taken one after the other when each of them is acceptable. -/
theorem foldlM_set_eq_ok_iff {start result : Attributes} :
    pairs.foldlM (fun attributes (name, value) => attributes.set name value) start = .ok result ↔
      (∀ pair ∈ pairs, Acceptable pair) ∧ result = pairs.foldl assign start := by
  induction pairs generalizing start with
  | nil => simp [pure, Except.pure, eq_comm]
  | cons pair rest ih =>
    simp only [List.foldlM_cons, bind_eq_ok_iff, set_eq_ok_iff, ih, List.forall_mem_cons,
      List.foldl_cons]
    constructor
    · rintro ⟨_, ⟨hpair, rfl⟩, hrest, rfl⟩
      exact ⟨⟨hpair, hrest⟩, rfl⟩
    · rintro ⟨⟨hpair, hrest⟩, rfl⟩
      exact ⟨_, ⟨hpair, rfl⟩, hrest, rfl⟩

/-- The first pair that is not acceptable decides the fault. -/
theorem foldlM_set_eq_error_iff {start : Attributes} {error : StyleError} :
    pairs.foldlM (fun attributes (name, value) => attributes.set name value) start =
        .error error ↔
      (∃ before pair after, pairs = before ++ pair :: after ∧
        (∀ earlier ∈ before, Acceptable earlier) ∧ PairFault pair error.fault) ∧
        error.location = start.source := by
  simp only [foldlM_eq_error_iff, foldlM_set_eq_ok_iff, set_eq_error_iff]
  constructor
  · rintro ⟨before, pair, after, _, hpairs, ⟨hbefore, rfl⟩, hfault, hlocation⟩
    exact ⟨⟨before, pair, after, hpairs, hbefore, hfault⟩,
      hlocation.trans (source_foldl_assign before start)⟩
  · rintro ⟨⟨before, pair, after, hpairs, hbefore, hfault⟩, hlocation⟩
    exact ⟨before, pair, after, _, hpairs, ⟨hbefore, rfl⟩, hfault,
      hlocation.trans (source_foldl_assign before start).symm⟩

/-- The last source is the one of the last pair, if that has one. -/
theorem lastSource?_concat (pairs : List (String × AttributeValue))
    (pair : String × AttributeValue) :
    lastSource? (pairs ++ [pair]) = (writtenAt? pair).or (lastSource? pairs) := by
  rw [lastSource?, List.foldl_append, List.foldl_cons, List.foldl_nil]
  fun_cases writtenAt? pair with
  | case1 => rfl
  | case2 _ hother =>
    split
    · next location => exact absurd rfl (hother location)
    · rfl

/-- The last source is that of the last pair that is one. -/
theorem lastSource?_eq_getLast? (pairs : List (String × AttributeValue)) :
    lastSource? pairs = (pairs.filterMap writtenAt?).getLast? := by
  induction pairs using List.reverseRecOn with
  | nil => rfl
  | append_singleton pairs pair ih =>
    rw [lastSource?_concat, ih, List.filterMap_append, List.getLast?_append]
    cases h : writtenAt? pair <;> simp [h]

/-- Among acceptable pairs the last source is the value of the last pair of its name. -/
theorem lastSource?_eq_some_iff (h : ∀ pair ∈ pairs, Acceptable pair) {location : Location} :
    lastSource? pairs = some location ↔
      lastValue? pairs "__source" = some (.source location) := by
  induction pairs using List.reverseRecOn with
  | nil => simp [lastSource?, lastValue?]
  | append_singleton pairs pair ih =>
    obtain ⟨hpairs, hpair⟩ := List.forall_mem_append.1 h
    obtain ⟨name, value⟩ := pair
    obtain ⟨htakes, -⟩ := hpair (name, value) (List.mem_singleton_self _)
    rw [lastSource?_concat, lastValue?_concat]
    cases htakes <;> simp [writtenAt?, ih hpairs]

/-- Acceptable pairs are taken for the attributes that the last pair of each name gives. -/
theorem foldlM_set_eq_ok_iff_lastOfEach {result : Attributes} :
    pairs.foldlM (fun attributes (name, value) => attributes.set name value)
        ({ source := lastSource? pairs } : Attributes) = .ok result ↔
      (∀ pair ∈ pairs, Acceptable pair) ∧ LastOfEach pairs result := by
  rw [foldlM_set_eq_ok_iff]
  refine and_congr_right fun h => ?_
  have hlast : LastOfEach pairs (pairs.foldl assign { source := lastSource? pairs }) :=
    { scopeOfLast_foldl_assign h (lastSource? pairs) with
      source := fun location => by rw [source_foldl_assign, lastSource?_eq_some_iff h] }
  constructor
  · rintro rfl
    exact hlast
  · exact fun hresult => hresult.eq hlast

/-! ## The check of the attributes -/

/-- A suffix names nothing when blanks are all there is behind the colons it starts with. -/
def NamesNothing (suffix : String) : Prop :=
  ∃ colons blanks, suffix.toList = colons ++ blanks ∧ (∀ c ∈ colons, c = ':') ∧
    ∀ c ∈ blanks, Text.isBlank c = true

/-- What the check finds wrong with attributes: a pseudo suffix that names nothing, or else a range
whose ends are the wrong way round. -/
inductive Invalid (attributes : Attributes) : Fault → Prop
  | emptyPseudo {suffix : String} : attributes.pseudo = some suffix → NamesNothing suffix →
      Invalid attributes (.invalidAttributeValue "pseudoSelector" s!"`{suffix}` is empty")
  | inverted {min max : UInt32} :
      (∀ suffix, attributes.pseudo = some suffix → ¬NamesNothing suffix) →
      attributes.minWidth = some min → attributes.maxWidth = some max → max < min →
      Invalid attributes (.invalidAttributeValue "minWidth"
        s!"({min}) must not exceed maxWidth ({max})")

/-- A suffix names nothing exactly when only colons and blanks are in it. -/
theorem namesPseudo_eq_false_iff {suffix : String} :
    namesPseudo suffix = false ↔ NamesNothing suffix := by
  rw [namesPseudo, Bool.not_eq_false', List.all_eq_true]
  constructor
  · intro hblank
    refine ⟨_, _, (List.takeWhile_append_dropWhile (p := (· = ':'))).symm, fun c hc => ?_, hblank⟩
    simpa using List.all_eq_true.1 List.all_takeWhile c hc
  · rintro ⟨colons, blanks, hsuffix, hcolons, hblanks⟩ c hc
    have hcolon : ∀ c ∈ colons, decide (c = ':') = true := by simpa using hcolons
    rw [hsuffix, List.dropWhile_append_of_pos hcolon] at hc
    exact hblanks c ((List.dropWhile_suffix _).mem hc)

private theorem filter_pseudo_eq_some_iff {suffix : String} :
    (attributes.pseudo.filter fun suffix => !namesPseudo suffix) = some suffix ↔
      attributes.pseudo = some suffix ∧ NamesNothing suffix := by
  simp [Option.filter_eq_some_iff, namesPseudo_eq_false_iff]

/-- Invalid attributes are refused with their fault, at their source. -/
theorem validate_of_invalid {fault : Fault} (h : Invalid attributes fault) :
    attributes.validate = .error ⟨fault, attributes.source⟩ := by
  cases h with
  | emptyPseudo hpseudo hnothing =>
    simp only [validate, filter_pseudo_eq_some_iff.2 ⟨hpseudo, hnothing⟩]
    rfl
  | inverted hnames hmin hmax hlt =>
    have hnone : (attributes.pseudo.filter fun suffix => !namesPseudo suffix) = none := by
      rw [Option.eq_none_iff_forall_ne_some]
      intro suffix hsuffix
      obtain ⟨hpseudo, hnothing⟩ := filter_pseudo_eq_some_iff.1 hsuffix
      exact hnames suffix hpseudo hnothing
    simp only [validate, hnone, hmin, hmax, if_pos hlt]
    rfl

/-- Attributes pass the check or are invalid. -/
theorem validate_eq_ok_or_invalid (attributes : Attributes) :
    attributes.validate = .ok () ∨ ∃ fault, Invalid attributes fault := by
  unfold validate
  dsimp only
  split
  · next hsuffix =>
    obtain ⟨hpseudo, hnothing⟩ := filter_pseudo_eq_some_iff.1 hsuffix
    exact Or.inr ⟨_, .emptyPseudo hpseudo hnothing⟩
  · next min max hnone hmin hmax =>
    split
    · next hlt =>
      have hnames (suffix : String) (hpseudo : attributes.pseudo = some suffix) :
          ¬NamesNothing suffix := by
        intro hnothing
        rw [filter_pseudo_eq_some_iff.2 ⟨hpseudo, hnothing⟩] at hnone
        cases hnone
      exact Or.inr ⟨_, .inverted hnames hmin hmax hlt⟩
    · exact Or.inl rfl
  · exact Or.inl rfl

/-- The check fails for the invalid attributes, with their fault. -/
theorem validate_eq_error_iff {error : StyleError} :
    attributes.validate = .error error ↔
      Invalid attributes error.fault ∧ error.location = attributes.source := by
  constructor
  · intro h
    rcases validate_eq_ok_or_invalid attributes with hvalid | ⟨fault, hfault⟩
    · rw [hvalid] at h
      cases h
    · rw [validate_of_invalid hfault] at h
      cases h
      exact ⟨hfault, rfl⟩
  · rintro ⟨hfault, hlocation⟩
    rw [validate_of_invalid hfault, ← hlocation]

/-! ## Attributes from pairs -/

/-- Pairs are read when each is acceptable and the attributes that the last of each name give pass
the check. -/
theorem ofPairs_eq_ok_iff :
    ofPairs pairs = .ok attributes ↔
      (∀ pair ∈ pairs, Acceptable pair) ∧ LastOfEach pairs attributes ∧
        attributes.validate = .ok () := by
  simp only [ofPairs, bind_eq_ok_iff, foldlM_set_eq_ok_iff_lastOfEach]
  constructor
  · rintro ⟨_, ⟨hpairs, hlast⟩, ⟨⟩, hvalid, ⟨⟩⟩
    exact ⟨hpairs, hlast, hvalid⟩
  · rintro ⟨hpairs, hlast, hvalid⟩
    exact ⟨attributes, ⟨hpairs, hlast⟩, (), hvalid, rfl⟩

/-- What is wrong with a list of pairs: the first of them that is not acceptable, or else what the
check finds wrong with the attributes that the last pair of each name gives. -/
inductive ListFault (pairs : List (String × AttributeValue)) : Fault → Prop
  | pair {before after : List (String × AttributeValue)} {pair : String × AttributeValue}
      {fault : Fault} : pairs = before ++ pair :: after →
      (∀ earlier ∈ before, Acceptable earlier) → PairFault pair fault → ListFault pairs fault
  | check {attributes : Attributes} {fault : Fault} : (∀ pair ∈ pairs, Acceptable pair) →
      LastOfEach pairs attributes → Invalid attributes fault → ListFault pairs fault

/-- The source of the attributes is the last one among the pairs. -/
theorem LastOfEach.source_eq (hpairs : ∀ pair ∈ pairs, Acceptable pair)
    (h : LastOfEach pairs attributes) : attributes.source = lastSource? pairs :=
  Option.ext fun location => (h.source location).trans (lastSource?_eq_some_iff hpairs).symm

/-- Pairs that cannot be read have a fault, which is reported at the last source among them. -/
theorem ofPairs_eq_error_iff {error : StyleError} :
    ofPairs pairs = .error error ↔
      ListFault pairs error.fault ∧ error.location = (pairs.filterMap writtenAt?).getLast? := by
  simp only [ofPairs, bind_eq_error_iff, foldlM_set_eq_error_iff, foldlM_set_eq_ok_iff_lastOfEach,
    validate_eq_error_iff, ← lastSource?_eq_getLast?]
  constructor
  · rintro (⟨⟨before, pair, after, hpairs, hbefore, hfault⟩, hlocation⟩ |
      ⟨attributes, ⟨hpairs, hlast⟩, ⟨hinvalid, hlocation⟩ | ⟨⟨⟩, -, ⟨⟩⟩⟩)
    · exact ⟨.pair hpairs hbefore hfault, hlocation⟩
    · exact ⟨.check hpairs hlast hinvalid, hlocation.trans (hlast.source_eq hpairs)⟩
  · rintro ⟨hfault, hlocation⟩
    cases hfault with
    | pair hpairs hbefore hfault => exact Or.inl ⟨⟨_, _, _, hpairs, hbefore, hfault⟩, hlocation⟩
    | check hpairs hlast hinvalid =>
      exact Or.inr ⟨_, ⟨hpairs, hlast⟩,
        Or.inl ⟨hinvalid, hlocation.trans (hlast.source_eq hpairs).symm⟩⟩

/-- When no name repeats, the last pairs are the same in any order. -/
theorem lastOfEach_perm {other : List (String × AttributeValue)} (hperm : pairs.Perm other)
    (h : (pairs.map Prod.fst).Nodup) :
    LastOfEach other attributes ↔ LastOfEach pairs attributes := by
  have hlast := lastValue?_perm hperm h
  constructor
  · rintro ⟨⟨hclass, hmin, hmax, hpseudo⟩, hsource⟩
    simp only [hlast] at hclass hmin hmax hpseudo hsource
    exact ⟨⟨hclass, hmin, hmax, hpseudo⟩, hsource⟩
  · rintro ⟨⟨hclass, hmin, hmax, hpseudo⟩, hsource⟩
    simp only [← hlast] at hclass hmin hmax hpseudo hsource
    exact ⟨⟨hclass, hmin, hmax, hpseudo⟩, hsource⟩

/-- Pairs are taken when each of them is acceptable and the attributes that the last pair of each
name gives pass their check; the result is these attributes. Otherwise the first pair that is not
acceptable is the fault, or else what the check finds, located at the last source of the list. The
order of pairs with different names does not matter for what is taken. -/
theorem ofPairs_outcome (pairs : List (String × AttributeValue)) :
    (∀ attributes, ofPairs pairs = .ok attributes ↔
      (∀ pair ∈ pairs, Acceptable pair) ∧ LastOfEach pairs attributes ∧
        attributes.validate = .ok ()) ∧
    (∀ error, ofPairs pairs = .error error ↔
      ListFault pairs error.fault ∧ error.location = (pairs.filterMap writtenAt?).getLast?) ∧
    ∀ other, pairs.Perm other → (pairs.map Prod.fst).Nodup →
      ∀ attributes, ofPairs other = .ok attributes ↔ ofPairs pairs = .ok attributes := by
  refine ⟨fun attributes => ofPairs_eq_ok_iff, fun error => ofPairs_eq_error_iff, ?_⟩
  intro other hperm hnodup attributes
  simp only [ofPairs_eq_ok_iff, lastOfEach_perm hperm hnodup, hperm.mem_iff]

/-- A range from negative zero is taken in two orders, and a name that is not allowed is refused
with the source behind it. -/
theorem ofPairs_range_from_zero :
    let card : List (String × AttributeValue) := [("minWidth", .number (.zero true)),
      ("__source", .source ⟨"a.json", 3, 1⟩), ("maxWidth", .number (.ofNat 600))]
    let named : List (String × AttributeValue) := [("maxWidth", .number (.ofNat 600)),
      ("id", .text "intro"), ("minWidth", .number .nan), ("__source", .source ⟨"a.json", 3, 1⟩)]
    (card.Perm card.reverse ∧ (card.map Prod.fst).Nodup ∧
      ofPairs card.reverse = .ok
        { minWidth := some 0, maxWidth := some 600, source := some ⟨"a.json", 3, 1⟩ }) ∧
    ofPairs named = .error ⟨.invalidAttribute "id" allowedAttributes, some ⟨"a.json", 3, 1⟩⟩ := by
  intro card named
  have hperm : card.Perm card.reverse := (List.reverse_perm card).symm
  have hnodup : (card.map Prod.fst).Nodup := by decide
  refine ⟨⟨hperm, hnodup, ?_⟩, ?_⟩
  · exact ((ofPairs_outcome card).2.2 card.reverse hperm hnodup _).2 (by decide)
  · have hwide : Acceptable ("maxWidth", .number (.ofNat 600)) := by
      refine ⟨.maxWidth _, ?_⟩
      rintro _ ⟨⟩
      exact ⟨600, by decide, Binary64.toNat?_eq_some_iff.1 (by decide)⟩
    have hnamed : named = [("maxWidth", .number (.ofNat 600))] ++ ("id", .text "intro") :: _ := rfl
    exact ((ofPairs_outcome named).2.1 _).2
      ⟨.pair hnamed (by simpa using hwide) (.unknown (by decide)), rfl⟩

end Attributes

end StyleForest
