-- Why a description gives no automaton. Its fields are checked one after the other
-- and the first one with unmatched brackets is named. After that the initial state
-- decides: none and several are errors, and one state gives an automaton.
import Stepwise.Proofs.Rewriting
import Stepwise.Proofs.WellNested

namespace Stepwise.Description

open Text

variable {d : Description} {kind : Kind}

/-! ## The check of the brackets -/

/-- The brackets of a field match. -/
def NestedField (d : Description) (field : Field) : Prop :=
  WellNested (brackets (d.get field).toList)

def Nested (d : Description) : Prop := ∀ field, d.NestedField field

/-- The first field, in the order of the checks, whose brackets do not match. -/
def FirstUnnested (d : Description) (field : Field) : Prop :=
  ∃ before after,
    [.states, .alphabet, .initialState, .acceptingStates, .transitions] = before ++ field :: after ∧
      (∀ earlier ∈ before, d.NestedField earlier) ∧ ¬d.NestedField field

theorem mem_all (field : Field) : field ∈ Field.all := by
  cases field <;> decide

theorem unbalancedField_eq_some_iff {field : Field} :
    d.unbalancedField = some field ↔ d.FirstUnnested field := by
  unfold unbalancedField FirstUnnested NestedField Field.all
  rw [List.find?_eq_some_iff_append]
  simp only [← balanced_iff_wellNested, Bool.not_eq_true', Bool.not_eq_true, Bool.not_not]
  constructor
  · rintro ⟨hfield, before, after, hall, hbefore⟩
    exact ⟨before, after, hall, hbefore, hfield⟩
  · rintro ⟨before, after, hall, hbefore, hfield⟩
    exact ⟨hfield, before, after, hall, hbefore⟩

theorem unbalancedField_eq_none_iff : d.unbalancedField = none ↔ d.Nested := by
  unfold unbalancedField Nested NestedField
  rw [List.find?_eq_none]
  simp only [← balanced_iff_wellNested, Bool.not_eq_true', Bool.not_eq_false]
  exact ⟨fun h field => h field (mem_all field), fun h field _ => h field⟩

/-- If not all brackets match, some field is the first. -/
theorem exists_firstUnnested_iff : (∃ field, d.FirstUnnested field) ↔ ¬d.Nested := by
  rw [← unbalancedField_eq_none_iff, ← ne_eq, Option.ne_none_iff_exists']
  exact exists_congr fun field => unbalancedField_eq_some_iff.symm

/-! ## The initial state -/

/-- What is made of the list of initial states, once all brackets match. -/
def outcome (d : Description) (kind : Kind) : List String → Except Error Decoded
  | [] => .error .missingInitialState
  | [initial] => .ok (d.decodeFrom kind initial.toList)
  | found => .error (.ambiguousInitialState found)

theorem outcome_eq_missing_iff {found : List String} :
    d.outcome kind found = .error .missingInitialState ↔ found = [] := by
  match found with
  | [] => simp [outcome]
  | [initial] => simp [outcome]
  | first :: second :: more => simp [outcome]

theorem outcome_eq_ambiguous_iff {found listed : List String} :
    d.outcome kind found = .error (.ambiguousInitialState listed) ↔
      found = listed ∧ 2 ≤ found.length := by
  match found with
  | [] => simp [outcome]
  | [initial] => simp [outcome]
  | first :: second :: more => simp [outcome]

theorem outcome_eq_ok_iff {found : List String} {r : Decoded} :
    d.outcome kind found = .ok r ↔
      ∃ initial, found = [initial] ∧ r = d.decodeFrom kind initial.toList := by
  match found with
  | [] => simp [outcome]
  | [initial] => simp [outcome, eq_comm]
  | first :: second :: more => simp [outcome]

/-! ## The whole decoding -/

theorem decode_of_unbalanced {field : Field} (h : d.unbalancedField = some field) :
    d.decode kind = .error (.unbalancedBraces field) := by
  unfold decode
  rw [h]

theorem decode_of_nested (h : d.Nested) :
    d.decode kind = d.outcome kind (parseList d.initialState) := by
  rw [← unbalancedField_eq_none_iff] at h
  unfold decode parseList
  rw [h]
  match listItems d.initialState.toList with
  | [] => rfl
  | [single] =>
    show _ = Except.ok (d.decodeFrom kind (String.ofList single).toList)
    rw [String.toList_ofList]
  | first :: second :: more => rfl

/-- A field with unmatched brackets is named if it is the first one. -/
theorem decode_eq_unbalanced_iff {field : Field} :
    d.decode kind = .error (.unbalancedBraces field) ↔ d.FirstUnnested field := by
  rw [← unbalancedField_eq_some_iff]
  cases hfield : d.unbalancedField with
  | some first => simp [decode_of_unbalanced hfield]
  | none =>
    rw [decode_of_nested (unbalancedField_eq_none_iff.mp hfield)]
    match parseList d.initialState with
    | [] => simp [outcome]
    | [initial] => simp [outcome]
    | first :: second :: more => simp [outcome]

/-- Any other result says that all brackets match, and comes from the list of
initial states. -/
theorem decode_eq_iff {result : Except Error Decoded}
    (hresult : ∀ field, result ≠ .error (.unbalancedBraces field)) :
    d.decode kind = result ↔ d.Nested ∧ d.outcome kind (parseList d.initialState) = result := by
  by_cases hnested : d.Nested
  · rw [decode_of_nested hnested, and_iff_right hnested]
  · obtain ⟨field, hfirst⟩ := exists_firstUnnested_iff.mpr hnested
    rw [decode_eq_unbalanced_iff.mpr hfirst]
    exact iff_of_false (hresult field).symm fun h => hnested h.1

/-- The check of the brackets is right about every text. A description names its
first field with unmatched brackets; if there is none, it has an automaton exactly
if its list of initial states has one element, and else tells which are there. -/
theorem decoding_fails_only_for_brackets_and_initial_states (d : Description) (kind : Kind) :
    (∀ text : List Char, balanced text = true ↔ WellNested (brackets text)) ∧
    (∀ field, d.decode kind = .error (.unbalancedBraces field) ↔ d.FirstUnnested field) ∧
    ((∃ field, d.FirstUnnested field) ↔ ¬d.Nested) ∧
    (d.decode kind = .error .missingInitialState ↔
      d.Nested ∧ parseList d.initialState = []) ∧
    (∀ found, d.decode kind = .error (.ambiguousInitialState found) ↔
      d.Nested ∧ parseList d.initialState = found ∧ 2 ≤ found.length) ∧
    ∀ r, d.decode kind = .ok r ↔ d.Nested ∧
      ∃ initial, parseList d.initialState = [initial] ∧ r = d.decodeFrom kind initial.toList := by
  refine ⟨balanced_iff_wellNested, fun field => decode_eq_unbalanced_iff, exists_firstUnnested_iff,
    ?_, fun found => ?_, fun r => ?_⟩
  · rw [decode_eq_iff (by simp), outcome_eq_missing_iff]
  · rw [decode_eq_iff (by simp), outcome_eq_ambiguous_iff]
    exact and_congr_right fun _ => and_congr_right fun h => by rw [h]
  · rw [decode_eq_iff (by simp), outcome_eq_ok_iff]

end Stepwise.Description
