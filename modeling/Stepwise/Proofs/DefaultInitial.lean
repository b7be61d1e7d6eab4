-- The initial state of an automaton that is given by its parts. If it is left out,
-- the first element of the list of states is put in its place as text. Read again,
-- this text is one element and balanced, so it names the first state.
import Stepwise.CommandLine.Execution
import Stepwise.Proofs.BalancedParts
import Stepwise.Proofs.DecodingErrors

namespace Stepwise

open Text Description

/-! ## The first element of a list -/

theorem Description.first?_stateSet (text : String) :
    (stateSet text).first? =
      (parseList text).head?.map fun token => String.ofList (stateName token.toList) := by
  unfold stateSet
  rw [OrderedSet.first?_ofList, ← map_toList_parseList, List.map_map, List.head?_map]
  rfl

/-- The first element, taken for a list, is that list of one. -/
theorem Text.parseList_headD (text : String) :
    parseList ((parseList text).headD "") = (parseList text).take 1 := by
  have htokens := tokenList_parseList text
  cases hlist : parseList text with
  | nil => rfl
  | cons first more =>
    rw [hlist] at htokens
    exact parseList_eq_iff.mpr htokens.openToken.listItems_eq

theorem Text.balanced_headD {text : String} (h : balanced text.toList = true) :
    balanced ((parseList text).headD "").toList = true := by
  cases hlist : parseList text with
  | nil => rfl
  | cons first more =>
    apply balanced_of_mem_listItems h
    rw [← map_toList_parseList, hlist]
    exact List.mem_cons_self

/-! ## Loading without an initial state -/

namespace CommandLine.Definition

/-- The options give the parts of an automaton but no initial state, and what they
name can be read. -/
structure OmitsInitial (d : Definition) (sources : Sources) (kind : Kind)
    (states transitions : String) : Prop where
  builtin_eq : d.builtin = none
  initial_eq : d.initial = none
  kind_eq : d.kindOf = .ok kind
  states_eq : d.states = some states
  read_eq : ∃ path, d.transitions = some path ∧ sources.read path = .ok transitions

namespace OmitsInitial

variable {d : Definition} {sources : Sources} {kind : Kind} {states transitions : String}
  (h : d.OmitsInitial sources kind states transitions)

include h

theorem load_eq :
    d.load sources = ((d.describe states transitions).decode kind).mapError .description := by
  obtain ⟨path, hpath, hread⟩ := h.read_eq
  unfold load loadParts
  simp only [h.kind_eq, h.builtin_eq, h.states_eq, hpath, hread]
  cases (d.describe states transitions).decode kind <;> rfl

theorem initialState_eq :
    (d.describe states transitions).initialState = (parseList states).headD "" := by
  simp [describe, h.initial_eq]

/-- The brackets of the initial state match if those of the states do, and the
states are checked first. -/
theorem field_ne {field : Field} (hfirst : (d.describe states transitions).FirstUnnested field) :
    field ≠ .initialState := by
  rintro rfl
  obtain ⟨before, after, hall, hbefore, hnot⟩ := hfirst
  have hstates : Field.states ∈ before := by
    cases before with
    | nil => cases hall
    | cons first more =>
      rw [← (List.cons.inj hall).1]
      exact List.mem_cons_self
  have hbalanced := (balanced_iff_wellNested _).mpr (hbefore _ hstates)
  apply hnot
  show WellNested (brackets (d.describe states transitions).initialState.toList)
  rw [h.initialState_eq]
  exact (balanced_iff_wellNested _).mp (balanced_headD hbalanced)

theorem decode_eq (hnested : (d.describe states transitions).Nested) :
    (d.describe states transitions).decode kind =
      (d.describe states transitions).outcome kind ((parseList states).take 1) := by
  rw [decode_of_nested hnested, h.initialState_eq, parseList_headD]

end OmitsInitial

/-- Where no initial state is given, the first state is the initial one. Without it
the automaton is missing its initial state, which needs a list without any state, or
a field has unmatched brackets, but not that of the initial state. There are never
several initial states. -/
theorem the_first_state_is_the_default {d : Definition} {sources : Sources} {kind : Kind}
    {states transitions : String} (h : d.OmitsInitial sources kind states transitions) :
    ((∃ field, field ≠ .initialState ∧ (d.describe states transitions).FirstUnnested field ∧
        d.load sources = .error (.description (.unbalancedBraces field))) ∨
      (parseList states = [] ∧ d.load sources = .error (.description .missingInitialState)) ∨
      ∃ r, d.load sources = .ok r ∧ r.automaton.states.first? = some r.automaton.initial) ∧
    ∀ found, d.load sources ≠ .error (.description (.ambiguousInitialState found)) := by
  rw [h.load_eq]
  by_cases hnested : (d.describe states transitions).Nested
  · rw [h.decode_eq hnested]
    cases hlist : parseList states with
    | nil => exact ⟨.inr (.inl ⟨rfl, rfl⟩), fun found hfound => by cases hfound⟩
    | cons first more =>
      refine ⟨.inr (.inr ⟨_, rfl, ?_⟩), fun found hfound => by cases hfound⟩
      show (stateSet states).first? = some (String.ofList (stateName first.toList))
      rw [first?_stateSet, hlist]
      rfl
  · obtain ⟨field, hfirst⟩ := exists_firstUnnested_iff.mpr hnested
    rw [decode_eq_unbalanced_iff.mpr hfirst]
    exact ⟨.inl ⟨field, h.field_ne hfirst, hfirst, rfl⟩, fun found hfound => by cases hfound⟩

/-- A subset for the first state, and no initial state. -/
def subsetFirst : Definition where
  builtin := none
  kind := none
  states := some "qfrozenset(\x7b0, 1\x7d), q2"
  alphabet := none
  initial := none
  accepting := none
  transitions := some stdinName

/-- One line on the standard input, and no files. -/
def oneLine : Sources := ⟨"qfrozenset(\x7b0, 1\x7d),0 -> q2", fun _ => .error .missing⟩

example : (stateSet "qfrozenset(\x7b0, 1\x7d), q2").first? = some "q_0_1" := by decide

theorem subsetFirst_starts_in_its_subset :
    subsetFirst.OmitsInitial oneLine .dfa "qfrozenset(\x7b0, 1\x7d), q2" oneLine.stdin ∧
    ∃ r, subsetFirst.load oneLine = .ok r ∧
      r.automaton.states.first? = some r.automaton.initial := by
  have homits : subsetFirst.OmitsInitial oneLine .dfa
      "qfrozenset(\x7b0, 1\x7d), q2" oneLine.stdin :=
    ⟨rfl, rfl, by decide, rfl, stdinName, rfl, rfl⟩
  refine ⟨homits, ?_⟩
  obtain ⟨⟨field, -, ⟨-, -, -, -, hnot⟩, -⟩ | ⟨hnone, -⟩ | hloaded, -⟩ :=
    the_first_state_is_the_default homits
  · refine absurd ?_ hnot
    unfold NestedField
    cases field <;> decide
  · exact absurd hnone (by decide)
  · exact hloaded

end CommandLine.Definition

end Stepwise
