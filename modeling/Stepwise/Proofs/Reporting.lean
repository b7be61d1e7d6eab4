-- Validation against the problems there are. Each check lists those at its own
-- places, a loop lists those of its turns, and put together they are the whole
-- report. An empty one says that every name is declared, and of a DFA more.
import Mathlib.Data.List.Induction
import Stepwise.Proofs.Problems

namespace Stepwise

namespace Automaton

variable {a : Automaton}

/-! ## The checks -/

/-- A loop over names that should be among the states. -/
theorem listsAt_undefined {place : Nat → Place} {report : StateName → Diagnostic}
    (hlt : ∀ i j, i < j → (place i).Before (place j)) (qs : List StateName)
    (h : ∀ (i : Nat) q, qs[i]? = some q →
      ∀ d, a.Problem (place i) d ↔ q ∉ a.states ∧ d = report q) :
    a.ListsAt (fun p => ∃ i < qs.length, p = place i)
      ((qs.filter fun q => decide (q ∉ a.states)).map report) := by
  apply ListsAt.loop (fun qs => (qs.filter fun q => decide (q ∉ a.states)).map report)
    fun _ q => if q ∉ a.states then [report q] else []
  · rfl
  · intro qs q
    rw [List.filter_append, List.map_append, List.filter_singleton]
    congr 1
    by_cases hq : q ∈ a.states <;> simp [hq]
  · rintro i j hij p q rfl rfl
    exact hlt i j hij
  · intro i q hq
    exact listsAt_check (h i q hq)

theorem listsAt_initial : a.ListsAt (· = .initial) a.initialProblems := by
  unfold initialProblems
  rw [← ite_not]
  apply listsAt_check
  intro d
  refine ⟨?_, ?_⟩
  · intro h
    cases h with
    | initial hstate => exact ⟨hstate, rfl⟩
  · rintro ⟨hstate, rfl⟩
    exact .initial hstate

theorem listsAt_accepting :
    a.ListsAt (fun p => ∃ i < a.accepting.size, p = .accepting i) a.acceptingProblems := by
  apply listsAt_undefined
  · intro i j hij
    simp [List.cons_lt_cons_iff, hij]
  · intro i q hq d
    refine ⟨?_, ?_⟩
    · intro h
      cases h with
      | accepting hq' hstate =>
        cases hq.symm.trans hq'
        exact ⟨hstate, rfl⟩
    · rintro ⟨hstate, rfl⟩
      exact .accepting hq hstate

section Entries

variable {i : Nat} {e : Entry} (he : a.table.entries[i]? = some e)

include he

theorem listsAt_source : a.ListsAt (· = .source i)
    (if e.key.source ∈ a.states then [] else [.undefinedSource e.key.source]) := by
  rw [← ite_not]
  apply listsAt_check
  intro d
  refine ⟨?_, ?_⟩
  · intro h
    cases h with
    | source he' hstate =>
      cases he.symm.trans he'
      exact ⟨hstate, rfl⟩
  · rintro ⟨hstate, rfl⟩
    exact .source he hstate

theorem listsAt_symbol : a.ListsAt (· = .symbol i)
    (if e.key.symbol ∈ a.alphabet then [] else [.undefinedSymbol e.key.symbol]) := by
  rw [← ite_not]
  apply listsAt_check
  intro d
  refine ⟨?_, ?_⟩
  · intro h
    cases h with
    | symbol he' hsymbol =>
      cases he.symm.trans he'
      exact ⟨hsymbol, rfl⟩
  · rintro ⟨hsymbol, rfl⟩
    exact .symbol he hsymbol

theorem listsAt_target : a.ListsAt (fun p => ∃ j < e.targets.size, p = .target i j)
    ((e.targets.toList.filter fun q => decide (q ∉ a.states)).map .undefinedTarget) := by
  apply listsAt_undefined
  · intro j k hjk
    simp [List.cons_lt_cons_iff, hjk]
  · intro j q hq d
    refine ⟨?_, ?_⟩
    · intro h
      cases h with
      | target he' hq' hstate =>
        cases he.symm.trans he'
        cases hq.symm.trans hq'
        exact ⟨hstate, rfl⟩
    · rintro ⟨hstate, rfl⟩
      exact .target he hq hstate

theorem listsAt_duplicate (hk : a.kind = .dfa) : a.ListsAt (· = .duplicate i)
    (if e.key ∈ (a.table.entries.take i).map Entry.key then [.duplicateKey e.key] else []) := by
  apply listsAt_check
  intro d
  rw [List.mem_map]
  refine ⟨?_, ?_⟩
  · intro h
    cases h with
    | @duplicate j _ f _ _ hlt hf he' hkey =>
      cases he.symm.trans he'
      have htake : (a.table.entries.take i)[j]? = some f := by
        rw [List.getElem?_take, if_pos hlt, hf]
      exact ⟨⟨f, List.mem_of_getElem? htake, hkey⟩, rfl⟩
  · rintro ⟨⟨f, hf, hkey⟩, rfl⟩
    obtain ⟨j, hj⟩ := List.mem_iff_getElem?.mp hf
    rw [List.getElem?_take] at hj
    split at hj
    · exact .duplicate hk ‹_› hj he hkey
    · cases hj

theorem listsAt_targets (hk : a.kind = .dfa) : a.ListsAt (· = .targets i)
    (if e.targets.size > 1 then [.multipleTargets e.key] else []) := by
  apply listsAt_check
  intro d
  refine ⟨?_, ?_⟩
  · intro h
    cases h with
    | targets _ he' hsize =>
      cases he.symm.trans he'
      exact ⟨hsize, rfl⟩
  · rintro ⟨hsize, rfl⟩
    exact .targets hk he hsize

/-- The names of one entry: source, symbol and targets. -/
theorem listsAt_entry : a.ListsAt (fun p => p = .source i ∨ p = .symbol i ∨ ∃ j, p = .target i j)
    (a.entryProblems e) := by
  have hnames := (listsAt_source he).append (listsAt_symbol he) (by
    rintro p q rfl rfl
    simp [List.cons_lt_cons_iff])
  apply (hnames.append (listsAt_target he) ?_).congr
  · intro p d hd
    rw [or_assoc]
    refine or_congr Iff.rfl (or_congr Iff.rfl ⟨?_, ?_⟩)
    · rintro ⟨j, _, rfl⟩
      exact ⟨j, rfl⟩
    · rintro ⟨j, rfl⟩
      cases hd with
      | target he' hq _ =>
        cases he.symm.trans he'
        exact ⟨j, (List.getElem?_eq_some_iff.mp hq).1, rfl⟩
  · rintro p q (rfl | rfl) ⟨j, _, rfl⟩ <;>
      simp [List.cons_lt_cons_iff]

theorem listsAt_determinism (hk : a.kind = .dfa) :
    a.ListsAt (fun p => p = .duplicate i ∨ p = .targets i)
      ((if e.key ∈ (a.table.entries.take i).map Entry.key then [.duplicateKey e.key] else [])
        ++ if e.targets.size > 1 then [.multipleTargets e.key] else []) := by
  apply (listsAt_duplicate he hk).append (listsAt_targets he hk)
  rintro p q rfl rfl
  simp [List.cons_lt_cons_iff]

end Entries

theorem listsAt_entries : a.ListsAt
    (fun p => ∃ i < a.table.entries.length, p = .source i ∨ p = .symbol i ∨ ∃ j, p = .target i j)
    (a.table.entries.flatMap a.entryProblems) := by
  apply ListsAt.loop (fun es => es.flatMap a.entryProblems) fun _ e => a.entryProblems e
  · rfl
  · intro es e
    rw [List.flatMap_append, List.flatMap_singleton]
  · rintro i j hij p q (rfl | rfl | ⟨_, rfl⟩) (rfl | rfl | ⟨_, rfl⟩) <;>
      simp [List.cons_lt_cons_iff, hij]
  · intro i e he
    exact listsAt_entry he

/-- The last entry is read with the keys of all entries before it. -/
theorem determinismProblems_concat (seen : List Key) (es : List Entry) (e : Entry) :
    determinismProblems seen (es ++ [e]) = determinismProblems seen es
      ++ ((if e.key ∈ seen ∨ e.key ∈ es.map Entry.key then [.duplicateKey e.key] else [])
        ++ if e.targets.size > 1 then [.multipleTargets e.key] else []) := by
  induction es generalizing seen with
  | nil => simp [determinismProblems]
  | cons f es ih =>
    have hseen : e.key ∈ f.key :: seen ∨ e.key ∈ es.map Entry.key ↔
        e.key ∈ seen ∨ e.key ∈ (f :: es).map Entry.key := by
      rw [List.mem_cons, List.map_cons, List.mem_cons, or_assoc, or_left_comm]
    rw [List.cons_append, determinismProblems, ih, determinismProblems]
    simp only [hseen, List.append_assoc]

theorem listsAt_determinismProblems (hk : a.kind = .dfa) : a.ListsAt
    (fun p => ∃ i < a.table.entries.length, p = .duplicate i ∨ p = .targets i)
    (determinismProblems [] a.table.entries) := by
  apply ListsAt.loop (determinismProblems []) fun es e =>
    (if e.key ∈ es.map Entry.key then [.duplicateKey e.key] else [])
      ++ if e.targets.size > 1 then [.multipleTargets e.key] else []
  · rfl
  · intro es e
    simpa using determinismProblems_concat [] es e
  · rintro i j hij p q (rfl | rfl) (rfl | rfl) <;>
      simp [List.cons_lt_cons_iff, hij]
  · intro i e he
    exact listsAt_determinism he hk

theorem listsAt_completeness (hk : a.kind = .dfa) :
    a.ListsAt (· = .missing) a.completenessProblems := by
  have hlist : a.completenessProblems =
      if a.missingKeys ≠ [] then [.incomplete a.missingKeys] else [] := by
    unfold completenessProblems
    simp
  rw [hlist]
  apply listsAt_check
  intro d
  refine ⟨?_, ?_⟩
  · intro h
    cases h with
    | missing _ hne hlacks =>
      rw [← hlacks.eq_missingKeys]
      exact ⟨hne, rfl⟩
  · rintro ⟨hne, rfl⟩
    exact .missing hk hne a.lacks_missingKeys

/-! ## The whole report -/

/-- What is checked for both kinds. -/
def nameProblems (a : Automaton) : List Diagnostic :=
  a.initialProblems ++ a.acceptingProblems ++ a.table.entries.flatMap a.entryProblems

theorem validate_nfa (hk : a.kind = .nfa) : a.validate = a.nameProblems := by
  unfold validate
  rw [hk, List.append_nil]
  rfl

theorem validate_dfa (hk : a.kind = .dfa) : a.validate =
    a.nameProblems ++ (determinismProblems [] a.table.entries ++ a.completenessProblems) := by
  unfold validate
  rw [hk]
  rfl

theorem listsAt_names : a.ListsAt (·.dfaOnly = false) a.nameProblems := by
  unfold nameProblems
  have hstates := listsAt_initial.append (listsAt_accepting (a := a)) (by
    rintro p q rfl ⟨i, _, rfl⟩
    simp [List.cons_lt_cons_iff])
  apply (hstates.append listsAt_entries ?_).congr
  · intro p d hd
    have hlt : ∀ {i : Nat} {e : Entry}, a.table.entries[i]? = some e →
        i < a.table.entries.length := fun he => (List.getElem?_eq_some_iff.mp he).1
    cases hd with
    | @accepting i q hq _ =>
      have hi : i < a.accepting.size := (List.getElem?_eq_some_iff.mp hq).1
      simpa using hi
    | source he _ => simpa using hlt he
    | symbol he _ => simpa using hlt he
    | target he _ _ => simpa using hlt he
    | _ => simp
  · rintro p q (rfl | ⟨_, _, rfl⟩) ⟨_, _, rfl | rfl | ⟨_, rfl⟩⟩ <;>
      simp [List.cons_lt_cons_iff]

theorem listsAt_dfa (hk : a.kind = .dfa) : a.ListsAt (·.dfaOnly = true)
    (determinismProblems [] a.table.entries ++ a.completenessProblems) := by
  apply ((listsAt_determinismProblems hk).append (listsAt_completeness hk) ?_).congr
  · intro p d hd
    have hlt : ∀ {i : Nat} {e : Entry}, a.table.entries[i]? = some e →
        i < a.table.entries.length := fun he => (List.getElem?_eq_some_iff.mp he).1
    cases hd with
    | duplicate _ _ _ he _ => simpa using hlt he
    | targets _ he _ => simpa using hlt he
    | _ => simp
  · rintro p q ⟨_, _, rfl | rfl⟩ rfl <;> simp [List.cons_lt_cons_iff]

theorem listsAt_nfa (hk : a.kind = .nfa) : a.ListsAt (·.dfaOnly = true) [] := by
  apply listsAt_nil
  intro p d hp hd
  cases hd <;> simp_all

theorem reports_validate (a : Automaton) : a.Reports a.validate := by
  obtain ⟨rest, hvalidate, hrest⟩ : ∃ rest, a.validate = a.nameProblems ++ rest ∧
      a.ListsAt (·.dfaOnly = true) rest := by
    cases hk : a.kind with
    | dfa => exact ⟨_, validate_dfa hk, listsAt_dfa hk⟩
    | nfa => exact ⟨[], (validate_nfa hk).trans (List.append_nil _).symm, listsAt_nfa hk⟩
  obtain ⟨ps, hordered, hrel, hmem⟩ :=
    listsAt_names.append hrest fun _ _ => Place.before_of_dfaOnly
  refine ⟨ps, hordered, hvalidate ▸ hrel, fun p => (hmem p).trans (and_iff_right ?_)⟩
  exact Bool.eq_false_or_eq_true p.dfaOnly |>.symm

/-! ## An empty report -/

/-- Every name that the automaton mentions is declared. -/
structure Declared (a : Automaton) : Prop where
  initial : a.initial ∈ a.states
  accepting : ∀ q ∈ a.accepting, q ∈ a.states
  source : ∀ e ∈ a.table.entries, e.key.source ∈ a.states
  symbol : ∀ e ∈ a.table.entries, e.key.symbol ∈ a.alphabet
  target : ∀ e ∈ a.table.entries, ∀ q ∈ e.targets, q ∈ a.states

theorem validate_eq_nil_iff : a.validate = [] ↔ ∀ p d, ¬a.Problem p d := by
  obtain ⟨ps, _, hrel, hmem⟩ := reports_validate a
  have hnil : a.validate = [] ↔ ps = [] := by
    rw [← List.length_eq_zero_iff, ← hrel.length_eq, List.length_eq_zero_iff]
  rw [hnil, List.eq_nil_iff_forall_not_mem]
  simp only [hmem, not_exists]

/-- Something is reported exactly if it is a problem somewhere. -/
theorem mem_validate_iff {d : Diagnostic} : d ∈ a.validate ↔ ∃ p, a.Problem p d := by
  obtain ⟨ps, _, hrel, hmem⟩ := reports_validate a
  obtain ⟨hlength, hget⟩ := List.forall₂_iff_get.mp hrel
  constructor
  · intro hd
    obtain ⟨i, hi, rfl⟩ := List.mem_iff_getElem.mp hd
    exact ⟨_, hget i (hlength ▸ hi) hi⟩
  · rintro ⟨p, hp⟩
    obtain ⟨i, hi, rfl⟩ := List.mem_iff_getElem.mp ((hmem p).mpr ⟨d, hp⟩)
    rw [hp.unique (hget i hi (hlength ▸ hi))]
    exact List.getElem_mem _

/-- The symbol of an entry is reported exactly if it is not in the alphabet. -/
theorem undefinedSymbol_mem_validate_iff {s : Symbol} :
    .undefinedSymbol s ∈ a.validate ↔ s ∉ a.alphabet ∧ ∃ e ∈ a.table.entries, e.key.symbol = s := by
  rw [mem_validate_iff]
  constructor
  · rintro ⟨p, hp⟩
    cases hp with
    | symbol he hsymbol => exact ⟨hsymbol, _, List.mem_of_getElem? he, rfl⟩
  · rintro ⟨hsymbol, e, he, rfl⟩
    obtain ⟨i, hi⟩ := List.mem_iff_getElem?.mp he
    exact ⟨.symbol i, .symbol hi hsymbol⟩

theorem declared_iff : a.Declared ↔ ∀ p d, p.dfaOnly = false → ¬a.Problem p d := by
  refine ⟨?_, ?_⟩
  · intro h p d hp hd
    cases hd with
    | initial hq => exact hq h.initial
    | accepting hq hstate => exact hstate (h.accepting _ (List.mem_of_getElem? hq))
    | source he hstate => exact hstate (h.source _ (List.mem_of_getElem? he))
    | symbol he hsymbol => exact hsymbol (h.symbol _ (List.mem_of_getElem? he))
    | target he hq hstate =>
      exact hstate (h.target _ (List.mem_of_getElem? he) _ (List.mem_of_getElem? hq))
    | _ => cases hp
  · intro h
    refine ⟨?_, ?_, ?_, ?_, ?_⟩
    · by_contra hq
      exact h _ _ rfl (.initial hq)
    · intro q hq
      by_contra hstate
      obtain ⟨i, hi⟩ := List.mem_iff_getElem?.mp hq
      exact h _ _ rfl (.accepting hi hstate)
    · intro e he
      by_contra hstate
      obtain ⟨i, hi⟩ := List.mem_iff_getElem?.mp he
      exact h _ _ rfl (.source hi hstate)
    · intro e he
      by_contra hsymbol
      obtain ⟨i, hi⟩ := List.mem_iff_getElem?.mp he
      exact h _ _ rfl (.symbol hi hsymbol)
    · intro e he q hq
      by_contra hstate
      obtain ⟨i, hi⟩ := List.mem_iff_getElem?.mp he
      obtain ⟨j, hj⟩ := List.mem_iff_getElem?.mp hq
      exact h _ _ rfl (.target hi hj hstate)

theorem validate_nfa_eq_nil_iff (hk : a.kind = .nfa) : a.validate = [] ↔ a.Declared := by
  rw [validate_eq_nil_iff, declared_iff]
  refine ⟨fun h p d _ => h p d, fun h p d hd => ?_⟩
  cases hp : p.dfaOnly with
  | false => exact h p d hp hd
  | true => cases hd <;> simp_all

/-- Nothing is reported of a DFA if all names are declared and each key has one
entry with at most one target. -/
theorem validate_eq_nil_of_unique (hdeclared : a.Declared)
    (hkeys : (a.table.entries.map Entry.key).Nodup)
    (hone : ∀ e ∈ a.table.entries, e.targets.size ≤ 1)
    (hall : ∀ key : Key, key.source ∈ a.states → key.symbol ∈ a.alphabet →
      ∃ e ∈ a.table.entries, e.key = key) : a.validate = [] := by
  rw [validate_eq_nil_iff]
  intro p d hd
  have hnames := declared_iff.mp hdeclared p d
  cases hd with
  | @duplicate i j d e _ hij hd he hkey =>
    obtain ⟨hi, rfl⟩ := List.getElem?_eq_some_iff.mp hd
    obtain ⟨hj, rfl⟩ := List.getElem?_eq_some_iff.mp he
    rw [List.Nodup, List.pairwise_map, List.pairwise_iff_getElem] at hkeys
    exact hkeys i j hi hj hij hkey
  | targets _ he hsize =>
    have := hone _ (List.mem_of_getElem? he)
    omega
  | missing _ hne hlacks =>
    obtain ⟨key, hkey⟩ := List.exists_mem_of_ne_nil _ hne
    obtain ⟨hsource, hsymbol, hnone⟩ := (hlacks.mem_iff key).mp hkey
    obtain ⟨e, he, hekey⟩ := hall key hsource hsymbol
    exact hnone e he hekey
  | initial h => exact hnames rfl (.initial h)
  | accepting hq h => exact hnames rfl (.accepting hq h)
  | source he h => exact hnames rfl (.source he h)
  | symbol he h => exact hnames rfl (.symbol he h)
  | target he hq h => exact hnames rfl (.target he hq h)

/-- The checks for a DFA come after those for both kinds. -/
theorem validate_prefix_withKind (hk : a.kind = .nfa) :
    a.validate <+: (a.withKind .dfa).validate := by
  have hdfa : (a.withKind .dfa).kind = .dfa := rfl
  rw [validate_nfa hk, validate_dfa hdfa]
  exact List.prefix_append _ _

/-- Validation reports exactly the problems there are, in the order of their
places. For an NFA the report is empty if and only if all names are declared,
and reading an NFA as a DFA only adds to the end of the report. -/
theorem validation_reports_the_problems_in_order (a : Automaton) :
    (∀ ds, a.Reports ds ↔ ds = a.validate) ∧
    (a.kind = .nfa → (a.validate = [] ↔ a.Declared)) ∧
    (a.kind = .nfa → a.validate <+: (a.withKind .dfa).validate) := by
  refine ⟨fun ds => ⟨fun h => h.unique (reports_validate a), ?_⟩, validate_nfa_eq_nil_iff,
    validate_prefix_withKind⟩
  rintro rfl
  exact reports_validate a

/-- An NFA with an undeclared name everywhere, two entries of one key and an
entry with two targets. -/
def tangled : Automaton where
  kind := .nfa
  states := .ofList ["p", "q"]
  alphabet := .single "a"
  table := (((Table.empty.pushEntry ⟨"p", "a"⟩ ["q", "r"]).pushEntry ⟨"s", "z"⟩ ["p"]).pushEntry
    ⟨"p", "a"⟩ ["p"])
  initial := "t"
  accepting := .ofList ["q", "u"]

/-- All that can be wrong, in the order of the checks. -/
theorem tangled_is_reported_in_order : tangled.kind = .nfa ∧ ¬tangled.Declared ∧
    tangled.validate <+: [.undefinedInitialState "t", .undefinedAcceptingState "u",
      .undefinedTarget "r", .undefinedSource "s", .undefinedSymbol "z", .multipleTargets ⟨"p", "a"⟩,
      .duplicateKey ⟨"p", "a"⟩, .incomplete [⟨"q", "a"⟩]] := by
  obtain ⟨_, hdeclared, happends⟩ := validation_reports_the_problems_in_order tangled
  refine ⟨rfl, ?_, happends rfl⟩
  rw [← hdeclared rfl]
  decide

end Automaton

end Stepwise
