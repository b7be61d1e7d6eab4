-- Automata put together call by call. A call is about one part of the automaton and
-- leaves the other parts alone. So the calls about each part, in their order, decide
-- what is built, however the calls about one part stand among those about another.
import Stepwise.Proofs.Operations

namespace Stepwise

namespace Builder

/-! ## What a call is about -/

inductive Part where
  | states
  | alphabet
  | transitions
  | initial
  | accepting
  deriving DecidableEq

def Call.part : Call → Part
  | .states _ => .states
  | .alphabet _ => .alphabet
  | .transitions _ | .entry _ _ | .table _ => .transitions
  | .initial _ => .initial
  | .accepting _ => .accepting

/-- The calls about one part, in their order. -/
def callsOn (part : Part) (calls : List Call) : List Call :=
  calls.filter fun call => decide (call.part = part)

/-- The names of states or symbols that a call gives to its part. -/
def Call.names : Call → List String
  | .states names | .alphabet names | .accepting names => names
  | .initial name => [name]
  | .transitions _ | .entry _ _ | .table _ => []

/-- All names that are given to a part, call after call. -/
def namesOf (part : Part) (calls : List Call) : List String :=
  (callsOn part calls).flatMap Call.names

/-- The names that a call gives to the part, which are none if it is about another one. -/
def Call.namesFor (part : Part) (call : Call) : List String :=
  if call.part = part then call.names else []

theorem namesOf_cons (part : Part) (call : Call) (calls : List Call) :
    namesOf part (call :: calls) = call.namesFor part ++ namesOf part calls := by
  unfold namesOf callsOn Call.namesFor
  rw [List.filter_cons]
  by_cases hpart : call.part = part <;> simp [hpart]

/-! ## What the calls make of the names -/

variable {b : Builder}

theorem applyAll_cons (b : Builder) (call : Call) (calls : List Call) :
    b.applyAll (call :: calls) = (b.apply call).applyAll calls := rfl

/-- What one call adds to a set, a sequence of calls adds one after the other. -/
theorem applyAll_of_apply {part : Part} {field : Builder → OrderedSet String}
    (hcall : ∀ b call, field (b.apply call) = (field b).insertAll (call.namesFor part))
    (b : Builder) (calls : List Call) :
    field (b.applyAll calls) = (field b).insertAll (namesOf part calls) := by
  induction calls generalizing b with
  | nil => rfl
  | cons call calls ih =>
    rw [applyAll_cons, ih, hcall, namesOf_cons, OrderedSet.insertAll_append]

theorem states_applyAll (b : Builder) (calls : List Call) :
    (b.applyAll calls).states = b.states.insertAll (namesOf .states calls) :=
  applyAll_of_apply (fun _ call => by cases call <;> rfl) b calls

theorem alphabet_applyAll (b : Builder) (calls : List Call) :
    (b.applyAll calls).alphabet = b.alphabet.insertAll (namesOf .alphabet calls) :=
  applyAll_of_apply (fun _ call => by cases call <;> rfl) b calls

theorem accepting_applyAll (b : Builder) (calls : List Call) :
    (b.applyAll calls).accepting = b.accepting.insertAll (namesOf .accepting calls) :=
  applyAll_of_apply (fun _ call => by cases call <;> rfl) b calls

/-- The initial state that is set last stays. -/
theorem initial_applyAll (b : Builder) (calls : List Call) :
    (b.applyAll calls).initial = (namesOf .initial calls).getLast?.or b.initial := by
  induction calls generalizing b with
  | nil => rfl
  | cons call calls ih =>
    have hcall : (b.apply call).initial = (call.namesFor .initial).getLast?.or b.initial := by
      cases call <;> rfl
    rw [applyAll_cons, ih, hcall, namesOf_cons, List.getLast?_append, Option.or_assoc]

theorem kind_applyAll (b : Builder) (calls : List Call) : (b.applyAll calls).kind = b.kind := by
  induction calls generalizing b with
  | nil => rfl
  | cons call calls ih =>
    rw [applyAll_cons, ih]
    cases call <;> rfl

/-! ## What the calls make of the table -/

/-- What a call adds to the table that there is. -/
def Call.operations : Call → List Table.Operation
  | .transitions xs => xs.map .accumulate
  | .entry key targets => [.pushEntry key targets]
  | .states _ | .alphabet _ | .table _ | .initial _ | .accepting _ => []

/-- No table is given by the calls. -/
def GivesNoTable (calls : List Call) : Prop := ∀ call ∈ calls, ∀ t, call ≠ .table t

/-- The table that a sequence of calls starts from and the calls that add to it: the
last table that is given and the calls behind it, or the empty table and all calls. -/
inductive StartsFrom : List Call → Table → List Call → Prop
  | empty {calls : List Call} : GivesNoTable calls → StartsFrom calls .empty calls
  | given {before later : List Call} {t : Table} :
      GivesNoTable later → StartsFrom (before ++ .table t :: later) t later

theorem exists_startsFrom (calls : List Call) : ∃ t later, StartsFrom calls t later := by
  induction calls with
  | nil => exact ⟨.empty, [], .empty nofun⟩
  | cons call calls ih =>
    obtain ⟨t, later, h⟩ := ih
    cases h with
    | @given before _ _ hlater =>
      exact ⟨t, later, @StartsFrom.given (call :: before) later t hlater⟩
    | empty hnone =>
      by_cases hcall : ∃ u, call = .table u
      · obtain ⟨u, rfl⟩ := hcall
        exact ⟨u, calls, @StartsFrom.given [] calls u hnone⟩
      · refine ⟨.empty, call :: calls, .empty fun other hother u => ?_⟩
        rcases List.mem_cons.mp hother with rfl | hother
        · exact fun hu => hcall ⟨u, hu⟩
        · exact hnone other hother u

/-- Behind the last table there is no other one. -/
theorem eq_of_last_table {t u : Table} {middle later rest : List Call} (h : GivesNoTable later)
    (heq : .table t :: later = middle ++ .table u :: rest) : t = u ∧ later = rest := by
  cases middle with
  | nil =>
    cases heq
    exact ⟨rfl, rfl⟩
  | cons call middle =>
    obtain ⟨-, rfl⟩ := List.cons.inj heq
    exact absurd rfl (h (.table u) (by simp) u)

theorem StartsFrom.unique {calls later rest : List Call} {t u : Table}
    (h : StartsFrom calls t later) (h' : StartsFrom calls u rest) : t = u ∧ later = rest := by
  generalize hcalls : calls = others at h'
  cases h with
  | empty hnone =>
    cases h' with
    | empty _ => exact ⟨rfl, hcalls⟩
    | given _ => exact absurd rfl (hnone (.table u) (by simp [hcalls]) u)
  | given hlater =>
    cases h' with
    | empty hnone => exact absurd rfl (hnone (.table t) (by simp [← hcalls]) t)
    | given hrest =>
      -- were one of the two tables given earlier, the other one would be given behind it
      rcases List.append_eq_append_iff.mp hcalls with ⟨middle, -, heq⟩ | ⟨middle, -, heq⟩
      · exact eq_of_last_table hlater heq
      · obtain ⟨htable, hcalls⟩ := eq_of_last_table hrest heq
        exact ⟨htable.symm, hcalls.symm⟩

/-- The table of a call, whatever the rest of the builder is. -/
def Call.onTable (t : Table) : Call → Table
  | .transitions xs => t.addAll xs
  | .entry key targets => t.pushEntry key targets
  | .table u => u
  | .states _ | .alphabet _ | .initial _ | .accepting _ => t

/-- Only the calls about transitions change the table. -/
theorem table_applyAll (b : Builder) (calls : List Call) :
    (b.applyAll calls).table = (callsOn .transitions calls).foldl Call.onTable b.table := by
  unfold callsOn
  rw [List.foldl_filter]
  induction calls generalizing b with
  | nil => rfl
  | cons call calls ih =>
    rw [applyAll_cons, ih, List.foldl_cons]
    cases call <;> rfl

theorem entries_onTable {call : Call} (h : ∀ u, call ≠ .table u) (t : Table) :
    (call.onTable t).entries = call.operations.foldl Table.applyToEntries t.entries := by
  cases call with
  | transitions xs =>
    show (t.addAll xs).entries = (xs.map Table.Operation.accumulate).foldl Table.applyToEntries _
    rw [Table.entries_addAll, List.foldl_map]
    rfl
  | table u => exact absurd rfl (h u)
  | _ => rfl

theorem entries_foldl_onTable {calls : List Call} (h : GivesNoTable calls) (t : Table) :
    (calls.foldl Call.onTable t).entries =
      (calls.flatMap Call.operations).foldl Table.applyToEntries t.entries := by
  induction calls generalizing t with
  | nil => rfl
  | cons call calls ih =>
    rw [List.foldl_cons, ih fun other hother => h other (List.mem_cons_of_mem call hother),
      entries_onTable (h call List.mem_cons_self), List.flatMap_cons, List.foldl_append]

/-- What was in the table before the last table that is given is lost. -/
theorem StartsFrom.entries_eq {calls later : List Call} {t : Table} (h : StartsFrom calls t later) :
    (calls.foldl Call.onTable .empty).entries =
      (later.flatMap Call.operations).foldl Table.applyToEntries t.entries := by
  cases h with
  | empty hnone => exact entries_foldl_onTable hnone .empty
  | given hlater =>
    rw [List.foldl_append, List.foldl_cons]
    exact entries_foldl_onTable hlater t

/-! ## What is built -/

/-- The automaton that a sequence of calls stands for. A set has the names that were
ever given, each at its first place. The entries are those of the table started from,
with all that was added later. The initial state is the one set last, or else the state
given first, or else the empty name. -/
structure Specifies (kind : Kind) (calls : List Call) (a : Automaton) : Prop where
  kind_eq : a.kind = kind
  states : a.states.toList = (namesOf .states calls).eraseDups
  alphabet : a.alphabet.toList = (namesOf .alphabet calls).eraseDups
  accepting : a.accepting.toList = (namesOf .accepting calls).eraseDups
  table : ∃ t later, StartsFrom (callsOn .transitions calls) t later ∧
    a.table.entries = (later.flatMap Call.operations).foldl Table.applyToEntries t.entries
  initial : a.initial =
    ((namesOf .initial calls).getLast?.or (namesOf .states calls).head?).getD ""

variable {kind : Kind} {calls other : List Call} {a a' : Automaton}

theorem specifies_build (kind : Kind) (calls : List Call) :
    Specifies kind calls ((new kind).applyAll calls).build := by
  have hstates : ((new kind).applyAll calls).states = .ofList (namesOf .states calls) :=
    states_applyAll (new kind) calls
  have halphabet : ((new kind).applyAll calls).alphabet = .ofList (namesOf .alphabet calls) :=
    alphabet_applyAll (new kind) calls
  have haccepting : ((new kind).applyAll calls).accepting = .ofList (namesOf .accepting calls) :=
    accepting_applyAll (new kind) calls
  have hinitial : ((new kind).applyAll calls).initial = (namesOf .initial calls).getLast? :=
    (initial_applyAll (new kind) calls).trans Option.or_none
  obtain ⟨t, later, hstart⟩ := exists_startsFrom (callsOn .transitions calls)
  refine ⟨kind_applyAll (new kind) calls, ?_, ?_, ?_, ⟨t, later, hstart, ?_⟩, ?_⟩
  · rw [← OrderedSet.toList_ofList, ← hstates]
    rfl
  · rw [← OrderedSet.toList_ofList, ← halphabet]
    rfl
  · rw [← OrderedSet.toList_ofList, ← haccepting]
    rfl
  · rw [← hstart.entries_eq]
    exact congrArg Table.entries (table_applyAll (new kind) calls)
  · unfold build
    rw [hinitial, hstates, OrderedSet.first?_ofList]

/-- A sequence of calls stands for one automaton only. -/
theorem Specifies.unique (h : Specifies kind calls a) (h' : Specifies kind calls a') : a = a' := by
  obtain ⟨t, later, hstart, htable⟩ := h.table
  obtain ⟨u, rest, hstart', htable'⟩ := h'.table
  obtain ⟨rfl, rfl⟩ := hstart.unique hstart'
  obtain ⟨kind, states, alphabet, table, initial, accepting⟩ := a
  obtain ⟨kind', states', alphabet', table', initial', accepting'⟩ := a'
  obtain rfl : kind = kind' := h.kind_eq.trans h'.kind_eq.symm
  obtain rfl : states = states' := OrderedSet.ext (h.states.trans h'.states.symm)
  obtain rfl : alphabet = alphabet' := OrderedSet.ext (h.alphabet.trans h'.alphabet.symm)
  obtain rfl : table = table' := Table.ext_entries (htable.trans htable'.symm)
  obtain rfl : initial = initial' := h.initial.trans h'.initial.symm
  obtain rfl : accepting = accepting' := OrderedSet.ext (h.accepting.trans h'.accepting.symm)
  rfl

/-- Only the order of the calls about one part matters. -/
theorem Specifies.congr (h : Specifies kind calls a)
    (hparts : ∀ part, callsOn part calls = callsOn part other) : Specifies kind other a := by
  have hnames : ∀ part, namesOf part calls = namesOf part other := by
    intro part
    unfold namesOf
    rw [hparts]
  refine ⟨h.kind_eq, ?_, ?_, ?_, ?_, ?_⟩
  · rw [← hnames, h.states]
  · rw [← hnames, h.alphabet]
  · rw [← hnames, h.accepting]
  · rw [← hparts]
    exact h.table
  · rw [← hnames, ← hnames, h.initial]

/-- What is built is what the calls about each part say. So two sequences that have
the same calls about each part, in the same order, build the same automaton. -/
theorem the_calls_about_each_part_decide (kind : Kind) (calls : List Call) :
    Specifies kind calls ((new kind).applyAll calls).build ∧
    ∀ other, (∀ part, callsOn part calls = callsOn part other) →
      ((new kind).applyAll calls).build = ((new kind).applyAll other).build := by
  refine ⟨specifies_build kind calls, fun other hparts => ?_⟩
  exact ((specifies_build kind calls).congr hparts).unique (specifies_build kind other)

/-- A table comes in between, takes the place of a transition, and is added to. -/
def interleaved : List Call :=
  [.accepting ["q"], .transitions [⟨"q", "a", "p"⟩], .states ["p"], .initial "q",
   .table (.ofTriples [⟨"p", "a", "q"⟩]), .alphabet ["a", "b"], .states ["q", "p"],
   .entry ⟨"p", "a"⟩ ["p", "p"], .initial "p", .alphabet ["a"], .transitions [⟨"p", "a", "p"⟩]]

/-- The same calls, part by part. -/
def partByPart : List Call :=
  [.transitions [⟨"q", "a", "p"⟩], .table (.ofTriples [⟨"p", "a", "q"⟩]),
   .entry ⟨"p", "a"⟩ ["p", "p"], .transitions [⟨"p", "a", "p"⟩], .initial "q", .initial "p",
   .accepting ["q"], .alphabet ["a", "b"], .alphabet ["a"], .states ["p"], .states ["q", "p"]]

theorem interleaved_builds_as_part_by_part :
    (∀ part, callsOn part interleaved = callsOn part partByPart) ∧
    ((new .nfa).applyAll interleaved).build = ((new .nfa).applyAll partByPart).build ∧
    ((new .nfa).applyAll partByPart).build.table.entries =
      [⟨⟨"p", "a"⟩, .ofList ["q", "p"]⟩, ⟨⟨"p", "a"⟩, .single "p"⟩] := by
  have hparts : ∀ part, callsOn part interleaved = callsOn part partByPart := by
    intro part
    cases part <;> rfl
  exact ⟨hparts, (the_calls_about_each_part_decide .nfa interleaved).2 partByPart hparts, rfl⟩

end Builder

end Stepwise
