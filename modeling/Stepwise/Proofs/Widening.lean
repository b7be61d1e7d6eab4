-- Automata that are added to. A transition or an entry that is added takes no
-- transition away, and the accepting states only become more. So the run of the
-- larger automaton is always in all states of the run of the smaller one, and
-- perhaps in others, and no word that was accepted is lost.
import Stepwise.Proofs.Accumulating
import Stepwise.Proofs.SameRelation

namespace Stepwise

/-! ## Calls that only add -/

namespace Table

variable {t : Table} {x : Triple}

/-- The call adds a transition or an entry and drops nothing. -/
def Operation.Adds : Operation → Prop
  | .accumulate _ | .pushEntry _ _ => True
  | .collect _ | .rebuild _ => False

instance : DecidablePred Operation.Adds
  | .accumulate _ | .pushEntry _ _ => .isTrue trivial
  | .collect _ | .rebuild _ => .isFalse id

theorem mem_triples_pushEntry {key : Key} {targets : List StateName} :
    x ∈ (t.pushEntry key targets).triples ↔ x ∈ t.triples ∨ key = x.key ∧ x.target ∈ targets := by
  have hentries : (t.pushEntry key targets).entries = t.entries ++ [⟨key, .ofList targets⟩] := rfl
  rw [mem_triples, mem_triples, hentries]
  simp [or_and_right, exists_or]

theorem mem_triples_apply {call : Operation} (h : call.Adds) (hx : x ∈ t.triples) :
    x ∈ (t.apply call).triples := by
  cases call with
  | accumulate y => exact mem_triples_add.mpr (Or.inl hx)
  | pushEntry key targets => exact mem_triples_pushEntry.mpr (Or.inl hx)
  | collect xs => exact h.elim
  | rebuild change => exact h.elim

theorem mem_triples_applyAll {calls : List Operation} (h : ∀ call ∈ calls, call.Adds)
    (hx : x ∈ t.triples) : x ∈ (calls.foldl apply t).triples := by
  induction calls generalizing t with
  | nil => exact hx
  | cons call calls ih =>
    have hcall := mem_triples_apply (h call List.mem_cons_self) hx
    exact ih (fun call' hcall' => h call' (List.mem_cons_of_mem call hcall')) hcall

end Table

/-! ## Larger automata -/

namespace Snapshot

/-- The two snapshots have come as far. All states of the first are states of
the second, and if the first accepts, so does the second. -/
structure Inside (s t : Snapshot) : Prop where
  step_eq : s.step = t.step
  complete_eq : s.complete = t.complete
  mem_current : ∀ q ∈ s.current, q ∈ t.current
  accepted : s.accepted = true → t.accepted = true

end Snapshot

namespace Automaton

/-- The automaton starts as the smaller one does, and has all of its
transitions and of its accepting states. -/
structure Extends (larger smaller : Automaton) : Prop where
  initial_eq : larger.initial = smaller.initial
  mem_triples : ∀ x ∈ smaller.table.triples, x ∈ larger.table.triples
  mem_accepting : ∀ q ∈ smaller.accepting, q ∈ larger.accepting

namespace Extends

variable {a b : Automaton} (h : b.Extends a) {word : Word} {q : StateName}

include h

/-- Where the smaller automaton can go, the larger one can go as well. -/
theorem leads {p : StateName} {c : Char} (hlead : a.table.Leads p c q) : b.table.Leads p c q := by
  rw [Table.leads_iff] at hlead ⊢
  exact h.mem_triples _ hlead

theorem mem_statesAfter (hq : q ∈ a.statesAfter word) : q ∈ b.statesAfter word := by
  induction word using List.reverseRecOn generalizing q with
  | nil =>
    show q ∈ OrderedSet.single b.initial
    rw [h.initial_eq]
    exact hq
  | append_singleton word c ih =>
    rw [statesAfter_concat, mem_advance] at hq ⊢
    obtain ⟨p, hp, hlead⟩ := hq
    exact ⟨p, ih hp, h.leads hlead⟩

theorem meets_accepting (hmeets : (a.statesAfter word).meets a.accepting = true) :
    (b.statesAfter word).meets b.accepting = true := by
  rw [OrderedSet.meets_iff] at hmeets ⊢
  obtain ⟨q, hq, hacc⟩ := hmeets
  exact ⟨q, h.mem_statesAfter hq, h.mem_accepting q hacc⟩

theorem inside {i : Nat} {s t : Snapshot} (hs : (a.trace word)[i]? = some s)
    (ht : (b.trace word)[i]? = some t) : s.Inside t := by
  have hruns := onRun_of_mem_trace (List.mem_of_getElem? hs)
  have hrunt := onRun_of_mem_trace (List.mem_of_getElem? ht)
  obtain ⟨hstep, hcomplete⟩ := step_complete_eq hs ht
  refine ⟨hstep, hcomplete, ?_, ?_⟩
  · intro q hq
    rw [hruns.current_eq] at hq
    rw [hrunt.current_eq, ← hstep]
    exact h.mem_statesAfter hq
  · intro hacc
    rw [hruns.accepted_eq, Bool.and_eq_true, hruns.current_eq] at hacc
    rw [hrunt.accepted_eq, Bool.and_eq_true, hrunt.current_eq, ← hstep, ← hcomplete]
    exact ⟨hacc.1, h.meets_accepting hacc.2⟩

end Extends

/-- The automaton after calls on its table, with other accepting states. -/
def enlarged (a : Automaton) (calls : List Table.Operation) (accepting : OrderedSet StateName) :
    Automaton := { a with table := calls.foldl Table.apply a.table, accepting := accepting }

/-- Adding transitions and entries to the table of an automaton, and accepting
states, loses no word: after any number of steps of the run on a word, all
states of the smaller automaton are states of the larger one, and what the
smaller one accepts, the larger one does. -/
theorem adding_transitions_loses_no_word (a : Automaton) (calls : List Table.Operation)
    (hcalls : ∀ call ∈ calls, call.Adds) (accepting : OrderedSet StateName)
    (haccepting : ∀ q ∈ a.accepting, q ∈ accepting) (word : Word) :
    List.Forall₂ Snapshot.Inside (a.trace word) ((a.enlarged calls accepting).trace word) ∧
    (a.accepts word = true → (a.enlarged calls accepting).accepts word = true) := by
  have hextends : (a.enlarged calls accepting).Extends a :=
    ⟨rfl, fun _ => Table.mem_triples_applyAll hcalls, haccepting⟩
  refine ⟨forall₂_trace fun _ _ _ => hextends.inside, ?_⟩
  rw [accepts_eq, accepts_eq]
  exact hextends.meets_accepting

/-- One more target in the first entry of a key, and a third entry for it. -/
def moreForks : List Table.Operation :=
  [.accumulate ⟨"p", "a", "s"⟩, .pushEntry ⟨"p", "a"⟩ ["t", "p"]]

example : ((forked.enlarged moreForks (.ofList ["t", "r"])).statesAfter ['a', 'a']).toList =
    ["q", "p", "s", "r", "t"] := by decide

theorem forked_loses_no_word : (∀ call ∈ moreForks, call.Adds) ∧
    (∀ q ∈ forked.accepting, q ∈ OrderedSet.ofList ["t", "r"]) ∧
    List.Forall₂ Snapshot.Inside (forked.trace ['a', 'a'])
      ((forked.enlarged moreForks (.ofList ["t", "r"])).trace ['a', 'a']) ∧
    (forked.enlarged moreForks (.ofList ["t", "r"])).accepts ['a', 'a'] = true := by
  have hcalls : ∀ call ∈ moreForks, call.Adds := by decide
  have haccepting : ∀ q ∈ forked.accepting, q ∈ OrderedSet.ofList ["t", "r"] := fun q hq => by
    rw [List.mem_singleton.mp hq]
    decide
  obtain ⟨hinside, haccepts⟩ :=
    adding_transitions_loses_no_word forked moreForks hcalls _ haccepting ['a', 'a']
  refine ⟨hcalls, haccepting, hinside, haccepts ?_⟩
  rw [accepts_eq]
  decide

end Automaton

end Stepwise
