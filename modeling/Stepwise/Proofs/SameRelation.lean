-- What a run depends on. Two automata that lead from the same state through
-- the same transitions may list them in any order, split them over any
-- entries and differ in all else: their runs go through the same sets of
-- states, come to the same verdict, and have the same paths in another order.
import Stepwise.Proofs.Operations
import Stepwise.Proofs.Paths
import Stepwise.Proofs.StepCount

namespace Stepwise

/-! ## The same transitions -/

theorem Table.leads_iff {t : Table} {p q : StateName} {c : Char} :
    t.Leads p c q ↔ ⟨p, .ofChar c, q⟩ ∈ t.triples := by
  rw [mem_triples]
  exact Iff.rfl

namespace Automaton

/-- The same initial state, the same accepting states and the same transitions,
each of them in any order. -/
structure SameRelation (a b : Automaton) : Prop where
  initial_eq : a.initial = b.initial
  accepting_iff : ∀ q, q ∈ a.accepting ↔ q ∈ b.accepting
  triples_iff : ∀ x, x ∈ a.table.triples ↔ x ∈ b.table.triples

variable {a b : Automaton}

/-- Automata that compare equal have the same relation. -/
theorem sameRelation_of_beq (h : (a == b) = true) : a.SameRelation b := by
  obtain ⟨kind, states, alphabet, table, initial, accepting⟩ := a
  obtain ⟨kind', states', alphabet', table', initial', accepting'⟩ := b
  have hparts : (kind == kind' && (states == states' && (alphabet == alphabet' &&
      (table == table' && (initial == initial' && accepting == accepting'))))) = true := h
  simp only [Bool.and_eq_true, beq_iff_eq] at hparts
  obtain ⟨_, _, _, htable, hinitial, haccepting⟩ := hparts
  exact ⟨hinitial, fun _ => OrderedSet.mem_iff_of_beq haccepting,
    fun _ => Table.mem_triples_iff_of_beq htable⟩

namespace SameRelation

/-! ## The same sequences of states -/

theorem leads_eq (h : a.SameRelation b) : a.table.Leads = b.table.Leads := by
  funext p c q
  rw [eq_iff_iff, Table.leads_iff, Table.leads_iff]
  exact h.triples_iff _

theorem mem_statesAfter_iff (h : a.SameRelation b) (word : Word) (q : StateName) :
    q ∈ a.statesAfter word ↔ q ∈ b.statesAfter word := by
  rw [mem_statesAfter, mem_statesAfter, h.leads_eq, h.initial_eq]

theorem meets_accepting_eq (h : a.SameRelation b) (word : Word) :
    (a.statesAfter word).meets a.accepting = (b.statesAfter word).meets b.accepting := by
  rw [Bool.eq_iff_iff, OrderedSet.meets_iff, OrderedSet.meets_iff]
  simp only [h.mem_statesAfter_iff word, h.accepting_iff]

theorem mem_runs_iff (h : a.SameRelation b) (word : Word) (qs : List StateName) :
    qs ∈ a.runs word ↔ qs ∈ b.runs word := by
  simp only [mem_runs, mem_destinations_iff_leads, h.leads_eq, h.initial_eq]

/-- No sequence comes twice in either of the runs, so to be in both is enough. -/
theorem runs_perm (h : a.SameRelation b) (word : Word) : (a.runs word).Perm (b.runs word) :=
  (List.perm_ext_iff_of_nodup (a.runs_nodup word) (b.runs_nodup word)).mpr (h.mem_runs_iff word)

theorem mark_eq (h : a.SameRelation b) (judged : Bool) : a.mark judged = b.mark judged := by
  funext qs
  have haccepting : a.isAccepting = b.isAccepting := by
    funext q
    exact decide_eq_decide.mpr (h.accepting_iff q)
  rw [mark, mark, haccepting]

end SameRelation

/-! ## Runs side by side -/

/-- Two snapshots that have come as far, with the same states in any order and
the same verdict. The paths, where both automata keep them, are the same in
any order. -/
structure Alike (a b : Automaton) (s t : Snapshot) : Prop where
  current_iff : ∀ q, q ∈ s.current ↔ q ∈ t.current
  step_eq : s.step = t.step
  complete_eq : s.complete = t.complete
  accepted_eq : s.accepted = t.accepted
  paths_perm : a.kind = .nfa → b.kind = .nfa →
    ∃ ps qs, s.paths = some ps ∧ t.paths = some qs ∧ ps.Perm qs

theorem SameRelation.alike (h : a.SameRelation b) {word : Word} {s t : Snapshot} {i : Nat}
    (hs : (a.trace word)[i]? = some s) (ht : (b.trace word)[i]? = some t) : Alike a b s t := by
  have hruns := onRun_of_mem_trace (List.mem_of_getElem? hs)
  have hrunt := onRun_of_mem_trace (List.mem_of_getElem? ht)
  obtain ⟨hstep, hcomplete⟩ := step_complete_eq hs ht
  refine ⟨?_, hstep, hcomplete, ?_, ?_⟩
  · intro q
    rw [hruns.current_eq, hrunt.current_eq, hstep]
    exact h.mem_statesAfter_iff _ q
  · rw [hruns.accepted_eq, hrunt.accepted_eq, hcomplete, hruns.current_eq, hrunt.current_eq, hstep,
      h.meets_accepting_eq]
  · intro ha hb
    refine ⟨_, _, paths_of_mem_trace ha (List.mem_of_getElem? hs),
      paths_of_mem_trace hb (List.mem_of_getElem? ht), ?_⟩
    rw [hstep, hcomplete, h.mark_eq]
    exact (h.runs_perm _).map _

/-- Two automata with the same relation, among them any two that compare equal,
run side by side on every word. After each step their snapshots are alike, and
they accept the same words. -/
theorem runs_depend_on_the_relation_alone (a b : Automaton)
    (h : a.SameRelation b ∨ (a == b) = true) (word : Word) :
    List.Forall₂ (Alike a b) (a.trace word) (b.trace word) ∧ a.accepts word = b.accepts word := by
  have hsame : a.SameRelation b := h.elim id sameRelation_of_beq
  refine ⟨?_, ?_⟩
  · rw [List.forall₂_iff_get]
    refine ⟨?_, ?_⟩
    · rw [length_trace, length_trace]
    · intro i hi hj
      exact hsame.alike (List.getElem?_eq_getElem hi) (List.getElem?_eq_getElem hj)
  · rw [accepts_eq, accepts_eq, hsame.meets_accepting_eq]

/-- The transitions of `forked` in another order and in other entries, one of
them empty, and nothing declared. -/
def refolded : Automaton where
  kind := .nfa
  states := ∅
  alphabet := ∅
  table := .ofEntries [⟨⟨"p", "a"⟩, .ofList ["r", "q"]⟩, ⟨⟨"q", "b"⟩, ∅⟩, ⟨⟨"p", "a"⟩, .single "p"⟩]
  initial := "p"
  accepting := .single "r"

example : refolded.runs ['a', 'a'] = [["p", "p", "r"], ["p", "p", "q"], ["p", "p", "p"]] := by decide

theorem forked_and_refolded_run_alike :
    (forked.SameRelation refolded ∨ (forked == refolded) = true) ∧
    List.Forall₂ (Alike forked refolded) (forked.trace ['a', 'a']) (refolded.trace ['a', 'a']) ∧
    forked.accepts ['a', 'a'] = refolded.accepts ['a', 'a'] := by
  have hthere : ∀ x ∈ forked.table.triples, x ∈ refolded.table.triples := by decide
  have hback : ∀ x ∈ refolded.table.triples, x ∈ forked.table.triples := by decide
  have hsame : forked.SameRelation refolded :=
    ⟨rfl, fun _ => Iff.rfl, fun x => ⟨hthere x, hback x⟩⟩
  exact ⟨Or.inl hsame,
    runs_depend_on_the_relation_alone forked refolded (Or.inl hsame) ['a', 'a']⟩

end Automaton

end Stepwise
