-- The language of an automaton. A sequence of states follows a word when
-- each state is a target of some entry for the state before it and the
-- symbol read between them. A run is in the last states of these sequences,
-- and it accepts when one of them ends in an accepting state.
import Stepwise.Proofs.Lookup
import Stepwise.Proofs.Run

namespace Stepwise

/-! ## Sequences of states along a word -/

/-- The first state is `start`, and `leads` takes each state to the next on
the character between them. -/
inductive Follows (leads : StateName → Char → StateName → Prop) (start : StateName) :
    Word → List StateName → Prop
  | nil : Follows leads start [] [start]
  | snoc {word : Word} {qs : List StateName} {p q : StateName} {c : Char} :
      Follows leads start word qs → qs.getLast? = some p → leads p c q →
        Follows leads start (word ++ [c]) (qs ++ [q])

namespace Follows

variable {leads : StateName → Char → StateName → Prop} {start : StateName} {word : Word}
  {qs rs : List StateName} {c : Char}

theorem length_eq (h : Follows leads start word qs) : qs.length = word.length + 1 := by
  induction h with
  | nil => rfl
  | snoc _ _ _ ih => rw [List.length_append, List.length_append, ih]; rfl

theorem exists_last (h : Follows leads start word qs) : ∃ q, qs.getLast? = some q := by
  cases h with
  | nil => exact ⟨start, rfl⟩
  | @snoc _ _ _ q _ _ _ _ => exact ⟨q, List.getLast?_concat⟩

theorem nil_iff : Follows leads start [] qs ↔ qs = [start] := by
  refine ⟨?_, ?_⟩
  · intro h
    generalize hw : ([] : Word) = w at h
    cases h with
    | nil => rfl
    | snoc => simp at hw
  · rintro rfl
    exact nil

/-- A sequence along one more character is one along the word before it with
one more state. -/
theorem concat_iff : Follows leads start (word ++ [c]) rs ↔ ∃ qs p q,
    Follows leads start word qs ∧ qs.getLast? = some p ∧ leads p c q ∧ rs = qs ++ [q] := by
  refine ⟨?_, ?_⟩
  · intro h
    generalize hw : word ++ [c] = w at h
    cases h with
    | nil => simp at hw
    | @snoc v qs p q d hv hp hq =>
      obtain ⟨rfl, hcd⟩ := List.append_inj' hw rfl
      cases hcd
      exact ⟨qs, p, q, hv, hp, hq, rfl⟩
  · rintro ⟨qs, p, q, hqs, hp, hq, rfl⟩
    exact snoc hqs hp hq

end Follows

/-! ## The states of a run -/

/-- Some entry for the state and the character has the target. -/
def Table.Leads (t : Table) (p : StateName) (c : Char) (q : StateName) : Prop :=
  ∃ e ∈ t.entries, e.key = ⟨p, .ofChar c⟩ ∧ q ∈ e.targets

namespace Automaton

theorem mem_destinations_iff_leads {a : Automaton} {p q : StateName} {c : Char} :
    q ∈ a.destinations p (.ofChar c) ↔ a.table.Leads p c q := Table.mem_destinations

/-- A symbol leads from the states there are to the targets of their entries. -/
theorem mem_advance {a : Automaton} {current : OrderedSet StateName} {c : Char} {q : StateName} :
    q ∈ (a.advance (.ofChar c) current).1 ↔ ∃ p ∈ current, a.table.Leads p c q := by
  rw [advance_fst, OrderedSet.mem_ofList, List.mem_flatMap]
  refine ⟨?_, ?_⟩
  · rintro ⟨p, hp, hq⟩
    exact ⟨p, hp, mem_destinations_iff_leads.mp hq⟩
  · rintro ⟨p, hp, hq⟩
    exact ⟨p, hp, mem_destinations_iff_leads.mpr hq⟩

theorem mem_statesAfter {a : Automaton} {word : Word} {q : StateName} :
    q ∈ a.statesAfter word ↔
      ∃ qs, Follows a.table.Leads a.initial word qs ∧ qs.getLast? = some q := by
  induction word using List.reverseRecOn generalizing q with
  | nil =>
    simp only [Follows.nil_iff, exists_eq_left, List.getLast?_singleton, Option.some.injEq]
    show q ∈ [a.initial] ↔ a.initial = q
    rw [List.mem_singleton, eq_comm]
  | append_singleton word c ih =>
    rw [statesAfter_concat, mem_advance]
    refine ⟨?_, ?_⟩
    · rintro ⟨p, hp, hq⟩
      obtain ⟨qs, hqs, hlast⟩ := ih.mp hp
      exact ⟨qs ++ [q], .snoc hqs hlast hq, List.getLast?_concat⟩
    · rintro ⟨rs, hrs, hlast⟩
      obtain ⟨qs, p, r, hqs, hp, hr, rfl⟩ := Follows.concat_iff.mp hrs
      rw [List.getLast?_concat, Option.some.injEq] at hlast
      exact ⟨p, ih.mpr ⟨qs, hqs, hp⟩, hlast ▸ hr⟩

/-- A run decides the language of its automaton, whatever its table holds:
after each number of symbols its states are the last states of the sequences
along what was read, each once, and a word is accepted when a sequence along
all of it ends in an accepting state. -/
theorem a_run_decides_the_language (a : Automaton) (word : Word) :
    (∀ k ≤ word.length, ∃ s, (a.trace word)[k]? = some s ∧ s.step = k ∧ s.current.toList.Nodup ∧
      ∀ q, q ∈ s.current ↔
        ∃ qs, Follows a.table.Leads a.initial (word.take k) qs ∧ qs.getLast? = some q) ∧
    (a.accepts word = true ↔ ∃ qs q,
      Follows a.table.Leads a.initial word qs ∧ qs.getLast? = some q ∧ q ∈ a.accepting) := by
  refine ⟨?_, ?_⟩
  · intro k hk
    obtain ⟨s, hs, hstep⟩ := trace_getElem? a word hk
    have hrun := onRun_of_mem_trace (List.mem_of_getElem? hs)
    refine ⟨s, hs, hstep, s.current.nodup, fun q => ?_⟩
    rw [hrun.current_eq, hstep]
    exact mem_statesAfter
  · rw [accepts_eq, OrderedSet.meets_iff]
    refine ⟨?_, ?_⟩
    · rintro ⟨q, hq, hacc⟩
      obtain ⟨qs, hqs, hlast⟩ := mem_statesAfter.mp hq
      exact ⟨qs, q, hqs, hlast, hacc⟩
    · rintro ⟨qs, q, hqs, hlast, hacc⟩
      exact ⟨q, mem_statesAfter.mpr ⟨qs, hqs, hlast⟩, hacc⟩

end Automaton

end Stepwise
