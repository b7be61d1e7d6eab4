-- What a clean bill of health is worth. Without errors a DFA has at most one
-- way to go on, and without a warning it has an entry for every pair. A run
-- is then in one declared state all along, unless it reads an entry that is
-- there and leads nowhere, which no check reports.
import Mathlib.Data.List.Nodup
import Stepwise.Catalog
import Stepwise.Diagnostic
import Stepwise.Proofs.Language

namespace Stepwise

namespace Automaton

/-! ## What the checks say -/

/-- A DFA without errors. It may still lack entries. -/
structure Deterministic (a : Automaton) : Prop where
  initial_mem : a.initial ∈ a.states
  target_mem : ∀ e ∈ a.table.entries, ∀ q ∈ e.targets, q ∈ a.states
  one_entry : (a.table.entries.map Entry.key).Nodup
  one_target : ∀ e ∈ a.table.entries, e.targets.size ≤ 1

/-- The entries are read with the keys that came before, so no key of theirs
is among these or comes twice. -/
theorem of_determinismProblems {seen : List Key} {es : List Entry}
    (h : ∀ d ∈ determinismProblems seen es, d.isError = false) :
    (es.map Entry.key).Nodup ∧ (∀ e ∈ es, e.key ∉ seen) ∧ ∀ e ∈ es, e.targets.size ≤ 1 := by
  induction es generalizing seen with
  | nil => simp
  | cons e es ih =>
    rw [determinismProblems] at h
    have hseen : e.key ∉ seen := by
      intro hmem
      have := h (.duplicateKey e.key) (by simp [hmem])
      cases this
    have hsize : e.targets.size ≤ 1 := by
      by_contra hsize
      have := h (.multipleTargets e.key) (by simp [Nat.lt_of_not_le hsize])
      cases this
    obtain ⟨hnodup, hnew, hone⟩ := ih fun d hd => h d (List.mem_append_right _ hd)
    refine ⟨?_, ?_, ?_⟩
    · rw [List.map_cons, List.nodup_cons]
      refine ⟨?_, hnodup⟩
      intro hmem
      obtain ⟨d, hd, hkey⟩ := List.mem_map.mp hmem
      exact hnew d hd (hkey ▸ List.mem_cons_self)
    · intro d hd
      rcases List.mem_cons.mp hd with rfl | hd
      · exact hseen
      · exact fun hmem => hnew d hd (List.mem_cons_of_mem _ hmem)
    · intro d hd
      rcases List.mem_cons.mp hd with rfl | hd
      · exact hsize
      · exact hone d hd

theorem deterministic_of_no_errors {a : Automaton} (hk : a.kind = .dfa)
    (h : ∀ d ∈ a.validate, d.isError = false) : a.Deterministic := by
  unfold validate at h
  rw [hk] at h
  simp only [List.mem_append, List.mem_flatMap] at h
  obtain ⟨hnodup, _, hone⟩ :=
    of_determinismProblems fun d hd => h d (Or.inr (Or.inl hd))
  refine ⟨?_, ?_, hnodup, hone⟩
  · by_contra hinit
    have := h (.undefinedInitialState a.initial) (by simp [initialProblems, hinit])
    cases this
  · intro e he q hq
    by_contra hstate
    have hproblem : Diagnostic.undefinedTarget q ∈ a.entryProblems e := by
      simp [entryProblems, hq, hstate]
    have := h _ (Or.inl (Or.inr ⟨e, he, hproblem⟩))
    cases this

/-- A DFA with a clean bill of health has an entry for every pair. -/
theorem hasKey_of_validate {a : Automaton} (hk : a.kind = .dfa) (hv : a.validate = [])
    {q : StateName} {symbol : Symbol} (hq : q ∈ a.states) (hs : symbol ∈ a.alphabet) :
    a.table.hasKey ⟨q, symbol⟩ = true := by
  unfold validate at hv
  rw [hk] at hv
  have hcomplete : a.completenessProblems = [] :=
    (List.append_eq_nil_iff.mp (List.append_eq_nil_iff.mp hv).2).2
  have hmissing : a.missingKeys = [] := by
    unfold completenessProblems at hcomplete
    split at hcomplete
    · exact List.isEmpty_iff.mp ‹_›
    · cases hcomplete
  by_contra hkey
  have : (⟨q, symbol⟩ : Key) ∈ a.missingKeys := by
    unfold missingKeys
    rw [List.mem_filter, List.mem_flatMap]
    exact ⟨⟨q, hq, List.mem_map.mpr ⟨symbol, hs, rfl⟩⟩, by simpa using hkey⟩
  rw [hmissing] at this
  cases this

/-! ## One way to go on -/

/-- An entry is the only one of its key, so it alone says where the key leads. -/
theorem Deterministic.mem_destinations_iff {a : Automaton} (h : a.Deterministic) {e : Entry}
    (he : e ∈ a.table.entries) {q r : StateName} {symbol : Symbol} (hkey : e.key = ⟨q, symbol⟩) :
    r ∈ a.destinations q symbol ↔ r ∈ e.targets := by
  unfold destinations
  rw [Table.mem_destinations]
  refine ⟨?_, ?_⟩
  · rintro ⟨d, hd, hdkey, hr⟩
    have hde : d = e := List.inj_on_of_nodup_map h.one_entry hd he (hdkey.trans hkey.symm)
    exact hde ▸ hr
  · intro hr
    exact ⟨e, he, hkey, hr⟩

/-- What a state leads to on a symbol is all it leads to. -/
theorem Deterministic.destinations_eq {a : Automaton} (h : a.Deterministic) {q r : StateName}
    {symbol : Symbol} (hr : r ∈ a.destinations q symbol) : a.destinations q symbol = .single r := by
  apply OrderedSet.eq_single_of_forall_eq hr
  intro s hs
  obtain ⟨e, he, hkey, hre⟩ := Table.mem_destinations.mp hr
  have hse := (h.mem_destinations_iff he hkey).mp hs
  exact OrderedSet.eq_of_size_le_one (h.one_target e he) hse hre

/-! ## Following the only destinations -/

end Automaton

/-- The element of a set that has exactly one. -/
def OrderedSet.only? {α : Type} (s : OrderedSet α) : Option α :=
  match s.toList with
  | [x] => some x
  | _ => none

theorem OrderedSet.only?_eq_some_iff {α : Type} {s : OrderedSet α} {x : α} :
    s.only? = some x ↔ s = .single x := by
  refine ⟨?_, ?_⟩
  · intro h
    unfold only? at h
    split at h
    · rename_i y hy
      cases h
      exact OrderedSet.ext hy
    · cases h
  · rintro rfl
    rfl

namespace Automaton

/-- The state reached from the initial state by a destination that is the only
one, for each character of a word. -/
def stateAfter? (a : Automaton) (word : Word) : Option StateName :=
  word.foldlM (fun q c => (a.destinations q (.ofChar c)).only?) a.initial

theorem stateAfter?_concat (a : Automaton) (word : Word) (c : Char) :
    a.stateAfter? (word ++ [c]) =
      (a.stateAfter? word).bind fun q => (a.destinations q (.ofChar c)).only? := by
  unfold stateAfter?
  rw [List.foldlM_append]
  simp

theorem stateAfter?_concat_eq_some {a : Automaton} {word : Word} {c : Char} {r : StateName} :
    a.stateAfter? (word ++ [c]) = some r ↔
      ∃ q, a.stateAfter? word = some q ∧ a.destinations q (.ofChar c) = .single r := by
  rw [stateAfter?_concat, Option.bind_eq_some_iff]
  simp only [OrderedSet.only?_eq_some_iff]

/-- Where a state can be followed, the run is in that state. -/
theorem statesAfter_of_stateAfter? {a : Automaton} {word : Word} {q : StateName}
    (h : a.stateAfter? word = some q) : a.statesAfter word = .single q := by
  induction word using List.reverseRecOn generalizing q with
  | nil =>
    cases h
    rfl
  | append_singleton word c ih =>
    obtain ⟨p, hp, hdest⟩ := stateAfter?_concat_eq_some.mp h
    rw [statesAfter_concat, advance_fst, ih hp, OrderedSet.toList_single, List.flatMap_singleton,
      OrderedSet.ofList_toList, hdest]

theorem stateAfter?_append_isSome {a : Automaton} {u v : Word} {q : StateName}
    (h : a.stateAfter? (u ++ v) = some q) : ∃ p, a.stateAfter? u = some p := by
  unfold stateAfter? at h ⊢
  rw [List.foldlM_append] at h
  obtain ⟨p, hp, _⟩ := Option.bind_eq_some_iff.mp h
  exact ⟨p, hp⟩

/-! ## One state all along -/

/-- At any time the run on the word is in exactly one state, and that one is
declared. It is never dead, and the verdict is that of the state to which the
only destinations lead. -/
structure Steady (a : Automaton) (word : Word) : Prop where
  single : ∀ s ∈ a.trace word, ∃ q ∈ a.states, s.current.toList = [q]
  alive : ∀ s ∈ a.trace word, s.isDead = false
  verdict : ∃ q, a.stateAfter? word = some q ∧ (a.accepts word = true ↔ q ∈ a.accepting)

/-- A character of the word is read in a state that has an entry for it, but
one without targets. -/
def ReadsEmptyEntry (a : Automaton) (word : Word) : Prop :=
  ∃ u c v qs q e, word = u ++ c :: v ∧ Follows a.table.Leads a.initial u qs ∧
    qs.getLast? = some q ∧ e ∈ a.table.entries ∧ e.key = ⟨q, .ofChar c⟩ ∧ e.targets = ∅

theorem not_readsEmptyEntry {a : Automaton} (h : a.Deterministic) {word : Word} {r : StateName}
    (hr : a.stateAfter? word = some r) : ¬a.ReadsEmptyEntry word := by
  rintro ⟨u, c, v, qs, q, e, rfl, hqs, hlast, he, hkey, hempty⟩
  rw [← List.singleton_append, ← List.append_assoc] at hr
  obtain ⟨s, hs⟩ := stateAfter?_append_isSome hr
  obtain ⟨p, hp, hdest⟩ := stateAfter?_concat_eq_some.mp hs
  have hq : q ∈ a.statesAfter u := mem_statesAfter.mpr ⟨qs, hqs, hlast⟩
  rw [statesAfter_of_stateAfter? hp] at hq
  have hqp : q = p := List.mem_singleton.mp hq
  subst hqp
  have hmem : s ∈ a.destinations q (.ofChar c) := by
    rw [hdest]
    exact List.mem_singleton_self s
  rw [h.mem_destinations_iff he hkey, hempty] at hmem
  exact OrderedSet.not_mem_empty s hmem

/-- As long as no empty entry is read, there is a declared state to follow. -/
theorem exists_stateAfter? {a : Automaton} (hk : a.kind = .dfa) (hv : a.validate = []) {word : Word}
    (hw : ∀ c ∈ word, Symbol.ofChar c ∈ a.alphabet) (hread : ¬a.ReadsEmptyEntry word) {k : Nat}
    (hle : k ≤ word.length) : ∃ q ∈ a.states, a.stateAfter? (word.take k) = some q := by
  have hdet : a.Deterministic := deterministic_of_no_errors hk (by rw [hv]; simp)
  induction k with
  | zero => exact ⟨a.initial, hdet.initial_mem, rfl⟩
  | succ k ih =>
    obtain ⟨q, hq, hafter⟩ := ih (Nat.le_of_succ_le hle)
    have hsplit : word = word.take k ++ word[k] :: word.drop (k + 1) := by
      rw [← List.drop_eq_getElem_cons hle, List.take_append_drop]
    have hkey := hasKey_of_validate hk hv hq (hw word[k] (List.getElem_mem hle))
    obtain ⟨e, he, hekey⟩ := Table.hasKey_iff.mp hkey
    have hreach : q ∈ a.statesAfter (word.take k) := by
      rw [statesAfter_of_stateAfter? hafter]
      exact List.mem_singleton_self q
    obtain ⟨qs, hqs, hlast⟩ := mem_statesAfter.mp hreach
    have htargets : e.targets.toList ≠ [] := by
      intro hnil
      exact hread ⟨_, _, _, qs, q, e, hsplit, hqs, hlast, he, hekey, OrderedSet.ext hnil⟩
    obtain ⟨r, hr⟩ := List.exists_mem_of_ne_nil _ htargets
    refine ⟨r, hdet.target_mem e he r hr, ?_⟩
    rw [← List.take_append_getElem hle, stateAfter?_concat_eq_some]
    exact ⟨q, hafter, hdet.destinations_eq ((hdet.mem_destinations_iff he hekey).mpr hr)⟩

/-- With a clean bill of health and a word over the alphabet, a DFA is in one
declared state all along if and only if it reads no empty entry on the way. -/
theorem clean_dfa_is_steady_iff (a : Automaton) (hk : a.kind = .dfa) (hv : a.validate = [])
    (word : Word) (hw : ∀ c ∈ word, Symbol.ofChar c ∈ a.alphabet) :
    a.Steady word ↔ ¬a.ReadsEmptyEntry word := by
  refine ⟨?_, ?_⟩
  · rintro ⟨_, _, q, hq, _⟩
    exact not_readsEmptyEntry (deterministic_of_no_errors hk (by rw [hv]; simp)) hq
  · intro hread
    have hcurrent : ∀ s ∈ a.trace word, ∃ q ∈ a.states, s.current = .single q := by
      intro s hs
      have hrun := onRun_of_mem_trace hs
      obtain ⟨q, hq, hafter⟩ := exists_stateAfter? hk hv hw hread hrun.step_le
      exact ⟨q, hq, by rw [hrun.current_eq, statesAfter_of_stateAfter? hafter]⟩
    refine ⟨?_, ?_, ?_⟩
    · intro s hs
      obtain ⟨q, hq, hsingle⟩ := hcurrent s hs
      exact ⟨q, hq, by rw [hsingle, OrderedSet.toList_single]⟩
    · intro s hs
      obtain ⟨q, _, hsingle⟩ := hcurrent s hs
      unfold Snapshot.isDead
      rw [hsingle]
      rfl
    · obtain ⟨q, _, hafter⟩ := exists_stateAfter? hk hv hw hread (Nat.le_refl word.length)
      rw [List.take_length] at hafter
      refine ⟨q, hafter, ?_⟩
      rw [accepts_eq, statesAfter_of_stateAfter? hafter, OrderedSet.meets_iff]
      refine ⟨?_, ?_⟩
      · rintro ⟨r, hr, hacc⟩
        exact List.mem_singleton.mp hr ▸ hacc
      · intro hacc
        exact ⟨q, List.mem_singleton_self q, hacc⟩

theorem even_number_of_zeros_is_steady : Catalog.evenNumberOfZeros.kind = .dfa ∧
    Catalog.evenNumberOfZeros.validate = [] ∧
    (∀ c ∈ ['1', '0', '0'], Symbol.ofChar c ∈ Catalog.evenNumberOfZeros.alphabet) ∧
    Catalog.evenNumberOfZeros.Steady ['1', '0', '0'] := by
  have hword : ∀ c ∈ ['1', '0', '0'], Symbol.ofChar c ∈ Catalog.evenNumberOfZeros.alphabet := by
    intro c hc
    simp only [List.mem_cons, List.not_mem_nil, or_false] at hc
    rcases hc with rfl | rfl | rfl <;> decide
  refine ⟨rfl, rfl, hword, (clean_dfa_is_steady_iff _ rfl rfl _ hword).mpr ?_⟩
  rintro ⟨_, _, _, _, _, e, _, _, _, he, _, hempty⟩
  have hfull : Catalog.evenNumberOfZeros.table.entries.all (!·.targets.isEmpty) = true := rfl
  have := List.all_eq_true.mp hfull e he
  rw [hempty] at this
  cases this

/-- A DFA whose only entry has no targets. -/
def hollow : Automaton where
  kind := .dfa
  states := .single "q"
  alphabet := .single "a"
  table := Table.empty.pushEntry ⟨"q", "a"⟩ []
  initial := "q"
  accepting := ∅

/-- Nothing is reported of an entry that leads nowhere, and reading it kills the run. -/
theorem hollow_is_clean_but_not_steady : hollow.kind = .dfa ∧ hollow.validate = [] ∧
    (∀ c ∈ ['a'], Symbol.ofChar c ∈ hollow.alphabet) ∧ ¬hollow.Steady ['a'] := by
  refine ⟨rfl, rfl, ?_, ?_⟩
  · intro c hc
    rw [List.mem_singleton] at hc
    subst hc
    decide
  · rintro ⟨_, _, q, hq, _⟩
    have hnone : hollow.stateAfter? ['a'] = none := rfl
    rw [hnone] at hq
    cases hq

end Automaton

end Stepwise
