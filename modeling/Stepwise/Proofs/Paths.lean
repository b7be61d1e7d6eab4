-- The paths of an NFA. They are all sequences of states along what was read,
-- each once, in the order of the choices that were made on the way, and the
-- states of the run are the states in which the paths end. Their flags agree
-- with the verdict, but for the empty word: its verdict leaves them unset.
import Mathlib.Data.List.Nodup
import Stepwise.Proofs.Language

namespace Stepwise

/-! ## The order of choices -/

/-- In a list without repetitions the elements stand in the order of their places. -/
theorem pairwise_idxOf {l : List StateName} (h : l.Nodup) :
    l.Pairwise fun x y => l.idxOf x < l.idxOf y := by
  rw [List.pairwise_iff_getElem]
  intro i j hi hj hij
  rw [h.idxOf_getElem i hi, h.idxOf_getElem j hj]
  exact hij

/-- What comes after a first difference does not matter. -/
theorem append_lt_append {ms ns us vs : List Nat} (hlen : ms.length = ns.length) (h : ms < ns) :
    ms ++ us < ns ++ vs := by
  induction ms generalizing ns with
  | nil =>
    cases ns with
    | nil => exact absurd h (List.lt_irrefl [])
    | cons n ns => simp at hlen
  | cons m ms ih =>
    cases ns with
    | nil => simp at hlen
    | cons n ns =>
      rw [List.cons_append, List.cons_append, List.cons_lt_cons_iff]
      rcases List.cons_lt_cons_iff.mp h with hmn | ⟨rfl, hrest⟩
      · exact Or.inl hmn
      · exact Or.inr ⟨rfl, ih (Nat.succ.inj hlen) hrest⟩

theorem exists_cons_cons {qs : List StateName} {n : Nat} (h : qs.length = n + 2) :
    ∃ r s rest, qs = r :: s :: rest := by
  match qs, h with
  | r :: s :: rest, _ => exact ⟨r, s, rest, rfl⟩

namespace Automaton

/-- For each step of a sequence of states, the place of the next state among
the destinations. -/
def choices (a : Automaton) : Word → List StateName → List Nat
  | c :: word, p :: q :: qs =>
    (a.destinations p (.ofChar c)).toList.idxOf q :: a.choices word (q :: qs)
  | _, _ => []

theorem length_choices (a : Automaton) {word : Word} {qs : List StateName}
    (hlen : qs.length = word.length + 1) : (a.choices word qs).length = word.length := by
  induction word generalizing qs with
  | nil => simp [choices]
  | cons d word ih =>
    obtain ⟨r, s, rest, rfl⟩ := exists_cons_cons hlen
    rw [choices, List.length_cons, List.length_cons, ih (Nat.succ.inj hlen)]

theorem choices_concat (a : Automaton) {word : Word} {qs : List StateName} {p : StateName}
    (c : Char) (q : StateName) (hlen : qs.length = word.length + 1) (hp : qs.getLast? = some p) :
    a.choices (word ++ [c]) (qs ++ [q]) =
      a.choices word qs ++ [(a.destinations p (.ofChar c)).toList.idxOf q] := by
  induction word generalizing qs with
  | nil =>
    obtain ⟨r, rfl⟩ := List.length_eq_one_iff.mp hlen
    cases hp
    rfl
  | cons d word ih =>
    obtain ⟨r, s, rest, rfl⟩ := exists_cons_cons hlen
    have hrest := ih (Nat.succ.inj hlen) (by rw [List.getLast?_cons_cons] at hp; exact hp)
    simp only [List.cons_append] at hrest ⊢
    rw [choices, choices, hrest, List.cons_append]

/-! ## The sequences of a run -/

theorem mem_prolong {a : Automaton} {c : Char} {qs rs : List StateName} :
    rs ∈ a.prolong c qs ↔
      ∃ p q, qs.getLast? = some p ∧ q ∈ a.destinations p (.ofChar c) ∧ rs = qs ++ [q] := by
  unfold prolong
  cases hp : qs.getLast? with
  | none => simp
  | some p => simp [eq_comm]

/-- The sequences of a run are those that follow the word. -/
theorem mem_runs {a : Automaton} {word : Word} {qs : List StateName} :
    qs ∈ a.runs word ↔
      Follows (fun p c q => q ∈ a.destinations p (.ofChar c)) a.initial word qs := by
  induction word using List.reverseRecOn generalizing qs with
  | nil =>
    rw [Follows.nil_iff]
    exact List.mem_singleton
  | append_singleton word c ih =>
    rw [runs_concat, List.mem_flatMap, Follows.concat_iff]
    refine ⟨?_, ?_⟩
    · rintro ⟨rs, hrs, hqs⟩
      obtain ⟨p, q, hp, hq, rfl⟩ := mem_prolong.mp hqs
      exact ⟨rs, p, q, ih.mp hrs, hp, hq, rfl⟩
    · rintro ⟨rs, p, q, hrs, hp, hq, rfl⟩
      exact ⟨rs, ih.mpr hrs, mem_prolong.mpr ⟨p, q, hp, hq, rfl⟩⟩

theorem length_of_mem_runs {a : Automaton} {word : Word} {qs : List StateName}
    (h : qs ∈ a.runs word) : qs.length = word.length + 1 := (mem_runs.mp h).length_eq

/-- A sequence branches off in the order of the destinations. -/
theorem prolong_pairwise (a : Automaton) {word : Word} {qs : List StateName} (c : Char)
    (h : qs ∈ a.runs word) : (a.prolong c qs).Pairwise fun rs ts =>
      a.choices (word ++ [c]) rs < a.choices (word ++ [c]) ts := by
  have hlen := length_of_mem_runs h
  obtain ⟨p, hp⟩ := (mem_runs.mp h).exists_last
  unfold prolong
  rw [hp]
  simp only
  rw [List.pairwise_map]
  apply (pairwise_idxOf (a.destinations p (.ofChar c)).nodup).imp
  intro q r hqr
  rw [choices_concat a c q hlen hp, choices_concat a c r hlen hp]
  apply List.append_left_lt
  rw [List.cons_lt_cons_iff]
  exact Or.inl hqr

/-- The branches of an earlier sequence stay in front of those of a later one. -/
theorem runs_pairwise (a : Automaton) (word : Word) :
    (a.runs word).Pairwise fun qs rs => a.choices word qs < a.choices word rs := by
  induction word using List.reverseRecOn with
  | nil => exact List.pairwise_singleton _ _
  | append_singleton word c ih =>
    rw [runs_concat, List.pairwise_flatMap]
    refine ⟨?_, ?_⟩
    · exact fun qs hqs => prolong_pairwise a c hqs
    · apply List.Pairwise.imp_of_mem _ ih
      intro qs rs hqs hrs hlt qs' hqs' rs' hrs'
      obtain ⟨p, q, hp, _, rfl⟩ := mem_prolong.mp hqs'
      obtain ⟨p', r, hp', _, rfl⟩ := mem_prolong.mp hrs'
      have hlenq := length_of_mem_runs hqs
      have hlenr := length_of_mem_runs hrs
      rw [choices_concat a c q hlenq hp, choices_concat a c r hlenr hp']
      refine append_lt_append ?_ hlt
      rw [length_choices a hlenq, length_choices a hlenr]

theorem runs_nodup (a : Automaton) (word : Word) : (a.runs word).Nodup := by
  apply (a.runs_pairwise word).imp
  rintro qs rs hlt rfl
  exact List.lt_irrefl _ hlt

/-- The ends of the longer sequences are the destinations of the ends. -/
theorem filterMap_flatMap_prolong (a : Automaton) (c : Char) (qss : List (List StateName)) :
    (qss.flatMap (a.prolong c)).filterMap List.getLast? =
      (qss.filterMap List.getLast?).flatMap fun q => (a.destinations q (.ofChar c)).toList := by
  induction qss with
  | nil => rfl
  | cons qs qss ih =>
    rw [List.flatMap_cons, List.filterMap_append, ih, List.filterMap_cons]
    unfold prolong
    cases qs.getLast? with
    | none => rfl
    | some q => simp [List.filterMap_map, Function.comp_def]

/-- The states after a word are the ends of the sequences, each at its first place. -/
theorem statesAfter_eq_ofList (a : Automaton) (word : Word) :
    a.statesAfter word = .ofList ((a.runs word).filterMap List.getLast?) := by
  induction word using List.reverseRecOn with
  | nil => rfl
  | append_singleton word c ih =>
    rw [statesAfter_concat, advance_fst, ih, OrderedSet.ofList_flatMap_ofList, runs_concat,
      filterMap_flatMap_prolong]

/-! ## The paths of a run -/

theorem map_states_mark (a : Automaton) (judged : Bool) (qss : List (List StateName)) :
    (qss.map (a.mark judged)).map Path.states = qss := by
  rw [List.map_map]
  exact List.map_id' qss

theorem paths_of_mem_trace {a : Automaton} {word : Word} {s : Snapshot} (hk : a.kind = .nfa)
    (h : s ∈ a.trace word) :
    s.paths = some ((a.runs (word.take s.step)).map (a.mark (s.complete && !word.isEmpty))) := by
  have hpaths := (onRun_of_mem_trace h).paths_eq
  rw [hk] at hpaths
  exact hpaths

/-- The paths of an NFA are all sequences of states along what was read, each
once and in the order of the choices on the way. The states of the run are
the ends of the paths, each at its first place. -/
theorem paths_are_all_sequences_in_order (a : Automaton) (hk : a.kind = .nfa) (word : Word) :
    ∀ s ∈ a.trace word, ∃ ps, s.paths = some ps ∧
      (∀ qs, qs ∈ ps.map Path.states ↔
        Follows (fun p c q => q ∈ a.destinations p (.ofChar c)) a.initial (word.take s.step) qs) ∧
      (ps.map Path.states).Nodup ∧
      (ps.map fun p => a.choices (word.take s.step) p.states).Pairwise (· < ·) ∧
      s.current.toList = (ps.filterMap Path.last?).eraseDups := by
  intro s hs
  refine ⟨_, paths_of_mem_trace hk hs, ?_, ?_, ?_, ?_⟩
  · intro qs
    rw [map_states_mark]
    exact mem_runs
  · rw [map_states_mark]
    exact a.runs_nodup _
  · rw [List.pairwise_map, List.pairwise_map]
    exact a.runs_pairwise _
  · rw [(onRun_of_mem_trace hs).current_eq, statesAfter_eq_ofList, OrderedSet.toList_ofList,
      List.filterMap_map]
    rfl

/-- Two entries for one key, which share a target. -/
def forked : Automaton where
  kind := .nfa
  states := .ofList ["p", "q", "r"]
  alphabet := .single "a"
  table := (Table.empty.pushEntry ⟨"p", "a"⟩ ["q", "p"]).pushEntry ⟨"p", "a"⟩ ["p", "r"]
  initial := "p"
  accepting := .single "r"

example : forked.runs ['a', 'a'] = [["p", "p", "q"], ["p", "p", "p"], ["p", "p", "r"]] := by decide

theorem paths_of_forked : forked.kind = .nfa ∧ forked.verdict ['a', 'a'] ∈ forked.trace ['a', 'a'] ∧
    ∃ ps, (forked.verdict ['a', 'a']).paths = some ps ∧
      (∀ qs, qs ∈ ps.map Path.states ↔
        Follows (fun p c q => q ∈ forked.destinations p (.ofChar c)) forked.initial
          (['a', 'a'].take (forked.verdict ['a', 'a']).step) qs) ∧
      (ps.map Path.states).Nodup ∧
      (ps.map fun p => forked.choices (['a', 'a'].take (forked.verdict ['a', 'a']).step)
        p.states).Pairwise (· < ·) ∧
      (forked.verdict ['a', 'a']).current.toList = (ps.filterMap Path.last?).eraseDups :=
  ⟨rfl, verdict_mem_trace forked ['a', 'a'],
    paths_are_all_sequences_in_order forked rfl ['a', 'a'] _ (verdict_mem_trace forked ['a', 'a'])⟩

end Automaton

/-! ## Flags and verdict -/

namespace Snapshot

/-- Each path is flagged if it ends in an accepting state, and the word is
accepted if some path is flagged. -/
def Judged (a : Automaton) (s : Snapshot) : Prop :=
  ∃ ps, s.paths = some ps ∧
    (∀ p ∈ ps, (p.accepting = true ↔ ∃ q, p.last? = some q ∧ q ∈ a.accepting)) ∧
    (s.accepted = true ↔ ∃ p ∈ ps, p.accepting = true)

/-- No path is flagged and the word is not accepted. -/
def Unjudged (s : Snapshot) : Prop :=
  (∃ ps, s.paths = some ps ∧ ∀ p ∈ ps, p.accepting = false) ∧ s.accepted = false

end Snapshot

namespace Automaton

/-- The run ends in a complete snapshot that is judged path by path, and no
snapshot before it is judged at all. -/
structure FlagsAgree (a : Automaton) (word : Word) : Prop where
  complete : (a.verdict word).complete = true
  judged : (a.verdict word).Judged a
  unjudged : ∀ s ∈ a.trace word, s.complete = false → s.Unjudged

theorem mark_accepting {a : Automaton} {qs : List StateName} :
    (a.mark true qs).accepting = true ↔ ∃ q, (a.mark true qs).last? = some q ∧ q ∈ a.accepting := by
  unfold mark Path.last? isAccepting
  simp [Option.any_eq_true]

theorem accepts_iff_mem_runs {a : Automaton} {word : Word} :
    a.accepts word = true ↔ ∃ qs ∈ a.runs word, (a.mark true qs).accepting = true := by
  rw [accepts_eq, OrderedSet.meets_iff, statesAfter_eq_ofList]
  simp only [mark_accepting, OrderedSet.mem_ofList, List.mem_filterMap]
  refine ⟨?_, ?_⟩
  · rintro ⟨q, ⟨qs, hqs, hlast⟩, hq⟩
    exact ⟨qs, hqs, q, hlast, hq⟩
  · rintro ⟨qs, hqs, q, hlast, hq⟩
    exact ⟨q, ⟨qs, hqs, hlast⟩, hq⟩

/-- The paths of the verdict are flagged, but not those of the empty word. -/
theorem paths_verdict (a : Automaton) (hk : a.kind = .nfa) (word : Word) :
    (a.verdict word).paths = some ((a.runs word).map (a.mark !word.isEmpty)) := by
  rw [paths_of_mem_trace hk (verdict_mem_trace a word), verdict_complete, take_step_verdict,
    Bool.true_and]

theorem unjudged_of_running {a : Automaton} (hk : a.kind = .nfa) {word : Word} {s : Snapshot}
    (hs : s ∈ a.trace word) (hc : s.complete = false) : s.Unjudged := by
  refine ⟨⟨_, paths_of_mem_trace hk hs, ?_⟩, ?_⟩
  · intro p hp
    obtain ⟨qs, _, rfl⟩ := List.mem_map.mp hp
    rw [hc]
    rfl
  · rw [(onRun_of_mem_trace hs).accepted_eq, hc]
    rfl

theorem judged_of_ne_nil {a : Automaton} (hk : a.kind = .nfa) {word : Word} (hw : word ≠ []) :
    (a.verdict word).Judged a := by
  have hjudged : (!word.isEmpty) = true := by
    cases word with
    | nil => exact absurd rfl hw
    | cons c word => rfl
  have hpaths := paths_verdict a hk word
  rw [hjudged] at hpaths
  refine ⟨_, hpaths, ?_, ?_⟩
  · intro p hp
    obtain ⟨qs, _, rfl⟩ := List.mem_map.mp hp
    exact mark_accepting
  · simp only [List.mem_map, exists_exists_and_eq_and]
    exact accepts_iff_mem_runs

/-- On the empty word there is one path, and its flag stays unset. -/
theorem judged_nil_iff {a : Automaton} (hk : a.kind = .nfa) :
    (a.verdict []).Judged a ↔ a.initial ∉ a.accepting := by
  have hpaths : (a.verdict []).paths = some [.start a.initial] := paths_verdict a hk []
  have haccepted : (a.verdict []).accepted = true ↔ a.initial ∈ a.accepting := by
    show a.accepts [] = true ↔ _
    rw [accepts_eq, OrderedSet.meets_iff]
    simp [statesAfter, ← OrderedSet.mem_toList]
  refine ⟨?_, ?_⟩
  · rintro ⟨ps, hps, hflags, _⟩ hinit
    rw [hpaths, Option.some.injEq] at hps
    subst hps
    have hflag := (hflags (.start a.initial) List.mem_cons_self).mpr ⟨a.initial, rfl, hinit⟩
    cases hflag
  · intro hinit
    refine ⟨_, hpaths, ?_, ?_⟩
    · intro p hp
      rw [List.mem_singleton] at hp
      subst hp
      refine ⟨?_, ?_⟩
      · intro h
        cases h
      · rintro ⟨q, hq, hacc⟩
        cases hq
        exact absurd hacc hinit
    · rw [haccepted]
      refine ⟨?_, ?_⟩
      · intro h
        exact absurd h hinit
      · rintro ⟨p, hp, hflag⟩
        rw [List.mem_singleton] at hp
        subst hp
        cases hflag

/-- The flags of the paths agree with the verdict of every word but one: the
empty word, when the initial state is accepting. It is accepted, and the flag
of its only path stays unset. -/
theorem path_flags_agree_iff (a : Automaton) (hk : a.kind = .nfa) (word : Word) :
    a.FlagsAgree word ↔ (word = [] → a.initial ∉ a.accepting) := by
  refine ⟨?_, ?_⟩
  · rintro ⟨_, hjudged, _⟩ rfl
    exact (judged_nil_iff hk).mp hjudged
  · intro hinit
    refine ⟨verdict_complete a word, ?_, fun s hs hc => unjudged_of_running hk hs hc⟩
    by_cases hw : word = []
    · subst hw
      exact (judged_nil_iff hk).mpr (hinit rfl)
    · exact judged_of_ne_nil hk hw

theorem flags_of_forked_agree : forked.kind = .nfa ∧ forked.FlagsAgree [] ∧
    forked.FlagsAgree ['a', 'a'] :=
  ⟨rfl, (path_flags_agree_iff forked rfl []).mpr (fun _ => by decide),
    (path_flags_agree_iff forked rfl ['a', 'a']).mpr (fun h => by cases h)⟩

/-- An NFA whose only state is initial and accepting. -/
def loneState : Automaton where
  kind := .nfa
  states := .single "q"
  alphabet := ∅
  table := .empty
  initial := "q"
  accepting := .single "q"

theorem path_flags_miss_the_empty_word : loneState.kind = .nfa ∧ ¬loneState.FlagsAgree [] := by
  refine ⟨rfl, ?_⟩
  rintro ⟨_, hjudged, _⟩
  exact (judged_nil_iff rfl).mp hjudged (by decide)

end Automaton

end Stepwise
