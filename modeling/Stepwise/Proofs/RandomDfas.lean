-- What a random DFA is like once its growth has ended. Its states are
-- numbered, each is reached from the first, and no word over its letters kills
-- a run. Nothing is wrong with it either, as long as no state has drawn two
-- targets for one letter, which can only happen when letters come again.
import Mathlib.Data.List.Nodup
import Stepwise.Proofs.Growing
import Stepwise.Proofs.Language
import Stepwise.Proofs.Reporting
import Stepwise.Proofs.Validation

namespace Stepwise.Random

variable {σ : Type} {src : Source σ} {p : Float} {fuel symbols size : Nat} {s t : σ}
  {a : Automaton} {xs : List Symbol} {edges : List Edge}

/-! ## The automaton of a growth -/

/-- The automaton with all the edges that were drawn, one on each letter for
each state, in this order. -/
structure FullGrown (xs : List Symbol) (size : Nat) (edges : List Edge) (a : Automaton) : Prop where
  kind_eq : a.kind = .dfa
  alphabet_eq : a.alphabet = .ofList xs
  states_eq : a.states.toList = (List.range size).map stateNamed
  initial_eq : a.initial = stateNamed 0
  accepting_mem : ∀ q ∈ a.accepting, q ∈ a.states
  table_eq : a.table = .ofTriples (edges.map Edge.triple)
  size_pos : 0 < size
  slots_eq : edges.map Edge.slot = List.range size ×ˢ xs
  target_lt : ∀ e ∈ edges, e.target < size
  sprouted : ∀ j, 0 < j → j < size → ∃ e ∈ edges, e.source < j ∧ e.target = j

theorem fullGrown_build {g : Growth} (hslots : edges.map Edge.slot = List.range g.size ×ˢ xs)
    (hg : Growth.Grown xs g edges) {accepting : List Nat} (hacc : ∀ n ∈ accepting, n < g.size) :
    FullGrown xs g.size edges (g.builder.applyAll
      [.initial (stateNamed 0), .accepting (accepting.map stateNamed)]).build where
  kind_eq := hg.kind_eq
  alphabet_eq := hg.alphabet_eq
  states_eq := hg.states_eq
  initial_eq := rfl
  accepting_mem := by
    intro q hq
    have hmem : q ∈ g.builder.accepting ∨ q ∈ accepting.map stateNamed :=
      OrderedSet.mem_insertAll.mp hq
    rw [hg.accepting_eq] at hmem
    rcases hmem with hmem | hmem
    · exact absurd hmem (OrderedSet.not_mem_empty q)
    · obtain ⟨n, hn, rfl⟩ := List.mem_map.mp hmem
      exact hg.mem_states.mpr (hacc n hn)
  table_eq := hg.table_eq
  size_pos := hg.size_pos
  slots_eq := hslots
  target_lt := hg.target_lt
  sprouted := hg.sprouted

theorem exists_fullGrown (h : randomDfa src fuel symbols p s = (.ok a, t)) :
    ∃ edges g r, Growth.Grows src (letters symbols) p 0 (.start (letters symbols)) s edges g r ∧
      FullGrown (letters symbols) g.size edges a := by
  unfold randomDfa at h
  split at h
  · cases hrun : Growth.run src (letters symbols) p fuel 0 (.start (letters symbols)) s with
    | mk grown r =>
      simp only [bind, StateT.bind, hrun] at h
      cases grown with
      | none => cases h
      | some g =>
        cases h
        obtain ⟨edges, hgrows⟩ := Growth.grows_of_run hrun
        have hgrown : Growth.Grown (letters symbols) g edges :=
          hgrows.grown (Growth.grown_start _)
        refine ⟨edges, g, r, hgrows, fullGrown_build ?_ hgrown fun n hn => ?_⟩
        · rw [hgrows.slots, Nat.sub_zero, List.range_eq_range']
        · exact List.mem_range.mp (Source.mem_of_mem_someOf hn)
  · cases h

namespace FullGrown

/-! ## Its states and edges -/

theorem mem_states (h : FullGrown xs size edges a) {n : Nat} :
    stateNamed n ∈ a.states ↔ n < size := by
  rw [← OrderedSet.mem_toList, h.states_eq, List.mem_map_of_injective stateNamed_injective,
    List.mem_range]

theorem exists_number (h : FullGrown xs size edges a) {q : StateName} (hq : q ∈ a.states) :
    ∃ n < size, q = stateNamed n := by
  rw [← OrderedSet.mem_toList, h.states_eq, List.mem_map] at hq
  obtain ⟨n, hn, rfl⟩ := hq
  exact ⟨n, List.mem_range.mp hn, rfl⟩

theorem mem_alphabet (h : FullGrown xs size edges a) {x : Symbol} : x ∈ a.alphabet ↔ x ∈ xs := by
  rw [h.alphabet_eq, OrderedSet.mem_ofList]

theorem slot_mem (h : FullGrown xs size edges a) {e : Edge} (he : e ∈ edges) :
    e.source < size ∧ e.symbol ∈ xs := by
  have hslot : e.slot ∈ List.range size ×ˢ xs := h.slots_eq ▸ List.mem_map.mpr ⟨e, he, rfl⟩
  have := List.mem_product.mp hslot
  exact ⟨List.mem_range.mp this.1, this.2⟩

theorem exists_edge (h : FullGrown xs size edges a) {n : Nat} (hn : n < size) {x : Symbol}
    (hx : x ∈ xs) : ∃ e ∈ edges, e.source = n ∧ e.symbol = x := by
  have hslot : (n, x) ∈ edges.map Edge.slot :=
    h.slots_eq ▸ List.mem_product.mpr ⟨List.mem_range.mpr hn, hx⟩
  obtain ⟨e, he, hslot⟩ := List.mem_map.mp hslot
  exact ⟨e, he, congrArg Prod.fst hslot, congrArg Prod.snd hslot⟩

theorem mem_triples (h : FullGrown xs size edges a) {x : Triple} :
    x ∈ a.table.triples ↔ ∃ e ∈ edges, e.triple = x := by
  rw [h.table_eq, Table.mem_triples_ofTriples, List.mem_map]

theorem mem_destinations (h : FullGrown xs size edges a) {q r : StateName} {x : Symbol} :
    r ∈ a.destinations q x ↔ ∃ e ∈ edges, e.triple = ⟨q, x, r⟩ := by
  rw [← h.mem_triples, Table.mem_triples]
  exact Table.mem_destinations

/-! ## Its runs -/

/-- An edge takes a run along. -/
theorem mem_statesAfter_concat (h : FullGrown xs size edges a) {e : Edge} (he : e ∈ edges)
    {word : Word} (hmem : stateNamed e.source ∈ a.statesAfter word) {c : Char}
    (hc : e.symbol = Symbol.ofChar c) : stateNamed e.target ∈ a.statesAfter (word ++ [c]) := by
  rw [Automaton.statesAfter_concat, Automaton.mem_advance]
  refine ⟨stateNamed e.source, hmem, Automaton.mem_destinations_iff_leads.mp ?_⟩
  exact h.mem_destinations.mpr ⟨e, he, by rw [Edge.triple, hc]⟩

theorem first_mem_statesAfter (h : FullGrown xs size edges a) :
    stateNamed 0 ∈ a.statesAfter [] := by
  rw [← h.initial_eq]
  exact List.mem_cons_self

/-- Every state can be reached, by the letters of the edges by which it and the
states before it came. -/
theorem exists_word (h : FullGrown xs size edges a) (hxs : ∀ x ∈ xs, ∃ c, x = Symbol.ofChar c)
    {n : Nat} (hn : n < size) :
    ∃ word : Word, (∀ c ∈ word, Symbol.ofChar c ∈ a.alphabet) ∧
      stateNamed n ∈ a.statesAfter word := by
  induction n using Nat.strongRecOn with
  | ind n ih =>
    rcases Nat.eq_zero_or_pos n with rfl | hpos
    · exact ⟨[], fun _ hc => absurd hc List.not_mem_nil, h.first_mem_statesAfter⟩
    · obtain ⟨e, he, hlt, rfl⟩ := h.sprouted n hpos hn
      obtain ⟨hsource, hsymbol⟩ := h.slot_mem he
      obtain ⟨word, hword, hmem⟩ := ih e.source hlt hsource
      obtain ⟨c, hc⟩ := hxs e.symbol hsymbol
      refine ⟨word ++ [c], ?_, h.mem_statesAfter_concat he hmem hc⟩
      intro d hd
      rcases List.mem_append.mp hd with hd | hd
      · exact hword d hd
      · rw [List.mem_singleton.mp hd, ← hc]
        exact h.mem_alphabet.mpr hsymbol

/-- On the letters a run always has a state to be in. -/
theorem exists_mem_statesAfter (h : FullGrown xs size edges a) {word : Word}
    (hword : ∀ c ∈ word, Symbol.ofChar c ∈ a.alphabet) :
    ∃ n < size, stateNamed n ∈ a.statesAfter word := by
  induction word using List.reverseRecOn with
  | nil => exact ⟨0, h.size_pos, h.first_mem_statesAfter⟩
  | append_singleton word c ih =>
    obtain ⟨n, hn, hmem⟩ := ih fun d hd => hword d (List.mem_append_left _ hd)
    have hc : Symbol.ofChar c ∈ xs :=
      h.mem_alphabet.mp (hword c (List.mem_append_right _ List.mem_cons_self))
    obtain ⟨e, he, rfl, hsymbol⟩ := h.exists_edge hn hc
    exact ⟨e.target, h.target_lt e he, h.mem_statesAfter_concat he hmem hsymbol⟩

end FullGrown

/-- The symbols of a random DFA are single characters. -/
theorem exists_char_of_mem_letters {n : Nat} {x : Symbol} (h : x ∈ letters n) :
    ∃ c, x = Symbol.ofChar c := by
  obtain ⟨i, _, rfl⟩ := List.mem_map.mp h
  exact ⟨_, rfl⟩

/-- The states are those numbered from zero up to `m`, each but the first is led
to by one before it, every state is met on some word over the alphabet, and
no such word leaves a run without a state. -/
structure WellGrown (a : Automaton) (m : Nat) : Prop where
  states_eq : a.states.toList = (List.range m).map stateNamed
  initial_eq : a.initial = stateNamed 0
  target_mem : ∀ x ∈ a.table.triples, ∃ j < m, x.target = stateNamed j
  sprouted : ∀ j, 1 ≤ j → j < m →
    ∃ i < j, ∃ x ∈ a.alphabet, stateNamed j ∈ a.destinations (stateNamed i) x
  met : ∀ q ∈ a.states, ∃ word : Word, (∀ c ∈ word, Symbol.ofChar c ∈ a.alphabet) ∧
    ∃ s ∈ a.trace word, q ∈ s.current
  alive : ∀ word : Word, (∀ c ∈ word, Symbol.ofChar c ∈ a.alphabet) →
    ∀ s ∈ a.trace word, s.isDead = false

theorem FullGrown.wellGrown (h : FullGrown xs size edges a)
    (hxs : ∀ x ∈ xs, ∃ c, x = Symbol.ofChar c) : WellGrown a size where
  states_eq := h.states_eq
  initial_eq := h.initial_eq
  target_mem := by
    intro x hx
    obtain ⟨e, he, rfl⟩ := h.mem_triples.mp hx
    exact ⟨e.target, h.target_lt e he, rfl⟩
  sprouted := by
    intro j hpos hlt
    obtain ⟨e, he, hlt', rfl⟩ := h.sprouted j hpos hlt
    exact ⟨e.source, hlt', e.symbol, h.mem_alphabet.mpr (h.slot_mem he).2,
      h.mem_destinations.mpr ⟨e, he, rfl⟩⟩
  met := by
    intro q hq
    obtain ⟨n, hn, rfl⟩ := h.exists_number hq
    obtain ⟨word, hword, hmem⟩ := h.exists_word hxs hn
    have hrun := Automaton.onRun_of_mem_trace (a.verdict_mem_trace word)
    refine ⟨word, hword, a.verdict word, a.verdict_mem_trace word, ?_⟩
    rwa [hrun.current_eq, a.take_step_verdict]
  alive := by
    intro word hword s hs
    have hrun := Automaton.onRun_of_mem_trace hs
    have hread : ∀ c ∈ word.take s.step, Symbol.ofChar c ∈ a.alphabet :=
      fun c hc => hword c (List.mem_of_mem_take hc)
    obtain ⟨n, _, hmem⟩ := h.exists_mem_statesAfter hread
    rw [← hrun.current_eq] at hmem
    exact List.isEmpty_eq_false_iff_exists_mem.mpr ⟨_, hmem⟩

/-! ## Draws from a script -/

/-- Chances as a script has them, and hits when it is over. Every coin falls on
heads. -/
def Source.scripted : Source (List Bool) where
  chance _ := fun script => (script.headD true, script.tail)
  coin := pure true
  below _ := pure 0

/-- On the second letter the first state goes on to a new one. -/
theorem two_letters_end : ∃ a t,
    randomDfa .scripted 3 2 0.5 [true, false] = (.ok a, t) ∧ a.size = 2 := by
  have hpos : (0 : Float) < 0.5 := by decide
  unfold randomDfa
  rw [if_pos hpos]
  exact ⟨_, _, rfl, rfl⟩

/-- Every random DFA whose generation ends has all its parts and no useless
ones, whatever the draws were. -/
theorem a_random_dfa_is_well_grown (src : Source σ) (fuel symbols : Nat) (p : Float) (s t : σ)
    (a : Automaton) (h : randomDfa src fuel symbols p s = (.ok a, t)) :
    ∃ m, 1 ≤ m ∧ WellGrown a m := by
  obtain ⟨edges, g, _, _, hgrown⟩ := exists_fullGrown h
  exact ⟨g.size, hgrown.size_pos, hgrown.wellGrown fun _ => exists_char_of_mem_letters⟩

theorem two_letters_are_well_grown : ∃ a t,
    randomDfa .scripted 3 2 0.5 [true, false] = (.ok a, t) ∧ ∃ m, 1 ≤ m ∧ WellGrown a m := by
  obtain ⟨a, t, hrun, _⟩ := two_letters_end
  exact ⟨a, t, hrun, a_random_dfa_is_well_grown .scripted 3 2 0.5 _ _ _ hrun⟩

/-! ## Clean reports -/

/-- No state has drawn two targets for one letter. -/
def Agree (edges : List Edge) : Prop :=
  ∀ d ∈ edges, ∀ e ∈ edges, d.slot = e.slot → d.target = e.target

/-- Every pair of a state and a symbol has one entry with one target, and no
other name is mentioned than the declared ones. -/
structure Determined (a : Automaton) : Prop where
  declared : a.Declared
  one_entry : ∀ q ∈ a.states, ∀ x ∈ a.alphabet, ∃ e, a.table.entriesOf ⟨q, x⟩ = [e] ∧
    ∃ r ∈ a.states, e.targets.toList = [r]

namespace FullGrown

theorem collected (h : FullGrown xs size edges a) : Collected a.table.entries := by
  rw [h.table_eq]
  exact collected_ofTriples _

/-- The targets of an entry are those that were drawn for its key. -/
theorem mem_targets (h : FullGrown xs size edges a) {f : Entry} (hf : f ∈ a.table.entries)
    {q : StateName} :
    q ∈ f.targets ↔ ∃ e ∈ edges, e.triple = ⟨f.key.source, f.key.symbol, q⟩ := by
  rw [← h.mem_triples, Table.mem_triples]
  refine ⟨fun hq => ⟨f, hf, rfl, hq⟩, ?_⟩
  rintro ⟨g, hg, hkey, hq⟩
  exact List.inj_on_of_nodup_map h.collected.keys_nodup hg hf hkey ▸ hq

/-- An entry was made by an edge. -/
theorem exists_edge_of_entry (h : FullGrown xs size edges a) {f : Entry}
    (hf : f ∈ a.table.entries) :
    ∃ e ∈ edges, f.key = ⟨stateNamed e.source, e.symbol⟩ ∧ stateNamed e.target ∈ f.targets := by
  obtain ⟨q, hq⟩ := List.exists_mem_of_ne_nil _ (h.collected.targets_ne_nil f hf)
  obtain ⟨e, he, htriple⟩ := (h.mem_targets hf).mp hq
  refine ⟨e, he, ?_, ?_⟩
  · exact (congrArg Triple.key htriple).symm
  · have : stateNamed e.target = q := congrArg Triple.target htriple
    exact this ▸ hq

/-- An edge is in an entry of its key. -/
theorem exists_entry (h : FullGrown xs size edges a) {e : Edge} (he : e ∈ edges) :
    ∃ f ∈ a.table.entries, f.key = ⟨stateNamed e.source, e.symbol⟩ ∧
      stateNamed e.target ∈ f.targets :=
  Table.mem_triples.mp (h.mem_triples.mpr ⟨e, he, rfl⟩)

/-- Every pair has an entry that leads somewhere. -/
theorem exists_entry_of_mem (h : FullGrown xs size edges a) (key : Key)
    (hsource : key.source ∈ a.states) (hsymbol : key.symbol ∈ a.alphabet) :
    ∃ f ∈ a.table.entries, f.key = key ∧ ∃ r ∈ a.states, r ∈ f.targets := by
  obtain ⟨q, x⟩ := key
  obtain ⟨n, hn, rfl⟩ := h.exists_number hsource
  obtain ⟨e, he, rfl, rfl⟩ := h.exists_edge hn (h.mem_alphabet.mp hsymbol)
  obtain ⟨f, hf, hkey, htarget⟩ := h.exists_entry he
  exact ⟨f, hf, hkey, stateNamed e.target, h.mem_states.mpr (h.target_lt e he), htarget⟩

theorem declared (h : FullGrown xs size edges a) : a.Declared where
  initial := h.initial_eq ▸ h.mem_states.mpr h.size_pos
  accepting := h.accepting_mem
  source := by
    intro f hf
    obtain ⟨e, he, hkey, _⟩ := h.exists_edge_of_entry hf
    rw [hkey]
    exact h.mem_states.mpr (h.slot_mem he).1
  symbol := by
    intro f hf
    obtain ⟨e, he, hkey, _⟩ := h.exists_edge_of_entry hf
    rw [hkey]
    exact h.mem_alphabet.mpr (h.slot_mem he).2
  target := by
    intro f hf q hq
    obtain ⟨e, he, htriple⟩ := (h.mem_targets hf).mp hq
    have hname : stateNamed e.target = q := congrArg Triple.target htriple
    exact hname ▸ h.mem_states.mpr (h.target_lt e he)

theorem slot_eq_of_triple {d e : Edge} {key : Key} {q r : StateName}
    (hd : d.triple = ⟨key.source, key.symbol, q⟩) (he : e.triple = ⟨key.source, key.symbol, r⟩) :
    d.slot = e.slot := by
  have hsource : stateNamed d.source = stateNamed e.source :=
    (congrArg Triple.source hd).trans (congrArg Triple.source he).symm
  have hsymbol : d.symbol = e.symbol :=
    (congrArg Triple.symbol hd).trans (congrArg Triple.symbol he).symm
  exact Prod.ext (stateNamed_injective hsource) hsymbol

/-- If the draws agree, an entry has the target of any edge that it was made by. -/
theorem targets_eq (h : FullGrown xs size edges a) (hagree : Agree edges) {f : Entry}
    (hf : f ∈ a.table.entries) {q : StateName} (hq : q ∈ f.targets) : f.targets = .single q := by
  apply OrderedSet.eq_single_of_forall_eq hq
  intro r hr
  obtain ⟨d, hd, hdq⟩ := (h.mem_targets hf).mp hq
  obtain ⟨e, he, her⟩ := (h.mem_targets hf).mp hr
  have htarget := hagree e he d hd (slot_eq_of_triple her hdq)
  calc r = stateNamed e.target := (congrArg Triple.target her).symm
    _ = stateNamed d.target := by rw [htarget]
    _ = q := congrArg Triple.target hdq

theorem determined (h : FullGrown xs size edges a) (hagree : Agree edges) : Determined a where
  declared := h.declared
  one_entry := by
    intro q hq x hx
    obtain ⟨f, hf, hkey, r, hr, htarget⟩ := h.exists_entry_of_mem ⟨q, x⟩ hq hx
    refine ⟨f, ?_, r, hr, ?_⟩
    · rw [← hkey, Table.entriesOf_eq_filter, filter_key_eq_singleton h.collected.keys_nodup hf]
    · rw [h.targets_eq hagree hf htarget, OrderedSet.toList_single]

theorem validate_eq_nil_iff (h : FullGrown xs size edges a) : a.validate = [] ↔ Agree edges := by
  refine ⟨?_, ?_⟩
  · intro hv d hd e he hslot
    have hdet : a.Deterministic := Automaton.deterministic_of_no_errors h.kind_eq (by rw [hv]; simp)
    obtain ⟨f, hf, hfkey, hfd⟩ := h.exists_entry hd
    obtain ⟨g, hg, hgkey, hge⟩ := h.exists_entry he
    have hsource : d.source = e.source := congrArg Prod.fst hslot
    have hsymbol : d.symbol = e.symbol := congrArg Prod.snd hslot
    have hkey : g.key = f.key := by rw [hfkey, hgkey, hsource, hsymbol]
    obtain rfl : g = f := List.inj_on_of_nodup_map hdet.one_entry hg hf hkey
    exact stateNamed_injective (OrderedSet.eq_of_size_le_one (hdet.one_target g hg) hfd hge)
  · intro hagree
    apply Automaton.validate_eq_nil_of_unique h.declared h.collected.keys_nodup
    · intro f hf
      obtain ⟨e, _, _, htarget⟩ := h.exists_edge_of_entry hf
      rw [h.targets_eq hagree hf htarget]
      exact Nat.le_refl 1
    · intro key hsource hsymbol
      obtain ⟨f, hf, hkey, _⟩ := h.exists_entry_of_mem key hsource hsymbol
      exact ⟨f, hf, hkey⟩

/-- On letters that do not come again there is one draw for each pair. -/
theorem agree_of_nodup (h : FullGrown xs size edges a) (hxs : xs.Nodup) : Agree edges := by
  have hslots : (edges.map Edge.slot).Nodup := h.slots_eq ▸ List.nodup_range.product hxs
  intro d hd e he hslot
  rw [List.inj_on_of_nodup_map hslots hd he hslot]

end FullGrown

/-- The letters come again after the last one of the alphabet. -/
theorem letters_nodup {n : Nat} (hn : n ≤ 26) : (letters n).Nodup := by
  have hall : (letters 26).Nodup := by decide
  have htake : letters n = (letters 26).take n := by
    unfold letters
    rw [← List.map_take, List.take_range, Nat.min_eq_left hn]
  rw [htake]
  exact hall.sublist (List.take_sublist n _)

/-- Nothing is reported of a random DFA if and only if no state has drawn two
targets for one letter, and then every pair has one entry with one target. With
no more than 26 letters none comes again, so this is so for all draws. -/
theorem a_random_dfa_is_clean_iff_its_draws_agree (src : Source σ) (fuel symbols : Nat) (p : Float)
    (s t : σ) (a : Automaton) (h : randomDfa src fuel symbols p s = (.ok a, t)) :
    ∃ edges g r, Growth.Grows src (letters symbols) p 0 (.start (letters symbols)) s edges g r ∧
      (a.validate = [] ↔ Agree edges) ∧ (Agree edges → Determined a) ∧
      (symbols ≤ 26 → Agree edges) := by
  obtain ⟨edges, g, r, hgrows, hgrown⟩ := exists_fullGrown h
  exact ⟨edges, g, r, hgrows, hgrown.validate_eq_nil_iff, hgrown.determined,
    fun hn => hgrown.agree_of_nodup (letters_nodup hn)⟩

theorem two_letters_grow_into_a_clean_dfa : ∃ a t,
    randomDfa .scripted 3 2 0.5 [true, false] = (.ok a, t) ∧ a.validate = [] ∧ Determined a := by
  obtain ⟨a, t, hrun, _⟩ := two_letters_end
  obtain ⟨edges, _, _, _, hclean, hdetermined, hagree⟩ :=
    a_random_dfa_is_clean_iff_its_draws_agree .scripted 3 2 0.5 _ _ _ hrun
  exact ⟨a, t, hrun, hclean.mpr (hagree (by decide)), hdetermined (hagree (by decide))⟩

/-- The letter after z is `a` again. The first state goes back to itself on all
letters but this one, on which it goes on to a new state. -/
theorem a_letter_that_comes_again_is_reported : (0 : Float) < 0.5 ∧ ∃ a t,
    randomDfa .scripted 3 27 0.5 (List.replicate 26 true ++ [false]) = (.ok a, t) ∧
      a.validate = [.multipleTargets ⟨stateNamed 0, "a"⟩] := by
  have hpos : (0 : Float) < 0.5 := by decide
  refine ⟨hpos, ?_⟩
  unfold randomDfa
  rw [if_pos hpos]
  exact ⟨_, _, rfl, by decide +kernel⟩

end Stepwise.Random
