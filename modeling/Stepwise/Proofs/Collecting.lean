-- Tables made of transitions alone. Each of their keys has one entry and no
-- entry is empty, so the transitions, entry by entry, make the same table
-- again. Of any other table they make one that leads to the same states in
-- the same order.
import Stepwise.Proofs.Operations

namespace Stepwise

/-- The transitions of an entry. -/
def Entry.triples (e : Entry) : List Triple :=
  e.targets.toList.map fun q => ⟨e.key.source, e.key.symbol, q⟩

theorem Table.triples_eq (t : Table) : t.triples = t.entries.flatMap Entry.triples := rfl

theorem Entry.key_of_mem_triples {e : Entry} {x : Triple} (h : x ∈ e.triples) : x.key = e.key := by
  obtain ⟨q, -, rfl⟩ := List.mem_map.mp h
  rfl

/-- One entry for each key, and none without targets. -/
structure Collected (es : List Entry) : Prop where
  keys_nodup : (es.map Entry.key).Nodup
  targets_ne_nil : ∀ e ∈ es, e.targets.toList ≠ []

/-! ## Adding one transition -/

variable {es fs : List Entry} {x : Triple}

theorem addTriple_of_new (h : x.key ∉ es.map Entry.key) :
    addTriple es x = es ++ [⟨x.key, .ofList [x.target]⟩] := by
  rw [addTriple_eq, List.findIdx?_eq_none_iff.mpr]
  intro e he
  rw [decide_eq_false_iff_not]
  exact fun hkey => h (List.mem_map.mpr ⟨e, he, hkey⟩)

/-- A transition goes past the entries of other keys. -/
theorem addTriple_append (h : x.key ∉ es.map Entry.key) :
    addTriple (es ++ fs) x = es ++ addTriple fs x := by
  induction es with
  | nil => rfl
  | cons e es ih =>
    rw [List.map_cons, List.mem_cons, not_or] at h
    rw [List.cons_append, addTriple, if_neg (Ne.symm h.1), ih h.2, List.cons_append]

theorem map_key_addTriple (es : List Entry) (x : Triple) :
    (addTriple es x).map Entry.key =
      if x.key ∈ es.map Entry.key then es.map Entry.key else es.map Entry.key ++ [x.key] := by
  by_cases h : x.key ∈ es.map Entry.key
  · rw [if_pos h, addTriple_eq]
    have hsome : (es.findIdx? fun e => decide (e.key = x.key)).isSome = true := by
      obtain ⟨e, he, hkey⟩ := List.mem_map.mp h
      exact List.findIdx?_isSome.trans (List.any_eq_true.mpr ⟨e, he, decide_eq_true hkey⟩)
    obtain ⟨pos, hpos⟩ := Option.isSome_iff_exists.mp hsome
    rw [hpos]
    exact Table.keys_modify es pos x.target
  · rw [if_neg h, addTriple_of_new h, List.map_append]
    rfl

theorem Collected.addTriple (h : Collected es) (x : Triple) : Collected (addTriple es x) where
  keys_nodup := by
    rw [map_key_addTriple]
    split
    · exact h.keys_nodup
    · rename_i hnew
      exact List.nodup_append.mpr ⟨h.keys_nodup, List.nodup_singleton _, fun k hk l hl hkl =>
        hnew (List.mem_singleton.mp hl ▸ hkl ▸ hk)⟩
  targets_ne_nil := by
    have hne := h.targets_ne_nil
    clear h
    induction es with
    | nil =>
      intro e he
      rw [List.mem_singleton.mp he]
      exact List.cons_ne_nil _ _
    | cons e es ih =>
      unfold Stepwise.addTriple
      split
      · intro f hf
        rcases List.mem_cons.mp hf with rfl | hf
        · exact List.ne_nil_of_mem (OrderedSet.mem_insert.mpr (Or.inr rfl))
        · exact hne f (List.mem_cons_of_mem e hf)
      · intro f hf
        rcases List.mem_cons.mp hf with rfl | hf
        · exact hne f List.mem_cons_self
        · exact ih (fun g hg => hne g (List.mem_cons_of_mem e hg)) f hf

theorem collected_ofTriples (xs : List Triple) : Collected (Table.ofTriples xs).entries := by
  rw [Table.ofTriples, Table.entries_addAll]
  have hstart : Collected Table.empty.entries := ⟨List.nodup_nil, fun _ he => absurd he List.not_mem_nil⟩
  generalize Table.empty.entries = es at hstart
  induction xs generalizing es with
  | nil => exact hstart
  | cons x xs ih => exact ih _ (hstart.addTriple x)

/-! ## Adding the transitions of entries -/

/-- An entry at the end takes in the further transitions of its key. -/
theorem foldl_addTriple_concat {key : Key} (h : key ∉ es.map Entry.key) (targets : OrderedSet StateName)
    (qs : List StateName) :
    (qs.map fun q => (⟨key.source, key.symbol, q⟩ : Triple)).foldl addTriple (es ++ [⟨key, targets⟩]) =
      es ++ [⟨key, targets.insertAll qs⟩] := by
  induction qs generalizing targets with
  | nil => rfl
  | cons q qs ih =>
    have hone : addTriple [⟨key, targets⟩] ⟨key.source, key.symbol, q⟩ =
        [⟨key, targets.insert q⟩] := if_pos rfl
    rw [List.map_cons, List.foldl_cons, addTriple_append h, hone, ih]
    rfl

theorem foldl_addTriple_entry {e : Entry} (h : e.key ∉ es.map Entry.key)
    (hne : e.targets.toList ≠ []) : e.triples.foldl addTriple es = es ++ [e] := by
  obtain ⟨q, qs, hq⟩ := List.exists_cons_of_ne_nil hne
  have hfirst : addTriple es ⟨e.key.source, e.key.symbol, q⟩ = es ++ [⟨e.key, .ofList [q]⟩] :=
    addTriple_of_new h
  rw [Entry.triples, hq, List.map_cons, List.foldl_cons, hfirst, foldl_addTriple_concat h,
    ← OrderedSet.ofList_append, List.singleton_append, ← hq, OrderedSet.ofList_toList]

theorem foldl_addTriple_entries (h : ((es ++ fs).map Entry.key).Nodup)
    (hne : ∀ f ∈ fs, f.targets.toList ≠ []) :
    (fs.flatMap Entry.triples).foldl addTriple es = es ++ fs := by
  induction fs generalizing es with
  | nil => rw [List.flatMap_nil, List.foldl_nil, List.append_nil]
  | cons f fs ih =>
    have hf : f.key ∉ es.map Entry.key := by
      rw [List.map_append, List.nodup_append] at h
      exact fun hmem => h.2.2 _ hmem _ List.mem_cons_self rfl
    have hassoc : es ++ f :: fs = (es ++ [f]) ++ fs := by
      rw [List.append_assoc, List.singleton_append]
    rw [List.flatMap_cons, List.foldl_append, foldl_addTriple_entry hf (hne f List.mem_cons_self),
      ih (hassoc ▸ h) fun g hg => hne g (List.mem_cons_of_mem f hg), hassoc]

/-! ## Looking up what was added -/

theorem filter_key_eq_nil {key : Key} (h : key ∉ es.map Entry.key) :
    es.filter (fun e => decide (e.key = key)) = [] := by
  rw [List.filter_eq_nil_iff]
  intro e he
  rw [decide_eq_true_eq]
  exact fun hkey => h (List.mem_map.mpr ⟨e, he, hkey⟩)

/-- With one entry for each key, an entry is all that there is for its key. -/
theorem filter_key_eq_singleton (h : (es.map Entry.key).Nodup) {e : Entry} (he : e ∈ es) :
    es.filter (fun f => decide (f.key = e.key)) = [e] := by
  induction es with
  | nil => cases he
  | cons f es ih =>
    rw [List.map_cons, List.nodup_cons] at h
    rcases List.mem_cons.mp he with rfl | he
    · rw [List.filter_cons_of_pos (by simp), filter_key_eq_nil h.1]
    · have hne : f.key ≠ e.key := fun hkey => h.1 (List.mem_map.mpr ⟨e, he, hkey.symm⟩)
      rw [List.filter_cons_of_neg (by simpa using hne), ih h.2 he]

/-- With one entry for each key, a transition goes to the end of the targets of
its key and is seen under no other. -/
theorem flatMap_targets_addTriple (h : (es.map Entry.key).Nodup) (x : Triple) (key : Key) :
    (OrderedSet.ofList (((addTriple es x).filter fun e => decide (e.key = key)).flatMap
      fun e => e.targets.toList)) =
    if x.key = key then
      (OrderedSet.ofList ((es.filter fun e => decide (e.key = key)).flatMap
        fun e => e.targets.toList)).insert x.target
    else .ofList ((es.filter fun e => decide (e.key = key)).flatMap fun e => e.targets.toList) := by
  induction es with
  | nil =>
    by_cases hx : x.key = key
    · have hone : OrderedSet.ofList [x.target] = (OrderedSet.ofList []).insert x.target := rfl
      simp [addTriple, hx, OrderedSet.ofList_toList, hone]
    · simp [addTriple, hx]
  | cons e es ih =>
    rw [List.map_cons, List.nodup_cons] at h
    by_cases hex : e.key = x.key
    · rw [addTriple, if_pos hex]
      by_cases hkey : e.key = key
      · have hnone := filter_key_eq_nil (hkey ▸ h.1)
        rw [if_pos (hex ▸ hkey)]
        simp [Entry.addTarget, hkey, hnone, OrderedSet.ofList_toList]
      · rw [if_neg (hex ▸ hkey)]
        simp [Entry.addTarget, hkey]
    · rw [addTriple, if_neg hex]
      by_cases hkey : e.key = key
      · have hxkey : x.key ≠ key := fun hx => hex (hkey.trans hx.symm)
        have hnone := filter_key_eq_nil (hkey ▸ h.1)
        have hnone' : (addTriple es x).filter (fun e => decide (e.key = key)) = [] := by
          apply filter_key_eq_nil
          rw [map_key_addTriple]
          split
          · exact hkey ▸ h.1
          · rw [List.mem_append, List.mem_singleton, not_or]
            exact ⟨hkey ▸ h.1, Ne.symm hxkey⟩
        rw [if_neg hxkey]
        simp [hkey, hnone, hnone']
      · simpa [hkey] using ih h.2

namespace Table

/-- A key leads to the targets of its transitions, each at its first place. -/
theorem destinations_ofTriples (xs : List Triple) (key : Key) :
    (ofTriples xs).destinations key =
      .ofList ((xs.filter fun x => decide (x.key = key)).map Triple.target) := by
  rw [destinations_eq]
  induction xs using List.reverseRecOn with
  | nil => rfl
  | append_singleton xs x ih =>
    rw [ofTriples_concat, entries_add,
      flatMap_targets_addTriple (collected_ofTriples xs).keys_nodup, ih]
    by_cases hx : x.key = key
    · simp [hx, OrderedSet.ofList_concat]
    · simp [hx]

theorem map_target_filter_triples (t : Table) (key : Key) :
    (t.triples.filter fun x => decide (x.key = key)).map Triple.target =
      (t.entries.filter fun e => decide (e.key = key)).flatMap fun e => e.targets.toList := by
  rw [triples_eq]
  induction t.entries with
  | nil => rfl
  | cons e es ih =>
    rw [List.flatMap_cons, List.filter_append, List.map_append, ih]
    have hkeys : ∀ x ∈ e.triples, decide (x.key = key) = decide (e.key = key) :=
      fun x hx => by rw [Entry.key_of_mem_triples hx]
    rw [List.filter_congr hkeys]
    by_cases he : e.key = key
    · simp [he, Entry.triples, Function.comp_def]
    · simp [he]

/-- The transitions of a table say all that its lookups do. -/
theorem destinations_ofTriples_triples (t : Table) (key : Key) :
    (ofTriples t.triples).destinations key = t.destinations key := by
  rw [destinations_ofTriples, map_target_filter_triples, destinations_eq]

/-- A table that was made of transitions is made of its own again. -/
theorem ofTriples_triples {t : Table} (h : Collected t.entries) : ofTriples t.triples = t := by
  apply ext_entries
  rw [ofTriples, entries_addAll, triples_eq]
  exact foldl_addTriple_entries h.keys_nodup h.targets_ne_nil

end Table

end Stepwise
