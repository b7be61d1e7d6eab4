-- The normal form of a table: the table that is made of its transitions. It has
-- one entry for each key that leads anywhere, the keys in the order in which the
-- transitions first name them, and each entry holds all that its key leads to.
-- So it is known in full from the order of the keys and from the lookups.
import Mathlib.Data.List.Forall2
import Stepwise.Proofs.Collecting

namespace Stepwise

namespace Table

/-! ## Collected tables -/

/-- The keys stand in the order in which they first came. -/
theorem map_key_ofTriples (xs : List Triple) :
    (ofTriples xs).entries.map Entry.key = (OrderedSet.ofList (xs.map Triple.key)).toList := by
  induction xs using List.reverseRecOn with
  | nil => rfl
  | append_singleton xs x ih =>
    rw [ofTriples_concat, entries_add, map_key_addTriple, ih, List.map_append, List.map_singleton,
      OrderedSet.ofList_concat]
    split
    · rename_i hold
      rw [OrderedSet.insert_of_mem hold]
    · rename_i hnew
      rw [OrderedSet.toList_insert_of_not_mem hnew]

/-- With one entry for each key, the entries are what a lookup of their keys gives. -/
theorem entries_eq_of_keys_nodup {t : Table} (h : (t.entries.map Entry.key).Nodup) :
    t.entries = (t.entries.map Entry.key).map fun key => ⟨key, t.destinations key⟩ := by
  rw [List.map_map]
  conv_lhs => rw [← List.map_id t.entries]
  apply List.map_congr_left
  intro e he
  have hlookup : t.destinations e.key = e.targets := by
    rw [destinations_eq, filter_key_eq_singleton h he, List.flatMap_singleton,
      OrderedSet.ofList_toList]
  rw [Function.comp_apply, hlookup, id_eq]

/-- A table of transitions in full: the keys of the transitions, and for each the
targets of its transitions. -/
theorem entries_ofTriples (xs : List Triple) :
    (ofTriples xs).entries = (OrderedSet.ofList (xs.map Triple.key)).toList.map fun key =>
      ⟨key, .ofList ((xs.filter fun x => decide (x.key = key)).map Triple.target)⟩ := by
  rw [entries_eq_of_keys_nodup (collected_ofTriples xs).keys_nodup, map_key_ofTriples]
  apply List.map_congr_left
  intro key _
  rw [destinations_ofTriples]

/-- What transitions make of a table that was begun depends only on the table that
they make on their own. -/
theorem ofTriples_append_congr {xs ys zs : List Triple} (h : ofTriples ys = ofTriples zs) :
    ofTriples (xs ++ ys) = ofTriples (xs ++ zs) := by
  have hkeys : OrderedSet.ofList (ys.map Triple.key) = OrderedSet.ofList (zs.map Triple.key) :=
    OrderedSet.ext (by rw [← map_key_ofTriples, ← map_key_ofTriples, h])
  apply ext_entries
  rw [entries_ofTriples, entries_ofTriples]
  congr 1
  · funext key
    have htargets : (ofTriples ys).destinations key = (ofTriples zs).destinations key := by rw [h]
    rw [destinations_ofTriples, destinations_ofTriples] at htargets
    rw [List.filter_append, List.filter_append, List.map_append, List.map_append,
      OrderedSet.ofList_append, OrderedSet.ofList_append, ← OrderedSet.insertAll_ofList, htargets,
      OrderedSet.insertAll_ofList]
  · rw [List.map_append, List.map_append, OrderedSet.ofList_append, OrderedSet.ofList_append,
      ← OrderedSet.insertAll_ofList, hkeys, OrderedSet.insertAll_ofList]

/-- Transitions may be added as they come or in the order of their own table. -/
theorem addAll_triples_ofTriples (xs ys : List Triple) :
    (ofTriples xs).addAll (ofTriples ys).triples = ofTriples (xs ++ ys) := by
  rw [← ofTriples_append]
  exact ofTriples_append_congr (ofTriples_triples (collected_ofTriples ys))

/-- Of tables that agree, both have one entry for each key and no empty one, or neither. -/
theorem collected_of_beq {t u : Table} (ht : Collected t.entries) (h : (t == u) = true) :
    Collected u.entries := by
  have hall := forall₂_entries_of_beq h
  refine ⟨?_, ?_⟩
  · have hkeys : t.entries.map Entry.key = u.entries.map Entry.key := by
      rw [← List.forall₂_eq_eq_eq, List.forall₂_map_left_iff, List.forall₂_map_right_iff]
      exact hall.imp fun _ _ hef => hef.1
    exact hkeys ▸ ht.keys_nodup
  · intro f hf hnil
    obtain ⟨hlen, hget⟩ := List.forall₂_iff_get.mp hall
    obtain ⟨i, hi, rfl⟩ := List.getElem_of_mem hf
    have hmem := (hget i (hlen ▸ hi) hi).2
    refine ht.targets_ne_nil _ (List.getElem_mem (hlen ▸ hi)) (List.eq_nil_iff_forall_not_mem.mpr ?_)
    intro q hq
    have hq' := (hmem q).mp hq
    rw [← OrderedSet.mem_toList] at hq'
    simp only [List.get_eq_getElem, hnil] at hq'
    cases hq'

/-! ## The normal form -/

/-- The table that is made of the transitions of a table, one by one. -/
def normalForm (t : Table) : Table := ofTriples t.triples

/-- The table `u` is the table `t` in normal form: one entry for each key that
leads anywhere, the keys in the order in which the transitions first name them,
each with all that it leads to. It leads to the same states in the same order,
and to make it again changes nothing. The two tables are one, with their index,
exactly if `t` has one entry for each key and none that is empty, and only then
do they agree. -/
structure Normalised (t u : Table) : Prop where
  collected : Collected u.entries
  entries_eq : u.entries =
    (t.triples.map Triple.key).eraseDups.map fun key => ⟨key, t.destinations key⟩
  leads_alike : ∀ key, (u.destinations key).toList = (t.destinations key).toList
  settled : u.normalForm = u
  same_iff : u = t ↔ Collected t.entries
  agree_iff : (u == t) = true ↔ Collected t.entries

/-- Making a table again of its transitions brings it into normal form. -/
theorem collecting_its_transitions_normalises_a_table (t : Table) : t.Normalised t.normalForm := by
  have hcollected : Collected t.normalForm.entries := collected_ofTriples t.triples
  have hsame : Collected t.entries → t.normalForm = t := ofTriples_triples
  refine ⟨hcollected, ?_, fun key => ?_, ofTriples_triples hcollected, ⟨?_, hsame⟩, ⟨?_, ?_⟩⟩
  · rw [normalForm, entries_ofTriples, OrderedSet.toList_ofList]
    apply List.map_congr_left
    intro key _
    rw [map_target_filter_triples, destinations_eq]
  · rw [normalForm, destinations_ofTriples_triples]
  · intro h
    exact h ▸ hcollected
  · exact collected_of_beq hcollected
  · intro h
    rw [hsame h]
    exact beq_self_eq_true t

/-- The second entry of a key goes into the first, and the empty entry goes. -/
example : ((ofEntries [⟨⟨"p", "a"⟩, .ofList ["q", "r"]⟩, ⟨⟨"q", "a"⟩, ∅⟩, ⟨⟨"r", "b"⟩, .single "p"⟩,
    ⟨⟨"p", "a"⟩, .ofList ["s", "q"]⟩]).normalForm == ofEntries [⟨⟨"p", "a"⟩, .ofList ["q", "r", "s"]⟩,
    ⟨⟨"r", "b"⟩, .single "p"⟩]) = true := by decide

end Table

end Stepwise
