-- What is sent as JSON arrives as it was. Each kind of value is read from what
-- is written for it, and a record is read field by field, so the law of a
-- record follows from those of its fields. Sets and lists keep their order,
-- and a table finds the same targets through the index that is made for it
-- anew.
import Stepwise.Proofs.JsonText
import Stepwise.Proofs.Operations
import Stepwise.Wire

namespace Stepwise.Wire

/-! ## Values that arrive -/

/-- A value that is read from the JSON made of it, which holds nothing but
texts and counts. -/
structure Arrives {α : Type} [Wire α] (x : α) : Prop where
  plain : (toJson x).Plain
  ofJson_toJson : ofJson (toJson x) = some x

theorem Arrives.decode_encode {α : Type} [Wire α] {x : α} (h : Arrives x) :
    decode (encode x) = some x := by
  unfold decode encode
  rw [Json.parse_text h.plain, Option.bind_some, h.ofJson_toJson]

theorem arrives_string (s : String) : Arrives s := ⟨.string s, rfl⟩

theorem arrives_bool (b : Bool) : Arrives b := ⟨.bool b, rfl⟩

theorem arrives_nat {n : Nat} (h : n < wordSize) : Arrives n where
  plain := .count n
  ofJson_toJson := by
    show (some n).filter (· < wordSize) = some n
    rw [Option.filter_some, if_pos (decide_eq_true h)]

theorem arrives_list {α : Type} [Wire α] {xs : List α} (h : ∀ x ∈ xs, Arrives x) : Arrives xs where
  plain := by
    refine .array fun v hv => ?_
    obtain ⟨x, hx, rfl⟩ := List.mem_map.mp hv
    exact (h x hx).plain
  ofJson_toJson := by
    show (xs.map toJson).mapM ofJson = some xs
    apply Json.mapM_eq_some
    rw [List.forall₂_map_left_iff, List.forall₂_same]
    exact fun x hx => (h x hx).ofJson_toJson

theorem arrives_strings (ss : List String) : Arrives ss := arrives_list fun s _ => arrives_string s

/-- No element of a set comes twice, so none is dropped when it is read. -/
theorem arrives_set (s : OrderedSet String) : Arrives s where
  plain := (arrives_strings s.toList).plain
  ofJson_toJson := by
    show (ofJson (toJson s.toList) : Option (List String)).map .ofList = some s
    rw [(arrives_strings s.toList).ofJson_toJson, Option.map_some, OrderedSet.ofList_toList]

/-- A value that is there must not be written as one that is not. -/
theorem arrives_option {α : Type} [Wire α] {o : Option α}
    (h : ∀ x, o = some x → Arrives x ∧ toJson x ≠ .null) : Arrives o := by
  cases o with
  | none => exact ⟨.null, rfl⟩
  | some x =>
    obtain ⟨hx, hne⟩ := h x rfl
    have hread : ∀ j, j ≠ .null → (ofJson j : Option (Option α)) = (ofJson j).map some := by
      intro j hj
      cases j <;> first | exact absurd rfl hj | rfl
    refine ⟨hx.plain, (hread _ hne).trans ?_⟩
    rw [hx.ofJson_toJson, Option.map_some]

/-! ## Records -/

theorem membersNamed_of_nodup {members : List (String × Json)} (h : (members.map Prod.fst).Nodup) :
    ∀ m ∈ members, Json.membersNamed m.1 members = [m.2] := by
  induction members with
  | nil => exact fun m hm => absurd hm List.not_mem_nil
  | cons p ps ih =>
    rw [List.map_cons, List.nodup_cons] at h
    obtain ⟨hnew, hnodup⟩ := h
    intro m hm
    rcases List.mem_cons.mp hm with rfl | hm
    · have hrest : ps.filter (fun n => n.1 = m.1) = [] := by
        rw [List.filter_eq_nil_iff]
        intro n hn
        rw [decide_eq_true_eq]
        exact fun hnm => hnew (hnm ▸ List.mem_map_of_mem hn)
      simp [Json.membersNamed, hrest]
    · have hne : p.1 ≠ m.1 := fun hpm => hnew (hpm ▸ List.mem_map_of_mem hm)
      have hrest := ih hnodup m hm
      unfold Json.membersNamed at hrest ⊢
      rw [List.filter_cons_of_neg (by simpa using hne), hrest]

theorem fieldsOf_object {members : List (String × Json)} (h : (members.map Prod.fst).Nodup) :
    fieldsOf (members.map Prod.fst) (.object members) = some (members.map (some ·.2)) := by
  apply Json.mapM_eq_some
  rw [List.forall₂_map_left_iff, List.forall₂_map_right_iff, List.forall₂_same]
  intro m hm
  rw [memberOf, membersNamed_of_nodup h m hm]

/-- The fields of a record are found by their names, in their order. -/
theorem fieldsOf_zip {names : List String} {values : List Json} (hnames : names.Nodup)
    (hlen : names.length = values.length) :
    fieldsOf names (.object (names.zip values)) = some (values.map some) := by
  have hfst : (names.zip values).map Prod.fst = names := List.map_fst_zip (Nat.le_of_eq hlen)
  have hsnd : (names.zip values).map Prod.snd = values := List.map_snd_zip (Nat.le_of_eq hlen.symm)
  have hfields := fieldsOf_object (hfst.symm ▸ hnames)
  rw [hfst] at hfields
  rw [hfields]
  conv_rhs => rw [← hsnd, List.map_map]
  rfl

/-- A record arrives if it is put together again from its fields. -/
theorem arrives_record {α : Type} [Wire α] {x : α} {names : List String} {values : List Json}
    {read : List (Option Json) → Option α} (hread : ∀ j, ofJson j = (fieldsOf names j).bind read)
    (hwrite : toJson x = .object (names.zip values)) (hnames : names.Nodup)
    (hlen : names.length = values.length) (hplain : ∀ v ∈ values, v.Plain)
    (hfields : read (values.map some) = some x) : Arrives x where
  plain := by
    rw [hwrite]
    exact .object fun _ hm => hplain _ (List.of_mem_zip hm).2
  ofJson_toJson := by
    rw [hread, hwrite, fieldsOf_zip hnames hlen, Option.bind_some, hfields]

theorem Arrives.required_eq {α : Type} [Wire α] {x : α} (h : Arrives x) :
    required (some (toJson x)) = some x := h.ofJson_toJson

theorem Arrives.optional_eq {α : Type} [Wire α] {o : Option α} (h : Arrives o) :
    optional (some (toJson o)) = some o := h.ofJson_toJson

/-! ## Automata -/

theorem arrives_kind (k : Kind) : Arrives k := by
  cases k <;> exact ⟨.string _, rfl⟩

theorem arrives_key (k : Key) : Arrives k := by
  have hsource := arrives_string k.source
  have hsymbol := arrives_string k.symbol
  refine arrives_record (fun _ => rfl) rfl (by decide) rfl ?_ ?_
  · simp [hsource.plain, hsymbol.plain]
  · simp [hsource.required_eq, hsymbol.required_eq]

theorem arrives_entry (e : Entry) : Arrives e := by
  have hkey := arrives_key e.key
  have htargets := arrives_set e.targets
  refine arrives_record (fun _ => rfl) rfl (by decide) rfl ?_ ?_
  · simp [hkey.plain, htargets.plain]
  · simp [hkey.required_eq, htargets.required_eq]

theorem ofEntries_entries (t : Table) : Table.ofEntries t.entries = t :=
  Table.ext_entries (Table.entries_ofEntries t.entries)

theorem arrives_table (t : Table) : Arrives t where
  plain := (arrives_list fun e _ => arrives_entry e).plain
  ofJson_toJson := by
    show (ofJson (toJson t.entries) : Option (List Entry)).map .ofEntries = some t
    rw [(arrives_list fun e _ => arrives_entry e).ofJson_toJson, Option.map_some, ofEntries_entries]

theorem arrives_automaton (a : Automaton) : Arrives a := by
  have hkind := arrives_kind a.kind
  have hstates := arrives_set a.states
  have halphabet := arrives_set a.alphabet
  have htable := arrives_table a.table
  have hinitial := arrives_string a.initial
  have haccepting := arrives_set a.accepting
  refine arrives_record (fun _ => rfl) rfl (by decide) rfl ?_ ?_
  · simp [hkind.plain, hstates.plain, halphabet.plain, htable.plain, hinitial.plain, haccepting.plain]
  · simp [hkind.required_eq, hstates.required_eq, halphabet.required_eq, htable.required_eq,
      hinitial.required_eq, haccepting.required_eq]

/-! ## Runs -/

theorem arrives_fired (f : Fired) : Arrives f := by
  have hsource := arrives_string f.source
  have hsymbol := arrives_string f.symbol
  have htarget := arrives_string f.target
  refine arrives_record (fun _ => rfl) rfl (by decide) rfl ?_ ?_
  · simp [hsource.plain, hsymbol.plain, htarget.plain]
  · simp [hsource.required_eq, hsymbol.required_eq, htarget.required_eq]

theorem arrives_path (p : Path) : Arrives p := by
  have hstates := arrives_strings p.states
  have haccepting := arrives_bool p.accepting
  refine arrives_record (fun _ => rfl) rfl (by decide) rfl ?_ ?_
  · simp [hstates.plain, haccepting.plain]
  · simp [hstates.required_eq, haccepting.required_eq]

theorem arrives_result (r : BatchResult) : Arrives r := by
  have hinput := arrives_string r.input
  have haccepted := arrives_bool r.accepted
  refine arrives_record (fun _ => rfl) rfl (by decide) rfl ?_ ?_
  · simp [hinput.plain, haccepted.plain]
  · simp [hinput.required_eq, haccepted.required_eq]

theorem arrives_snapshot {s : Snapshot} (hl : s.length < wordSize) (hs : s.step < wordSize) :
    Arrives s := by
  have hinput := arrives_string (String.ofList s.input)
  have hlength := arrives_nat hl
  have hstep := arrives_nat hs
  have hcurrent := arrives_set s.current
  have hcomplete := arrives_bool s.complete
  have haccepted := arrives_bool s.accepted
  have hlast : Arrives s.last :=
    arrives_option fun f _ => ⟨arrives_fired f, fun h => by cases h⟩
  have hpaths : Arrives s.paths :=
    arrives_option fun ps _ => ⟨arrives_list fun p _ => arrives_path p, fun h => by cases h⟩
  refine arrives_record (fun _ => rfl) rfl (by decide) rfl ?_ ?_
  · simp [hinput.plain, hlength.plain, hstep.plain, hcurrent.plain, hcomplete.plain,
      haccepted.plain, hlast.plain, hpaths.plain]
  · simp [hinput.required_eq, hlength.required_eq, hstep.required_eq, hcurrent.required_eq,
      hcomplete.required_eq, haccepted.required_eq, hlast.optional_eq, hpaths.optional_eq]

/-! ## Conversions -/

theorem arrives_description (d : Description) : Arrives d := by
  have hfields := fun f => arrives_string (d.get f)
  refine arrives_record (fun _ => rfl) rfl (by decide) rfl ?_ ?_
  · simp [fun f => (hfields f).plain]
  · simp only [Description.Field.all, List.map_cons, List.map_nil, fun f => (hfields f).required_eq]
    rfl

theorem arrives_response (r : ConversionResponse) : Arrives r := by
  have hdfa := arrives_description r.dfa
  have hnfa := arrives_description r.nfa
  refine arrives_record (fun _ => rfl) rfl (by decide) rfl ?_ ?_
  · simp [hdfa.plain, hnfa.plain]
  · simp [hdfa.required_eq, hnfa.required_eq]

/-- What is asked for is told from the name of the only member. -/
theorem arrives_request (r : ConversionRequest) : Arrives r := by
  cases r with
  | regex expression => exact ⟨.object (by simp [(arrives_string expression).plain]), rfl⟩
  | description text => exact ⟨.object (by simp [(arrives_string text).plain]), rfl⟩

/-! ## The whole format -/

/-- Every value that is exchanged is read back from the text that is written
for it, as long as its counts are words. A table that is put together again
from its entries answers every lookup as before. -/
structure LosesNothing : Prop where
  kind : ∀ k : Kind, decode (encode k) = some k
  key : ∀ k : Key, decode (encode k) = some k
  fired : ∀ f : Fired, decode (encode f) = some f
  path : ∀ p : Path, decode (encode p) = some p
  snapshot : ∀ s : Snapshot, s.length < wordSize → s.step < wordSize → decode (encode s) = some s
  result : ∀ r : BatchResult, decode (encode r) = some r
  table : ∀ t : Table, ∃ u, decode (encode t) = some u ∧ u = Table.ofEntries t.entries ∧
    u.entries = t.entries ∧ u.index = t.index ∧
    ∀ key, u.destinations key = t.destinations key ∧ u.hasKey key = t.hasKey key
  automaton : ∀ a : Automaton, decode (encode a) = some a
  description : ∀ d : Description, decode (encode d) = some d
  response : ∀ r : ConversionResponse, decode (encode r) = some r
  request : ∀ r : ConversionRequest, decode (encode r) = some r

theorem the_format_loses_nothing : LosesNothing where
  kind k := (arrives_kind k).decode_encode
  key k := (arrives_key k).decode_encode
  fired f := (arrives_fired f).decode_encode
  path p := (arrives_path p).decode_encode
  snapshot _ hlength hstep := (arrives_snapshot hlength hstep).decode_encode
  result r := (arrives_result r).decode_encode
  table t := ⟨t, (arrives_table t).decode_encode, (ofEntries_entries t).symm, rfl, rfl,
    fun _ => ⟨rfl, rfl⟩⟩
  automaton a := (arrives_automaton a).decode_encode
  description d := (arrives_description d).decode_encode
  response r := (arrives_response r).decode_encode
  request r := (arrives_request r).decode_encode

/-- The largest counts a word holds, and characters that are escaped. -/
def farSnapshot : Snapshot where
  input := ['"', '\\', '\n', '\x01', '→', '𝄞']
  length := wordSize - 1
  step := wordSize - 1
  current := .ofList ["q", "", "\t"]
  complete := false
  accepted := false
  last := some ⟨"", "/", "q"⟩
  paths := some [⟨["p", "q"], true⟩, ⟨[], false⟩]

theorem far_snapshot_arrives : farSnapshot.length < wordSize ∧ farSnapshot.step < wordSize ∧
    decode (encode farSnapshot) = some farSnapshot :=
  ⟨by decide, by decide, the_format_loses_nothing.snapshot farSnapshot (by decide) (by decide)⟩

example : encode ["\"é\n", "\x01/"] = "[\"\\\"é\\n\",\"\\u0001/\"]" := by decide

end Stepwise.Wire
