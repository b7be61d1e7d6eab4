-- The two parts of an input: what a run has read and what it has still to read. As
-- text the input is a row of bytes, and a place in it is a number of bytes that has to
-- fall between two characters. The place that is found by counting characters always
-- does, also when the step lies behind the end of the input.
import Stepwise.Proofs.Run

namespace Stepwise

/-! ## Places in a text -/

namespace Word

/-- The characters, each with the byte at which it starts, if the first one starts at
the given byte. -/
def charStarts (start : Nat) : Word → List (Nat × Char)
  | [] => []
  | c :: rest => (start, c) :: charStarts (start + c.utf8Size) rest

def byteSize (w : Word) : Nat := (String.ofList w).utf8ByteSize

/-- The byte at which the character with this number starts. Behind the last character
it is the end of the text. -/
def byteOf (w : Word) (n : Nat) : String.Pos.Raw :=
  ⟨((charStarts 0 w)[n]?.map Prod.fst).getD w.byteSize⟩

theorem byteSize_cons (c : Char) (w : Word) : byteSize (c :: w) = c.utf8Size + byteSize w := by
  unfold byteSize
  rw [String.ofList_cons, String.utf8ByteSize_append, String.utf8ByteSize_singleton]

/-- A character starts behind the bytes of all characters before it. -/
theorem getElem?_charStarts (start : Nat) (w : Word) (n : Nat) :
    (charStarts start w)[n]? = w[n]?.map fun c => (start + byteSize (w.take n), c) := by
  induction w generalizing start n with
  | nil => rfl
  | cons c w ih =>
    cases n with
    | zero => rfl
    | succ n =>
      rw [charStarts, List.getElem?_cons_succ, List.getElem?_cons_succ, ih, List.take_succ_cons,
        byteSize_cons]
      simp only [Nat.add_assoc]

theorem byteOf_eq (w : Word) (n : Nat) : byteOf w n = (String.ofList (w.take n)).rawEndPos := by
  unfold byteOf
  rw [getElem?_charStarts, Option.map_map]
  rcases Nat.lt_or_ge n w.length with hlt | hge
  · rw [List.getElem?_eq_getElem hlt, Option.map_some, Option.getD_some]
    exact congrArg String.Pos.Raw.mk (Nat.zero_add _)
  · rw [List.getElem?_eq_none hge, List.take_of_length_le hge]
    rfl

end Word

/-! ## Cutting a text at a byte -/

namespace Text

/-- The text up to a byte. There is none if the byte lies inside of a character or
behind the end of the text. -/
def upTo? (text : String) (byte : String.Pos.Raw) : Option String :=
  if h : byte.IsValid text then some (text.sliceTo (text.pos byte h)).copy else none

/-- The text from a byte on. -/
def from? (text : String) (byte : String.Pos.Raw) : Option String :=
  if h : byte.IsValid text then some (text.sliceFrom (text.pos byte h)).copy else none

variable (v w : String)

theorem rawEndPos_isValid : v.rawEndPos.IsValid (v ++ w) :=
  String.Pos.Raw.isValid_rawEndPos.append_right w

theorem splits_append : ((v ++ w).pos v.rawEndPos (rawEndPos_isValid v w)).Splits v w :=
  ⟨rfl, String.offset_pos⟩

theorem upTo?_append : upTo? (v ++ w) v.rawEndPos = some v := by
  rw [upTo?, dif_pos (rawEndPos_isValid v w), (splits_append v w).copy_sliceTo_eq]

theorem from?_append : from? (v ++ w) v.rawEndPos = some w := by
  rw [from?, dif_pos (rawEndPos_isValid v w), (splits_append v w).copy_sliceFrom_eq]

end Text

/-! ## The parts of the input -/

namespace Snapshot

open Text

/-- The parts make up the input, and there are as many symbols in the first one as the
step says, or all of them. The cuts of the text are allowed ones: up to the byte where
the next symbol starts, and from the byte where the first part ends. -/
structure Parted (s : Snapshot) : Prop where
  append_eq : s.consumed ++ s.remaining = s.input
  length_consumed : s.consumed.length = min s.step s.input.length
  upTo_eq : upTo? (String.ofList s.input) (s.input.byteOf s.step) = some (String.ofList s.consumed)
  from_eq : from? (String.ofList s.input) (String.ofList s.consumed).rawEndPos =
    some (String.ofList s.remaining)
  nextSymbol_eq : s.nextSymbol = s.remaining.head?
  nextSymbol_none : s.nextSymbol = none ↔ s.remaining = []

theorem parted (s : Snapshot) : s.Parted := by
  have happend : s.consumed ++ s.remaining = s.input := List.take_append_drop s.step s.input
  have htext : String.ofList s.input = String.ofList s.consumed ++ String.ofList s.remaining := by
    rw [← String.ofList_append, happend]
  have hnext : s.nextSymbol = s.remaining.head? := List.head?_drop.symm
  refine ⟨happend, List.length_take, ?_, ?_, hnext, ?_⟩
  · have hbyte : s.input.byteOf s.step = (String.ofList s.consumed).rawEndPos :=
      Word.byteOf_eq s.input s.step
    rw [hbyte, htext, upTo?_append]
  · rw [htext, from?_append]
  · rw [hnext, List.head?_eq_none_iff]

/-! ## Reading on -/

variable {a : Automaton} {s t u : Snapshot} {word more : Word}

/-- The word goes from the front of what remains to the end of what is read. -/
structure ReadsOn (s t : Snapshot) (word : Word) : Prop where
  consumed_eq : t.consumed = s.consumed ++ word
  remaining_eq : s.remaining = word ++ t.remaining

theorem ReadsOn.refl (s : Snapshot) : s.ReadsOn s [] := ⟨(List.append_nil _).symm, rfl⟩

theorem ReadsOn.trans (h : s.ReadsOn t word) (h' : t.ReadsOn u more) :
    s.ReadsOn u (word ++ more) := by
  refine ⟨?_, ?_⟩
  · rw [h'.consumed_eq, h.consumed_eq, List.append_assoc]
  · rw [h.remaining_eq, h'.remaining_eq, List.append_assoc]

/-- A step moves the next symbol and nothing else, so without one it moves nothing. -/
theorem readsOn_next (h : s.next? a = some t) : s.ReadsOn t s.nextSymbol.toList := by
  obtain ⟨-, ⟨hnone, rfl⟩ | ⟨c, hc, rfl⟩⟩ := next?_cases h
  · rw [hnone]
    exact ⟨(List.append_nil _).symm, rfl⟩
  · exact ⟨consumed_consume a s c, List.drop_eq_getElem?_toList_append⟩

theorem readsOn_of_mem_following (h : t ∈ s :: s.following a) : ∃ word, s.ReadsOn t word := by
  refine forall_following (P := fun t => ∃ word, s.ReadsOn t word) ⟨[], ReadsOn.refl s⟩ ?_ t h
  rintro u v ⟨word, hword⟩ hv
  exact ⟨word ++ u.nextSymbol.toList, hword.trans (readsOn_next hv)⟩

/-- Whatever a snapshot holds, what is read and what remains are the two parts of its
input. A step that reads moves the first symbol that remains from the one to the other,
and so does a run with the symbols that it reads. -/
theorem the_input_stays_in_two_parts :
    (∀ s : Snapshot, s.Parted) ∧
    (∀ (a : Automaton) (s t : Snapshot), s.next? a = some t → s.ReadsOn t s.nextSymbol.toList) ∧
    ∀ (a : Automaton) (s : Snapshot), ∀ t ∈ s.following a, ∃ word, s.ReadsOn t word :=
  ⟨parted, fun _ _ _ => readsOn_next,
    fun _ _ _ ht => readsOn_of_mem_following (List.mem_cons_of_mem _ ht)⟩

/-- An automaton without transitions. -/
def idle : Automaton := ⟨.nfa, ∅, ∅, .empty, "q", ∅⟩

/-- The second of four characters is next. They take one, two, three and four bytes. -/
def manyBytes : Snapshot where
  input := ['a', 'ß', '日', '😀']
  length := 4
  step := 1
  current := .single "q"
  complete := false
  accepted := false
  last := none
  paths := none

theorem manyBytes_reads_on :
    manyBytes.next? idle = some (manyBytes.consume idle 'ß') ∧
    manyBytes.ReadsOn (manyBytes.consume idle 'ß') ['ß'] ∧
    manyBytes.consume idle 'ß' ∈ manyBytes.following idle ∧
    (∃ word, manyBytes.ReadsOn (manyBytes.consume idle 'ß') word) ∧
    (manyBytes.consume idle 'ß').input.byteOf 2 = ⟨3⟩ ∧
    Parted { manyBytes with step := 7 } := by
  have hnext : manyBytes.next? idle = some (manyBytes.consume idle 'ß') :=
    next?_of_nextSymbol rfl rfl
  have hmem : manyBytes.consume idle 'ß' ∈ manyBytes.following idle := by
    rw [following_of_some hnext]
    exact List.mem_cons_self
  exact ⟨hnext, the_input_stays_in_two_parts.2.1 idle manyBytes _ hnext, hmem,
    the_input_stays_in_two_parts.2.2 idle manyBytes _ hmem, rfl, the_input_stays_in_two_parts.1 _⟩

end Snapshot

end Stepwise
