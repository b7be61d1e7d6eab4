-- The grammar of a transition line. A line is read exactly if it has a comma,
-- an arrow behind it, something between the two, and a name on either side.
-- As names hold neither, the comma is the first and the arrow the last one.
import Stepwise.Proofs.Lines
import Stepwise.Proofs.Nesting
import Stepwise.Proofs.Operations
import Stepwise.TransitionText

namespace Stepwise

open Text

namespace TransitionLine

/-! ## Names -/

theorem toNat_of_isWordChar {c : Char} (h : isWordChar c = true) :
    48 ≤ c.toNat ∧ c.toNat ≤ 57 ∨ 65 ≤ c.toNat ∧ c.toNat ≤ 90 ∨ c.toNat = 95 ∨
      97 ≤ c.toNat ∧ c.toNat ≤ 122 := by
  unfold isWordChar Char.isAlphanum Char.isAlpha Char.isUpper Char.isLower Char.isDigit at h
  simp only [Bool.or_eq_true, Bool.and_eq_true, decide_eq_true_eq, UInt32.le_iff_toNat_le,
    ge_iff_le] at h
  rcases h with ((h | h) | h) | rfl
  · exact Or.inr (Or.inl h)
  · exact Or.inr (Or.inr (Or.inr h))
  · exact Or.inl h
  · exact Or.inr (Or.inr (Or.inl rfl))

theorem not_blank_of_isWordChar {c : Char} (h : isWordChar c = true) : isBlank c = false := by
  rw [Bool.eq_false_iff]
  intro hb
  have hrange := toNat_of_isWordChar h
  unfold isBlank blankRanges at hb
  simp only [List.any_cons, List.any_nil, Bool.or_eq_true, Bool.and_eq_true, decide_eq_true_eq,
    Bool.or_false] at hb
  omega

theorem not_isWordChar_of_blank {c : Char} (h : isBlank c = true) : isWordChar c = false := by
  rw [Bool.eq_false_iff]
  intro hc
  rw [not_blank_of_isWordChar hc] at h
  cases h

theorem isWord_iff {cs : List Char} :
    isWord cs = true ↔ cs ≠ [] ∧ ∀ c ∈ cs, isWordChar c = true := by
  unfold isWord
  rw [Bool.and_eq_true, List.all_eq_true]
  simp

theorem not_mem_of_isWord {cs : List Char} (h : isWord cs = true) {c : Char}
    (hc : isWordChar c = false) : c ∉ cs := by
  intro hmem
  rw [(isWord_iff.mp h).2 c hmem] at hc
  cases hc

theorem trim_of_isWord {cs : List Char} (h : isWord cs = true) : trim cs = cs :=
  trim_eq_self_of_forall fun c hc => not_blank_of_isWordChar ((isWord_iff.mp h).2 c hc)

theorem plain_of_isWord {cs : List Char} (h : isWord cs = true) : Plain cs := by
  intro c hc
  rw [Bool.eq_false_iff]
  intro hb
  have hword := (isWord_iff.mp h).2 c hc
  rcases bracket_cases hb with rfl | rfl | rfl | rfl <;> exact absurd hword (by decide)

/-- A text whose trimmed form is a name holds no character but those of the
name and white space. -/
theorem not_mem_of_isWord_trim {cs : List Char} (h : isWord (trim cs) = true) {c : Char}
    (hb : isBlank c = false) (hw : isWordChar c = false) : c ∉ cs := by
  obtain ⟨v, w, hv, hw', hcs⟩ := exists_eq_trim cs
  rw [hcs, List.mem_append, List.mem_append, not_or, not_or]
  exact ⟨⟨not_mem_of_allBlank hv hb, not_mem_of_isWord h hw⟩, not_mem_of_allBlank hw' hb⟩

theorem plain_of_isWord_trim {cs : List Char} (h : isWord (trim cs) = true) : Plain cs := by
  intro c hc
  rw [Bool.eq_false_iff]
  intro hbracket
  refine not_mem_of_isWord_trim h (c := c) ?_ ?_ hc
  · rcases bracket_cases hbracket with rfl | rfl | rfl | rfl <;> decide
  · rcases bracket_cases hbracket with rfl | rfl | rfl | rfl <;> decide

theorem not_blank_of_isWord_trim {cs : List Char} (h : isWord (trim cs) = true) :
    allBlank cs = false := trim_ne_nil_iff.mp (isWord_iff.mp h).1

/-! ## Commas and arrows -/

theorem cutAtFirstComma_append {a : List Char} (h : ',' ∉ a) (b : List Char) :
    cutAtFirstComma (a ++ ',' :: b) = some (a, b) := by
  induction a with
  | nil => rfl
  | cons c a ih =>
    rw [List.mem_cons, not_or] at h
    rw [List.cons_append, cutAtFirstComma, if_neg (Ne.symm h.1), ih h.2]
    rfl

theorem eq_of_cutAtFirstComma {cs a b : List Char} (h : cutAtFirstComma cs = some (a, b)) :
    cs = a ++ ',' :: b := by
  induction cs generalizing a with
  | nil => cases h
  | cons c cs ih =>
    unfold cutAtFirstComma at h
    split at h
    · rename_i hc
      cases h
      rw [hc, List.nil_append]
    · obtain ⟨⟨a', b'⟩, hcut, hp⟩ := Option.map_eq_some_iff.mp h
      cases hp
      rw [ih hcut, List.cons_append]

/-- The two ways to write an arrow. -/
inductive Arrow where
  | sign
  | letters
  deriving DecidableEq

def Arrow.text : Arrow → List Char
  | sign => ['→']
  | letters => ['-', '>']

theorem dropArrow_reverse (arrow : Arrow) (before : List Char) :
    dropArrow (arrow.text.reverse ++ before) = some before := by
  cases arrow <;> rfl

theorem eq_of_dropArrow {cs before : List Char} (h : dropArrow cs = some before) :
    ∃ arrow : Arrow, cs = arrow.text.reverse ++ before := by
  unfold dropArrow at h
  split at h
  · cases h
    exact ⟨.sign, rfl⟩
  · cases h
    exact ⟨.letters, rfl⟩
  · cases h

/-- The last character of an arrow is neither blank nor part of a name. -/
theorem head?_reverse_arrow {arrow : Arrow} {rest : List Char} {c : Char}
    (h : (arrow.text.reverse ++ rest).head? = some c) :
    isBlank c = false ∧ isWordChar c = false := by
  cases arrow <;> cases h <;> decide

/-! ## The parts of a line -/

/-- A line in its parts, the names with the white space around them. -/
structure Parts where
  front : List Char
  between : List Char
  arrow : Arrow
  back : List Char
  source_word : isWord (trim front) = true
  target_word : isWord (trim back) = true
  between_ne_nil : between ≠ []

namespace Parts

/-- What stands behind the comma. -/
def tail (p : Parts) : List Char := p.between ++ (p.arrow.text ++ p.back)

def text (p : Parts) : List Char := p.front ++ ',' :: p.tail

def source (p : Parts) : List Char := trim p.front

def symbol (p : Parts) : List Char := symbolOf p.between

def target (p : Parts) : List Char := trim p.back

def triple (p : Parts) : Triple :=
  ⟨String.ofList p.source, String.ofList p.symbol, String.ofList p.target⟩

theorem not_mem_between {p : Parts} {c : Char} (h : c ∉ p.text) : c ∉ p.between := fun hmem =>
  h (List.mem_append_right _ (List.mem_cons_of_mem _ (List.mem_append_left _ hmem)))

theorem comma_not_mem_front (p : Parts) : ',' ∉ p.front :=
  not_mem_of_isWord_trim p.source_word (by decide) (by decide)

theorem text_not_blank (p : Parts) : allBlank p.text = false := by
  have hmem : ',' ∈ p.text := List.mem_append_right _ List.mem_cons_self
  exact allBlank_eq_false_of_mem hmem (by decide)

/-- From its end, the tail gives its parts back one by one. -/
theorem readTail_tail (p : Parts) : readTail p.tail = some (p.symbol, p.target) := by
  obtain ⟨v, w, hv, hw, hback⟩ := exists_eq_trim p.back
  obtain ⟨hne, hchars⟩ := isWord_iff.mp p.target_word
  -- backwards: white space, the target, white space, the arrow and the rest
  have hreverse : p.tail.reverse = w.reverse ++ ((trim p.back).reverse ++ (v.reverse ++
      (p.arrow.text.reverse ++ p.between.reverse))) := by
    unfold tail
    rw [List.reverse_append, List.reverse_append]
    conv_lhs => rw [hback]
    simp only [List.reverse_append, List.append_assoc]
  have hv' : ∀ c ∈ v.reverse, isBlank c = true :=
    fun c hc => allBlank_iff.mp hv c (List.mem_reverse.mp hc)
  have hw' : ∀ c ∈ w.reverse, isBlank c = true :=
    fun c hc => allBlank_iff.mp hw c (List.mem_reverse.mp hc)
  have ht' : ∀ c ∈ (trim p.back).reverse, isWordChar c = true :=
    fun c hc => hchars c (List.mem_reverse.mp hc)
  have hdrop : p.tail.reverse.dropWhile isBlank = (trim p.back).reverse ++ (v.reverse ++
      (p.arrow.text.reverse ++ p.between.reverse)) := by
    rw [hreverse]
    apply dropWhile_append_exact hw'
    intro c hc
    rw [List.head?_append_of_ne_nil _ (by simpa using hne)] at hc
    exact not_blank_of_isWordChar (ht' c (List.mem_of_head? hc))
  have hstop : ∀ c, (v.reverse ++ (p.arrow.text.reverse ++ p.between.reverse)).head? = some c →
      isWordChar c = false := by
    intro c hc
    by_cases hnil : v.reverse = []
    · rw [hnil, List.nil_append] at hc
      exact (head?_reverse_arrow hc).2
    · rw [List.head?_append_of_ne_nil _ hnil] at hc
      exact not_isWordChar_of_blank (hv' c (List.mem_of_head? hc))
  unfold readTail
  simp only [hdrop, takeWhile_append_exact ht' hstop, dropWhile_append_exact ht' hstop,
    dropWhile_append_exact hv' fun c hc => (head?_reverse_arrow hc).1, dropArrow_reverse,
    List.reverse_reverse]
  have hempty : ((trim p.back).isEmpty || p.between.reverse.isEmpty) = false := by
    simp [hne, p.between_ne_nil]
  rw [if_neg (by simpa using hempty)]
  rfl

theorem read_text (p : Parts) : read p.text = some p.triple := by
  unfold read text
  rw [cutAtFirstComma_append p.comma_not_mem_front]
  simp only [p.source_word, if_true, p.readTail_tail, Option.map_some]
  rfl

end Parts

/-- What is read behind the comma has the parts of a tail. -/
theorem eq_of_readTail {tail symbol target : List Char} (h : readTail tail = some (symbol, target)) :
    ∃ between arrow back, tail = between ++ (Arrow.text arrow ++ back) ∧ between ≠ [] ∧
      isWord target = true ∧ trim back = target ∧ symbolOf between = symbol := by
  unfold readTail at h
  simp only at h
  split at h
  · cases h
  · rename_i before hbefore
    split at h
    · cases h
    · rename_i hne
      rw [Bool.or_eq_true, not_or] at hne
      rw [Option.some.injEq, Prod.mk.injEq] at h
      obtain ⟨hsymbol, htarget⟩ := h
      rw [htarget] at hne
      obtain ⟨arrow, harrow⟩ := eq_of_dropArrow hbefore
      generalize hback : tail.reverse.dropWhile isBlank = back at *
      generalize hrest : back.dropWhile isWordChar = rest at *
      have htail : tail.reverse = tail.reverse.takeWhile isBlank ++ (back.takeWhile isWordChar ++
          (rest.takeWhile isBlank ++ (arrow.text.reverse ++ before))) := by
        rw [← harrow, List.takeWhile_append_dropWhile, ← hrest, List.takeWhile_append_dropWhile,
          ← hback, List.takeWhile_append_dropWhile]
      have hword : isWord target = true := by
        rw [isWord_iff]
        refine ⟨?_, ?_⟩
        · rintro rfl
          exact hne.1 rfl
        · intro c hc
          rw [← htarget, List.mem_reverse] at hc
          exact List.mem_takeWhile_imp hc
      refine ⟨before.reverse, arrow, (rest.takeWhile isBlank).reverse ++ target ++
        (tail.reverse.takeWhile isBlank).reverse, ?_, ?_, hword, ?_, hsymbol⟩
      · conv_lhs => rw [← List.reverse_reverse tail, htail]
        rw [← htarget]
        simp only [List.reverse_append, List.reverse_reverse, List.append_assoc]
      · simpa using hne.2
      · have hblank : ∀ l : List Char, allBlank (l.takeWhile isBlank).reverse = true := by
          intro l
          exact allBlank_iff.mpr fun c hc => List.mem_takeWhile_imp (List.mem_reverse.mp hc)
        rw [trim_append_blank (hblank _), trim_blank_append (hblank _), trim_of_isWord hword]

/-- A line is read exactly if it has the parts of a line, and it then gives
the transition of its parts. -/
theorem read_eq_some_iff {line : List Char} {x : Triple} :
    read line = some x ↔ ∃ p : Parts, p.text = line ∧ p.triple = x := by
  constructor
  · intro h
    unfold read at h
    split at h
    · cases h
    · rename_i front tail hcut
      simp only at h
      split at h
      · rename_i hsource
        obtain ⟨⟨symbol, target⟩, htail, rfl⟩ := Option.map_eq_some_iff.mp h
        obtain ⟨between, arrow, back, hparts, hne, hword, rfl, rfl⟩ := eq_of_readTail htail
        refine ⟨⟨front, between, arrow, back, hsource, hword, hne⟩, ?_, rfl⟩
        rw [eq_of_cutAtFirstComma hcut, hparts]
        rfl
      · cases h
  · rintro ⟨p, rfl, rfl⟩
    exact p.read_text

theorem read_of_allBlank {line : List Char} (h : allBlank line = true) : read line = none := by
  cases hread : read line with
  | none => rfl
  | some x =>
    obtain ⟨p, rfl, _⟩ := read_eq_some_iff.mp hread
    rw [p.text_not_blank] at h
    cases h

theorem symbolOf_of_not_blank {cs : List Char} (h : allBlank cs = false) : symbolOf cs = trim cs := by
  unfold symbolOf
  rw [h]
  rfl

theorem symbolOf_of_blank {cs : List Char} (h : allBlank cs = true) :
    symbolOf cs = cs.getLast?.toList := by
  unfold symbolOf
  rw [if_pos h]
  induction cs using List.reverseRecOn with
  | nil => rfl
  | append_singleton cs c =>
    rw [List.getLast?_concat, List.length_append, List.length_singleton, Nat.add_sub_cancel,
      List.drop_left]
    rfl

theorem allBlank_symbolOf {cs : List Char} (h : allBlank cs = true) :
    allBlank (symbolOf cs) = true := by
  unfold symbolOf
  rw [if_pos h, allBlank_iff]
  exact fun c hc => allBlank_iff.mp h c (List.mem_of_mem_drop hc)

/-! ## Written lines -/

/-- A transition in plain form is a line if its texts hold no line feed and
something stands at its end. -/
theorem isLine_write {source symbol target : List Char} (hsource : '\n' ∉ source)
    (hsymbol : '\n' ∉ symbol) (htarget : '\n' ∉ target) (hne : target ≠ [])
    (hlast : ∀ c, target.getLast? = some c → isBlank c = false) :
    IsLine (write ⟨String.ofList source, String.ofList symbol, String.ofList target⟩) := by
  unfold write
  simp only [String.toList_ofList]
  constructor
  · simp [hsource, hsymbol, htarget]
  · intro hr
    rw [List.getLast?_append_of_ne_nil _ hne] at hr
    exact absurd (hlast '\r' hr) (by decide)

/-- Of a written symbol is read what is left with the space behind it. -/
theorem read_write_eq {source symbol target : List Char} (hsource : isWord source = true)
    (htarget : isWord target = true) :
    read (write ⟨String.ofList source, String.ofList symbol, String.ofList target⟩) =
      some ⟨String.ofList source, String.ofList (symbolOf (symbol ++ [' '])), String.ofList target⟩ := by
  have hback : trim (' ' :: target) = target := by
    rw [← List.singleton_append, trim_blank_append (by decide), trim_of_isWord htarget]
  refine read_eq_some_iff.mpr ⟨⟨source, symbol ++ [' '], .sign, ' ' :: target, ?_, ?_, by simp⟩, ?_, ?_⟩
  · rw [trim_of_isWord hsource, hsource]
  · rw [hback, htarget]
  · simp [Parts.text, Parts.tail, Arrow.text, write]
  · simp only [Parts.triple, Parts.source, Parts.symbol, Parts.target, hback, trim_of_isWord hsource]

/-- A symbol without white space around it is read as it was written. -/
theorem symbolOf_append_space {symbol : List Char} (hsymbol : trim symbol = symbol)
    (hne : symbol ≠ []) : symbolOf (symbol ++ [' ']) = symbol := by
  have hnot : allBlank symbol = false := by rwa [← trim_ne_nil_iff, hsymbol]
  rw [symbolOf_of_not_blank (by rw [allBlank_append, hnot, Bool.false_and]),
    trim_append_blank (by decide), hsymbol]

/-- The transition that is written in plain form is read again. -/
theorem read_write {source symbol target : List Char} (hsource : isWord source = true)
    (hsymbol : trim symbol = symbol) (hne : symbol ≠ []) (htarget : isWord target = true) :
    read (write ⟨String.ofList source, String.ofList symbol, String.ofList target⟩) =
      some ⟨String.ofList source, String.ofList symbol, String.ofList target⟩ := by
  rw [read_write_eq hsource htarget, symbolOf_append_space hsymbol hne]

end TransitionLine

/-! ## Whole texts -/

namespace TransitionText

/-- The transitions that the lines of a text spell out, in their order. -/
def readings (text : List Char) : List Triple := (lines text).filterMap TransitionLine.read

/-- The warning that a line brings with it. -/
def warning? (numbered : List Char × Nat) : Option LineWarning :=
  if allBlank numbered.1 || (TransitionLine.read numbered.1).isSome then none
  else some ⟨numbered.2, numbered.1, TransitionLine.fault numbered.1⟩

/-- A line adds its transition or its warning, or it is blank. -/
theorem addLine_eq (sofar : TransitionText) (numbered : List Char × Nat) :
    addLine sofar numbered =
      ⟨sofar.table.addAll (TransitionLine.read numbered.1).toList,
        sofar.warnings ++ (warning? numbered).toList⟩ := by
  obtain ⟨line, number⟩ := numbered
  unfold addLine warning?
  dsimp only
  by_cases hblank : allBlank line = true
  · rw [if_pos hblank, hblank, Bool.true_or, if_pos rfl, TransitionLine.read_of_allBlank hblank]
    simp [Table.addAll]
  · rw [if_neg hblank]
    cases hread : TransitionLine.read line with
    | none => simp [Table.addAll, hblank]
    | some x => simp [Table.addAll, hblank]

theorem foldl_addLine (numbered : List (List Char × Nat)) (sofar : TransitionText) :
    numbered.foldl addLine sofar =
      ⟨sofar.table.addAll (numbered.filterMap fun n => TransitionLine.read n.1),
        sofar.warnings ++ numbered.filterMap warning?⟩ := by
  induction numbered generalizing sofar with
  | nil => simp [Table.addAll]
  | cons n ns ih =>
    rw [List.foldl_cons, ih, addLine_eq, List.filterMap_cons, List.filterMap_cons]
    cases TransitionLine.read n.1 <;> cases warning? n <;> simp [Table.addAll]

/-- The table of a text is that of the transitions that its lines spell out. -/
theorem table_parse (text : List Char) : (parse text).table = .ofTriples (readings text) := by
  unfold parse readings
  rw [foldl_addLine]
  show Table.empty.addAll _ = Table.empty.addAll _
  congr 1
  conv_rhs => rw [← List.zipIdx_map_fst 1 (lines text), List.filterMap_map]
  rfl

/-- There is no warning if every line is blank or read. -/
theorem warnings_parse_eq_nil {text : List Char}
    (h : ∀ line ∈ lines text, allBlank line = true ∨ (TransitionLine.read line).isSome = true) :
    (parse text).warnings = [] := by
  unfold parse
  rw [foldl_addLine, List.nil_append, List.filterMap_eq_nil_iff]
  intro n hn
  have hmem : n.1 ∈ lines text := by
    rw [← List.zipIdx_map_fst 1 (lines text)]
    exact List.mem_map_of_mem hn
  unfold warning?
  rw [if_pos]
  rcases h n.1 hmem with hline | hline
  · rw [hline, Bool.true_or]
  · rw [hline, Bool.or_true]

/-- A transition between names, written in plain form, is all that is read. -/
theorem parse_write {source symbol target : List Char}
    (hsource : TransitionLine.isWord source = true) (hsymbol : trim symbol = symbol)
    (hne : symbol ≠ []) (hone : '\n' ∉ symbol) (htarget : TransitionLine.isWord target = true) :
    parse (TransitionLine.write
        ⟨String.ofList source, String.ofList symbol, String.ofList target⟩) =
      ⟨.ofTriples [⟨String.ofList source, String.ofList symbol, String.ofList target⟩], []⟩ := by
  have hread := TransitionLine.read_write hsource hsymbol hne htarget
  have hchars := (TransitionLine.isWord_iff.mp htarget).2
  have hline := TransitionLine.isLine_write
    (TransitionLine.not_mem_of_isWord hsource (by decide)) hone
    (TransitionLine.not_mem_of_isWord htarget (by decide)) (TransitionLine.isWord_iff.mp htarget).1
    fun c hc => TransitionLine.not_blank_of_isWordChar (hchars c (List.mem_of_getLast? hc))
  generalize TransitionLine.write
    ⟨String.ofList source, String.ofList symbol, String.ofList target⟩ = written at hread hline ⊢
  have hlines : lines written = [written] := by
    apply lines_of_ne_nil hline.1
    rintro rfl
    rw [TransitionLine.read_of_allBlank rfl] at hread
    cases hread
  have htable := table_parse written
  have hwarnings : (parse written).warnings = [] := by
    apply warnings_parse_eq_nil
    intro line hmem
    rw [hlines, List.mem_singleton] at hmem
    rw [hmem, hread]
    exact Or.inr rfl
  rw [readings, hlines, List.filterMap_cons, hread, List.filterMap_nil] at htable
  rw [← htable, ← hwarnings]

end TransitionText

end Stepwise
