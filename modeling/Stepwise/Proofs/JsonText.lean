-- JSON texts that were written are read back. A string is written so that its
-- end can be told from its quotes, a count so that it ends at the comma or the
-- bracket behind it, and the brackets say where a list ends, so the reader
-- comes to the end of each value and finds what was written there.
import Mathlib.Data.List.Forall2
import Stepwise.Json
import Stepwise.Proofs.Trimming

namespace Stepwise.Json

/-- What is read piece by piece is read if each piece is. -/
theorem mapM_eq_some {α β : Type} {f : α → Option β} {as : List α} {bs : List β}
    (h : List.Forall₂ (fun a b => f a = some b) as bs) : as.mapM f = some bs := by
  induction h with
  | nil => rfl
  | cons hab _ ih => simp [List.mapM_cons, hab, ih]

/-! ## Strings -/

theorem hexCode_hexDigit : ∀ n < 0x20,
    hexCode '0' '0' (hexDigit (n / 16)) (hexDigit (n % 16)) = some n := by decide

/-- A character behind a backslash stands for the one that it is short for. -/
theorem readCodes_backslash {d : Char} (hd : d ≠ 'u') (rest : List Char) :
    readCodes ('\\' :: d :: rest) =
      (unescape d).bind fun u => (readCodes rest).map fun p => (u.toNat :: p.1, p.2) := by
  rw [readCodes]
  exact fun _ _ _ _ _ hu _ => hd hu

/-- Each character is read as its code, however it is written. -/
theorem readCodes_escapeChar (c : Char) (rest : List Char) :
    readCodes (escapeChar c ++ rest) = (readCodes rest).map fun p => (c.toNat :: p.1, p.2) := by
  unfold escapeChar
  split_ifs with hquote hback hb ht hn hf hr hcontrol
  · subst hquote; exact readCodes_backslash (by decide) rest
  · subst hback; exact readCodes_backslash (by decide) rest
  · subst hb; exact readCodes_backslash (by decide) rest
  · subst ht; exact readCodes_backslash (by decide) rest
  · subst hn; exact readCodes_backslash (by decide) rest
  · subst hf; exact readCodes_backslash (by decide) rest
  · subst hr; exact readCodes_backslash (by decide) rest
  · rw [escapeCode]
    simp only [List.cons_append, List.nil_append]
    rw [readCodes, hexCode_hexDigit c.toNat hcontrol, Option.bind_some]
  · rw [List.singleton_append, readCodes, if_neg hcontrol]
    · exact hquote
    · exact fun _ _ _ _ _ h _ => hback h
    · exact fun _ _ h _ => hback h

theorem readCodes_escape (cs rest : List Char) :
    readCodes (cs.flatMap escapeChar ++ '"' :: rest) = some (cs.map Char.toNat, rest) := by
  induction cs with
  | nil => simp [readCodes]
  | cons c cs ih =>
    rw [List.flatMap_cons, List.append_assoc, readCodes_escapeChar, ih]
    rfl

/-- A character is no half of a pair. -/
theorem not_half (c : Char) : isHighHalf c.toNat = false ∧ isLowHalf c.toNat = false := by
  have hvalid : c.toNat < 0xD800 ∨ 0xDFFF < c.toNat ∧ c.toNat < 0x110000 := c.valid
  unfold isHighHalf isLowHalf
  simp only [Bool.and_eq_false_iff, decide_eq_false_iff_not]
  omega

theorem textOfCodes_map_toNat (cs : List Char) : textOfCodes (cs.map Char.toNat) = some cs := by
  induction cs with
  | nil => rfl
  | cons c cs ih =>
    obtain ⟨hhigh, hlow⟩ := not_half c
    cases cs with
    | nil => simp [textOfCodes, hhigh, hlow, Char.ofNat_toNat]
    | cons d cs =>
      rw [List.map_cons, List.map_cons] at *
      simp [textOfCodes, hhigh, hlow, ih, Char.ofNat_toNat]

theorem readString_escape (s : String) (rest : List Char) :
    readString (s.toList.flatMap escapeChar ++ '"' :: rest) = some (some s, rest) := by
  rw [readString, readCodes_escape, Option.map_some, textOfCodes_map_toNat, Option.map_some,
    String.ofList_toList]

/-! ## Counts -/

/-- What may stand behind a value. -/
def Closes (rest : List Char) : Prop := ∀ c, rest.head? = some c → c = ',' ∨ c = ']' ∨ c = '}'

theorem closes_nil : Closes [] := fun _ h => by cases h

theorem closes_cons {c : Char} {rest : List Char} (h : c = ',' ∨ c = ']' ∨ c = '}') :
    Closes (c :: rest) := by
  intro d hd
  cases hd
  exact h

theorem Closes.not_digit {rest : List Char} (h : Closes rest) :
    ∀ c, rest.head? = some c → c.isDigit = false := by
  intro c hc
  rcases h c hc with rfl | rfl | rfl <;> decide

theorem isDigit_of_mem_toDigits {n : Nat} {c : Char} (h : c ∈ Nat.toDigits 10 n) :
    c.isDigit = true :=
  Nat.isDigit_of_mem_toDigits (by decide) (by decide) h

theorem exists_toDigits_eq_cons (n : Nat) :
    ∃ c cs, Nat.toDigits 10 n = c :: cs ∧ c.isDigit = true := by
  obtain ⟨c, cs, hcs⟩ := List.exists_cons_of_ne_nil (Nat.toDigits_ne_nil (n := n) (b := 10))
  exact ⟨c, cs, hcs, isDigit_of_mem_toDigits (hcs ▸ List.mem_cons_self)⟩

theorem ofDigits_toDigits (n : Nat) : Number.ofDigits (Nat.toDigits 10 n) = n :=
  Nat.ofDigitChars_eq_foldl.symm.trans Nat.ofDigitChars_ten_toDigits

theorem head?_toDigits_append (n : Nat) (rest : List Char) :
    (Nat.toDigits 10 n ++ rest).head? = (Nat.toDigits 10 n).head? :=
  List.head?_append_of_ne_nil _ Nat.toDigits_ne_nil

theorem digitChar_ne_zero : ∀ n < 10, 0 < n → n.digitChar ≠ '0' := by decide

/-- Only zero is written with a zero in front. -/
theorem head?_toDigits_ne {n : Nat} (h : 0 < n) : (Nat.toDigits 10 n).head? ≠ some '0' := by
  induction n using Nat.strongRecOn with
  | ind n ih =>
    rw [Nat.toDigits_eq_if (by decide)]
    split
    · rename_i hlt
      rw [List.head?_cons, Ne, Option.some.injEq]
      exact digitChar_ne_zero n hlt h
    · rw [List.head?_append_of_ne_nil _ Nat.toDigits_ne_nil]
      exact ih (n / 10) (by omega) (by omega)

theorem readDigits_toDigits (n : Nat) {rest : List Char} (h : Closes rest) :
    readDigits (Nat.toDigits 10 n ++ rest) = some (Nat.toDigits 10 n, rest) := by
  have hdigits : ∀ c ∈ Nat.toDigits 10 n, c.isDigit = true := fun _ => isDigit_of_mem_toDigits
  simp only [readDigits, Text.takeWhile_append_exact hdigits h.not_digit,
    Text.dropWhile_append_exact hdigits h.not_digit]
  rw [if_neg]
  simp [Nat.toDigits_ne_nil]

theorem readWhole_toDigits (n : Nat) {rest : List Char} (h : Closes rest) :
    readWhole (Nat.toDigits 10 n ++ rest) = some (n, rest) := by
  rcases Nat.eq_zero_or_pos n with rfl | hpos
  · rw [Nat.toDigits_zero]
    rfl
  · rw [readWhole, readDigits_toDigits n h, Option.map_some, ofDigits_toDigits]
    intro cs hcs
    apply head?_toDigits_ne hpos
    rw [← head?_toDigits_append n rest, hcs]
    rfl

theorem readSign_toDigits (n : Nat) (rest : List Char) :
    readSign (Nat.toDigits 10 n ++ rest) = (false, Nat.toDigits 10 n ++ rest) := by
  rw [readSign]
  intro cs hcs
  have hhead : (Nat.toDigits 10 n).head? = some '-' := by
    rw [← head?_toDigits_append n rest, hcs]
    rfl
  exact absurd (isDigit_of_mem_toDigits (List.mem_of_head? hhead)) (by decide)

/-- Behind a count there is neither a point nor an exponent. -/
theorem readFraction_of_closes {rest : List Char} (h : Closes rest) :
    readFraction rest = some ([], rest) := by
  rw [readFraction]
  rintro cs rfl
  rcases h '.' rfl with h | h | h <;> cases h

theorem readExponent_of_closes {rest : List Char} (h : Closes rest) :
    readExponent rest = some (none, rest) := by
  cases rest with
  | nil => rfl
  | cons c rest =>
    rw [readExponent, if_neg]
    rcases h c rfl with rfl | rfl | rfl <;> decide

theorem readNumber_toDigits (n : Nat) {rest : List Char} (h : Closes rest) :
    readNumber (Nat.toDigits 10 n ++ rest) = some (.ofNat n, rest) := by
  simp only [readNumber, readSign_toDigits, readWhole_toDigits n h, readFraction_of_closes h,
    readExponent_of_closes h, Option.bind_some, Option.map_some]
  rfl

/-! ## Values -/

/-- Values whose strings all name texts and whose numbers are all counts. -/
inductive Plain : Json → Prop
  | null : Plain .null
  | bool (b : Bool) : Plain (.bool b)
  | count (n : Nat) : Plain (.ofNat n)
  | string (s : String) : Plain (.string s)
  | array {items : List Json} : (∀ v ∈ items, Plain v) → Plain (.array items)
  | object {members : List (String × Json)} : (∀ m ∈ members, Plain m.2) → Plain (.object members)

/-- What the reader does in front of the value as it is written: it reads this
value and stops behind it. -/
def IsRead (j : Json) : Prop :=
  ∀ fuel rest, Closes rest → 2 * (j.write ++ rest).length + 2 ≤ fuel →
    readValue fuel (j.write ++ rest) = some (j, rest)

/-- Neither white space nor the end of a list. -/
def Opens (cs : List Char) : Prop := ∃ c rest, cs = c :: rest ∧ isSpace c = false ∧ c ≠ ']'

theorem Opens.append {cs : List Char} (h : Opens cs) (rest : List Char) : Opens (cs ++ rest) := by
  obtain ⟨c, cs, rfl, hspace, hend⟩ := h
  exact ⟨c, cs ++ rest, rfl, hspace, hend⟩

theorem Opens.skipSpace_eq {cs : List Char} (h : Opens cs) : skipSpace cs = cs := by
  obtain ⟨c, rest, rfl, hspace, -⟩ := h
  exact List.dropWhile_cons_of_neg (by rw [hspace]; exact Bool.false_ne_true)

theorem opens_of_isDigit {c : Char} (h : c.isDigit = true) (rest : List Char) :
    Opens (c :: rest) := by
  refine ⟨c, rest, rfl, ?_, ?_⟩
  · rw [Bool.eq_false_iff]
    intro hspace
    simp only [isSpace, Bool.or_eq_true, decide_eq_true_eq] at hspace
    rcases hspace with ((rfl | rfl) | rfl) | rfl <;> exact absurd h (by decide)
  · rintro rfl
    exact absurd h (by decide)

theorem write_ofNat (n : Nat) : (ofNat n).write = Nat.toDigits 10 n := by
  simp [ofNat, write, Number.write, Number.ofNat]

theorem Plain.opens {j : Json} (h : Plain j) : Opens j.write := by
  cases h with
  | null => exact ⟨_, _, rfl, rfl, by decide⟩
  | bool b => cases b <;> exact ⟨_, _, rfl, rfl, by decide⟩
  | count n =>
    obtain ⟨c, cs, hcs, hdigit⟩ := exists_toDigits_eq_cons n
    rw [write_ofNat, hcs]
    exact opens_of_isDigit hdigit cs
  | string s => exact ⟨_, _, rfl, rfl, by decide⟩
  | array _ => exact ⟨_, _, rfl, rfl, by decide⟩
  | object _ => exact ⟨_, _, rfl, rfl, by decide⟩

/-! ## What the first character tells -/

theorem readValue_quote (fuel : Nat) (rest : List Char) : readValue (fuel + 1) ('"' :: rest) =
    (readString rest).map fun p => ((p.1.map Json.string).getD .broken, p.2) := rfl

theorem readValue_digit (fuel : Nat) {c : Char} (hc : c.isDigit = true) (rest : List Char) :
    readValue (fuel + 1) (c :: rest) =
      (readNumber (c :: rest)).map fun p => (.number p.1, p.2) := by
  rw [readValue, (opens_of_isDigit hc rest).skipSpace_eq]
  split
  case h_7 => rfl
  -- a digit starts none of the other values
  all_goals
    rename_i heq
    cases heq
    exact absurd hc (by decide)

theorem readValue_bracket (fuel : Nat) {cs : List Char} (h : Opens cs) :
    readValue (fuel + 1) ('[' :: cs) = (readItems fuel cs).map fun p => (.array p.1, p.2) := by
  have hskip : skipSpace ('[' :: cs) = '[' :: cs := rfl
  rw [readValue, hskip]
  simp only [h.skipSpace_eq]
  obtain ⟨c, rest, rfl, -, hend⟩ := h
  split
  · rename_i heq
    cases heq
    exact absurd rfl hend
  · rfl

theorem readValue_brace (fuel : Nat) (rest : List Char) :
    readValue (fuel + 1) ('{' :: '"' :: rest) =
      (readMembers fuel ('"' :: rest)).map fun p => (objectOf p.1, p.2) := rfl

/-! ## Values that are read back -/

theorem writeString_append (s : String) (rest : List Char) :
    writeString s ++ rest = '"' :: (s.toList.flatMap escapeChar ++ '"' :: rest) := by
  simp [writeString]

theorem isRead_of_succ {j : Json} (h : ∀ fuel rest, Closes rest →
    2 * (j.write ++ rest).length + 1 ≤ fuel →
      readValue (fuel + 1) (j.write ++ rest) = some (j, rest)) :
    IsRead j := by
  intro fuel rest hrest hfuel
  obtain ⟨fuel, rfl⟩ := Nat.exists_eq_add_of_le' (Nat.le_trans (Nat.le_add_left 1 _) hfuel)
  exact h fuel rest hrest (by omega)

theorem isRead_null : IsRead .null := isRead_of_succ fun _ _ _ _ => rfl

theorem isRead_bool (b : Bool) : IsRead (.bool b) := by
  refine isRead_of_succ fun fuel rest _ _ => ?_
  cases b <;> rfl

theorem isRead_count (n : Nat) : IsRead (.ofNat n) := by
  refine isRead_of_succ fun fuel rest hrest _ => ?_
  obtain ⟨c, cs, hcs, hdigit⟩ := exists_toDigits_eq_cons n
  have hnumber := readNumber_toDigits n hrest
  rw [hcs, List.cons_append] at hnumber
  rw [write_ofNat, hcs, List.cons_append, readValue_digit fuel hdigit, hnumber]
  rfl

theorem isRead_string (s : String) : IsRead (.string s) := by
  refine isRead_of_succ fun fuel rest _ _ => ?_
  show readValue _ (writeString s ++ rest) = _
  rw [writeString_append, readValue_quote, readString_escape]
  rfl

/-! ## Lists of values -/

theorem writeItems_singleton (v : Json) : writeItems [v] = v.write := rfl

theorem writeItems_cons_cons (v w : Json) (vs : List Json) :
    writeItems (v :: w :: vs) = v.write ++ ',' :: writeItems (w :: vs) := rfl

theorem writeMembers_singleton (name : String) (v : Json) :
    writeMembers [(name, v)] = writeString name ++ ':' :: v.write := rfl

theorem writeMembers_cons_cons (name : String) (v : Json) (m : String × Json)
    (ms : List (String × Json)) : writeMembers ((name, v) :: m :: ms) =
      writeString name ++ ':' :: (v.write ++ ',' :: writeMembers (m :: ms)) :=
  List.append_assoc _ _ _

section

variable {fuel : Nat} {cs rest : List Char} {v : Json} {name : String}

theorem readItems_comma (h : readValue fuel cs = some (v, ',' :: rest)) :
    readItems (fuel + 1) cs = (readItems fuel rest).map fun p => (v :: p.1, p.2) := by
  show (readValue fuel cs).bind _ = _
  rw [h]
  rfl

theorem readItems_bracket (h : readValue fuel cs = some (v, ']' :: rest)) :
    readItems (fuel + 1) cs = some ([v], rest) := by
  show (readValue fuel cs).bind _ = _
  rw [h]
  rfl

/-- Behind its name and the colon stands the value of a member. -/
theorem readMembers_eq : readMembers (fuel + 1) (writeString name ++ ':' :: cs) =
    (readValue fuel cs).bind fun (v, rest) =>
      match skipSpace rest with
      | ',' :: rest => (readMembers fuel rest).map fun p => ((some name, v) :: p.1, p.2)
      | '}' :: rest => some ([(some name, v)], rest)
      | _ => none := by
  rw [writeString_append]
  show (readString _).bind _ = _
  rw [readString_escape]
  rfl

theorem readMembers_comma (h : readValue fuel cs = some (v, ',' :: rest)) :
    readMembers (fuel + 1) (writeString name ++ ':' :: cs) =
      (readMembers fuel rest).map fun p => ((some name, v) :: p.1, p.2) := by
  rw [readMembers_eq, h]
  rfl

theorem readMembers_brace (h : readValue fuel cs = some (v, '}' :: rest)) :
    readMembers (fuel + 1) (writeString name ++ ':' :: cs) = some ([(some name, v)], rest) := by
  rw [readMembers_eq, h]
  rfl

/-- The items are read one after the other, up to the bracket behind them. -/
theorem readItems_write {items : List Json} (h : ∀ v ∈ items, IsRead v) (hne : items ≠ [])
    (hfuel : 2 * (writeItems items ++ ']' :: rest).length + 3 ≤ fuel) :
    readItems fuel (writeItems items ++ ']' :: rest) = some (items, rest) := by
  induction items generalizing fuel with
  | nil => exact absurd rfl hne
  | cons v vs ih =>
    obtain ⟨fuel, rfl⟩ := Nat.exists_eq_add_of_le' (Nat.le_trans (Nat.le_add_left 1 _) hfuel)
    have hv := h v List.mem_cons_self
    cases vs with
    | nil =>
      rw [writeItems_singleton] at hfuel ⊢
      exact readItems_bracket (hv fuel _ (closes_cons (Or.inr (Or.inl rfl))) (by omega))
    | cons w vs =>
      rw [writeItems_cons_cons, List.append_assoc, List.cons_append] at hfuel ⊢
      rw [readItems_comma (hv fuel _ (closes_cons (Or.inl rfl)) (by omega)),
        ih (fun u hu => h u (List.mem_cons_of_mem v hu)) (List.cons_ne_nil w vs)]
      · rfl
      · rw [List.length_append, List.length_cons] at hfuel
        omega

theorem readMembers_write {members : List (String × Json)} (h : ∀ m ∈ members, IsRead m.2)
    (hne : members ≠ []) (hfuel : 2 * (writeMembers members ++ '}' :: rest).length + 3 ≤ fuel) :
    readMembers fuel (writeMembers members ++ '}' :: rest) =
      some (members.map fun m => (some m.1, m.2), rest) := by
  induction members generalizing fuel with
  | nil => exact absurd rfl hne
  | cons m ms ih =>
    obtain ⟨fuel, rfl⟩ := Nat.exists_eq_add_of_le' (Nat.le_trans (Nat.le_add_left 1 _) hfuel)
    obtain ⟨name, v⟩ := m
    have hv : IsRead v := h (name, v) List.mem_cons_self
    cases ms with
    | nil =>
      rw [writeMembers_singleton, List.append_assoc, List.cons_append] at hfuel ⊢
      rw [List.length_append, List.length_cons] at hfuel
      exact readMembers_brace (hv fuel _ (closes_cons (Or.inr (Or.inr rfl))) (by omega))
    | cons m ms =>
      rw [writeMembers_cons_cons, List.append_assoc, List.cons_append, List.append_assoc,
        List.cons_append] at hfuel ⊢
      rw [List.length_append, List.length_cons] at hfuel
      rw [readMembers_comma (hv fuel _ (closes_cons (Or.inl rfl)) (by omega)),
        ih (fun u hu => h u (List.mem_cons_of_mem _ hu)) (List.cons_ne_nil m ms)]
      · rfl
      · rw [List.length_append, List.length_cons] at hfuel
        omega

end

/-! ## All values -/

theorem objectOf_some (members : List (String × Json)) :
    objectOf (members.map fun m => (some m.1, m.2)) = .object members := by
  rw [objectOf, mapM_eq_some]
  rw [List.forall₂_map_left_iff, List.forall₂_same]
  exact fun _ _ => rfl

theorem opens_writeItems {items : List Json} (h : ∀ v ∈ items, Plain v) (hne : items ≠ []) :
    Opens (writeItems items) := by
  match items with
  | [v] => exact (h v List.mem_cons_self).opens
  | v :: w :: vs => exact (h v List.mem_cons_self).opens.append _

theorem writeMembers_quote {members : List (String × Json)} (hne : members ≠ []) :
    ∃ cs, writeMembers members = '"' :: cs := by
  match members with
  | [(name, v)] => exact ⟨_, rfl⟩
  | (name, v) :: m :: ms => exact ⟨_, rfl⟩

theorem isRead_array {items : List Json} (hplain : ∀ v ∈ items, Plain v)
    (h : ∀ v ∈ items, IsRead v) :
    IsRead (.array items) := by
  refine isRead_of_succ fun fuel rest _ hfuel => ?_
  have htext : (array items).write ++ rest = '[' :: (writeItems items ++ ']' :: rest) :=
    congrArg (List.cons '[') (List.append_assoc _ _ _)
  rw [htext] at hfuel ⊢
  by_cases hne : items = []
  · subst hne
    rfl
  · rw [List.length_cons] at hfuel
    rw [readValue_bracket fuel ((opens_writeItems hplain hne).append _),
      readItems_write h hne (by omega)]
    rfl

theorem isRead_object {members : List (String × Json)} (h : ∀ m ∈ members, IsRead m.2) :
    IsRead (.object members) := by
  refine isRead_of_succ fun fuel rest _ hfuel => ?_
  have htext : (object members).write ++ rest = '{' :: (writeMembers members ++ '}' :: rest) :=
    congrArg (List.cons '{') (List.append_assoc _ _ _)
  rw [htext] at hfuel ⊢
  by_cases hne : members = []
  · subst hne
    rfl
  · rw [List.length_cons] at hfuel
    have hmembers : readMembers fuel (writeMembers members ++ '}' :: rest) =
        some (members.map fun m => (some m.1, m.2), rest) := readMembers_write h hne (by omega)
    obtain ⟨cs, hcs⟩ := writeMembers_quote hne
    rw [hcs, List.cons_append] at hmembers ⊢
    rw [readValue_brace, hmembers, Option.map_some, objectOf_some]

theorem Plain.isRead {j : Json} (h : Plain j) : IsRead j := by
  induction h with
  | null => exact isRead_null
  | bool b => exact isRead_bool b
  | count n => exact isRead_count n
  | string s => exact isRead_string s
  | array hplain ih => exact isRead_array hplain ih
  | object _ ih => exact isRead_object ih

/-- A value of texts and counts is read back from its text. -/
theorem parse_text {j : Json} (h : Plain j) : parse j.text = some j := by
  have hread := h.isRead (2 * j.write.length + 2) [] closes_nil (by rw [List.append_nil])
  rw [List.append_nil] at hread
  rw [parse, text, String.toList_ofList, read, hread]
  rfl

end Stepwise.Json
