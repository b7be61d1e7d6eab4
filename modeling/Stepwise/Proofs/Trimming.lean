-- White space around a text. Trimming takes off the blank ends and stops at
-- the first character on either side that is none, so blank text put around a
-- text never shows after it.
import Mathlib.Data.List.DropRight
import Mathlib.Data.List.TakeWhile
import Stepwise.Text

namespace Stepwise.Text

variable {cs v w : List Char} {c : Char}

/-! ## Runs of characters -/

theorem takeWhile_append_exact {p : Char → Bool} {rest : List Char} (h : ∀ c ∈ cs, p c = true)
    (hrest : ∀ c, rest.head? = some c → p c = false) : (cs ++ rest).takeWhile p = cs := by
  rw [List.takeWhile_append_of_pos h]
  cases rest with
  | nil => simp
  | cons c rest => simp [hrest c rfl]

theorem dropWhile_append_exact {p : Char → Bool} {rest : List Char} (h : ∀ c ∈ cs, p c = true)
    (hrest : ∀ c, rest.head? = some c → p c = false) : (cs ++ rest).dropWhile p = rest := by
  rw [List.dropWhile_append_of_pos h]
  cases rest with
  | nil => rfl
  | cons c rest => simp [hrest c rfl]

/-! ## Blank texts -/

theorem allBlank_iff : allBlank cs = true ↔ ∀ c ∈ cs, isBlank c = true := List.all_eq_true

theorem allBlank_append : allBlank (v ++ w) = (allBlank v && allBlank w) := List.all_append

theorem allBlank_eq_false_of_mem (hc : c ∈ cs) (hb : isBlank c = false) : allBlank cs = false :=
  List.all_eq_false.mpr ⟨c, hc, Bool.eq_false_iff.mp hb⟩

/-! ## The two ends -/

theorem trimEnd_eq (cs : List Char) : trimEnd cs = cs.rdropWhile isBlank := rfl

theorem trimStart_blank_append (h : allBlank w = true) : trimStart (w ++ cs) = trimStart cs := by
  unfold trimStart
  exact List.dropWhile_append_of_pos (allBlank_iff.mp h)

theorem trimEnd_append_blank (h : allBlank w = true) : trimEnd (cs ++ w) = trimEnd cs := by
  unfold trimEnd
  rw [List.reverse_append, List.dropWhile_append_of_pos]
  intro c hc
  exact allBlank_iff.mp h c (List.mem_reverse.mp hc)

theorem trimStart_eq_nil_iff : trimStart cs = [] ↔ allBlank cs = true := by
  unfold trimStart
  rw [List.dropWhile_eq_nil_iff, allBlank_iff]

theorem trimEnd_eq_nil_iff : trimEnd cs = [] ↔ allBlank cs = true := by
  rw [trimEnd_eq, List.rdropWhile_eq_nil_iff, allBlank_iff]

theorem trimStart_of_not_blank (h : isBlank c = false) : trimStart (c :: cs) = c :: cs := by
  unfold trimStart
  rw [List.dropWhile_cons_of_neg (by simp [h])]

theorem trimEnd_concat_of_not_blank (h : isBlank c = false) : trimEnd (cs ++ [c]) = cs ++ [c] := by
  rw [trimEnd_eq, List.rdropWhile_concat_neg _ _ _ (by simp [h])]

/-- Nothing is taken off behind a character that is not blank. -/
theorem trimStart_append_of_not (h : allBlank cs = false) :
    trimStart (cs ++ v) = trimStart cs ++ v := by
  induction cs with
  | nil => cases h
  | cons c cs ih =>
    cases hc : isBlank c with
    | false => rw [List.cons_append, trimStart_of_not_blank hc, trimStart_of_not_blank hc,
        List.cons_append]
    | true =>
      have hcs : allBlank cs = false := by
        unfold allBlank at h ⊢
        simpa [hc] using h
      have hone : allBlank [c] = true := by simp [allBlank, hc]
      rw [List.cons_append, ← List.singleton_append, trimStart_blank_append hone, ih hcs,
        ← List.singleton_append (l := cs), trimStart_blank_append hone]

/-- Nothing is taken off in front of a character that is not blank. -/
theorem trimEnd_append_of_not (h : allBlank v = false) : trimEnd (cs ++ v) = cs ++ trimEnd v := by
  induction v using List.reverseRecOn with
  | nil => cases h
  | append_singleton v c ih =>
    cases hc : isBlank c with
    | false => rw [← List.append_assoc, trimEnd_concat_of_not_blank hc,
        trimEnd_concat_of_not_blank hc, List.append_assoc]
    | true =>
      have hone : allBlank [c] = true := by simp [allBlank, hc]
      rw [allBlank_append, hone, Bool.and_true] at h
      rw [← List.append_assoc, trimEnd_append_blank hone, ih h, trimEnd_append_blank hone]

theorem trimStart_append_cons (h : isBlank c = false) :
    trimStart (v ++ c :: w) = trimStart v ++ c :: w := by
  by_cases hv : allBlank v = true
  · rw [trimStart_blank_append hv, trimStart_of_not_blank h, trimStart_eq_nil_iff.mpr hv,
      List.nil_append]
  · exact trimStart_append_of_not (by simpa using hv)

theorem trimEnd_append_cons (h : isBlank c = false) :
    trimEnd (v ++ c :: w) = v ++ c :: trimEnd w := by
  have hne : allBlank (c :: w) = false := allBlank_eq_false_of_mem List.mem_cons_self h
  rw [trimEnd_append_of_not hne]
  by_cases hw : allBlank w = true
  · rw [← List.singleton_append, trimEnd_append_blank hw, trimEnd_eq_nil_iff.mpr hw]
    have hone : trimEnd ([] ++ [c]) = [] ++ [c] := trimEnd_concat_of_not_blank h
    exact congrArg _ hone
  · rw [← List.singleton_append, trimEnd_append_of_not (by simpa using hw), List.singleton_append]

theorem exists_eq_trimStart (cs : List Char) :
    ∃ w, allBlank w = true ∧ cs = w ++ trimStart cs := by
  refine ⟨cs.takeWhile isBlank, ?_, List.takeWhile_append_dropWhile.symm⟩
  exact allBlank_iff.mpr fun c hc => List.mem_takeWhile_imp hc

theorem exists_eq_trimEnd (cs : List Char) : ∃ w, allBlank w = true ∧ cs = trimEnd cs ++ w := by
  refine ⟨cs.rtakeWhile isBlank, ?_, List.rdropWhile_append_rtakeWhile.symm⟩
  exact allBlank_iff.mpr fun c hc => List.mem_rtakeWhile_imp hc

/-! ## Both ends -/

theorem trim_blank_append (h : allBlank w = true) : trim (w ++ cs) = trim cs := by
  unfold trim
  rw [trimStart_blank_append h]

theorem trim_append_blank (h : allBlank w = true) : trim (cs ++ w) = trim cs := by
  unfold trim
  by_cases hcs : allBlank cs = true
  · rw [trimStart_blank_append hcs, trimStart_eq_nil_iff.mpr h, trimStart_eq_nil_iff.mpr hcs]
  · rw [trimStart_append_of_not (by simpa using hcs), trimEnd_append_blank h]

/-- A text is its trimmed form with blank text on both sides. -/
theorem exists_eq_trim (cs : List Char) :
    ∃ v w, allBlank v = true ∧ allBlank w = true ∧ cs = v ++ trim cs ++ w := by
  obtain ⟨v, hv, hcs⟩ := exists_eq_trimStart cs
  obtain ⟨w, hw, htrim⟩ := exists_eq_trimEnd (trimStart cs)
  refine ⟨v, w, hv, hw, ?_⟩
  unfold trim
  rw [List.append_assoc, ← htrim, ← hcs]

theorem mem_of_mem_trimStart (h : c ∈ trimStart cs) : c ∈ cs := (List.dropWhile_sublist _).mem h

theorem mem_of_mem_trim (h : c ∈ trim cs) : c ∈ cs := by
  obtain ⟨v, w, -, -, hcs⟩ := exists_eq_trim cs
  rw [hcs]
  exact List.mem_append_left w (List.mem_append_right v h)

theorem trim_trimEnd (cs : List Char) : trim (trimEnd cs) = trim cs := by
  obtain ⟨w, hw, hcs⟩ := exists_eq_trimEnd cs
  conv_rhs => rw [hcs, trim_append_blank hw]

theorem trim_eq_nil_iff : trim cs = [] ↔ allBlank cs = true := by
  unfold trim
  rw [trimEnd_eq_nil_iff]
  constructor
  · intro h
    obtain ⟨w, hw, hcs⟩ := exists_eq_trimStart cs
    rw [hcs, allBlank_append, hw, h, Bool.and_true]
  · intro h
    rw [trimStart_eq_nil_iff.mpr h]
    rfl

theorem trim_ne_nil_iff : trim cs ≠ [] ↔ allBlank cs = false := by
  rw [Ne, trim_eq_nil_iff, Bool.not_eq_true]

theorem allBlank_trim : allBlank (trim cs) = allBlank cs := by
  obtain ⟨v, w, hv, hw, hcs⟩ := exists_eq_trim cs
  conv_rhs => rw [hcs, allBlank_append, allBlank_append, hv, hw, Bool.true_and, Bool.and_true]

theorem trim_trim (cs : List Char) : trim (trim cs) = trim cs := by
  obtain ⟨v, w, hv, hw, hcs⟩ := exists_eq_trim cs
  conv_rhs => rw [hcs, trim_append_blank hw, trim_blank_append hv]

theorem not_blank_of_getLast?_trim (h : (trim cs).getLast? = some c) : isBlank c = false := by
  have hne : trimEnd (trimStart cs) ≠ [] := by
    intro hnil
    rw [trim, hnil] at h
    cases h
  have hlast := List.rdropWhile_last_not isBlank (trimStart cs) hne
  rw [trim, List.getLast?_eq_some_getLast hne, Option.some.injEq] at h
  rw [← h]
  exact Bool.eq_false_iff.mpr hlast

/-- A text between two characters that are not blank is trimmed already. -/
theorem trim_eq_self (hfirst : ∀ c, cs.head? = some c → isBlank c = false)
    (hlast : ∀ c, cs.getLast? = some c → isBlank c = false) : trim cs = cs := by
  cases cs with
  | nil => rfl
  | cons c cs =>
    unfold trim
    rw [trimStart_of_not_blank (hfirst c rfl)]
    obtain ⟨init, d, hd⟩ := List.eq_nil_or_concat (c :: cs) |>.resolve_left (by simp)
    rw [List.concat_eq_append] at hd
    rw [hd] at hlast ⊢
    exact trimEnd_concat_of_not_blank (hlast d List.getLast?_concat)

theorem trim_eq_self_of_forall (h : ∀ c ∈ cs, isBlank c = false) : trim cs = cs :=
  trim_eq_self (fun c hc => h c (List.mem_of_head? hc)) (fun c hc => h c (List.mem_of_getLast? hc))

/-- The part before a character that is not blank is trimmed at its start
only, the part behind it at its end only. -/
theorem trim_append_cons (h : isBlank c = false) :
    trim (v ++ c :: w) = trimStart v ++ c :: trimEnd w := by
  unfold trim
  rw [trimStart_append_cons h, trimEnd_append_cons h]

/-- What stands in front of a text that is not blank does not change its end. -/
theorem getLast?_trim_append (h : allBlank w = false) :
    (trim (v ++ w)).getLast? = (trim w).getLast? := by
  obtain ⟨v', w', -, hw', hw⟩ := exists_eq_trim w
  have hne : trim w ≠ [] := trim_ne_nil_iff.mpr h
  obtain ⟨start, d, hd⟩ := (List.eq_nil_or_concat (trim w)).resolve_left hne
  rw [List.concat_eq_append] at hd
  have hlast : (trim w).getLast? = some d := by rw [hd, List.getLast?_concat]
  have hall : v ++ w = (v ++ v' ++ start) ++ d :: w' := by
    conv_lhs => rw [hw, hd]
    simp only [List.append_assoc, List.cons_append, List.nil_append]
  rw [hlast, hall, trim_append_cons (not_blank_of_getLast?_trim hlast), trimEnd_eq_nil_iff.mpr hw',
    List.getLast?_concat]

end Stepwise.Text
