-- Texts with sequences that set a style. Whoever reads escape sequences comes through
-- each of these and is back in the text behind it. So what is visible is the text
-- without them, and a style around a text changes neither its runs nor its width.
import Stepwise.Terminal.Width

namespace Stepwise.Terminal

variable {c : Char} {cs ds shown : List Char} {m m' : Mode} {p : Pending}

/-! ## One character -/

theorem runsFrom_cons (m : Mode) (p : Pending) (c : Char) (rest : List Char) :
    runsFrom m p (c :: rest) =
      let ended := if m.endsBefore c then (p.cut, .empty) else ([], p)
      ended.1 ++ match m.step c with
        | (m, .text) => runsFrom m (ended.2.addText c) rest
        | (m, .opening) => runsFrom m (ended.2.start c) rest
        | (m, .held) => runsFrom m (ended.2.hold c) rest
        | (m, .sequence) => ended.2.cut ++ runsFrom m .empty rest := rfl

theorem runsFrom_of_text (hends : m.endsBefore c = false) (hstep : m.step c = (m', .text))
    (rest : List Char) : runsFrom m p (c :: rest) = runsFrom m' (p.addText c) rest := by
  rw [runsFrom_cons, hends, hstep]
  rfl

theorem runsFrom_of_opening (hends : m.endsBefore c = false) (hstep : m.step c = (m', .opening))
    (rest : List Char) : runsFrom m p (c :: rest) = runsFrom m' (p.start c) rest := by
  rw [runsFrom_cons, hends, hstep]
  rfl

theorem runsFrom_of_held (hends : m.endsBefore c = false) (hstep : m.step c = (m', .held))
    (rest : List Char) : runsFrom m p (c :: rest) = runsFrom m' (p.hold c) rest := by
  rw [runsFrom_cons, hends, hstep]
  rfl

theorem runsFrom_of_sequence (hends : m.endsBefore c = false) (hstep : m.step c = (m', .sequence))
    (rest : List Char) : runsFrom m p (c :: rest) = p.cut ++ runsFrom m' .empty rest := by
  rw [runsFrom_cons, hends, hstep]
  rfl

theorem endsBefore_of_ne (h : m ≠ .command) : m.endsBefore c = false := by
  simp [Mode.endsBefore, h]

/-- Outside of all sequences every character but the one that opens them is text. -/
theorem step_text (h : c ≠ escapeChar) : Mode.text.step c = (.text, .text) := by
  unfold Mode.step
  rw [if_neg h]
  split <;> rfl

theorem toNat_of_isDigit (h : c.isDigit = true) : 48 ≤ c.toNat ∧ c.toNat ≤ 57 := by
  simpa [Char.isDigit, UInt32.le_iff_toNat_le] using h

/-- A digit is a parameter of the control sequence that it stands in. -/
theorem step_digit (h : c.isDigit = true) (hm : m = .control ∨ m = .controlParameter .empty) :
    m.step c = (.controlParameter .empty, .held) := by
  obtain ⟨hlow, hhigh⟩ := toNat_of_isDigit h
  have hne : ∀ d : Char, d.toNat < 48 ∨ 57 < d.toNat → c ≠ d := by
    rintro d hd rfl
    omega
  have hcontrol : isControl c = false := by simp [isControl, between]; omega
  have hmark : isIntermediate c = false := by simp [isIntermediate, between]; omega
  have hparameter : isParameter c = true := by simp [isParameter, between]; omega
  have hcancel : isCancel c = false := by
    simp [isCancel, hne '\x18' (by decide), hne '\x1a' (by decide)]
  have hkeep : Control.empty.parameter c = .empty := by
    simp [Control.parameter, hne ';' (by decide), hne ':' (by decide)]
  unfold Mode.step
  rw [if_neg (hne escapeChar (by decide)), hcancel, if_neg Bool.false_ne_true]
  rcases hm with rfl | rfl <;> simp [inControl, hcontrol, hmark, hparameter, hkeep]

/-! ## A sequence that sets a style -/

theorem toList_select (code : Nat) :
    (select code).toList = escapeChar :: '[' :: (Nat.toDigits 10 code ++ ['m']) := by
  unfold select
  rw [String.toList_append, String.toList_append, List.append_assoc]
  show escapeChar :: '[' :: ((String.ofList (Nat.toDigits 10 code)).toList ++ _) = _
  rw [String.toList_ofList]
  rfl

theorem runsFrom_digits (h : ∀ d ∈ ds, d.isDigit = true) (sure broken held rest : List Char) :
    runsFrom (.controlParameter .empty) ⟨sure, broken, held⟩ (ds ++ rest) =
      runsFrom (.controlParameter .empty) ⟨sure, broken, ds.reverse ++ held⟩ rest := by
  induction ds generalizing held with
  | nil => rfl
  | cons d ds ih =>
    have hstep := step_digit (h d List.mem_cons_self) (Or.inr rfl)
    rw [List.cons_append, runsFrom_of_held (endsBefore_of_ne (by decide)) hstep]
    show runsFrom _ ⟨sure, broken, d :: held⟩ (ds ++ rest) = _
    rw [ih fun e he => h e (List.mem_cons_of_mem d he), List.reverse_cons, List.append_assoc,
      List.singleton_append]

/-- The sequence ends the run of text before it and leaves nothing behind. -/
theorem runsFrom_select (code : Nat) (sure rest : List Char) :
    runsFrom .text ⟨sure, [], []⟩ ((select code).toList ++ rest) =
      Pending.cut ⟨sure, [], []⟩ ++ runsFrom .text .empty rest := by
  obtain ⟨d, ds, hdigits⟩ := List.exists_cons_of_ne_nil (Nat.toDigits_ne_nil (n := code) (b := 10))
  have hall : ∀ e ∈ d :: ds, e.isDigit = true := fun e he =>
    Nat.isDigit_of_mem_toDigits (by decide) (by decide) (hdigits ▸ he)
  have hopen : Mode.text.step escapeChar = (.escape, .opening) := rfl
  have hbracket : Mode.escape.step '[' = (.control, .held) := by decide
  have hfirst := step_digit (hall d List.mem_cons_self) (Or.inl rfl)
  have hfinal : (Mode.controlParameter .empty).step 'm' = (.text, .sequence) := by decide
  have htext : (select code).toList ++ rest = escapeChar :: '[' :: d :: (ds ++ 'm' :: rest) := by
    rw [toList_select, hdigits]
    simp
  rw [htext, runsFrom_of_opening (endsBefore_of_ne (by decide)) hopen,
    runsFrom_of_held (endsBefore_of_ne (by decide)) hbracket,
    runsFrom_of_held (endsBefore_of_ne (by decide)) hfirst]
  -- all but the last character are held back, and that one drops them
  show runsFrom _ ⟨sure, [], [d, '[', escapeChar]⟩ (ds ++ 'm' :: rest) = _
  rw [runsFrom_digits fun e he => hall e (List.mem_cons_of_mem d he),
    runsFrom_of_sequence (endsBefore_of_ne (by decide)) hfinal]
  rfl

/-! ## What is visible -/

/-- The text is the one that is shown, with sequences put in that set a style. -/
inductive Shows : List Char → List Char → Prop
  | nil : Shows [] []
  | char {c : Char} {cs shown : List Char} :
      c ≠ escapeChar → Shows cs shown → Shows (c :: cs) (c :: shown)
  | select (code : Nat) {cs shown : List Char} :
      Shows cs shown → Shows ((select code).toList ++ cs) shown

theorem Shows.append {cs' shown' : List Char} (h : Shows cs shown) (h' : Shows cs' shown') :
    Shows (cs ++ cs') (shown ++ shown') := by
  induction h with
  | nil => exact h'
  | char hc _ ih => exact .char hc ih
  | select code _ ih =>
    rw [List.append_assoc]
    exact .select code ih

/-- A text without sequences shows itself. -/
theorem shows_self (h : escapeChar ∉ cs) : Shows cs cs := by
  induction cs with
  | nil => exact .nil
  | cons c cs ih =>
    have hc : c ≠ escapeChar := fun heq => h (heq ▸ List.mem_cons_self)
    exact .char hc (ih fun hcs => h (List.mem_cons_of_mem c hcs))

theorem runsFrom_text_cons (h : c ≠ escapeChar) (sure rest : List Char) :
    runsFrom .text ⟨sure, [], []⟩ (c :: rest) = runsFrom .text ⟨c :: sure, [], []⟩ rest :=
  runsFrom_of_text (endsBefore_of_ne (by decide)) (step_text h) rest

theorem flatten_cut (sure : List Char) : (Pending.cut ⟨sure, [], []⟩).flatten = sure.reverse := by
  cases sure <;> simp [Pending.cut]

theorem flatten_close (sure : List Char) :
    (Pending.close ⟨sure, [], []⟩).flatten = sure.reverse := by
  cases sure <;> simp [Pending.close]

theorem Shows.flatten_runsFrom (h : Shows cs shown) (sure : List Char) :
    (runsFrom .text ⟨sure, [], []⟩ cs).flatten = sure.reverse ++ shown := by
  induction h generalizing sure with
  | nil => exact (flatten_close sure).trans (List.append_nil _).symm
  | char hc _ ih =>
    rw [runsFrom_text_cons hc, ih, List.reverse_cons, List.append_assoc, List.singleton_append]
  | select code _ ih =>
    rw [runsFrom_select, List.flatten_append, flatten_cut]
    exact congrArg _ (ih [])

/-- Taking the escape sequences out leaves what is shown. -/
theorem Shows.visible_eq (h : Shows cs shown) : visible cs = shown := h.flatten_runsFrom []

/-! ## Styles and widths -/

/-- A style around a text takes no column. -/
def IgnoresStyles (measure : List Char → Nat) : Prop :=
  ∀ (set unset : Nat) (text : String) (plain : List Char), Shows text.toList plain →
    measure (styled set unset text).toList = measure text.toList

theorem toList_styled (set unset : Nat) (text : String) :
    (styled set unset text).toList =
      (select set).toList ++ (text.toList ++ (select unset).toList) := by
  unfold styled
  rw [String.toList_append, String.toList_append, List.append_assoc]

theorem runs_select_append (code : Nat) (cs : List Char) :
    runs ((select code).toList ++ cs) = runs cs := runsFrom_select code [] cs

/-- Behind a text no sequence is open, so one more ends the run that would end anyway. -/
theorem Shows.runsFrom_append_select (h : Shows cs shown) (code : Nat) (sure : List Char) :
    runsFrom .text ⟨sure, [], []⟩ (cs ++ (Terminal.select code).toList) =
      runsFrom .text ⟨sure, [], []⟩ cs := by
  induction h generalizing sure with
  | nil =>
    have hselect := runsFrom_select code sure []
    rw [List.append_nil] at hselect
    rw [List.nil_append, hselect]
    cases sure <;> rfl
  | char hc _ ih => rw [List.cons_append, runsFrom_text_cons hc, runsFrom_text_cons hc, ih]
  | select code' _ ih =>
    rw [List.append_assoc, runsFrom_select, runsFrom_select]
    exact congrArg _ (ih [])

/-- The width of a text is that of its runs, and these stay the same. -/
theorem ignoresStyles_width : IgnoresStyles width := by
  intro set unset text plain h
  have hruns : runs (styled set unset text).toList = runs text.toList := by
    rw [toList_styled, runs_select_append]
    exact h.runsFrom_append_select unset []
  unfold width
  rw [hruns]

theorem Shows.styled {text : String} {plain : List Char} (h : Shows text.toList plain)
    (set unset : Nat) : Shows (Terminal.styled set unset text).toList plain := by
  have hafter : Shows (Terminal.select unset).toList [] := by simpa using Shows.select unset .nil
  have hwhole := Shows.select set (h.append hafter)
  rwa [List.append_nil, ← toList_styled] at hwhole

/-- A cell shows a text and takes as many columns as that text alone. -/
structure Dressed (measure : List Char → Nat) (cell plain : List Char) : Prop where
  shows : Shows cell plain
  measure_eq : measure cell = measure plain

variable {measure : List Char → Nat}

theorem dressed_self (h : Shows cs cs) : Dressed measure cs cs := ⟨h, rfl⟩

theorem Dressed.styled {text : String} {plain : List Char} (hmeasure : IgnoresStyles measure)
    (h : Dressed measure text.toList plain) (set unset : Nat) :
    Dressed measure (Terminal.styled set unset text).toList plain :=
  ⟨h.shows.styled set unset, (hmeasure set unset text plain h.shows).trans h.measure_eq⟩

end Stepwise.Terminal
