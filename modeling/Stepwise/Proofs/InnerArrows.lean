-- Arrows inside of symbols. An editor reads a line from its last arrow, and a
-- description is cut at the first one it finds. Both see the same transition
-- but where an arrow inside the symbol is taken for the one behind it.
import Stepwise.Proofs.Rewriting
import Stepwise.Proofs.StateTokens

namespace Stepwise

open Text

namespace Description

/-! ## The first arrow of a text -/

theorem cutAt_append_of_some {c : Char} {a x y : List Char} (h : cutAt c a = some (x, y))
    (b : List Char) : cutAt c (a ++ b) = some (x, y ++ b) := by
  obtain ⟨rfl, hx⟩ := eq_of_cutAt h
  rw [List.append_assoc, List.cons_append, cutAt_append hx]

theorem cutAt_eq_none_iff {c : Char} {cs : List Char} : cutAt c cs = none ↔ c ∉ cs := by
  constructor
  · intro h hmem
    obtain ⟨x, y, rfl, hx⟩ := List.eq_append_cons_of_mem hmem
    rw [cutAt_append hx] at h
    cases h
  · exact cutAt_eq_none

theorem cutAt_append_of_not_mem {c : Char} {a : List Char} (h : c ∉ a) (b : List Char) :
    cutAt c (a ++ b) = (cutAt c b).map fun p => (a ++ p.1, p.2) := by
  cases hb : cutAt c b with
  | some p =>
    obtain ⟨x, y⟩ := p
    obtain ⟨rfl, hx⟩ := eq_of_cutAt hb
    rw [← List.append_assoc, cutAt_append (by simp [h, hx])]
    rfl
  | none =>
    rw [cutAt_eq_none (by simp [h, cutAt_eq_none_iff.mp hb])]
    rfl

theorem cutAtPlainArrow_cons {c : Char} {rest : List Char}
    (h : ∀ more, c = '-' → rest = '>' :: more → False) :
    cutAtPlainArrow (c :: rest) = (cutAtPlainArrow rest).map fun p => (c :: p.1, p.2) :=
  cutAtPlainArrow.eq_3 c rest h

theorem cutAtPlainArrow_append {a : List Char} (h : cutAtPlainArrow a = none) (b : List Char) :
    cutAtPlainArrow (a ++ '-' :: '>' :: b) = some (a, b) := by
  induction a using cutAtPlainArrow.induct with
  | case1 => rfl
  | case2 rest => cases h
  | case3 c rest hc ih =>
    rw [cutAtPlainArrow_cons hc, Option.map_eq_none_iff] at h
    rw [List.cons_append, cutAtPlainArrow_cons, ih h]
    · rfl
    · intro more hdash hmore
      cases rest with
      | nil => cases hmore
      | cons d rest =>
        cases hmore
        exact hc rest hdash rfl

theorem cutAtPlainArrow_append_of_some {a x y : List Char} (h : cutAtPlainArrow a = some (x, y))
    (b : List Char) : cutAtPlainArrow (a ++ b) = some (x, y ++ b) := by
  induction a using cutAtPlainArrow.induct generalizing x with
  | case1 => cases h
  | case2 rest =>
    cases h
    rfl
  | case3 c rest hc ih =>
    rw [cutAtPlainArrow_cons hc] at h
    obtain ⟨⟨x', y'⟩, hrest, hp⟩ := Option.map_eq_some_iff.mp h
    cases hp
    rw [List.cons_append, cutAtPlainArrow_cons, ih hrest]
    · rfl
    · intro more hdash hmore
      cases rest with
      | nil => cases hrest
      | cons d rest =>
        cases hmore
        exact hc rest hdash rfl

theorem cutAtPlainArrow_append_of_not_mem {a : List Char} (h : '-' ∉ a) (b : List Char) :
    cutAtPlainArrow (a ++ b) = (cutAtPlainArrow b).map fun p => (a ++ p.1, p.2) := by
  induction a with
  | nil => simp
  | cons c a ih =>
    rw [List.mem_cons, not_or] at h
    rw [List.cons_append, cutAtPlainArrow_cons fun _ hc => absurd hc.symm h.1, ih h.2,
      Option.map_map]
    rfl

theorem eq_of_cutAtPlainArrow {cs x y : List Char} (h : cutAtPlainArrow cs = some (x, y)) :
    cs = x ++ '-' :: '>' :: y := by
  induction cs using cutAtPlainArrow.induct generalizing x with
  | case1 => cases h
  | case2 rest =>
    cases h
    rfl
  | case3 c rest hc ih =>
    rw [cutAtPlainArrow_cons hc] at h
    obtain ⟨⟨x', y'⟩, hrest, hp⟩ := Option.map_eq_some_iff.mp h
    cases hp
    rw [ih hrest, List.cons_append]

theorem cutAtPlainArrow_eq_none_iff {cs : List Char} :
    cutAtPlainArrow cs = none ↔ ¬['-', '>'] <:+: cs := by
  constructor
  · rintro h ⟨x, y, rfl⟩
    cases hx : cutAtPlainArrow x with
    | none =>
      rw [List.append_assoc, List.cons_append, List.singleton_append,
        cutAtPlainArrow_append hx] at h
      cases h
    | some p =>
      rw [List.append_assoc, cutAtPlainArrow_append_of_some hx] at h
      cases h
  · intro h
    cases hcut : cutAtPlainArrow cs with
    | none => rfl
    | some p =>
      obtain ⟨x, y⟩ := p
      refine absurd ⟨x, y, ?_⟩ h
      rw [eq_of_cutAtPlainArrow hcut]
      simp

end Description

namespace TransitionLine

open Description

/-! ## Symbols in two pieces -/

/-- Two texts with the arrow sign between, and a space on either side of it. -/
def joined (before after : List Char) : List Char :=
  trim (trim before ++ [' ', '→', ' '] ++ trim after)

/-- A symbol that has something before its first arrow sign, and one space on
either side of the sign. -/
def SpacedArrow (symbol : List Char) : Prop :=
  ∃ before after, allBlank before = false ∧ '→' ∉ before ∧ symbol = joined before after

theorem joined_eq (before after : List Char) :
    joined before after = trimStart (trim before ++ [' ']) ++ '→' :: trimEnd (' ' :: trim after) := by
  have hsign : isBlank '→' = false := by decide
  unfold joined
  rw [← trim_append_cons hsign]
  simp

/-- The pieces around the first sign of a spaced symbol are joined to the
symbol again, whatever white space there was at its ends. -/
theorem joined_of_spacedArrow {before after : List Char} (hbefore : '→' ∉ before)
    (h : SpacedArrow (trim (before ++ '→' :: after))) :
    allBlank before = false ∧ joined before after = trim (before ++ '→' :: after) := by
  obtain ⟨b, a, hb, hnb, hsymbol⟩ := h
  have hspace : allBlank [' '] = true := by decide
  -- the first sign stands at the same place on both sides
  have hleft : '→' ∉ trimStart before := fun h => hbefore (mem_of_mem_trimStart h)
  have hright : '→' ∉ trimStart (trim b ++ [' ']) := by
    intro h
    rcases List.mem_append.mp (mem_of_mem_trimStart h) with h | h
    · exact hnb (mem_of_mem_trim h)
    · exact absurd h (by decide)
  have hcut := congrArg (cutAt '→') hsymbol
  rw [trim_append_cons (by decide), joined_eq, cutAt_append hleft, cutAt_append hright,
    Option.some.injEq, Prod.mk.injEq] at hcut
  obtain ⟨hstart, hend⟩ := hcut
  have htrimb : trim before = trim b := by
    have htrim := congrArg trimEnd hstart
    show trimEnd (trimStart before) = trim b
    rw [htrim]
    show trim (trim b ++ [' ']) = trim b
    rw [trim_append_blank hspace, trim_trim]
  have htrima : trim after = trim a := by
    rw [← trim_trimEnd after, hend, trim_trimEnd, ← List.singleton_append, trim_blank_append hspace,
      trim_trim]
  constructor
  · rw [← allBlank_trim, htrimb, allBlank_trim, hb]
  · rw [hsymbol]
    unfold joined
    rw [htrimb, htrima]

namespace Parts

variable (p : Parts)

/-! ## The arrow behind a symbol -/

/-- The arrow behind the symbol is the first that a description finds. It
looks for the sign before it looks for the letters. -/
def FirstArrow : Prop :=
  '→' ∉ p.between ∧ (p.arrow = .letters → ¬Arrow.letters.text <:+: p.between)

/-- The line means the same to an editor and in a description. -/
def KeepsSymbol : Prop := p.FirstArrow ∨ SpacedArrow p.symbol

/-- Where a description cuts the symbol, if it finds an arrow in it. -/
def innerCut : Option (List Char × List Char) :=
  match p.arrow with
  | .sign => cutAt '→' p.between
  | .letters => cutAtArrow p.between

/-- The transition that a description makes of the line, if it does not find
the symbol empty. -/
def decoded : Option Triple :=
  match p.innerCut with
  | none => some p.triple
  | some (before, after) =>
    if allBlank before then none
    else some { p.triple with symbol := String.ofList (joined before after) }

variable {p}

theorem innerCut_eq_none_iff : p.innerCut = none ↔ p.FirstArrow := by
  unfold innerCut FirstArrow
  cases p.arrow with
  | sign => simp [cutAt_eq_none_iff]
  | letters =>
    unfold cutAtArrow
    simp [cutAt_eq_none_iff, cutAtPlainArrow_eq_none_iff, Arrow.text]

/-- A symbol is cut at its first sign, or at letters if there is no sign. -/
theorem innerCut_cases {before after : List Char} (h : p.innerCut = some (before, after)) :
    '→' ∉ before ∧ (p.between = before ++ '→' :: after ∨ '→' ∉ p.between) := by
  have hsign : cutAt '→' p.between = some (before, after) →
      '→' ∉ before ∧ p.between = before ++ '→' :: after := by
    intro hcut
    obtain ⟨hbetween, hbefore⟩ := eq_of_cutAt hcut
    exact ⟨hbefore, hbetween⟩
  unfold innerCut at h
  split at h
  · obtain ⟨hbefore, hbetween⟩ := hsign h
    exact ⟨hbefore, Or.inl hbetween⟩
  · unfold cutAtArrow at h
    rcases Option.or_eq_some_iff.mp h with hcut | ⟨hnone, hcut⟩
    · obtain ⟨hbefore, hbetween⟩ := hsign hcut
      exact ⟨hbefore, Or.inl hbetween⟩
    · have hno := cutAt_eq_none_iff.mp hnone
      have hbetween := eq_of_cutAtPlainArrow hcut
      refine ⟨fun hmem => hno ?_, Or.inr hno⟩
      rw [hbetween]
      exact List.mem_append_left _ hmem

theorem symbol_eq (h : allBlank p.between = false) : p.symbol = trim p.between :=
  symbolOf_of_not_blank h

/-- A cut symbol stays the same exactly if it was spaced. -/
theorem spacedArrow_iff_of_innerCut {before after : List Char}
    (hcut : p.innerCut = some (before, after)) (h : allBlank p.between = false) :
    SpacedArrow p.symbol ↔ allBlank before = false ∧ joined before after = p.symbol := by
  obtain ⟨hbefore, hbetween⟩ := innerCut_cases hcut
  constructor
  · intro hspaced
    rw [symbol_eq h] at hspaced ⊢
    rcases hbetween with hbetween | hno
    · rw [hbetween] at hspaced ⊢
      exact joined_of_spacedArrow hbefore hspaced
    · obtain ⟨b, a, -, -, hsymbol⟩ := hspaced
      refine absurd (mem_of_mem_trim (c := '→') ?_) hno
      rw [hsymbol, joined_eq]
      exact List.mem_append_right _ List.mem_cons_self
  · rintro ⟨hblank, hsymbol⟩
    exact ⟨before, after, hblank, hbefore, hsymbol.symm⟩

theorem decoded_eq_iff (h : allBlank p.between = false) :
    p.decoded = some p.triple ↔ p.KeepsSymbol := by
  unfold decoded KeepsSymbol
  cases hcut : p.innerCut with
  | none => simp [innerCut_eq_none_iff.mp hcut]
  | some cut =>
    obtain ⟨before, after⟩ := cut
    have hnot : ¬p.FirstArrow := by
      rw [← innerCut_eq_none_iff, hcut]
      exact Option.some_ne_none _
    rw [spacedArrow_iff_of_innerCut hcut h]
    cases hblank : allBlank before with
    | true => simp [hnot, hblank]
    | false => simp [hnot, hblank, triple, String.ofList_inj]

/-- A transition on another symbol than that of the line has a spaced one. -/
theorem spacedArrow_of_decoded {x : Triple} (hx : p.decoded = some x) (hkeeps : ¬p.KeepsSymbol) :
    SpacedArrow x.symbol.toList := by
  unfold decoded at hx
  cases hcut : p.innerCut with
  | none => exact absurd (Or.inl (innerCut_eq_none_iff.mp hcut)) hkeeps
  | some cut =>
    obtain ⟨before, after⟩ := cut
    simp only [hcut] at hx
    split at hx
    · cases hx
    · rename_i hblank
      cases hx
      exact ⟨before, after, by simpa using hblank, (innerCut_cases hcut).1, String.toList_ofList⟩

end Parts

end TransitionLine

end Stepwise
