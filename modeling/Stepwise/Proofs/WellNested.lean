-- Well nested words of brackets. The check of a text keeps the brackets that are
-- still open and lets each closing one take the innermost. It passes exactly the
-- texts whose brackets, with all else left out, make a word of the grammar below.
import Stepwise.Proofs.Nesting

namespace Stepwise.Text

/-! ## The grammar -/

/-- The two kinds of brackets: what opens and what closes it. -/
inductive Pair : Char → Char → Prop
  | braces : Pair '{' '}'
  | parentheses : Pair '(' ')'

/-- A word in which every bracket is closed by one of its own kind, after all that
was opened behind it. -/
inductive WellNested : List Char → Prop
  | nil : WellNested []
  | enclose {o c : Char} {w : List Char} : Pair o c → WellNested w → WellNested (o :: (w ++ [c]))
  | append {v w : List Char} : WellNested v → WellNested w → WellNested (v ++ w)

/-- The braces and parentheses of a text. -/
def brackets (cs : List Char) : List Char := cs.filter isBracket

/-- A word that closes the given open brackets, the innermost first. Whatever it
opens itself, it closes before the next of them. -/
inductive Closes : List Char → List Char → Prop
  | nil {w : List Char} : WellNested w → Closes [] w
  | cons {o c : Char} {openOnes v w : List Char} :
      Pair o c → WellNested v → Closes openOnes w → Closes (o :: openOnes) (v ++ c :: w)

theorem WellNested.append_closes {openOnes v w : List Char} (hv : WellNested v)
    (hw : Closes openOnes w) : Closes openOnes (v ++ w) := by
  cases hw with
  | nil hnested => exact .nil (hv.append hnested)
  | cons hpair hinner hrest =>
    rw [← List.append_assoc]
    exact .cons hpair (hv.append hinner) hrest

/-! ## The check -/

theorem pair_iff {o c : Char} :
    Pair o c ↔ (o = '{' && c = '}' || o = '(' && c = ')') = true := by
  rw [Bool.or_eq_true, Bool.and_eq_true, Bool.and_eq_true]
  simp only [decide_eq_true_eq]
  constructor
  · rintro (_ | _)
    · exact Or.inl ⟨rfl, rfl⟩
    · exact Or.inr ⟨rfl, rfl⟩
  · rintro (⟨rfl, rfl⟩ | ⟨rfl, rfl⟩)
    · exact .braces
    · exact .parentheses

/-- What is no bracket does not count. -/
theorem balancedFrom_brackets (openOnes cs : List Char) :
    balancedFrom openOnes (brackets cs) = balancedFrom openOnes cs := by
  induction cs generalizing openOnes with
  | nil => rfl
  | cons c cs ih =>
    have hcons : brackets (c :: cs) = if isBracket c then c :: brackets cs else brackets cs :=
      List.filter_cons
    cases hc : isBracket c with
    | false => rw [hcons, hc, if_neg Bool.false_ne_true, ih, balancedFrom_other hc]
    | true =>
      rw [hcons, hc, if_pos rfl]
      cases ho : isOpening c with
      | true => rw [balancedFrom_opening ho, balancedFrom_opening ho, ih]
      | false =>
        have hclose : isClosing c = true := by simpa [isBracket, ho] using hc
        cases openOnes with
        | nil => rw [balancedFrom_nil_closing hclose, balancedFrom_nil_closing hclose]
        | cons o openOnes =>
          rw [balancedFrom_closing hclose, balancedFrom_closing hclose, ih]

theorem WellNested.balanced {w : List Char} (h : WellNested w) : balanced w = true := by
  induction h with
  | nil => rfl
  | enclose hpair _ ih =>
    cases hpair with
    | braces => exact balanced_braces ih
    | parentheses => exact balanced_parentheses ih
  | append _ _ ihv ihw => exact balanced_append ihv ihw

/-- What the check passes closes the brackets that were open before it. -/
theorem closes_of_balancedFrom {openOnes w : List Char} (hw : ∀ c ∈ w, isBracket c = true)
    (h : balancedFrom openOnes w = true) : Closes openOnes w := by
  induction w generalizing openOnes with
  | nil =>
    have hnone : openOnes = [] := List.isEmpty_iff.mp h
    rw [hnone]
    exact .nil .nil
  | cons c w ih =>
    have hrest : ∀ d ∈ w, isBracket d = true := fun d hd => hw d (List.mem_cons_of_mem c hd)
    cases ho : isOpening c with
    | true =>
      -- what closes `c` parts the rest into the inside of the pair and what follows it
      rw [balancedFrom_opening ho] at h
      generalize hopen : c :: openOnes = opened at h
      cases ih hrest h with
      | nil _ => cases hopen
      | cons hpair hinner hafter =>
        cases hopen
        have henclosed := (WellNested.enclose hpair hinner).append_closes hafter
        simpa using henclosed
    | false =>
      have hclose : isClosing c = true := by
        simpa [isBracket, ho] using hw c List.mem_cons_self
      cases openOnes with
      | nil =>
        rw [balancedFrom_nil_closing hclose] at h
        cases h
      | cons o openOnes =>
        rw [balancedFrom_closing hclose, Bool.and_eq_true] at h
        exact .cons (v := []) (pair_iff.mpr h.1) .nil (ih hrest h.2)

theorem balanced_iff_wellNested (cs : List Char) :
    balanced cs = true ↔ WellNested (brackets cs) := by
  have hbrackets : balanced (brackets cs) = balanced cs := balancedFrom_brackets [] cs
  constructor
  · intro h
    rw [← hbrackets] at h
    have hall : ∀ c ∈ brackets cs, isBracket c = true := fun c hc => (List.mem_filter.mp hc).2
    cases closes_of_balancedFrom hall h with
    | nil hnested => exact hnested
  · intro h
    rw [← hbrackets]
    exact h.balanced

instance (cs : List Char) : Decidable (WellNested (brackets cs)) :=
  decidable_of_iff _ (balanced_iff_wellNested cs)

example : ¬WellNested (brackets "q(0, 1\x7b), q2\x7d".toList) := by decide

end Stepwise.Text
