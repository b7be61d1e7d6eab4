-- How many columns of a terminal a text takes. Most characters take one,
-- some take two or none, and some sequences of characters are shown as one
-- sign. Escape sequences do not count.
import Stepwise.Terminal.Characters
import Stepwise.Terminal.Sequence

namespace Stepwise.Terminal

def isIn (ranges : CodeRanges) (c : Char) : Bool := ranges.holds c.toNat

/-- The characters that take one column and have no part in any sign but the
emoji that a selector makes of some of them. -/
def isPlain (c : Char) : Bool := c.toNat ≤ 0xA0

/-- The columns of a character that stands alone. Control characters take one
as well. -/
def charWidth (c : Char) : Nat :=
  if isPlain c then 1
  else if isIn zeroWidth c then 0
  else if isIn wide c then 2
  else if c = '\u17d8' then 3
  else 1

/-! ## Selectors -/

/-- How the character before a selector is to be shown. -/
inductive Selector where
  | emoji
  /-- As a narrow sign. -/
  | text
  deriving DecidableEq

namespace Selector

def ofChar? (c : Char) : Option Selector :=
  if c = '\ufe0f' then some emoji else if c = '\ufe0e' then some text else none

/-- The characters that the selector applies to. -/
def bases : Selector → CodeRanges
  | emoji => emojiBases
  | text => textBases

end Selector

/-! ## Signs made of several characters

A text is read from its end, so what a character makes a sign with is at the
front of what was read before it. -/

/-- Joins the emoji before it and the emoji after it, and some letters too. -/
def joiner : Char := '\u200d'

/-- Makes a keycap of the emoji before it. -/
def keycap : Char := '\u20e3'

/-- The last part of a sign made of letters. -/
inductive Ending where
  | subscriptLetter
  | lamed
  | bugineseYa
  /-- A Buginese ya and the vowel joined with it. -/
  | bugineseVowel
  | consonant
  /-- A consonant and the joiner of its script. -/
  | joinedConsonant
  | secondTone
  | orkhonI
  deriving DecidableEq

def Ending.ofChar? (c : Char) : Option Ending :=
  if isIn subscriptLetters c then some subscriptLetter
  else if c = Terminal.lamed then some lamed
  else if c = Terminal.bugineseYa then some bugineseYa
  else if isIn consonants c then some consonant
  else if isIn secondTones c then some secondTone
  else if isIn Terminal.orkhonI c then some orkhonI
  else none

/-- What a text starts with, as far as it matters to the character before it. -/
inductive Front where
  | other
  | emoji
  | skinTone
  | flagLetter
  | flag
  /-- A joiner and an emoji. All that is joined counts as one emoji. -/
  | joinedEmoji
  | joinedKeycap
  | joinedFlagLetter
  | joinedFlag
  /-- The end of the name of a joined flag of a region: its last letters. -/
  | joinedTagLetters (count : Nat)
  /-- The end of such a name that has digits in front. -/
  | joinedTagDigits (count : Nat)
  | alef
  | letters (ending : Ending) (joined : Bool)
  deriving DecidableEq

namespace Front

def ofChar (c : Char) : Front :=
  if isPlain c then other
  else if isIn skinTones c then skinTone
  else if isIn flagLetters c then flagLetter
  else if isIn Terminal.emoji c then emoji
  else if isIn alefs c then alef
  else match Ending.ofChar? c with
    | some ending => letters ending false
    | none => other

/-- Whether a joined emoji takes in an emoji that a selector makes. -/
def takesSelected : Front → Bool
  | joinedEmoji | joinedKeycap => true
  | _ => false

def isOfLetters : Front → Bool
  | alef | letters .. => true
  | _ => false

/-- What is left of a front after a selector. -/
def behind (s : Selector) (f : Front) : Front :=
  if f.isOfLetters || s = .emoji && f.takesSelected then f else other

/-- What is left of a front after a selector that did not apply. -/
def past (f : Front) : Front := if f.isOfLetters then f else other

end Front

/-- The columns of a text and what it starts with, perhaps after a selector. -/
structure Measure where
  columns : Nat
  front : Front
  selector : Option Selector

namespace Measure

def empty : Measure := ⟨0, .other, none⟩

/-- Puts a character before a text that it makes no sign with. -/
def prependAlone (m : Measure) (c : Char) : Measure := ⟨m.columns + charWidth c, .ofChar c, none⟩

/-- Puts more of a sign before a text. -/
def extend (m : Measure) (front : Front) : Measure := { m with front := front }

/-- The sign takes one more column. -/
def widen (m : Measure) (front : Front) : Measure := ⟨m.columns + 1, front, none⟩

/-- The sign takes one column less than its parts so far. -/
def narrow (m : Measure) (front : Front) : Measure := ⟨m.columns - 1, front, none⟩

/-- Puts a character before a joined emoji. -/
def prependToJoined (m : Measure) (c : Char) : Measure :=
  if c = keycap then m.extend .joinedKeycap
  else if isIn flagLetters c then m.widen .joinedFlagLetter
  else if isIn skinTones c then m.extend .skinTone
  else if isIn endTag c then m.extend (.joinedTagLetters 0)
  else if isIn emoji c then m.extend .emoji
  else m.prependAlone c

/-- Puts a character before some letters of the name of a region. A name has
at most six, and digits only before fewer than five. -/
def prependToTagLetters (m : Measure) (count : Nat) (c : Char) : Measure :=
  if isIn tagLetters c && count < 6 then m.extend (.joinedTagLetters (count + 1))
  else if isIn tagDigits c && count < 5 then m.extend (.joinedTagDigits 1)
  else if isIn blackFlag c && 3 ≤ count then m.extend .emoji
  else m.prependAlone c

/-- Puts a character before the digits of the name of a region, which are
three. -/
def prependToTagDigits (m : Measure) (count : Nat) (c : Char) : Measure :=
  if isIn tagDigits c && count < 3 then m.extend (.joinedTagDigits (count + 1))
  else if isIn blackFlag c && count = 3 then m.extend .emoji
  else m.prependAlone c

/-- Puts a letter before the last part of a sign made of letters. -/
def prependToEnding (m : Measure) (ending : Ending) (joined : Bool) (c : Char) : Measure :=
  match ending with
  | .subscriptLetter => if c = coeng then m.narrow .other else m.prependAlone c
  | .lamed => if joined && c = hebrewAlef then m.extend .other else m.prependAlone c
  | .bugineseYa =>
    if joined && c = bugineseI then m.extend (.letters .bugineseVowel true) else m.prependAlone c
  | .bugineseVowel => if c = bugineseA then m.extend .other else m.prependAlone c
  | .consonant =>
    if c = consonantJoiner then m.widen (.letters .joinedConsonant true)
    else if joined && isIn consonants c then m.extend .other
    else m.prependAlone c
  | .joinedConsonant => if isIn consonants c then m.narrow .other else m.prependAlone c
  | .secondTone => if isIn firstTones c then m.extend .other else m.prependAlone c
  | .orkhonI => if joined && isIn orkhonEc c then m.extend .other else m.prependAlone c

/-- Puts a character before a text without a selector in front. -/
def prependPlain (m : Measure) (c : Char) : Measure :=
  match m.front with
  | .other | .joinedKeycap => m.prependAlone c
  | .emoji => if c = joiner then m.extend .joinedEmoji else m.prependAlone c
  | .skinTone =>
    if isIn skinToneBases c then m.extend .emoji
    else if c = joiner then m.extend .joinedEmoji
    else m.prependAlone c
  | .flagLetter => if isIn flagLetters c then m.widen .flag else m.prependAlone c
  | .flag =>
    if isIn flagLetters c then m.widen .flag
    else if c = joiner then m.extend .joinedEmoji
    else m.prependAlone c
  | .joinedEmoji => m.prependToJoined c
  | .joinedFlagLetter => if isIn flagLetters c then m.narrow .joinedFlag else m.prependAlone c
  | .joinedFlag =>
    if isIn flagLetters c then ⟨m.columns + 3, .joinedFlagLetter, none⟩
    else if c = joiner then m.extend .joinedEmoji
    else m.prependAlone c
  | .joinedTagLetters count => m.prependToTagLetters count c
  | .joinedTagDigits count => m.prependToTagDigits count c
  | .alef =>
    if isIn lams c then m.extend .other
    else if charWidth c = 0 && !isIn joinBreaks c then m
    else m.prependAlone c
  | .letters ending joined =>
    if c = joiner then m.extend (.letters ending true)
    else if isIn unseenMarks c then m
    else m.prependToEnding ending joined c

/-- Puts a character before a text that has no selector in front, or no longer
has one. -/
def prependUnselected (m : Measure) (c : Char) : Measure :=
  match Selector.ofChar? c with
  | some s => ⟨m.columns, m.front.behind s, some s⟩
  | none => m.prependPlain c

/-- Puts a character before a text. -/
def prepend (c : Char) (m : Measure) : Measure :=
  match m.selector with
  | none => m.prependUnselected c
  | some s =>
    if isIn s.bases c then
      match s with
      | .emoji => ⟨if m.front.takesSelected then m.columns else m.columns + 2, .emoji, none⟩
      | .text => ⟨m.columns + 1, .other, none⟩
    else prependUnselected ⟨m.columns, m.front.past, none⟩ c

end Measure

/-- The columns of a text without escape sequences. -/
def runWidth (cs : List Char) : Nat := (cs.foldr Measure.prepend .empty).columns

/-- The columns of a text, run by run. -/
def width (cs : List Char) : Nat := (runs cs).foldl (fun w run => w + runWidth run) 0

end Stepwise.Terminal
