import TreeGrammar.Text.Columns

/-! # Characters drawn as one

    Some sequences take fewer columns than their characters do one by one, or more:
    pictures joined into one, a picture with a skin tone, a sign made a picture by a
    selector, and ligatures of several scripts.  A text is measured from its end, so
    what counts is what stands behind a character.  `Tail` says that much of the rest
    of a text, and `Tail.step` gives a character its columns in front of it; a sequence
    counts where its first character is reached. -/

namespace TreeGrammar.Text

/-- Sequences of letters drawn as one, by what is known of them from the end. -/
inductive Ligature where
  | hebrewLamed
  | bugineseYa
  /-- The vowel i and a joiner before ya. -/
  | bugineseVowelYa
  | tifinaghConsonant
  /-- The consonant joiner before a consonant. -/
  | tifinaghJoined
  | lisuTone
  | orkhonI
  | khmerLetter
  deriving DecidableEq, Repr

/-- How a text starts, as far as the character before it can be drawn with it. -/
inductive Start where
  | plain
  | lineFeed
  /-- A picture of two columns. -/
  | emoji
  | modifier
  | regional
  | regionals
  /-- A joiner before a picture. -/
  | joiner
  /-- A keycap before a joiner. -/
  | keycap
  /-- So many regional indicators before a joiner. -/
  | joinedRegionals (count : Nat)
  /-- The end of a tag before a joiner, with so many letters before it. -/
  | tagLetters (count : Nat)
  /-- The same, with so many digits before the letters. -/
  | tagDigits (count : Nat)
  /-- The Kirat Rai vowel e, and the vowel ai. -/
  | kiratE
  | kiratAi
  /-- An Arabic alef. -/
  | alef
  /-- The end of a ligature, a joiner before it or not. -/
  | ligature (kind : Ligature) (joined : Bool)
  deriving DecidableEq, Repr

/-- What a variation selector asks of the character before it. -/
inductive Selector where
  /-- To be drawn as a picture. -/
  | picture
  /-- To be drawn as a plain sign. -/
  | sign
  /-- To be drawn as wide as an ideograph, if it is a quotation mark. -/
  | wide
  deriving DecidableEq, Repr

/-- The start of a text, behind a variation selector if there is one. -/
structure Tail where
  start : Start
  selector? : Option Selector := none
  deriving DecidableEq, Repr

/-- The zero-width joiner. -/
def zeroWidthJoiner : Char := '\u200d'

/-- The selector that a character is. -/
def selectorOf? (c : Char) : Option Selector :=
  if c = '\ufe0f' then some .picture
  else if c = '\ufe0e' then some .sign
  else if c = '\ufe01' then some .wide
  else none

/-- Holds of marks that are never drawn and so leave a ligature as it is. -/
def isIgnorableMark (c : Char) : Bool :=
  inRanges [(0x34f, 0x34f), (0x17b4, 0x17b5), (0x180b, 0x180d), (0x180f, 0x180f),
    (0xfe00, 0xfe0f), (0xe0100, 0xe01ef)] c

/-- The characters without a column that keep an Arabic letter from joining the next one. -/
def opaqueRanges : List (Nat × Nat) :=
  [(0x605, 0x605), (0x890, 0x891), (0x8e2, 0x8e2), (0x9be, 0x9be), (0x9d7, 0x9d7),
    (0xb3e, 0xb3e), (0xb57, 0xb57), (0xbbe, 0xbbe), (0xbd7, 0xbd7), (0xcc0, 0xcc0),
    (0xcc2, 0xcc2), (0xcc7, 0xcc8), (0xcca, 0xccb), (0xcd5, 0xcd6), (0xd3e, 0xd3e),
    (0xd4e, 0xd4e), (0xd57, 0xd57), (0xdcf, 0xdcf), (0xddf, 0xddf), (0x1160, 0x11ff),
    (0x1715, 0x1715), (0x1734, 0x1734), (0x180e, 0x180e), (0x1b35, 0x1b35), (0x1b3b, 0x1b3b),
    (0x1b3d, 0x1b3d), (0x1b43, 0x1b44), (0x1baa, 0x1baa), (0x1bf2, 0x1bf3), (0x200c, 0x200d),
    (0x2065, 0x2069), (0x302e, 0x302f), (0x3164, 0x3164), (0xa8fa, 0xa8fa), (0xa953, 0xa953),
    (0xa9c0, 0xa9c0), (0xd7b0, 0xd7c6), (0xd7cb, 0xd7fb), (0xffa0, 0xffa0), (0xfff0, 0xfff8),
    (0x111c0, 0x111c0), (0x111c2, 0x111c3), (0x11235, 0x11235), (0x1133e, 0x1133e),
    (0x1134d, 0x1134d), (0x11357, 0x11357), (0x113b8, 0x113b8), (0x113c2, 0x113c2),
    (0x113c5, 0x113c5), (0x113c7, 0x113c9), (0x113cf, 0x113cf), (0x113d1, 0x113d1),
    (0x114b0, 0x114b0), (0x114bd, 0x114bd), (0x115af, 0x115af), (0x116b6, 0x116b6),
    (0x11930, 0x11930), (0x1193d, 0x1193d), (0x1193f, 0x1193f), (0x11941, 0x11941),
    (0x11a3a, 0x11a3a), (0x11a84, 0x11a89), (0x11d46, 0x11d46), (0x11f02, 0x11f02),
    (0x11f41, 0x11f41), (0x16ff0, 0x16ff1), (0x1d165, 0x1d166), (0x1d16d, 0x1d172),
    (0xe0000, 0xe0000), (0xe0002, 0xe001f), (0xe0080, 0xe00ff), (0xe01f0, 0xe0fff)]

/-- Holds of marks between an Arabic lam and an alef that do not part them. -/
def isTransparent (c : Char) : Bool :=
  columns c == 0 && !inRanges opaqueRanges c

/-- Holds of the forms of the Arabic letter lam. -/
def isLam (c : Char) : Bool :=
  inRanges [(0x644, 0x644), (0x6b5, 0x6b8), (0x76a, 0x76a), (0x8a6, 0x8a6), (0x8c7, 0x8c7)] c

/-- Holds of the forms of the Arabic letter alef. -/
def isAlef (c : Char) : Bool :=
  inRanges [(0x622, 0x623), (0x625, 0x625), (0x627, 0x627), (0x671, 0x673), (0x675, 0x675),
    (0x773, 0x774), (0x870, 0x882)] c

/-- Holds of the consonants of Tifinagh. -/
def isTifinaghConsonant (c : Char) : Bool :=
  inRanges [(0x2d31, 0x2d65), (0x2d6f, 0x2d6f)] c

/-- Holds of the letters of Khmer that can stand below another. -/
def isKhmerLetter (c : Char) : Bool :=
  inRanges [(0x1780, 0x1782), (0x1784, 0x1787), (0x1789, 0x178c), (0x178e, 0x1793),
    (0x1795, 0x1798), (0x179b, 0x179d), (0x17a0, 0x17a0), (0x17a2, 0x17a2), (0x17a7, 0x17a7),
    (0x17ab, 0x17ac), (0x17af, 0x17af)] c

/-- Holds of the quotation marks that have a wide form. -/
def isQuotationMark (c : Char) : Bool :=
  c == '\u2018' || c == '\u2019' || c == '\u201c' || c == '\u201d'

/-- What a text starts with when it starts with this character. -/
def Start.of (c : Char) : Start :=
  if c = '\u05dc' then .ligature .hebrewLamed false
  else if c = '\u1a10' then .ligature .bugineseYa false
  else if c = '\ua4fc' ∨ c = '\ua4fd' then .ligature .lisuTone false
  else if c.toNat = 0x10c03 then .ligature .orkhonI false
  else if c.toNat = 0x16d67 then .kiratE
  else if c.toNat = 0x16d68 then .kiratAi
  else if isAlef c then .alef
  else if isKhmerLetter c then .ligature .khmerLetter false
  else if isTifinaghConsonant c then .ligature .tifinaghConsonant false
  else if isRegional c then .regional
  else if isModifier c then .modifier
  else if isEmoji c then .emoji
  else .plain

/-- The columns that a character adds to a ligature, and the start that the two make. -/
def Ligature.extend? (kind : Ligature) (joined : Bool) (c : Char) : Option (Int × Start) :=
  match kind with
  | .hebrewLamed => if joined ∧ c = '\u05d0' then some (0, .plain) else none
  | .bugineseYa =>
    if joined ∧ c = '\u1a17' then some (0, .ligature .bugineseVowelYa true) else none
  | .bugineseVowelYa => if c = '\u1a15' then some (0, .plain) else none
  | .tifinaghConsonant =>
    if c = '\u2d7f' then some (1, .ligature .tifinaghJoined true)
    else if joined ∧ isTifinaghConsonant c then some (0, .plain)
    else none
  | .tifinaghJoined => if isTifinaghConsonant c then some (-1, .plain) else none
  | .lisuTone => if inRanges [(0xa4f8, 0xa4fb)] c then some (0, .plain) else none
  | .orkhonI => if joined ∧ c.toNat = 0x10c32 then some (0, .plain) else none
  | .khmerLetter => if c = '\u17d2' then some (-1, .plain) else none

/-- Holds of the letters of tags. -/
def isTagLetter (c : Char) : Bool :=
  0xe0061 ≤ c.toNat && c.toNat ≤ 0xe007a

/-- Holds of the digits of tags. -/
def isTagDigit (c : Char) : Bool :=
  0xe0030 ≤ c.toNat && c.toNat ≤ 0xe0039

/-- The black flag, which a tag makes the flag of a region. -/
def isFlag (c : Char) : Bool :=
  c.toNat == 0x1f3f4

/-- The columns that a character adds to what it is drawn with, and the start that the two make;
nothing if it is drawn on its own. -/
def Start.extend? (start : Start) (c : Char) : Option (Int × Start) :=
  match start with
  | .plain | .lineFeed => none
  | .emoji => if c = zeroWidthJoiner then some (0, .joiner) else none
  | .modifier =>
    if isModifierBase c then some (0, .emoji)
    else if c = zeroWidthJoiner then some (0, .joiner)
    else none
  | .regional => if isRegional c then some (1, .regionals) else none
  | .regionals =>
    if isRegional c then some (1, .regionals)
    else if c = zeroWidthJoiner then some (0, .joiner)
    else none
  | .joiner =>
    if c = '\u20e3' then some (0, .keycap)
    else if isRegional c then some (1, .joinedRegionals 1)
    else if isModifier c then some (0, .modifier)
    else if c.toNat = 0xe007f then some (0, .tagLetters 0)
    else if isEmoji c then some (0, .emoji)
    else none
  | .keycap => none
  | .joinedRegionals count =>
    if isRegional c then
      some (if count % 2 = 1 then -1 else 3, .joinedRegionals (count + 1))
    else if c = zeroWidthJoiner ∧ 1 < count then some (0, .joiner)
    else none
  | .tagLetters count =>
    if isTagLetter c ∧ count < 6 then some (0, .tagLetters (count + 1))
    else if isTagDigit c ∧ count < 5 then some (0, .tagDigits 1)
    else if isFlag c ∧ 3 ≤ count then some (0, .emoji)
    else none
  | .tagDigits count =>
    if isTagDigit c ∧ count < 3 then some (0, .tagDigits (count + 1))
    else if isFlag c ∧ count = 3 then some (0, .emoji)
    else none
  | .kiratE =>
    if c.toNat = 0x16d63 ∨ c.toNat = 0x16d69 then some (0, .plain)
    else if c.toNat = 0x16d67 then some (0, .kiratAi)
    else if c.toNat = 0x16d68 then some (1, .kiratE)
    else none
  | .kiratAi => if c.toNat = 0x16d63 then some (0, .plain) else none
  | .alef =>
    if isLam c then some (0, .plain) else if isTransparent c then some (0, .alef) else none
  | .ligature kind joined =>
    if c = zeroWidthJoiner then some (0, .ligature kind true)
    else if isIgnorableMark c then some (0, .ligature kind joined)
    else kind.extend? joined c

/-- Holds of the starts that a selector leaves as they are. -/
def Start.passesSelectors : Start → Bool
  | .alef | .ligature _ _ => true
  | _ => false

/-- Holds of the starts that a picture joins. -/
def Start.joinsPictures : Start → Bool
  | .joiner | .keycap => true
  | _ => false

/-- Puts a selector in front of a text. -/
def Start.select (start : Start) (selector : Selector) : Tail :=
  if start.passesSelectors || (selector == .picture && start.joinsPictures) then
    ⟨start, some selector⟩
  else ⟨.plain, some selector⟩

/-- The start of a text behind its selector, which did not apply. -/
def Tail.unselected (t : Tail) : Start :=
  if t.selector?.isNone || t.start.passesSelectors then t.start else .plain

/-- The columns of a character in front of a text, and what the longer text starts with. -/
def Start.step (start : Start) (c : Char) : Int × Tail :=
  if c.toNat ≤ 0xa0 then
    if c = '\n' then (1, ⟨.lineFeed, none⟩)
    else if c = '\r' ∧ start = .lineFeed then (0, ⟨.plain, none⟩)
    else (1, ⟨.plain, none⟩)
  else
    match start.extend? c with
    | some (n, start) => (n, ⟨start, none⟩)
    | none => (columns c, ⟨.of c, none⟩)

/-- The columns of a character in front of a text that may start with a selector, and what the
longer text starts with. -/
def Tail.step (t : Tail) (c : Char) : Int × Tail :=
  match selectorOf? c with
  | some selector => (0, t.unselected.select selector)
  | none =>
    match t.selector? with
    | some .picture =>
      if hasStyles c then (if t.start.joinsPictures then 0 else 2, ⟨.emoji, none⟩)
      else t.unselected.step c
    | some .sign => if narrowsToSign c then (1, ⟨.plain, none⟩) else t.unselected.step c
    | some .wide => if isQuotationMark c then (2, ⟨.plain, none⟩) else t.unselected.step c
    | none => t.unselected.step c

end TreeGrammar.Text
