import ExprLang.Text.WidthClass

/-!
# Ligatures

In some scripts a few letters run together into one sign, which takes fewer columns than
its letters do. A ligature is read from its right end, and `Ligature` is the part read so
far. Marks without width may stand between its letters.

* `Ligature.extend?` takes one more character in on the left; it answers by how many
  columns that changes the width.
-/

namespace ExprLang.Text

/-! ## Letters and marks -/

def alefLetters : CharClass :=
  [(0x622, 0x623), (0x625, 0x625), (0x627, 0x627), (0x671, 0x673), (0x675, 0x675),
   (0x773, 0x774), (0x870, 0x882)]

def lamLetters : CharClass :=
  [(0x644, 0x644), (0x6B5, 0x6B8), (0x76A, 0x76A), (0x8A6, 0x8A6), (0x8C7, 0x8C7)]

/-- Khmer letters that are written below the letter before them when a coeng precedes. -/
def coengLetters : CharClass :=
  [(0x1780, 0x1782), (0x1784, 0x1787), (0x1789, 0x178C), (0x178E, 0x1793), (0x1795, 0x1798),
   (0x179B, 0x179D), (0x17A0, 0x17A0), (0x17A2, 0x17A2), (0x17A7, 0x17A7), (0x17AB, 0x17AC),
   (0x17AF, 0x17AF)]

def tifinaghConsonants : CharClass := [(0x2D31, 0x2D65), (0x2D6F, 0x2D6F)]

/-- The marks of Lisu for a tone: the first and the second of a pair. -/
def lisuFirstTones : CharClass := [(0xA4F8, 0xA4FB)]

def lisuSecondTones : CharClass := [(0xA4FC, 0xA4FD)]

/-- Combining marks that are default ignorable. -/
def ligatureMarks : CharClass :=
  [(0x34F, 0x34F), (0x17B4, 0x17B5), (0x180B, 0x180D), (0x180F, 0x180F), (0xFE00, 0xFE0D),
   (0xE0100, 0xE01EF)]

/-- Characters without width that keep the Arabic letters around them from joining. -/
def joiningBarriers : CharClass :=
  [(0x605, 0x605), (0x890, 0x891), (0x8E2, 0x8E2), (0x9BE, 0x9BE), (0x9D7, 0x9D7),
   (0xB3E, 0xB3E), (0xB57, 0xB57), (0xBBE, 0xBBE), (0xBD7, 0xBD7), (0xCC0, 0xCC0),
   (0xCC2, 0xCC2), (0xCC7, 0xCC8), (0xCCA, 0xCCB), (0xCD5, 0xCD6), (0xD3E, 0xD3E),
   (0xD4E, 0xD4E), (0xD57, 0xD57), (0xDCF, 0xDCF), (0xDDF, 0xDDF), (0x1160, 0x11FF),
   (0x180E, 0x180E), (0x1B35, 0x1B35), (0x1B3B, 0x1B3B), (0x1B3D, 0x1B3D), (0x1B43, 0x1B43),
   (0x200C, 0x200D), (0x2065, 0x2069), (0x302E, 0x302F), (0x3164, 0x3164), (0xA8FA, 0xA8FA),
   (0xD7B0, 0xD7C6), (0xD7CB, 0xD7FB), (0xFF9E, 0xFFA0), (0xFFF0, 0xFFF8), (0x111C2, 0x111C3),
   (0x1133E, 0x1133E), (0x11357, 0x11357), (0x114B0, 0x114B0), (0x114BD, 0x114BD),
   (0x115AF, 0x115AF), (0x11930, 0x11930), (0x1193F, 0x1193F), (0x11941, 0x11941),
   (0x11A3A, 0x11A3A), (0x11A84, 0x11A89), (0x11D46, 0x11D46), (0x11F02, 0x11F02),
   (0x1D165, 0x1D165), (0x1D16E, 0x1D172), (0xE0000, 0xE0000), (0xE0002, 0xE001F),
   (0xE0080, 0xE00FF), (0xE01F0, 0xE0FFF)]

/-- Whether a character may stand between two Arabic letters that join. -/
def joinsAcross (c : Char) : Bool := zeroWidth.contains c && !joiningBarriers.contains c

/-! ## The part read so far -/

/-- The right part of a ligature; `tied` if a joiner stands before it. -/
inductive Ligature where
  /-- Arabic lam and alef. -/
  | alef
  /-- Hebrew alef and lamed, tied. -/
  | lamed (tied : Bool)
  /-- Khmer coeng and a letter. -/
  | coengLetter
  /-- Buginese a with the vowel i and ya, tied. -/
  | ya (tied : Bool)
  | vowelledYa
  /-- Two Tifinagh consonants, tied or with a consonant joiner. -/
  | tifinagh (tied : Bool)
  | bridgedTifinagh
  /-- Two Lisu tones. -/
  | lisuTone
  /-- Old Turkic ec and i, tied. -/
  | orkhonI (tied : Bool)
  deriving DecidableEq, Repr

namespace Ligature

def tie : Ligature → Ligature
  | lamed _ => lamed true
  | ya _ => ya true
  | tifinagh _ => tifinagh true
  | orkhonI _ => orkhonI true
  | ligature => ligature

/-- Takes in a letter on the left; `none` if it is not the one that the ligature needs. What
is left to read is `none` where the letter completes the ligature. -/
def extendByLetter? (c : Char) : Ligature → Option (Int × Option Ligature)
  | alef => if lamLetters.contains c then some (0, none) else none
  | lamed tied => if tied ∧ c = '\u05D0' then some (0, none) else none
  | coengLetter => if c = '\u17D2' then some (-1, none) else none
  | ya tied => if tied ∧ c = '\u1A17' then some (0, some vowelledYa) else none
  | vowelledYa => if c = '\u1A15' then some (0, none) else none
  | tifinagh tied =>
    if c = '\u2D7F' then some (1, some bridgedTifinagh)
    else if tied ∧ tifinaghConsonants.contains c then some (0, none)
    else none
  | bridgedTifinagh => if tifinaghConsonants.contains c then some (-1, none) else none
  | lisuTone => if lisuFirstTones.contains c then some (0, none) else none
  | orkhonI tied => if tied ∧ c.toNat = 0x10C32 then some (0, none) else none

/-- Takes in one more character on the left: a letter, or a mark between two letters. A
joiner is such a mark except between Arabic letters. -/
def extend? (c : Char) (ligature : Ligature) : Option (Int × Option Ligature) :=
  match ligature.extendByLetter? c with
  | some result => some result
  | none =>
    if ligature = alef then
      if joinsAcross c then some (0, some alef) else none
    else if c = joiner then
      some (0, some ligature.tie)
    else if ligatureMarks.contains c then
      some (0, some ligature)
    else
      none

/-- The ligature that a character can be the right end of. -/
def endingWith? (c : Char) : Option Ligature :=
  if alefLetters.contains c then some alef
  else if c = '\u05DC' then some (lamed false)
  else if coengLetters.contains c then some coengLetter
  else if c = '\u1A10' then some (ya false)
  else if tifinaghConsonants.contains c then some (tifinagh false)
  else if lisuSecondTones.contains c then some lisuTone
  else if c.toNat = 0x10C03 then some (orkhonI false)
  else none

end Ligature

end ExprLang.Text
