import ExprLang.Text.WidthClass

/-!
# Emoji sequences

Several characters can make up one emoji: an emoji with a skin tone, two letters of a flag,
a flag with a tag that names a region, a key with its keycap, and emoji tied together by
joiners. A sequence is read from its right end, and `EmojiTail` is the part read so far.

* `EmojiTail.extend?` takes one more character in on the left; it answers by how many
  columns that changes the width.
* `joinedFlagWidth` is what letters of flags before a joiner add to the width. One more flag
  in front takes two columns (`joinedFlagWidth_add_two`).
-/

namespace ExprLang.Text

/-! ## Parts of sequences -/

def keycap : Char := '\u20E3'

def isSkinTone (c : Char) : Bool := 0x1F3FB ≤ c.toNat && c.toNat ≤ 0x1F3FF

/-- A flag is written as two letters, those of its country. -/
def isFlagLetter (c : Char) : Bool := 0x1F1E6 ≤ c.toNat && c.toNat ≤ 0x1F1FF

/-- The flag that a tag can follow. -/
def plainFlag : Char := Char.ofNat 0x1F3F4

def isTagDigit (c : Char) : Bool := 0xE0030 ≤ c.toNat && c.toNat ≤ 0xE0039

def isTagLetter (c : Char) : Bool := 0xE0061 ≤ c.toNat && c.toNat ≤ 0xE007A

def tagEnd : Char := Char.ofNat 0xE007F

/-- A tag names a region: three digits and at most four letters, or two letters and at
least one and at most four more. -/
def namesRegion (digits letters : Nat) : Bool :=
  digits == 3 && letters ≤ 4 || digits == 0 && 3 ≤ letters && letters ≤ 6

/-! ## The part read so far -/

/-- The right part of an emoji sequence. -/
inductive EmojiTail where
  | emoji
  | skinTone
  /-- Letters of flags. -/
  | flagLetters (count : Nat)
  /-- A joiner, and an emoji that it ties to what stands before it. -/
  | joined
  /-- A keycap before the joiner. -/
  | joinedKeycap
  /-- Letters of flags before the joiner. -/
  | joinedFlagLetters (count : Nat)
  /-- The right part of a tag before the joiner: digits, then letters. -/
  | joinedTag (digits letters : Nat)
  deriving DecidableEq, Repr

/-- The columns that letters of flags add before a joiner. Letters make up flags in pairs
from the left. The last pair is joined and adds nothing; a letter left over is not. -/
def joinedFlagWidth (count : Nat) : Nat := if count % 2 = 0 then count - 2 else count

theorem joinedFlagWidth_add_two {n : Nat} (h : n ≠ 0) :
    joinedFlagWidth (n + 2) = joinedFlagWidth n + 2 := by
  unfold joinedFlagWidth
  split <;> split <;> omega

/-- Takes in one more character on the left; `none` if it does not belong to the sequence. -/
def EmojiTail.extend? (c : Char) : EmojiTail → Option (Int × EmojiTail)
  | emoji => if c = joiner then some (0, joined) else none
  | skinTone =>
    if modifierBases.contains c then some (0, emoji)
    else if c = joiner then some (0, joined)
    else none
  | flagLetters count =>
    if isFlagLetter c then some (1, flagLetters (count + 1))
    else if c = joiner ∧ 2 ≤ count then some (0, joined)
    else none
  | joined =>
    if emojiPresentation.contains c then some (0, emoji)
    else if isSkinTone c then some (0, skinTone)
    else if isFlagLetter c then some (1, joinedFlagLetters 1)
    else if c = keycap then some (0, joinedKeycap)
    else if c = tagEnd then some (0, joinedTag 0 0)
    else none
  | joinedKeycap => none
  | joinedFlagLetters count =>
    if isFlagLetter c then
      some (joinedFlagWidth (count + 1) - joinedFlagWidth count, joinedFlagLetters (count + 1))
    else if c = joiner ∧ 2 ≤ count then some (0, joined)
    else none
  | joinedTag digits letters =>
    if isTagLetter c ∧ digits = 0 ∧ letters < 6 then some (0, joinedTag 0 (letters + 1))
    else if isTagDigit c ∧ digits < 3 ∧ letters ≤ 4 then some (0, joinedTag (digits + 1) letters)
    else if c = plainFlag ∧ namesRegion digits letters then some (0, emoji)
    else none

/-- What a character begins on the left of text it does not belong to. -/
def EmojiTail.startingWith? (c : Char) : Option EmojiTail :=
  if emojiPresentation.contains c then some emoji
  else if isSkinTone c then some skinTone
  else if isFlagLetter c then some (flagLetters 1)
  else none

end ExprLang.Text
