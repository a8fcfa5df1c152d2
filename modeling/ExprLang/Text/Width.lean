import ExprLang.Text.Emoji
import ExprLang.Text.Ligature

/-!
# Display width

The display width of a text is the number of columns it takes in a terminal. It is added
up from right to left, because what follows a character can change its width: a variation
selector after it, or a sequence of emoji or letters that it is a part of.

* `displayWidth_eq_length`: a text of ASCII characters is as wide as it is long.
-/

namespace ExprLang.Text

/-- The width of a character by itself. Within a text a control character takes one column. -/
def charWidth (c : Char) : Nat :=
  if c.toNat ≤ 0xA0 then 1
  else if c.toNat = 0x17D8 then 3
  else if zeroWidth.contains c then 0
  else if doubleWidth.contains c then 2
  else 1

/-! ## What stands to the right -/

/-- The right part of a sequence that a character can belong to. -/
inductive Tail where
  | nothing
  | emoji (tail : EmojiTail)
  | letters (ligature : Ligature)
  deriving DecidableEq, Repr

namespace Tail

/-- Takes in one more character on the left; `none` if it does not belong to the sequence. -/
def extend? (c : Char) : Tail → Option (Int × Tail)
  | nothing => none
  | emoji tail => (tail.extend? c).map fun (width, tail) => (width, emoji tail)
  | letters ligature =>
    (ligature.extend? c).map fun (width, rest?) => (width, (rest?.map letters).getD nothing)

/-- The sequence that a character begins on the left of text it does not belong to. -/
def startingWith (c : Char) : Tail :=
  if c.toNat ≤ 0xA0 then nothing
  else match EmojiTail.startingWith? c, Ligature.endingWith? c with
    | some tail, _ => emoji tail
    | none, some ligature => letters ligature
    | none, none => nothing

/-- Whether a picture to the left is tied to an emoji. -/
def tiesPicture : Tail → Bool
  | emoji .joined | emoji .joinedKeycap => true
  | _ => false

/-- A variation selector is a mark between letters, and separates emoji. -/
def withoutEmoji : Tail → Tail
  | emoji _ => nothing
  | tail => tail

end Tail

/-! ## Variation selectors -/

/-- The two forms in which some characters can be drawn. -/
inductive Form where
  | text
  | picture
  deriving DecidableEq, Repr

/-- The form that a variation selector asks for. -/
def Form.ofSelector? (c : Char) : Option Form :=
  if c = '\uFE0E' then some text
  else if c = '\uFE0F' then some picture
  else none

/-- What is left of a sequence under a selector: a picture may still be tied to an emoji. -/
def Form.keep : Form → Tail → Tail
  | picture, tail => if tail.tiesPicture then tail else tail.withoutEmoji
  | text, tail => tail.withoutEmoji

/-- Emoji that take one column as text. An ideograph in a frame takes two in either form. -/
def narrowsAsText (c : Char) : Bool :=
  variationBases.contains c && emojiPresentation.contains c &&
    !(0x1F200 ≤ c.toNat && c.toNat ≤ 0x1F2FF)

/-- What stands to the right of a character, as far as it matters to its width. -/
structure Follow where
  tail : Tail
  /-- The form that a selector right after the character asks for. -/
  form? : Option Form
  deriving DecidableEq, Repr

namespace Follow

/-- Nothing that matters. -/
def other : Follow := ⟨.nothing, none⟩

/-- The width of a character that has the form asked for. -/
def formWidth? (c : Char) (follow : Follow) : Option (Nat × Follow) :=
  match follow.form? with
  | none => none
  | some .text => if narrowsAsText c then some (1, other) else none
  | some .picture =>
    if variationBases.contains c then
      some (if follow.tail.tiesPicture then 0 else 2, ⟨.emoji .emoji, none⟩)
    else
      none

/-- The sequence to the right of a character that has no form of the kind asked for. -/
def sequence (follow : Follow) : Tail :=
  if follow.form?.isSome then follow.tail.withoutEmoji else follow.tail

end Follow

/-! ## Texts -/

/-- By how much a character on the left of `tail` changes the width, and what it is to the
character before it. -/
def step (c : Char) (tail : Tail) : Int × Follow :=
  match Form.ofSelector? c with
  | some form => (0, ⟨form.keep tail, some form⟩)
  | none =>
    match tail.extend? c with
    | some (width, tail) => (width, ⟨tail, none⟩)
    | none => (charWidth c, ⟨.startingWith c, none⟩)

/-- Adds a character on the left of a text that has been measured. -/
def measure (c : Char) (right : Int × Follow) : Int × Follow :=
  match right.2.formWidth? c with
  | some (width, follow) => (width + right.1, follow)
  | none =>
    let (change, follow) := step c right.2.sequence
    (change + right.1, follow)

/-- The number of columns of a text. -/
def displayWidth (cs : List Char) : Nat := (cs.foldr measure (0, .other)).1.toNat

/-- A tab is printed as four blanks. -/
def expandTabs (cs : List Char) : List Char :=
  cs.flatMap fun c => if c = '\t' then [' ', ' ', ' ', ' '] else [c]

/-! ## ASCII -/

theorem step_of_ascii {c : Char} (h : c.toNat < 128) : step c .nothing = (1, .other) := by
  have hc : c.toNat ≤ 0xA0 := by omega
  have htext : c ≠ '\uFE0E' := by
    rintro rfl
    exact absurd h (by decide)
  have hpicture : c ≠ '\uFE0F' := by
    rintro rfl
    exact absurd h (by decide)
  simp [step, Form.ofSelector?, Tail.extend?, Tail.startingWith, charWidth, Follow.other,
    hc, htext, hpicture]

theorem foldr_measure_of_ascii {cs : List Char} (h : ∀ c ∈ cs, c.toNat < 128) :
    cs.foldr measure (0, .other) = ((cs.length : Int), .other) := by
  induction cs with
  | nil => rfl
  | cons c cs ih =>
    have hstep := step_of_ascii (h c List.mem_cons_self)
    rw [List.foldr_cons, ih fun d hd => h d (List.mem_cons_of_mem c hd)]
    change ((step c .nothing).1 + (cs.length : Int), (step c .nothing).2) = _
    rw [hstep, List.length_cons, Int.natCast_succ, Int.add_comm]

theorem displayWidth_eq_length {cs : List Char} (h : ∀ c ∈ cs, c.toNat < 128) :
    displayWidth cs = cs.length := by
  rw [displayWidth, foldr_measure_of_ascii h, Int.toNat_natCast]

end ExprLang.Text
