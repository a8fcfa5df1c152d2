import ExprLang.Text.Bytes

/-!
# Cursors

A cursor is a place in a text: the byte offset reached so far and the characters still
unread. Reading moves it forward only.

* `next?` reads a character, `peek?` looks at it without reading, `eat` reads one given
  character, `eatWhile` reads as many as belong to a class.
* `skip front rest` is the cursor after the text `front`; every reading step is one
  (`next?_eq_some_iff`, `eatWhile_eq`).
-/

namespace ExprLang.Text

structure Cursor where
  /-- The byte offset of the first unread character. -/
  position : Nat
  /-- The unread characters. -/
  rest : List Char
  deriving DecidableEq, Repr

namespace Cursor

def ofString (text : String) : Cursor := ⟨0, text.toList⟩

/-- The cursor of `text` at a byte offset; `none` past the end or inside a character. -/
def startingAt? (text : String) (offset : Nat) : Option Cursor :=
  (splitBytes? offset text.toList).map fun p => ⟨offset, p.2⟩

/-- The cursor after a part `front` of the unread text, of which `rest` is left. -/
def skip (c : Cursor) (front rest : List Char) : Cursor := ⟨c.position + byteSize front, rest⟩

def peek? (c : Cursor) : Option Char := c.rest.head?

def atEnd (c : Cursor) : Bool := c.rest.isEmpty

def next? (c : Cursor) : Option (Char × Cursor) :=
  match c.rest with
  | [] => none
  | ch :: rest => some (ch, c.skip [ch] rest)

/-- Reads the character `ch`, if it is the next one. -/
def eat? (c : Cursor) (ch : Char) : Option Cursor :=
  match c.rest with
  | [] => none
  | first :: rest => if first = ch then some (c.skip [first] rest) else none

/-- Reads characters as long as they satisfy `p`; also answers how many were read. -/
def eatWhile (c : Cursor) (p : Char → Bool) : Nat × Cursor :=
  let front := c.rest.takeWhile p
  (front.length, c.skip front (c.rest.dropWhile p))

/-! ## What reading does -/

@[simp] theorem rest_skip (c : Cursor) (front rest : List Char) :
    (c.skip front rest).rest = rest := rfl

@[simp] theorem position_skip (c : Cursor) (front rest : List Char) :
    (c.skip front rest).position = c.position + byteSize front := rfl

theorem skip_skip (c : Cursor) (front middle rest rest' : List Char) :
    (c.skip front rest').skip middle rest = c.skip (front ++ middle) rest := by
  simp [skip, Nat.add_assoc]

theorem next?_eq_some_iff {c : Cursor} {ch : Char} {c' : Cursor} :
    c.next? = some (ch, c') ↔ ∃ rest, c.rest = ch :: rest ∧ c' = c.skip [ch] rest := by
  unfold next?
  split
  · simp_all
  · rename_i first rest h
    simp only [h, Option.some.injEq, Prod.mk.injEq, List.cons.injEq]
    constructor
    · rintro ⟨rfl, rfl⟩
      exact ⟨rest, ⟨rfl, rfl⟩, rfl⟩
    · rintro ⟨_, ⟨rfl, rfl⟩, rfl⟩
      exact ⟨rfl, rfl⟩

theorem atEnd_iff {c : Cursor} : c.atEnd = true ↔ c.peek? = none := by
  simp [atEnd, peek?]

theorem eatWhile_eq (c : Cursor) (p : Char → Bool) :
    c.rest = c.rest.takeWhile p ++ (c.eatWhile p).2.rest :=
  List.takeWhile_append_dropWhile.symm

theorem eatWhile_peek? {c : Cursor} {p : Char → Bool} {ch : Char}
    (h : (c.eatWhile p).2.peek? = some ch) : p ch = false := by
  obtain ⟨rest, hrest⟩ := List.head?_eq_some_iff.mp h
  have hd : c.rest.dropWhile p = ch :: rest := hrest
  have := List.head?_dropWhile_not p c.rest
  simpa [hd] using this

end Cursor

end ExprLang.Text
