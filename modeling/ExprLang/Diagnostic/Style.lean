/-!
# Styles of terminal text

A style is a pair of colours and some attributes. `Style.escapes` is the control text that
switches a terminal to it: first the reset that a style starts with unless it says
otherwise, then attributes, then colours.
-/

namespace ExprLang

/-- The eight colours that have names. -/
inductive NamedColor where
  | black
  | red
  | green
  | yellow
  | blue
  | magenta
  | cyan
  | white
  deriving DecidableEq, Repr

inductive Color where
  | named (color : NamedColor)
  /-- An entry of the palette of 256 colours. -/
  | indexed (index : Nat)
  | rgb (red green blue : Nat)
  deriving DecidableEq, Repr

structure Style where
  foreground : Option Color := none
  background : Option Color := none
  bold : Bool := false
  /-- Draws named colours brighter. -/
  intense : Bool := false
  underline : Bool := false
  dimmed : Bool := false
  italic : Bool := false
  strikethrough : Bool := false
  /-- Ends every style before it first. -/
  resets : Bool := true
  deriving DecidableEq, Repr

/-- A terminal control sequence that sets display attributes. -/
def controlSequence (parameters : String) : String := "\x1b[" ++ parameters ++ "m"

/-- The control sequence that ends every style. -/
def resetSequence : String := controlSequence "0"

def NamedColor.index : NamedColor → Nat
  | black => 0
  | red => 1
  | green => 2
  | yellow => 3
  | blue => 4
  | magenta => 5
  | cyan => 6
  | white => 7

/-- The control sequence of a colour. `layer` is 3 for the foreground, 4 for the
background. -/
def Color.escape (layer : Nat) (intense : Bool) : Color → String
  | named color =>
    if intense then
      controlSequence (layer.repr ++ "8;5;" ++ (color.index + 8).repr)
    else
      controlSequence (layer.repr ++ color.index.repr)
  | indexed index => controlSequence (layer.repr ++ "8;5;" ++ index.repr)
  | rgb red green blue =>
    controlSequence (layer.repr ++ "8;2;" ++ red.repr ++ ";" ++ green.repr ++ ";" ++ blue.repr)

def Style.escapes (s : Style) : String :=
  let flag (on : Bool) (parameter : String) : String :=
    if on then controlSequence parameter else ""
  let color (layer : Nat) : Option Color → String
    | some c => c.escape layer s.intense
    | none => ""
  (if s.resets then resetSequence else "") ++ flag s.bold "1" ++ flag s.dimmed "2" ++
    flag s.italic "3" ++ flag s.underline "4" ++ flag s.strikethrough "9" ++
    color 3 s.foreground ++ color 4 s.background

end ExprLang
