import ExprLang.Grammar.Error
import ExprLang.Token.Lexer

/-!
# Parsing over a stream of tokens

A stream holds the tokens still unread; after the last one stands the end of input, for
ever. A parse reads tokens off the front of a stream, and either answers a value or fails
with a syntax error. Where it fails it leaves what it has read behind, so that recovery
goes on from there.

* `current` is the next token, `advance` reads it, `expect` reads a token of one kind.
* `bind_eq_ok_iff`, `bind_eq_error_iff`: how two parses in sequence succeed and fail.
-/

namespace ExprLang

open Text

/-! ## Streams -/

structure TokenStream where
  /-- The unread tokens before the end of input. -/
  pending : List Token
  /-- The span of the end of input. -/
  stop : Span
  deriving DecidableEq, Repr

namespace TokenStream

/-- All that a lexer still has to read. -/
def ofLexer (l : Lexer) : TokenStream := ⟨l.tokens, .empty l.finish.position⟩

def current (ts : TokenStream) : Token := ts.pending.headD (.endOfInput ts.stop)

/-- The stream after `n` more tokens. -/
def drop (n : Nat) (ts : TokenStream) : TokenStream := { ts with pending := ts.pending.drop n }

def advance (ts : TokenStream) : TokenStream := ts.drop 1

/-- The stream at the end of input. -/
def finish (ts : TokenStream) : TokenStream := { ts with pending := [] }

/-- The stream after the next semicolon, or at the end of input where there is none. -/
def afterSemicolon (ts : TokenStream) : TokenStream :=
  { ts with pending := (ts.pending.dropWhile (·.kind != .semicolon)).drop 1 }

def mapSpan (f : Span → Span) (ts : TokenStream) : TokenStream :=
  ⟨ts.pending.map (Token.mapSpan f), f ts.stop⟩

theorem current_mapSpan (f : Span → Span) (ts : TokenStream) :
    (ts.mapSpan f).current = ts.current.mapSpan f := by
  obtain ⟨pending, stop⟩ := ts
  cases pending <;> rfl

theorem drop_mapSpan (n : Nat) (f : Span → Span) (ts : TokenStream) :
    (ts.mapSpan f).drop n = (ts.drop n).mapSpan f := by
  simp [mapSpan, drop]

@[simp] theorem drop_zero (ts : TokenStream) : ts.drop 0 = ts := rfl

theorem current_of_nil {ts : TokenStream} (h : ts.pending = []) :
    ts.current = .endOfInput ts.stop := by
  simp [current, h]

theorem pending_ne_nil_of_kind {ts : TokenStream} (h : ts.current.kind ≠ .endOfInput) :
    ts.pending ≠ [] := by
  intro hp
  rw [current_of_nil hp] at h
  exact h rfl

theorem length_advance_lt {ts : TokenStream} (h : ts.pending ≠ []) :
    ts.advance.pending.length < ts.pending.length := by
  have := List.length_pos_iff.mpr h
  simp only [advance, drop, List.length_drop]
  omega

theorem length_afterSemicolon_lt {ts : TokenStream} (h : ts.pending ≠ []) :
    ts.afterSemicolon.pending.length < ts.pending.length := by
  have h₁ := List.length_pos_iff.mpr h
  have h₂ := (List.dropWhile_sublist (l := ts.pending) (·.kind != .semicolon)).length_le
  simp only [afterSemicolon, List.length_drop]
  omega

end TokenStream

/-! ## Parses -/

abbrev Parse := EStateM SyntaxError TokenStream

namespace Parse

def current : Parse Token := return (← get).current

def advance : Parse Unit := modify TokenStream.advance

/-- Fails at the current token. -/
def failHere {α : Type} (cause : Token → Cause) : Parse α := do
  let t ← current
  throw ⟨cause t, t.span⟩

/-- Reads a token of the given kind; `after` names what it should have followed. -/
def expect (kind : TokenKind) (after : String) : Parse Token := do
  let t ← current
  if t.kind = kind then
    advance
    return t
  else
    failHere fun t => .expectedAfter kind.name after t.describe

/-! ## Steps one by one -/

variable {α β : Type} {ts ts' : TokenStream}

@[simp] theorem pure_apply (a : α) (ts : TokenStream) : (pure a : Parse α) ts = .ok a ts := rfl

@[simp] theorem throw_apply (e : SyntaxError) (ts : TokenStream) :
    (throw e : Parse α) ts = .error e ts := rfl

@[simp] theorem current_apply (ts : TokenStream) : current ts = .ok ts.current ts := rfl

@[simp] theorem advance_apply (ts : TokenStream) : advance ts = .ok () ts.advance := rfl

@[simp] theorem failHere_apply (cause : Token → Cause) (ts : TokenStream) :
    (failHere cause : Parse α) ts = .error ⟨cause ts.current, ts.current.span⟩ ts := rfl

theorem bind_of_ok {x : Parse α} {a : α} (h : x ts = .ok a ts') (f : α → Parse β) :
    (x >>= f) ts = f a ts' := by
  change EStateM.bind x f ts = _
  simp only [EStateM.bind, h]

theorem bind_of_error {x : Parse α} {e : SyntaxError} (h : x ts = .error e ts')
    (f : α → Parse β) : (x >>= f) ts = .error e ts' := by
  change EStateM.bind x f ts = _
  simp only [EStateM.bind, h]

@[simp] theorem current_bind (f : Token → Parse β) (ts : TokenStream) :
    (current >>= f) ts = f ts.current ts := rfl

@[simp] theorem advance_bind (f : Unit → Parse β) (ts : TokenStream) :
    (advance >>= f) ts = f () ts.advance := rfl

theorem bind_eq_ok_iff {x : Parse α} {f : α → Parse β} {b : β} :
    (x >>= f) ts = .ok b ts' ↔ ∃ a ts₁, x ts = .ok a ts₁ ∧ f a ts₁ = .ok b ts' := by
  cases h : x ts with
  | ok a ts₁ =>
    rw [bind_of_ok h]
    constructor
    · exact fun hf => ⟨a, ts₁, rfl, hf⟩
    · rintro ⟨_, _, he, hf⟩
      cases he
      exact hf
  | error e ts₁ =>
    rw [bind_of_error h]
    constructor
    · exact fun he => nomatch he
    · exact fun ⟨_, _, he, _⟩ => nomatch he

theorem bind_eq_error_iff {x : Parse α} {f : α → Parse β} {e : SyntaxError} :
    (x >>= f) ts = .error e ts' ↔
      x ts = .error e ts' ∨ ∃ a ts₁, x ts = .ok a ts₁ ∧ f a ts₁ = .error e ts' := by
  cases h : x ts with
  | ok a ts₁ =>
    rw [bind_of_ok h]
    constructor
    · exact fun hf => Or.inr ⟨a, ts₁, rfl, hf⟩
    · rintro (he | ⟨_, _, he, hf⟩)
      · cases he
      · cases he
        exact hf
  | error e' ts₁ =>
    rw [bind_of_error h]
    constructor
    · intro he
      cases he
      exact Or.inl rfl
    · rintro (he | ⟨_, _, he, _⟩)
      · cases he
        rfl
      · cases he

theorem expect_of_eq {kind : TokenKind} (h : ts.current.kind = kind) (after : String) :
    expect kind after ts = .ok ts.current ts.advance := by
  unfold expect
  rw [current_bind, if_pos h]
  rfl

theorem expect_of_ne {kind : TokenKind} (h : ts.current.kind ≠ kind) (after : String) :
    expect kind after ts =
      .error ⟨.expectedAfter kind.name after ts.current.describe, ts.current.span⟩ ts := by
  unfold expect
  rw [current_bind, if_neg h]
  rfl

end Parse

end ExprLang
