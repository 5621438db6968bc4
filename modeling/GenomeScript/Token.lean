import GenomeScript.Text

/-!
# Tokens

A token is a word of a script together with where it stands: the line, counted from one, and the
byte range of the source. Tokens are the maximal runs of characters that are not blank. A line ends
at a line feed and at a carriage return that no line feed follows, so the pair of both ends one
line; no other blank ends a line.

What a token is for is decided by its text: the three keywords first, then the first character
alone. Whether the rest of the text fits the role is a separate question.
-/

namespace GenomeScript

/-- A range of byte offsets, its end excluded. -/
structure Span where
  first : Nat
  past : Nat
deriving DecidableEq, Repr

/-- The range of a token that stands nowhere in a source. -/
def Span.none : Span := ⟨0, 0⟩

/-- Whether the range holds no byte. -/
def Span.isEmpty (span : Span) : Bool :=
  span.past ≤ span.first

/-- A word of a script and its place. A token made by hand has the empty range at the start. -/
structure Token where
  text : String
  line : Nat
  span : Span := .none
deriving DecidableEq, Repr

/-- The token blamed when there is no token to blame. -/
def Token.nowhere : Token := { text := "", line := 1 }

namespace Keyword

/-- Opens a body. -/
def start : String := "start"

/-- Closes a body. -/
def stop : String := "stop"

/-- Writes a sysvar. -/
def store : String := "store"

end Keyword

/-! ## Roles -/

/-- What a token is for. Delimiters bound a body, and foreign tokens have no use at all. -/
inductive Role where
  | delimiter
  | store
  | number
  | read
  | address
  | operator
  | foreign
deriving DecidableEq, Repr

namespace Role

/-- The role announced by a first character. -/
def ofFirst (c : Char) : Role :=
  if c.isDigit || c == '+' || c == '-' then .number
  else if c == '*' then .read
  else if c == '.' then .address
  else if c.isAlpha then .operator
  else .foreign

/-- The role of a text. -/
def of (text : String) : Role :=
  if text = Keyword.start ∨ text = Keyword.stop then .delimiter
  else if text = Keyword.store then .store
  else
    match text.toList with
    | [] => .foreign
    | c :: _ => ofFirst c

end Role

/-- What the token is for. -/
def Token.role (token : Token) : Role := Role.of token.text

/-! ## Splitting a script into tokens -/

namespace Token

open GenomeScript.Text

/-- Whether a character may stand in a token. -/
def isSolid (c : Char) : Bool := !isBlank c

/-- The number of lines that end at a blank `c` with `rest` after it. -/
def lineEnds (c : Char) (rest : List Char) : Nat :=
  if c = '\n' ∨ (c = '\r' ∧ rest.head? ≠ some '\n') then 1 else 0

/-- What follows a run of solid characters is no longer than the run with what follows it. -/
theorem length_dropWhile_isSolid_le (cs : List Char) :
    (cs.dropWhile isSolid).length ≤ cs.length :=
  (List.dropWhile_suffix isSolid).length_le

/-- The tokens of a text that begins on the given line at the given byte offset. -/
def scanFrom (line offset : Nat) : List Char → List Token
  | [] => []
  | c :: cs =>
    if isBlank c then scanFrom (line + lineEnds c cs) (offset + c.utf8Size) cs
    else
      let word := c :: cs.takeWhile isSolid
      let past := offset + width word
      { text := String.ofList word, line, span := ⟨offset, past⟩ } ::
        scanFrom line past (cs.dropWhile isSolid)
termination_by cs => cs.length
decreasing_by
  · simp
  · have := length_dropWhile_isSolid_le cs
    simp only [List.length_cons]
    omega

/-- The tokens of a source. -/
def scan (source : String) : List Token :=
  scanFrom 1 0 source.toList

@[simp] theorem scanFrom_nil (line offset : Nat) : scanFrom line offset [] = [] := by
  rw [scanFrom]

/-- A blank yields no token and may end a line. -/
theorem scanFrom_cons_of_isBlank (line offset : Nat) {c : Char} (cs : List Char)
    (h : isBlank c = true) :
    scanFrom line offset (c :: cs) = scanFrom (line + lineEnds c cs) (offset + c.utf8Size) cs := by
  rw [scanFrom, if_pos h]

/-- A solid character opens a token that takes in the whole run. -/
theorem scanFrom_cons_of_not_isBlank (line offset : Nat) {c : Char} (cs : List Char)
    (h : isBlank c = false) :
    scanFrom line offset (c :: cs) =
      { text := String.ofList (c :: cs.takeWhile isSolid), line,
        span := ⟨offset, offset + width (c :: cs.takeWhile isSolid)⟩ } ::
        scanFrom line (offset + width (c :: cs.takeWhile isSolid)) (cs.dropWhile isSolid) := by
  rw [scanFrom, if_neg (by simp [h])]

end Token

end GenomeScript
