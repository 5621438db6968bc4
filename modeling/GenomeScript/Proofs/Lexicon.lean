import GenomeScript.Proofs.Literals
import GenomeScript.Expression

/-!
# The words of an expression

A leaf of an expression is one word: a literal whose integer is a value, `*.` before a name,
or `.` before a name. Names are a letter or an underscore followed by letters, digits and
underscores. The first character of a leaf settles its role, and the reading for that role
accepts the whole word, so the dispatch on first characters turns no leaf away. What placing
a token on the operand stack can do is stated once, in terms of leaves, operators and `store`.
-/

namespace GenomeScript.Grammar

/-- The characters that open a name. -/
def IsLetter (c : Char) : Prop :=
  ('A' ≤ c ∧ c ≤ 'Z') ∨ ('a' ≤ c ∧ c ≤ 'z') ∨ c = '_'

/-- A letter or underscore followed by letters, digits and underscores. -/
@[ext] structure Name where
  first : Char
  others : List Char
  opens : IsLetter first
  continues : ∀ c ∈ others, IsLetter c ∨ ('0' ≤ c ∧ c ≤ '9')

/-- The characters of a name. -/
def Name.chars (name : Name) : List Char := name.first :: name.others

/-- The text of a name. -/
def Name.text (name : Name) : String := String.ofList name.chars

/-- A word that stands for a command by itself. -/
inductive Leaf where
  | number (literal : Numeral.Literal) (value : Value) (spelled : literal.value = value.toInt)
  | read (name : Name)
  | address (name : Name)

/-- The characters of a leaf. -/
def Leaf.chars : Leaf → List Char
  | .number literal _ _ => literal.chars
  | .read name => '*' :: '.' :: name.chars
  | .address name => '.' :: name.chars

/-- The word of a leaf. -/
def Leaf.word (leaf : Leaf) : String := String.ofList leaf.chars

/-- The command of a leaf. -/
def Leaf.command : Leaf → Command
  | .number _ value _ => .number value
  | .read name => .read name.text
  | .address name => .address name.text

/-- The word of an operator. -/
def operatorWord : Operator → String
  | .add => "add"
  | .sub => "sub"
  | .mult => "mult"
  | .div => "div"

/-- The role of a leaf. -/
def Leaf.role : Leaf → Role
  | .number _ _ _ => .number
  | .read _ => .read
  | .address _ => .address

/-- The alphabetic characters are the two runs of letters. -/
theorem isAlpha_iff {c : Char} : c.isAlpha = true ↔ ('A' ≤ c ∧ c ≤ 'Z') ∨ ('a' ≤ c ∧ c ≤ 'z') := by
  change (decide (c.val ≥ 'A'.val ∧ c.val ≤ 'Z'.val) ||
    (decide (c.val ≥ 'a'.val) && decide (c.val ≤ 'z'.val))) = true ↔ _
  simp only [Bool.or_eq_true, Bool.and_eq_true, decide_eq_true_eq, ge_iff_le, Char.le_def]

/-- The keyword of an operator is its word. -/
theorem keyword_eq_operatorWord (op : Operator) : op.keyword = operatorWord op := by
  cases op <;> rfl

/-- A text is a leaf exactly when its characters are those of the leaf. -/
theorem Leaf.eq_word_iff {leaf : Leaf} {text : String} : text = leaf.word ↔ text.toList = leaf.chars := by
  rw [Leaf.word, ← String.toList_inj, String.toList_ofList]

/-- The letters are the characters that may open an identifier. -/
theorem isHead_iff {c : Char} : Identifier.isHead c = true ↔ IsLetter c := by
  simp [Identifier.isHead, IsLetter, isAlpha_iff, or_assoc]

/-- Letters and digits are the characters that may follow in an identifier. -/
theorem isTail_iff {c : Char} : Identifier.isTail c = true ↔ IsLetter c ∨ ('0' ≤ c ∧ c ≤ '9') := by
  rw [← isHead_iff, ← Numeral.isDigit_iff]
  simp only [Identifier.isTail, Identifier.isHead, Char.isAlphanum, Bool.or_eq_true]
  exact or_right_comm

/-- The identifiers are the names. -/
theorem accepts_iff {cs : List Char} : Identifier.accepts cs = true ↔ ∃ name : Name, name.chars = cs := by
  cases cs with
  | nil => simp [Identifier.accepts, Name.chars]
  | cons c cs =>
    rw [Identifier.accepts, Bool.and_eq_true, isHead_iff, List.all_eq_true]
    constructor
    · intro h
      exact ⟨⟨c, cs, h.1, fun d hd => isTail_iff.mp (h.2 d hd)⟩, rfl⟩
    · intro h
      obtain ⟨name, hname⟩ := h
      obtain ⟨rfl, rfl⟩ := List.cons.inj hname
      exact ⟨name.opens, fun d hd => isTail_iff.mpr (name.continues d hd)⟩

/-- A name is determined by its characters. -/
theorem Name.chars_injective : Function.Injective Name.chars := by
  intro a b h
  obtain ⟨hfirst, hothers⟩ := List.cons.inj h
  exact Name.ext hfirst hothers

/-- No digit is a letter. -/
theorem isAlpha_eq_false_of_digit {c : Char} (h : '0' ≤ c ∧ c ≤ '9') : c.isAlpha = false := by
  rw [Bool.eq_false_iff, Ne, isAlpha_iff]
  intro hletter
  have hnine : c.val.toNat ≤ 57 := h.2
  have hfirst : 65 ≤ c.val.toNat ∨ 97 ≤ c.val.toNat :=
    hletter.imp (fun hupper => hupper.1) (fun hlower => hlower.1)
  omega

/-- A literal begins with a digit or a sign. -/
theorem literal_chars_head (literal : Numeral.Literal) :
    ∃ c cs, literal.chars = c :: cs ∧ (('0' ≤ c ∧ c ≤ '9') ∨ c = '+' ∨ c = '-') := by
  obtain ⟨sign, digits, hne, hdigits⟩ := literal
  cases sign with
  | plus => exact ⟨'+', digits, rfl, .inr (.inl rfl)⟩
  | minus => exact ⟨'-', digits, rfl, .inr (.inr rfl)⟩
  | absent =>
    cases digits with
    | nil => exact absurd rfl hne
    | cons c cs => exact ⟨c, cs, rfl, .inl (hdigits c (by simp))⟩

/-- No literal spells a name: a name begins with a letter or an underscore. -/
theorem literal_chars_ne_name (literal : Numeral.Literal) (name : Name) :
    literal.chars ≠ name.chars := by
  intro h
  obtain ⟨c, cs, hchars, hc⟩ := literal_chars_head literal
  obtain ⟨rfl, _⟩ := List.cons.inj (hchars.symm.trans h)
  have hhead : Identifier.isHead name.first = true := isHead_iff.mpr name.opens
  rcases hc with hdigit | hplus | hminus
  · have hunderscore : name.first ≠ '_' := by
      intro heq
      rw [heq] at hdigit
      exact absurd hdigit.2 (by decide)
    simp [Identifier.isHead, isAlpha_eq_false_of_digit hdigit, hunderscore] at hhead
  · rw [hplus] at hhead
    exact absurd hhead (by decide)
  · rw [hminus] at hhead
    exact absurd hhead (by decide)

end GenomeScript.Grammar

namespace GenomeScript.Role

open Grammar

/-- No first character announces a keyword. -/
theorem ofFirst_ne_keyword (c : Char) : ofFirst c ≠ .delimiter ∧ ofFirst c ≠ .store := by
  unfold ofFirst
  split
  · decide
  · split
    · decide
    · split
      · decide
      · split <;> decide

/-- The delimiters are the words `start` and `stop`. -/
theorem of_eq_delimiter_iff {text : String} :
    of text = .delimiter ↔ text = Keyword.start ∨ text = Keyword.stop := by
  unfold of
  by_cases hdelimiter : text = Keyword.start ∨ text = Keyword.stop
  · simp [hdelimiter]
  · rw [if_neg hdelimiter]
    refine iff_of_false ?_ hdelimiter
    split
    · decide
    · split
      · decide
      · exact (ofFirst_ne_keyword _).1

/-- Only the word `store` stores. -/
theorem of_eq_store_iff {text : String} : of text = .store ↔ text = Keyword.store := by
  unfold of
  by_cases hstore : text = Keyword.store
  · subst hstore
    decide
  · rw [if_neg hstore]
    refine iff_of_false ?_ hstore
    split
    · decide
    · split
      · decide
      · exact (ofFirst_ne_keyword _).2

/-- A word that opens with no letter has the role of its first character. -/
theorem of_ofList_cons {c : Char} (cs : List Char) (h : c.isAlpha = false) :
    of (String.ofList (c :: cs)) = ofFirst c := by
  have hkeyword (word : String) (hword : ∃ d ds, word.toList = d :: ds ∧ d.isAlpha = true) :
      String.ofList (c :: cs) ≠ word := by
    intro heq
    obtain ⟨d, ds, hds, hd⟩ := hword
    rw [← heq, String.toList_ofList] at hds
    obtain ⟨rfl, _⟩ := List.cons.inj hds
    rw [hd] at h
    cases h
  have hstart := hkeyword Keyword.start ⟨'s', _, rfl, by decide⟩
  have hstop := hkeyword Keyword.stop ⟨'s', _, rfl, by decide⟩
  have hstore := hkeyword Keyword.store ⟨'s', _, rfl, by decide⟩
  rw [of, if_neg (not_or.mpr ⟨hstart, hstop⟩), if_neg hstore, String.toList_ofList]

/-- The first character of a leaf announces its role. -/
theorem of_leaf (leaf : Leaf) : of leaf.word = leaf.role := by
  cases leaf with
  | number literal value spelled =>
    obtain ⟨c, cs, hc, hfirst⟩ := literal_chars_head literal
    have hrole : ofFirst c = .number := by
      rw [← Numeral.isDigit_iff] at hfirst
      unfold ofFirst
      rw [if_pos (by simpa [or_assoc] using hfirst)]
    have halpha : c.isAlpha = false := by
      rcases hfirst with hdigit | rfl | rfl
      · exact isAlpha_eq_false_of_digit hdigit
      · decide
      · decide
    rw [Leaf.word, Leaf.chars, hc, of_ofList_cons cs halpha, hrole, Leaf.role]
  | read name => exact of_ofList_cons _ (by decide)
  | address name => exact of_ofList_cons _ (by decide)

/-- The words of operators have the role of operators. -/
theorem of_operatorWord (op : Operator) : of (operatorWord op) = .operator := by
  cases op <;> decide

end GenomeScript.Role

namespace GenomeScript.Grammar

/-- A leaf is determined by its word. -/
theorem Leaf.word_injective : Function.Injective Leaf.word := by
  intro a b h
  have hchars : a.chars = b.chars := String.ofList_injective h
  have hrole : a.role = b.role := by rw [← Role.of_leaf, ← Role.of_leaf, h]
  cases a <;> cases b <;> simp only [Leaf.role, reduceCtorEq] at hrole
  case number.number literal value spelled literal' value' spelled' =>
    obtain rfl := Numeral.Literal.chars_injective hchars
    obtain rfl := Int64.toInt_inj.mp (spelled.symm.trans spelled')
    rfl
  case read.read name name' =>
    have hname := (List.cons.inj (List.cons.inj hchars).2).2
    rw [Name.chars_injective hname]
  case address.address name name' => rw [Name.chars_injective (List.cons.inj hchars).2]

end GenomeScript.Grammar

namespace GenomeScript.Token

open Grammar

/-- A token is read as a number exactly when its text is a literal of that number. -/
theorem number_eq_ok_iff {token : Token} {value : Value} :
    token.number = .ok value ↔
      ∃ literal spelled, token.text = (Leaf.number literal value spelled).word := by
  rw [number, Except.mapError_eq_ok_iff, Numeral.readValue_eq_ok_iff]
  constructor
  · intro h
    obtain ⟨literal, hchars, hvalue⟩ := h
    exact ⟨literal, hvalue, Leaf.eq_word_iff.mpr hchars.symm⟩
  · intro h
    obtain ⟨literal, hvalue, htext⟩ := h
    exact ⟨literal, (Leaf.eq_word_iff.mp htext).symm, hvalue⟩

/-- The identifiers that are accepted are the texts of names. -/
theorem identifierOr_eq_ok_iff {failure : Failure} {cs : List Char} {text : String} :
    identifierOr failure cs = .ok text ↔ ∃ name : Name, name.chars = cs ∧ name.text = text := by
  unfold identifierOr
  by_cases h : Identifier.accepts cs = true
  · obtain ⟨name, rfl⟩ := accepts_iff.mp h
    rw [if_pos h, Except.ok.injEq]
    constructor
    · intro htext
      exact ⟨name, rfl, htext⟩
    · intro hname
      obtain ⟨other, hchars, htext⟩ := hname
      rw [← hchars]
      exact htext
  · rw [if_neg h]
    constructor
    · intro htext
      cases htext
    · intro hname
      obtain ⟨name, hchars, _⟩ := hname
      exact absurd (accepts_iff.mpr ⟨name, hchars⟩) h

/-- A token is read as a read exactly when its text is that leaf. -/
theorem read_eq_ok_iff {token : Token} {text : String} :
    token.read = .ok text ↔ ∃ name : Name, token.text = (Leaf.read name).word ∧ name.text = text := by
  constructor
  · intro h
    unfold read at h
    split at h
    · next cs hcs =>
      obtain ⟨name, rfl, htext⟩ := identifierOr_eq_ok_iff.mp h
      exact ⟨name, Leaf.eq_word_iff.mpr hcs, htext⟩
    · cases h
  · intro h
    obtain ⟨name, htoken, htext⟩ := h
    rw [read, Leaf.eq_word_iff.mp htoken]
    exact identifierOr_eq_ok_iff.mpr ⟨name, rfl, htext⟩

/-- A token is read as an address exactly when its text is that leaf. -/
theorem address_eq_ok_iff {token : Token} {text : String} :
    token.address = .ok text ↔
      ∃ name : Name, token.text = (Leaf.address name).word ∧ name.text = text := by
  constructor
  · intro h
    unfold address at h
    split at h
    · next cs hcs =>
      obtain ⟨name, rfl, htext⟩ := identifierOr_eq_ok_iff.mp h
      exact ⟨name, Leaf.eq_word_iff.mpr hcs, htext⟩
    · cases h
  · intro h
    obtain ⟨name, htoken, htext⟩ := h
    rw [address, Leaf.eq_word_iff.mp htoken]
    exact identifierOr_eq_ok_iff.mpr ⟨name, rfl, htext⟩

/-- A token is read as an operator exactly when its text is the word of the operator. -/
theorem operator_eq_ok_iff {token : Token} {op : Operator} :
    token.operator = .ok op ↔ token.text = operatorWord op := by
  rw [← keyword_eq_operatorWord, ← Operator.ofKeyword?_eq_some_iff, operator]
  cases Operator.ofKeyword? token.text <;> simp

end GenomeScript.Token

namespace GenomeScript.Stack

open Grammar

/-- A combination replaces the two topmost commands, unless it is too deep. -/
theorem combine_eq_ok_iff {token : Token} {join : Command → Command → Command} {stack next : Stack} :
    combine token join stack = .ok next ↔
      ∃ top below rest, stack = top :: below :: rest ∧ 1 + max below.depth top.depth ≤ maxDepth ∧
        next = ⟨join top.command below.command, 1 + max below.depth top.depth⟩ :: rest := by
  match stack with
  | [] => simp [combine]
  | [_] => simp [combine]
  | top :: below :: rest =>
    rw [combine, nest]
    by_cases h : maxDepth < 1 + max below.depth top.depth
    · rw [if_pos h]
      refine iff_of_false nofun ?_
      intro hcombined
      obtain ⟨top', below', rest', hstack, hlow, _⟩ := hcombined
      cases hstack
      omega
    · rw [if_neg h]
      constructor
      · intro hnext
        exact ⟨top, below, rest, rfl, Nat.le_of_not_lt h, (Except.ok.inj hnext).symm⟩
      · intro hcombined
        obtain ⟨top', below', rest', hstack, _, rfl⟩ := hcombined
        cases hstack
        rfl

/-- A combination fails when there are no two commands, or when it is too deep. -/
theorem combine_eq_error_iff {token : Token} {join : Command → Command → Command} {stack : Stack}
    {failure : Failure} :
    combine token join stack = .error failure ↔
      (stack.length < 2 ∧ failure = .blame .missingOperands token) ∨
        ∃ top below rest, stack = top :: below :: rest ∧ maxDepth < 1 + max below.depth top.depth ∧
          failure = .blame .nestingTooDeep token := by
  match stack with
  | [] => simp [combine, eq_comm]
  | [_] => simp [combine, eq_comm]
  | top :: below :: rest =>
    have hmany : ¬(top :: below :: rest).length < 2 := by
      simp only [List.length_cons]
      omega
    rw [combine, nest]
    by_cases h : maxDepth < 1 + max below.depth top.depth
    · rw [if_pos h]
      constructor
      · intro hfailure
        exact .inr ⟨top, below, rest, rfl, h, (Except.error.inj hfailure).symm⟩
      · intro hfails
        rcases hfails with ⟨hfew, _⟩ | ⟨_, _, _, _, _, hfailure⟩
        · exact absurd hfew hmany
        · rw [hfailure]
          rfl
    · rw [if_neg h]
      refine iff_of_false nofun ?_
      intro hfails
      rcases hfails with ⟨hfew, _⟩ | ⟨top', below', rest', hstack, hdeep, _⟩
      · exact hmany hfew
      · cases hstack
        exact h hdeep

/-- A leaf is placed on top of the stack. -/
theorem place_of_leaf (stack : Stack) {token : Token} {leaf : Leaf} (h : token.text = leaf.word) :
    stack.place token = .ok (stack.pushLeaf leaf.command) := by
  have hrole : token.role = leaf.role := by rw [Token.role, h, Role.of_leaf]
  unfold place
  rw [hrole]
  cases leaf with
  | number literal value spelled =>
    rw [Leaf.role, Except.map_eq_ok_iff]
    exact ⟨value, Token.number_eq_ok_iff.mpr ⟨literal, spelled, h⟩, rfl⟩
  | read name =>
    rw [Leaf.role, Except.map_eq_ok_iff]
    exact ⟨name.text, Token.read_eq_ok_iff.mpr ⟨name, h, rfl⟩, rfl⟩
  | address name =>
    rw [Leaf.role, Except.map_eq_ok_iff]
    exact ⟨name.text, Token.address_eq_ok_iff.mpr ⟨name, h, rfl⟩, rfl⟩

/-- The word of an operator combines. -/
theorem place_of_operator (stack : Stack) {token : Token} {op : Operator}
    (h : token.text = operatorWord op) :
    stack.place token = combine token (fun rhs lhs => .binary op lhs rhs) stack := by
  have hrole : token.role = .operator := by rw [Token.role, h, Role.of_operatorWord]
  unfold place
  rw [hrole, Token.operator_eq_ok_iff.mpr h]
  rfl

/-- The word `store` combines. -/
theorem place_of_store (stack : Stack) {token : Token} (h : token.text = Keyword.store) :
    stack.place token = combine token .store stack := by
  have hrole : token.role = .store := Role.of_eq_store_iff.mpr h
  unfold place
  rw [hrole]

/-- A token that can be placed is a leaf, an operator or `store`. -/
theorem word_of_place {stack next : Stack} {token : Token} (h : stack.place token = .ok next) :
    (∃ leaf : Leaf, token.text = leaf.word) ∨ (∃ op : Operator, token.text = operatorWord op) ∨
      token.text = Keyword.store := by
  unfold place at h
  split at h
  · obtain ⟨value, hvalue, _⟩ := Except.map_eq_ok_iff.mp h
    obtain ⟨literal, spelled, htext⟩ := Token.number_eq_ok_iff.mp hvalue
    exact .inl ⟨_, htext⟩
  · obtain ⟨text, hread, _⟩ := Except.map_eq_ok_iff.mp h
    obtain ⟨name, htext, _⟩ := Token.read_eq_ok_iff.mp hread
    exact .inl ⟨_, htext⟩
  · obtain ⟨text, haddress, _⟩ := Except.map_eq_ok_iff.mp h
    obtain ⟨name, htext, _⟩ := Token.address_eq_ok_iff.mp haddress
    exact .inl ⟨_, htext⟩
  · next hrole => exact .inr (.inr (Role.of_eq_store_iff.mp hrole))
  · obtain ⟨op, hop, _⟩ := Except.bind_eq_ok_iff.mp h
    exact .inr (.inl ⟨op, Token.operator_eq_ok_iff.mp hop⟩)
  · cases h
  · cases h

end GenomeScript.Stack
