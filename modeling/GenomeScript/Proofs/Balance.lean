import GenomeScript.Proofs.Depth
import GenomeScript.Proofs.Malformed

/-!
# What becomes of an expression

The outcome of reading an expression can be told from its tokens by counting. Each operand adds one
command to the stack and each operator or `store` takes one away, so the height of the stack is the
balance of the tokens placed so far. The first token that is refused settles the outcome: its word
does not fit its role, or it finds fewer than two operands, or it would build too high a command out
of the two phrases before it; that it is too high is what the depths kept on the stack tell, since
they are the heights of the commands. If no token is refused, the balance of all tokens settles the
outcome: an expression is read when it is one.
-/

namespace GenomeScript

open Grammar

namespace Role

/-- The roles of words that stand for a command by themselves. -/
def isOperand : Role → Bool
  | .number => true
  | .read => true
  | .address => true
  | _ => false

/-- The roles of words that combine two commands. -/
def isCombiner : Role → Bool
  | .operator => true
  | .store => true
  | _ => false

/-- A leaf is an operand. -/
theorem isOperand_leaf (leaf : Leaf) : leaf.role.isOperand = true ∧ leaf.role.isCombiner = false := by
  cases leaf <;> exact ⟨rfl, rfl⟩

end Role

namespace Token

instance (token : Token) : Decidable token.Continues :=
  inferInstanceAs (Decidable (_ ∧ _))

end Token

namespace Stack

/-- Tokens fail as the first one that fails on the stack of the tokens before it. -/
theorem placeAll_eq_error_iff {start : Stack} {tokens : List Token} {failure : Failure} :
    start.placeAll tokens = .error failure ↔
      ∃ before token after stack, tokens = before ++ token :: after ∧
        start.placeAll before = .ok stack ∧ stack.place token = .error failure := by
  constructor
  · intro h
    induction tokens generalizing start with
    | nil => cases h
    | cons first tokens ih =>
      rw [placeAll_cons] at h
      cases hfirst : start.place first with
      | error found =>
        rw [hfirst] at h
        obtain rfl : found = failure := Except.error.inj h
        exact ⟨[], first, tokens, start, rfl, rfl, hfirst⟩
      | ok next =>
        rw [hfirst] at h
        obtain ⟨before, token, after, stack, rfl, hstack, hfails⟩ := ih h
        refine ⟨first :: before, token, after, stack, rfl, ?_, hfails⟩
        rw [placeAll_cons, hfirst]
        exact hstack
  · intro ⟨before, token, after, stack, hsplit, hstack, hfails⟩
    rw [hsplit, placeAll_append, hstack]
    change placeAll stack (token :: after) = _
    rw [placeAll_cons, hfails]
    rfl

end Stack

namespace Expression

/-- The operands among tokens less the operators and `store`. -/
def balance (tokens : List Token) : Int :=
  tokens.countP (·.role.isOperand) - tokens.countP (·.role.isCombiner)

/-- Balances add up. -/
theorem balance_append (xs ys : List Token) : balance (xs ++ ys) = balance xs + balance ys := by
  simp only [balance, List.countP_append]
  omega

/-- A token of an expression changes the height of the stack by its balance. -/
theorem length_of_place {stack next : Stack} {token : Token} (h : stack.place token = .ok next) :
    (next.length : Int) = stack.length + balance [token] := by
  have hcombine (join : Command → Command → Command) (hcombiner : balance [token] = -1)
      (h : Stack.combine token join stack = .ok next) :
      (next.length : Int) = stack.length + balance [token] := by
    obtain ⟨top, below, rest, rfl, _, rfl⟩ := Stack.combine_eq_ok_iff.mp h
    simp only [List.length_cons, hcombiner]
    omega
  rcases Stack.word_of_place h with ⟨leaf, hword⟩ | ⟨op, hword⟩ | hword
  · rw [Stack.place_of_leaf stack hword, Except.ok.injEq] at h
    simp [← h, Stack.pushLeaf, balance, Token.role, hword, Role.of_leaf, Role.isOperand_leaf]
  · rw [Stack.place_of_operator stack hword] at h
    refine hcombine _ ?_ h
    simp [balance, Token.role, hword, Role.of_operatorWord, Role.isOperand, Role.isCombiner]
  · rw [Stack.place_of_store stack hword] at h
    refine hcombine _ ?_ h
    simp [balance, Token.role, Role.of_eq_store_iff.mpr hword, Role.isOperand, Role.isCombiner]

/-- The stack that tokens leave is as high as their balance. -/
theorem length_of_placeAll {stack next : Stack} {tokens : List Token}
    (h : stack.placeAll tokens = .ok next) :
    (next.length : Int) = stack.length + balance tokens := by
  induction tokens generalizing stack with
  | nil =>
    obtain rfl := Except.ok.inj h
    simp [balance]
  | cons token tokens ih =>
    rw [Stack.placeAll_cons] at h
    obtain ⟨middle, hplace, hrest⟩ := Except.bind_eq_ok_iff.mp h
    have hfirst := length_of_place hplace
    have hlater := ih hrest
    rw [← List.singleton_append, balance_append]
    omega

/-- The stack of an expression is as high as the balance of the tokens placed on it. -/
theorem length_eq_balance {stack : Stack} {tokens : List Token}
    (h : Stack.placeAll [] tokens = .ok stack) : (stack.length : Int) = balance tokens := by
  have hlength := length_of_placeAll h
  rwa [List.length_nil, Int.natCast_zero, Int.zero_add] at hlength

/-- Tokens whose texts end in the words of two phrases. -/
def EndsIn (tokens : List Token) (lhs rhs : Phrase) : Prop :=
  ∃ front, tokens.map Token.text = front ++ lhs.words ++ rhs.words

/-- The two topmost commands are those of the two phrases in which the tokens end, and the tokens
end in no other two. -/
theorem exists_endsIn_iff {tokens : List Token} {top below : Stack.Entry} {rest : Stack}
    (hplain : ∀ token ∈ tokens, IsPlain token.role)
    (h : Stack.placeAll [] tokens = .ok (top :: below :: rest)) :
    ∃ lhs rhs : Phrase, below.command = lhs.command ∧ top.command = rhs.command ∧
      ∀ l r, EndsIn tokens l r ↔ l = lhs ∧ r = rhs := by
  obtain ⟨results, hstack, hwords⟩ := exists_phrases_of_isPlain hplain h
  obtain ⟨rhs, others, rfl, hrhs, hothers⟩ := List.map_eq_cons_iff.mp hstack.symm
  obtain ⟨lhs, bottom, rfl, hlhs, _⟩ := List.map_eq_cons_iff.mp hothers
  have hends : tokens.map Token.text =
      bottom.reverse.flatMap (·.phrase.words) ++ lhs.phrase.words ++ rhs.phrase.words := by
    rw [← hwords]
    simp
  refine ⟨lhs.phrase, rhs.phrase, congrArg Stack.Entry.command hlhs.symm,
    congrArg Stack.Entry.command hrhs.symm, ?_⟩
  intro l r
  constructor
  · intro ⟨front, hfront⟩
    obtain ⟨hleft, hr⟩ := suffixFree_phrase _ _ _ _ (hfront.symm.trans hends)
    exact ⟨(suffixFree_phrase _ _ _ _ hleft).2, hr⟩
  · intro ⟨hl, hr⟩
    rw [hl, hr]
    exact ⟨_, hends⟩

/-- The command that a token builds out of the two phrases in which the tokens before it end. -/
inductive Builds (before : List Token) (token : Token) : Command → Prop
  | binary {lhs rhs : Phrase} {op : Operator} (ends : EndsIn before lhs rhs)
      (word : token.text = operatorWord op) : Builds before token (.binary op lhs.command rhs.command)
  | store {value target : Phrase} (ends : EndsIn before value target)
      (word : token.text = "store") : Builds before token (.store target.command value.command)

/-- No operator is spelled `store`. -/
theorem operatorWord_ne_store (op : Operator) : operatorWord op ≠ "store" := by
  cases op <;> decide

/-- An operator builds an operation on the two phrases. -/
theorem builds_iff_of_operator {before : List Token} {token : Token} {op : Operator}
    (h : token.text = operatorWord op) {command : Command} :
    Builds before token command ↔
      ∃ lhs rhs, EndsIn before lhs rhs ∧ command = .binary op lhs.command rhs.command := by
  constructor
  · intro hbuilds
    cases hbuilds with
    | binary ends hother =>
      obtain rfl := operatorWord_injective (h.symm.trans hother)
      exact ⟨_, _, ends, rfl⟩
    | store ends hstore => exact absurd (h.symm.trans hstore) (operatorWord_ne_store op)
  · intro ⟨lhs, rhs, hends, hcommand⟩
    rw [hcommand]
    exact .binary hends h

/-- The word `store` builds a store of the first phrase under the second. -/
theorem builds_iff_of_store {before : List Token} {token : Token} (h : token.text = "store")
    {command : Command} :
    Builds before token command ↔
      ∃ value target, EndsIn before value target ∧ command = .store target.command value.command := by
  constructor
  · intro hbuilds
    cases hbuilds with
    | binary ends hother => exact absurd (hother.symm.trans h) (operatorWord_ne_store _)
    | store ends _ => exact ⟨_, _, ends, rfl⟩
  · intro ⟨value, target, hends, hcommand⟩
    rw [hcommand]
    exact .store hends h

/-- A token that is refused behind others, with the fault. The faults exclude each other. -/
inductive Refused (before : List Token) (token : Token) : Fault → Prop
  | malformed {fault : Fault} (malformed : token.Malformed fault) : Refused before token fault
  | missingOperands (wellFormed : ∀ fault, ¬token.Malformed fault)
      (combines : token.role.isCombiner = true) (few : balance before < 2) :
      Refused before token .missingOperands
  | nestingTooDeep {command : Command} (wellFormed : ∀ fault, ¬token.Malformed fault)
      (combines : token.role.isCombiner = true) (enough : 2 ≤ balance before)
      (builds : Builds before token command) (high : 256 < command.height) :
      Refused before token .nestingTooDeep

/-- Tokens none of which is refused behind those before it. -/
def Accepted (tokens : List Token) : Prop :=
  ∀ before token after, tokens = before ++ token :: after → ∀ fault, ¬Refused before token fault

/-- A leaf is never refused. -/
theorem not_refused_of_leaf {before : List Token} {token : Token} {leaf : Leaf}
    (h : token.text = leaf.word) {fault : Fault} : ¬Refused before token fault := by
  have hrole : token.role.isCombiner = false := by
    rw [Token.role, h, Role.of_leaf]
    exact (Role.isOperand_leaf leaf).2
  intro hrefused
  cases hrefused with
  | malformed hmalformed => exact Stack.not_malformed_of_leaf h hmalformed
  | missingOperands _ hcombines _ => simp [hrole] at hcombines
  | nestingTooDeep _ hcombines _ _ _ => simp [hrole] at hcombines

/-- A token that combines fails on the stack of the tokens before it exactly when it is refused
behind them. -/
theorem combine_eq_error_iff_refused {before : List Token} {token : Token} {stack : Stack}
    {join : Command → Command → Command} (hplain : ∀ token ∈ before, IsPlain token.role)
    (hstack : Stack.placeAll [] before = .ok stack) (hwell : ∀ fault, ¬token.Malformed fault)
    (hcombines : token.role.isCombiner = true)
    (hbuilds : ∀ command, Builds before token command ↔
      ∃ lhs rhs, EndsIn before lhs rhs ∧ command = join rhs.command lhs.command)
    (hjoin : ∀ top below, (join top below).height = 1 + max below.height top.height)
    {failure : Failure} :
    Stack.combine token join stack = .error failure ↔
      ∃ fault, Refused before token fault ∧ failure = .blame fault token := by
  have hlength := length_eq_balance hstack
  have hmeasured := Stack.measured_placeAll Stack.measured_nil hstack
  rw [Stack.combine_eq_error_iff]
  constructor
  · intro h
    rcases h with ⟨hfew, hfailure⟩ | ⟨top, below, rest, rfl, hdeep, hfailure⟩
    · exact ⟨_, .missingOperands hwell hcombines (by omega), hfailure⟩
    · obtain ⟨lhs, rhs, hbelow, htop, hends⟩ := exists_endsIn_iff hplain hstack
      have hbuilt := (hbuilds _).mpr ⟨lhs, rhs, (hends lhs rhs).mpr ⟨rfl, rfl⟩, rfl⟩
      rw [Stack.Measured.depth_combine hmeasured hjoin, htop, hbelow] at hdeep
      simp only [List.length_cons] at hlength
      exact ⟨_, .nestingTooDeep hwell hcombines (by omega) hbuilt hdeep, hfailure⟩
  · intro ⟨fault, hrefused, hfailure⟩
    cases hrefused with
    | malformed hmalformed => exact absurd hmalformed (hwell fault)
    | missingOperands _ _ hfew => exact .inl ⟨by omega, hfailure⟩
    | nestingTooDeep _ _ henough hbuilt hhigh =>
      match stack with
      | [] | [_] =>
        simp only [List.length_nil, List.length_cons] at hlength
        omega
      | top :: below :: rest =>
        -- The tokens end in two phrases only, so what the token builds is made of the two topmost
        -- commands.
        obtain ⟨l, r, hbelow, htop, hends⟩ := exists_endsIn_iff hplain hstack
        obtain ⟨lhs, rhs, hlast, rfl⟩ := (hbuilds _).mp hbuilt
        obtain ⟨rfl, rfl⟩ := (hends lhs rhs).mp hlast
        refine .inr ⟨top, below, rest, rfl, ?_, hfailure⟩
        rw [Stack.Measured.depth_combine hmeasured hjoin, htop, hbelow]
        exact hhigh

/-- A token fails on the stack of the tokens before it exactly when it is refused behind them, and
it is blamed itself. -/
theorem place_eq_error_iff_refused {before : List Token} {token : Token} {stack : Stack}
    (hplain : ∀ token ∈ before, IsPlain token.role)
    (hstack : Stack.placeAll [] before = .ok stack) (hcontinues : token.Continues)
    {failure : Failure} :
    stack.place token = .error failure ↔
      ∃ fault, Refused before token fault ∧ failure = .blame fault token := by
  rcases Token.malformed_or_word hcontinues with
    ⟨fault, hmalformed⟩ | ⟨leaf, hword⟩ | ⟨op, hword⟩ | hword
  · rw [Stack.place_of_malformed stack hmalformed]
    constructor
    · intro h
      exact ⟨fault, .malformed hmalformed, (Except.error.inj h).symm⟩
    · intro ⟨other, hrefused, hfailure⟩
      cases hrefused with
      | malformed hother =>
        rw [hfailure, ← Stack.place_of_malformed stack hother, Stack.place_of_malformed stack hmalformed]
      | missingOperands hwell _ _ => exact absurd hmalformed (hwell fault)
      | nestingTooDeep hwell _ _ _ _ => exact absurd hmalformed (hwell fault)
  · rw [Stack.place_of_leaf stack hword]
    refine iff_of_false nofun ?_
    intro ⟨fault, hrefused, _⟩
    exact not_refused_of_leaf hword hrefused
  · have hcombine (stack : Stack) := Stack.place_of_operator stack hword
    have hrole : token.role = .operator := by rw [Token.role, hword, Role.of_operatorWord]
    rw [hcombine]
    exact combine_eq_error_iff_refused hplain hstack
      (fun _ => Stack.not_malformed_of_combine hcombine) (by rw [hrole]; rfl)
      (fun _ => builds_iff_of_operator hword) fun top below => Command.height_binary op below top
  · have hcombine (stack : Stack) := Stack.place_of_store stack hword
    have hrole : token.role = .store := Role.of_eq_store_iff.mpr hword
    rw [hcombine]
    exact combine_eq_error_iff_refused hplain hstack
      (fun _ => Stack.not_malformed_of_combine hcombine) (by rw [hrole]; rfl)
      (fun _ => builds_iff_of_store hword) Command.height_store

/-- The tokens of the expression at the front: the longest run of tokens that have a place in one,
cut right after its first `store`. -/
def region (tokens : List Token) : List Token :=
  let fitting := tokens.takeWhile fun token => token.Continues
  fitting.takeWhile (fun token => token.role ≠ .store) ++
    (fitting.dropWhile fun token => token.role ≠ .store).take 1

/-- Tokens that begin with one that has no place in an expression have no region. -/
theorem region_cons_of_not_continues {token : Token} (tokens : List Token) (h : ¬token.Continues) :
    region (token :: tokens) = [] := by
  simp [region, h]

/-- A region ends with `store`. -/
theorem region_cons_of_store {token : Token} (tokens : List Token) (h : token.role = .store) :
    region (token :: tokens) = [token] := by
  have hcontinues : token.Continues := by simp [Token.Continues, h]
  simp [region, hcontinues, h]

/-- Leaves and operators have a place in an expression. -/
theorem continues_of_isPlain {token : Token} (h : IsPlain token.role) : token.Continues := by
  rcases h with h | h | h | h <;> simp [Token.Continues, h]

/-- A leaf or an operator is followed by the region of the tokens after it. -/
theorem region_cons_of_isPlain {token : Token} (tokens : List Token) (h : IsPlain token.role) :
    region (token :: tokens) = token :: region tokens := by
  simp [region, continues_of_isPlain h, role_ne_store_of_isPlain h]

/-- Leaves and operators are a region of their own. -/
theorem region_of_isPlain {tokens : List Token} (h : ∀ token ∈ tokens, IsPlain token.role) :
    region tokens = tokens := by
  induction tokens with
  | nil => rfl
  | cons token tokens ih =>
    obtain ⟨hfirst, hlater⟩ := List.forall_mem_cons.mp h
    rw [region_cons_of_isPlain tokens hfirst, ih hlater]

/-- A token has no place in an expression, or it is `store`, or a leaf or an operator. -/
theorem not_continues_or (token : Token) :
    ¬token.Continues ∨ token.role = .store ∨ IsPlain token.role := by
  unfold Token.Continues
  cases token.role <;> simp [IsPlain]

/-- An expression takes its region and leaves the other tokens. -/
theorem extent_eq_region (tokens : List Token) :
    extent tokens = (region tokens, tokens.drop (region tokens).length) := by
  induction tokens with
  | nil => rfl
  | cons token tokens ih =>
    rcases not_continues_or token with hends | hstore | hplain
    · rw [region_cons_of_not_continues tokens hends]
      exact extent_of_ends (ends_cons.mpr (Decidable.or_iff_not_not_and_not.mpr hends))
    · rw [region_cons_of_store tokens hstore]
      exact extent_cons_of_store tokens hstore
    · rw [region_cons_of_isPlain tokens hplain, extent_cons_of_isPlain tokens hplain, ih]
      rfl

/-- Only leaves and operators come before a token of a region. -/
theorem isPlain_of_region {tokens before after : List Token} {token : Token}
    (h : region tokens = before ++ token :: after) :
    (∀ earlier ∈ before, IsPlain earlier.role) ∧ token.Continues := by
  induction tokens generalizing before with
  | nil => simp [region] at h
  | cons first tokens ih =>
    rcases not_continues_or first with hends | hstore | hplain
    · rw [region_cons_of_not_continues tokens hends] at h
      simp at h
    · rw [region_cons_of_store tokens hstore] at h
      cases before with
      | nil =>
        obtain ⟨rfl, _⟩ := List.cons.inj h
        exact ⟨by simp, by simp [Token.Continues, hstore]⟩
      | cons earlier before => simp at h
    · rw [region_cons_of_isPlain tokens hplain] at h
      cases before with
      | nil =>
        obtain ⟨rfl, _⟩ := List.cons.inj h
        exact ⟨by simp, continues_of_isPlain hplain⟩
      | cons earlier before =>
        obtain ⟨rfl, hlater⟩ := List.cons.inj h
        exact ⟨List.forall_mem_cons.mpr ⟨hplain, (ih hlater).1⟩, (ih hlater).2⟩

/-- No token of a region is refused exactly when all of them can be placed. -/
theorem accepted_region_iff {tokens : List Token} :
    Accepted (region tokens) ↔ ∃ stack, Stack.placeAll [] (region tokens) = .ok stack := by
  constructor
  · intro haccepted
    cases hplaced : Stack.placeAll [] (region tokens) with
    | ok stack => exact ⟨stack, rfl⟩
    | error failure =>
      obtain ⟨before, token, after, stack, hsplit, hstack, hfails⟩ :=
        Stack.placeAll_eq_error_iff.mp hplaced
      obtain ⟨hplain, hcontinues⟩ := isPlain_of_region hsplit
      obtain ⟨fault, hrefused, _⟩ := (place_eq_error_iff_refused hplain hstack hcontinues).mp hfails
      exact absurd hrefused (haccepted before token after hsplit fault)
  · intro ⟨stack, hplaced⟩ before token after hsplit fault hrefused
    obtain ⟨hplain, hcontinues⟩ := isPlain_of_region hsplit
    rw [hsplit, Stack.placeAll_append] at hplaced
    obtain ⟨middle, hbefore, hlater⟩ := Except.bind_eq_ok_iff.mp hplaced
    rw [Stack.placeAll_cons,
      (place_eq_error_iff_refused hplain hbefore hcontinues).mpr ⟨fault, hrefused, rfl⟩] at hlater
    cases hlater

/-- The same holds of leaves and operators. -/
theorem accepted_iff_of_isPlain {tokens : List Token} (h : ∀ token ∈ tokens, IsPlain token.role) :
    Accepted tokens ↔ ∃ stack, Stack.placeAll [] tokens = .ok stack := by
  have hregion : Accepted (region tokens) ↔ ∃ stack, Stack.placeAll [] (region tokens) = .ok stack :=
    accepted_region_iff
  rwa [region_of_isPlain h] at hregion

/-- What becomes of the expression at the front of tokens, as the tokens that it leaves or its
failure. -/
inductive Outcome (tokens : List Token) : Except Failure (List Token) → Prop
  | refused {before after : List Token} {token : Token} {fault : Fault}
      (split : region tokens = before ++ token :: after) (earlier : Accepted before)
      (refused : Refused before token fault) : Outcome tokens (.error (.blame fault token))
  | empty (none : region tokens = []) :
      Outcome tokens (.error (.blame .emptyExpression (tokens.head?.getD .nowhere)))
  | leftover {init : List Token} {last : Token} {count : Nat} (accepted : Accepted (region tokens))
      (split : region tokens = init ++ [last]) (many : 2 ≤ count)
      (counted : balance (region tokens) = count) :
      Outcome tokens (.error (.blame (.leftoverOperands count) last))
  | complete (accepted : Accepted (region tokens)) (single : balance (region tokens) = 1) :
      Outcome tokens (.ok (tokens.drop (region tokens).length))

/-- An expression whose region can be placed is concluded from the stack. -/
theorem take_of_placeAll_eq_ok {tokens : List Token} {stack : Stack}
    (h : Stack.placeAll [] (region tokens) = .ok stack) :
    take tokens = conclude (region tokens) (tokens.drop (region tokens).length) stack := by
  simp only [take, extent_eq_region, h]
  rfl

/-- An expression whose region cannot be placed fails as the region does. -/
theorem take_of_placeAll_eq_error {tokens : List Token} {failure : Failure}
    (h : Stack.placeAll [] (region tokens) = .error failure) : take tokens = .error failure := by
  simp only [take, extent_eq_region, h]
  rfl

/-- Two commands or more that are left over fail with their number. -/
theorem conclude_of_two_le {own rest : List Token} {stack : Stack} (h : 2 ≤ stack.length) :
    conclude own rest stack = .error (.at? (.leftoverOperands stack.length) own.getLast?) := by
  match stack with
  | [] => simp at h
  | [_] => simp at h
  | _ :: _ :: _ => rfl

/-- What becomes of an expression is one of the outcomes. -/
theorem outcome_take (tokens : List Token) : Outcome tokens ((take tokens).map Prod.snd) := by
  cases hplaced : Stack.placeAll [] (region tokens) with
  | error failure =>
    rw [take_of_placeAll_eq_error hplaced]
    obtain ⟨before, token, after, stack, hsplit, hstack, hfails⟩ :=
      Stack.placeAll_eq_error_iff.mp hplaced
    obtain ⟨hplain, hcontinues⟩ := isPlain_of_region hsplit
    obtain ⟨fault, hrefused, rfl⟩ := (place_eq_error_iff_refused hplain hstack hcontinues).mp hfails
    exact .refused hsplit ((accepted_iff_of_isPlain hplain).mpr ⟨stack, hstack⟩) hrefused
  | ok stack =>
    rw [take_of_placeAll_eq_ok hplaced]
    have haccepted := accepted_region_iff.mpr ⟨stack, hplaced⟩
    have hheight := length_eq_balance hplaced
    match stack with
    | [] =>
      have hempty := Stack.eq_nil_of_placeAll hplaced
      rw [hempty]
      change Outcome tokens (.error (.at? .emptyExpression tokens.head?))
      rw [Failure.at?_eq]
      exact .empty hempty
    | [command] => exact .complete haccepted hheight.symm
    | top :: below :: rest =>
      have hne : region tokens ≠ [] := by
        intro hempty
        rw [hempty] at hplaced
        cases hplaced
      have hsplit := (List.dropLast_concat_getLast hne).symm
      rw [conclude_of_two_le (by simp), List.getLast?_eq_some_getLast hne]
      exact .leftover haccepted hsplit (by simp) hheight.symm

end Expression

end GenomeScript
