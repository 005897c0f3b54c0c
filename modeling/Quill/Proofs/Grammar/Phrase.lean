import Quill.Proofs.Grammar.Progress
import Quill.Proofs.Grammar.Steps

/-!
Expressions as they are read: which tokens make up an expression, which tree they give and
which numbers its nodes receive. Reading is stated level by level as in the grammar, without
a cursor, and every successful run of the parser is such a reading.
-/

namespace Quill.Grammar

set_option autoImplicit false

/-- The rules for expressions, from the weakest binding to the strongest. -/
inductive Level where
  | assignment
  | disjunction
  | conjunction
  | equality
  | comparison
  | term
  | factor
  | unary
  | call
  | primary
deriving DecidableEq, Repr

namespace Level

def operators : Level → List Kind
  | disjunction => [.orOr]
  | conjunction => [.andAnd]
  | equality => [.bangEqual, .equalEqual]
  | comparison => [.greater, .greaterEqual, .less, .lessEqual]
  | term => [.minus, .plus]
  | factor => [.star, .slash]
  | _ => []

def operand : Level → Level
  | assignment => disjunction
  | disjunction => conjunction
  | conjunction => equality
  | equality => comparison
  | comparison => term
  | term => factor
  | factor => unary
  | unary => call
  | call => primary
  | primary => primary

def build : Level → Nat → Expr → Token → Expr → Expr
  | disjunction | conjunction => .logical
  | _ => .binary

def parser (inner : Parser Expr) : Level → Parser Expr
  | assignment => Grammar.assignment inner
  | disjunction => Grammar.disjunction inner
  | conjunction => Grammar.conjunction inner
  | equality => Grammar.equality inner
  | comparison => Grammar.comparison inner
  | term => Grammar.term inner
  | factor => Grammar.factor inner
  | unary => Grammar.unary inner
  | call => Grammar.call inner
  | primary => Grammar.primary inner

end Level

def signs : List Kind := [.bang, .minus]

def literalOf? (token : Token) : Option Literal :=
  match token.kind with
  | .falseWord => some (.boolean false)
  | .trueWord => some (.boolean true)
  | .nilWord => some .nil
  | .number => (Number.read? token.lexeme).map .number
  | .string => some (.text token.lexeme)
  | _ => none

inductive Phrase where
  | expr (level : Level) (expr : Expr)
  | arguments (given : List Expr)

/-- `Reads phrase words first next`: the tokens `words` are read as `phrase`, whose nodes
receive numbers from `first` up to `next`. -/
inductive Reads : Phrase → List Token → Nat → Nat → Prop where
  | literal {token : Token} {value : Literal} {first : Nat} (denotes : literalOf? token = some value) :
      Reads (.expr .primary (.literal first value)) [token] first (first + 1)
  | variableRef {token : Token} {first : Nat} (kind : token.kind = .identifier) :
      Reads (.expr .primary (.variableRef first token)) [token] first (first + 1)
  | thisRef {token : Token} {first : Nat} (kind : token.kind = .thisWord) :
      Reads (.expr .primary (.thisRef first token)) [token] first (first + 1)
  | baseRef {keyword dot method : Token} {first : Nat} (keywordKind : keyword.kind = .baseWord)
      (dotKind : dot.kind = .dot) (methodKind : method.kind = .identifier) :
      Reads (.expr .primary (.baseRef first keyword method)) [keyword, dot, method] first
        (first + 1)
  | grouping {left right : Token} {words : List Token} {inner : Expr} {first next : Nat}
      (leftKind : left.kind = .leftParen) (body : Reads (.expr .assignment inner) words first next)
      (rightKind : right.kind = .rightParen) :
      Reads (.expr .primary (.grouping next inner)) (left :: words ++ [right]) first (next + 1)
  | call {left right : Token} {words givenWords : List Token} {callee : Expr}
      {given : List Expr} {first middle next : Nat}
      (head : Reads (.expr .call callee) words first middle) (leftKind : left.kind = .leftParen)
      (arguments : Reads (.arguments given) givenWords middle next)
      (limit : given.length ≤ listLimit) (rightKind : right.kind = .rightParen) :
      Reads (.expr .call (.call next callee right given)) (words ++ left :: givenWords ++ [right])
        first (next + 1)
  | get {dot name : Token} {words : List Token} {object : Expr} {first next : Nat}
      (head : Reads (.expr .call object) words first next) (dotKind : dot.kind = .dot)
      (nameKind : name.kind = .identifier) :
      Reads (.expr .call (.get next object name)) (words ++ [dot, name]) first (next + 1)
  | unary {operator : Token} {words : List Token} {right : Expr} {first next : Nat}
      (kind : operator.kind ∈ signs) (body : Reads (.expr .unary right) words first next) :
      Reads (.expr .unary (.unary next operator right)) (operator :: words) first (next + 1)
  | joined {level : Level} {operator : Token} {leftWords rightWords : List Token}
      {left right : Expr} {first middle next : Nat}
      (leftBody : Reads (.expr level left) leftWords first middle)
      (kind : operator.kind ∈ level.operators)
      (rightBody : Reads (.expr level.operand right) rightWords middle next) :
      Reads (.expr level (level.build next left operator right))
        (leftWords ++ operator :: rightWords) first (next + 1)
  | only {level : Level} {words : List Token} {expr : Expr} {first next : Nat}
      (body : Reads (.expr level.operand expr) words first next) :
      Reads (.expr level expr) words first next
  | assign {name equals : Token} {words : List Token} {value : Expr} {first next : Nat}
      (nameKind : name.kind = .identifier) (equalsKind : equals.kind = .equal)
      (body : Reads (.expr .assignment value) words (first + 1) next) :
      Reads (.expr .assignment (.assign next name value)) (name :: equals :: words) first (next + 1)
  | set {dot name equals : Token} {words valueWords : List Token} {object value : Expr}
      {first middle next : Nat} (head : Reads (.expr .call object) words first middle)
      (dotKind : dot.kind = .dot) (nameKind : name.kind = .identifier)
      (equalsKind : equals.kind = .equal)
      (body : Reads (.expr .assignment value) valueWords (middle + 1) next) :
      Reads (.expr .assignment (.set next object name value))
        (words ++ dot :: name :: equals :: valueWords) first (next + 1)
  | noArguments {first : Nat} : Reads (.arguments []) [] first first
  | lastArgument {words : List Token} {expr : Expr} {first next : Nat}
      (body : Reads (.expr .assignment expr) words first next) :
      Reads (.arguments [expr]) words first next
  | moreArguments {comma : Token} {words otherWords : List Token} {expr : Expr}
      {others : List Expr} {first middle next : Nat}
      (body : Reads (.expr .assignment expr) words first middle)
      (commaKind : comma.kind = .comma) (present : others ≠ [])
      (rest : Reads (.arguments others) otherWords middle next) :
      Reads (.arguments (expr :: others)) (words ++ comma :: otherWords) first next

namespace Reads

theorem of_variable {level : Level} {id first next : Nat} {name : Token} {words : List Token}
    (reads : Reads (.expr level (.variableRef id name)) words first next) :
    words = [name] ∧ name.kind = .identifier ∧ next = first + 1 := by
  generalize same : Phrase.expr level (.variableRef id name) = phrase at reads
  induction reads generalizing level with
  | variableRef kind =>
      cases same
      exact ⟨rfl, kind, rfl⟩
  | only body induction =>
      cases same
      exact induction rfl
  | @joined joint =>
      cases joint <;> cases same
  | _ => cases same

theorem of_get {level : Level} {id first next : Nat} {object : Expr} {name : Token}
    {words : List Token} (reads : Reads (.expr level (.get id object name)) words first next) :
    ∃ objectWords dot, words = objectWords ++ [dot, name] ∧ dot.kind = .dot ∧
      name.kind = .identifier ∧ Reads (.expr .call object) objectWords first id ∧
      next = id + 1 := by
  generalize same : Phrase.expr level (.get id object name) = phrase at reads
  induction reads generalizing level with
  | @get dot _ objectWords _ _ _ head dotKind nameKind =>
      cases same
      exact ⟨objectWords, dot, rfl, dotKind, nameKind, head, rfl⟩
  | only body induction =>
      cases same
      exact induction rfl
  | @joined joint =>
      cases joint <;> cases same
  | _ => cases same

end Reads

/-- A run from `start` to `stop` reads a phrase and changes nothing else: the tokens between the two
cursors are its words, and the numbers given out are those of its nodes. -/
structure Read (phrase : Phrase) (start stop : Cursor) (words : List Token) : Prop where
  rest : start.rest = words ++ stop.rest
  finish : stop.finish = start.finish
  faults : stop.faults = start.faults
  reads : Reads phrase words start.nextId stop.nextId

/-- Before the end mark, whatever a parser returns has been read. -/
def Yields {Result : Type} (parser : Parser Result) (phrase : Result → Phrase) : Prop :=
  ∀ start stop result, parser start = .ok result stop → start.finish.kind = .endOfInput →
    ∃ words, Read (phrase result) start stop words

/-- A chain of operands leans to the left: what has been read so far is the left operand of the next
operator. The induction is on the budget. -/
theorem chain_from_yields {level : Level} {operand : Parser Expr}
    (operandYields : Yields operand (.expr level.operand)) (budget : Nat) {origin : Cursor}
    (left : Expr) (leftWords : List Token) (start stop : Cursor) (result : Expr)
    (closed : start.finish.kind = .endOfInput)
    (leftRead : Read (.expr level left) origin start leftWords)
    (run : chainFrom level.operators level.build operand budget left start = .ok result stop) :
    ∃ words, Read (.expr level result) origin stop words := by
  induction budget generalizing left leftWords start with
  | zero =>
      obtain ⟨rfl, rfl⟩ := pure_ok.1 run
      exact ⟨leftWords, leftRead⟩
  | succ budget induction =>
      obtain ⟨taken, middle, accepted, followed⟩ := bind_ok.1 run
      obtain ⟨operator, behind, rfl, held, kind, rfl⟩ | ⟨rfl, -, rfl⟩ :=
        accept_option_ok.1 accepted
      · obtain ⟨right, afterRight, rightRun, made⟩ := bind_ok.1 followed
        obtain ⟨joined, afterMake, makeRun, looped⟩ := bind_ok.1 made
        obtain ⟨rfl, rfl⟩ := make_ok.1 makeRun
        obtain ⟨rightWords, rightRead⟩ := operandYields _ _ _ rightRun closed
        refine induction _ (leftWords ++ operator :: rightWords) _ ?_ ?_ looped
        · exact rightRead.finish ▸ closed
        · refine ⟨?_, ?_, ?_, ?_⟩
          · rw [leftRead.rest, held, show behind = _ from rightRead.rest]
            simp
          · exact rightRead.finish.trans leftRead.finish
          · exact rightRead.faults.trans leftRead.faults
          · exact .joined leftRead.reads kind rightRead.reads
      · obtain ⟨rfl, rfl⟩ := pure_ok.1 followed
        exact ⟨leftWords, leftRead⟩

theorem chain_yields (level : Level) {operand : Parser Expr}
    (operandYields : Yields operand (.expr level.operand)) :
    Yields (chain level.operators level.build operand) (.expr level) := by
  intro start stop result run closed
  obtain ⟨first, middle, firstRun, counted⟩ := bind_ok.1 run
  obtain ⟨count, same, remainingRun, looped⟩ := bind_ok.1 counted
  obtain ⟨-, rfl⟩ := remaining_ok.1 remainingRun
  obtain ⟨words, firstRead⟩ := operandYields _ _ _ firstRun closed
  have leftRead : Read (.expr level first) start same words :=
    { firstRead with reads := .only firstRead.reads }
  exact chain_from_yields operandYields count first words same stop result
    (firstRead.finish ▸ closed) leftRead looped

section Suffixes

variable {inner : Parser Expr} (innerYields : Yields inner (.expr .assignment))

include innerYields

theorem arguments_yield (room : Nat) (start stop : Cursor) (given : List Expr)
    (run : arguments inner room start = .ok given stop)
    (closed : start.finish.kind = .endOfInput) :
    given ≠ [] ∧ given.length ≤ room ∧ ∃ words, Read (.arguments given) start stop words := by
  induction room generalizing start given with
  | zero => exact absurd run refuse_here_ok
  | succ room induction =>
      obtain ⟨first, middle, firstRun, followed⟩ := bind_ok.1 run
      obtain ⟨words, firstRead⟩ := innerYields _ _ _ firstRun closed
      obtain ⟨more, afterComma, accepted, rested⟩ := bind_ok.1 followed
      obtain ⟨comma, behind, rfl, held, kind, rfl⟩ | ⟨rfl, -, rfl⟩ := accept_ok.1 accepted
      · obtain ⟨others, last, othersRun, finished⟩ := bind_ok.1 rested
        obtain ⟨rfl, rfl⟩ := pure_ok.1 finished
        obtain ⟨present, short, otherWords, othersRead⟩ :=
          induction _ _ othersRun (firstRead.finish ▸ closed)
        refine ⟨by simp, by simpa using short, words ++ comma :: otherWords, ?_, ?_, ?_, ?_⟩
        · rw [firstRead.rest, held, show behind = _ from othersRead.rest]
          simp
        · exact othersRead.finish.trans firstRead.finish
        · exact othersRead.faults.trans firstRead.faults
        · exact .moreArguments firstRead.reads kind present othersRead.reads
      · obtain ⟨rfl, rfl⟩ := pure_ok.1 rested
        exact ⟨by simp, by simp, words, { firstRead with reads := .lastArgument firstRead.reads }⟩

theorem argument_list_yields (start stop : Cursor) (given : List Expr)
    (run : argumentList inner start = .ok given stop)
    (closed : start.finish.kind = .endOfInput) :
    given.length ≤ listLimit ∧ ∃ words, Read (.arguments given) start stop words := by
  obtain ⟨answer, middle, checked, followed⟩ := bind_ok.1 run
  obtain ⟨-, rfl⟩ := check_ok.1 checked
  cases answer with
  | true =>
      obtain ⟨rfl, rfl⟩ := pure_ok.1 followed
      exact ⟨by simp, [], rfl, rfl, rfl, .noArguments⟩
  | false => exact (arguments_yield innerYields listLimit _ _ _ followed closed).2

theorem suffix_yields {origin start stop : Cursor} {mark : Token} {behind words : List Token}
    {head longer : Expr} (headRead : Read (.expr .call head) origin start words)
    (held : start.rest = mark :: behind) (kind : mark.kind ∈ [Kind.leftParen, .dot])
    (run : suffix inner mark head { start with rest := behind } = .ok longer stop)
    (closed : start.finish.kind = .endOfInput) :
    ∃ longerWords, Read (.expr .call longer) origin stop longerWords := by
  unfold suffix at run
  split at run
  next isCall =>
    obtain ⟨given, afterGiven, givenRun, parenRun⟩ := bind_ok.1 run
    obtain ⟨paren, afterParen, expected, made⟩ := bind_ok.1 parenRun
    obtain ⟨last, heldParen, parenKind, rfl⟩ := expect_ok.1 expected
    obtain ⟨rfl, rfl⟩ := make_ok.1 made
    obtain ⟨short, givenWords, givenRead⟩ := argument_list_yields innerYields _ _ _ givenRun closed
    refine ⟨words ++ mark :: givenWords ++ [paren], ?_, ?_, ?_, ?_⟩
    · rw [headRead.rest, held, show behind = _ from givenRead.rest, heldParen]
      simp
    · exact givenRead.finish.trans headRead.finish
    · exact givenRead.faults.trans headRead.faults
    · exact .call headRead.reads isCall givenRead.reads short parenKind
  next isNoCall =>
    obtain ⟨name, afterName, expected, made⟩ := bind_ok.1 run
    obtain ⟨last, heldName, nameKind, rfl⟩ := expect_ok.1 expected
    obtain ⟨rfl, rfl⟩ := make_ok.1 made
    have dotKind : mark.kind = .dot := by simpa [isNoCall] using kind
    refine ⟨words ++ [mark, name], ?_, headRead.finish, headRead.faults,
      .get headRead.reads dotKind nameKind⟩
    rw [headRead.rest, held, show behind = _ from heldName]
    simp

theorem suffixes_from_yield (budget : Nat) {origin : Cursor} (head : Expr) (words : List Token)
    (start stop : Cursor) (result : Expr)
    (headRead : Read (.expr .call head) origin start words)
    (run : suffixesFrom inner budget head start = .ok result stop)
    (closed : start.finish.kind = .endOfInput) :
    ∃ longerWords, Read (.expr .call result) origin stop longerWords := by
  induction budget generalizing head words start with
  | zero =>
      obtain ⟨rfl, rfl⟩ := pure_ok.1 run
      exact ⟨words, headRead⟩
  | succ budget induction =>
      obtain ⟨taken, middle, accepted, followed⟩ := bind_ok.1 run
      obtain ⟨mark, behind, rfl, held, kind, rfl⟩ | ⟨rfl, -, rfl⟩ :=
        accept_option_ok.1 accepted
      · obtain ⟨longer, afterLonger, longerRun, looped⟩ := bind_ok.1 followed
        obtain ⟨longerWords, longerRead⟩ :=
          suffix_yields innerYields headRead held kind longerRun closed
        have kept : afterLonger.finish = start.finish :=
          longerRead.finish.trans headRead.finish.symm
        exact induction longer longerWords afterLonger longerRead looped (kept ▸ closed)
      · obtain ⟨rfl, rfl⟩ := pure_ok.1 followed
        exact ⟨words, headRead⟩

end Suffixes

theorem leaf_ok {build : Nat → Expr} {start stop : Cursor} {expr : Expr} {token : Token}
    {behind : List Token} (held : start.rest = token :: behind)
    (run : leaf build start = .ok expr stop) :
    expr = build start.nextId ∧
      stop = { start with rest := behind, nextId := start.nextId + 1 } := by
  obtain ⟨_, middle, moved, made⟩ := bind_ok.1 run
  cases moved
  obtain ⟨rfl, rfl⟩ := make_ok.1 made
  simp [Cursor.advance, held]

theorem leaf_yields {build : Nat → Expr} {start stop : Cursor} {expr : Expr} {token : Token}
    {behind : List Token} (held : start.rest = token :: behind)
    (reads : ∀ first, Reads (.expr .primary (build first)) [token] first (first + 1))
    (run : leaf build start = .ok expr stop) :
    ∃ words, Read (.expr .primary expr) start stop words := by
  obtain ⟨rfl, rfl⟩ := leaf_ok held run
  exact ⟨[token], held, rfl, rfl, reads start.nextId⟩

theorem literal_reads {token : Token} {value : Literal} (denotes : literalOf? token = some value)
    (first : Nat) : Reads (.expr .primary (.literal first value)) [token] first (first + 1) :=
  .literal denotes

section Levels

variable {inner : Parser Expr} (innerYields : Yields inner (.expr .assignment))

include innerYields

theorem primary_yields : Yields (primary inner) (.expr .primary) := by
  intro start stop expr run closed
  obtain ⟨token, same, peeked, chosen⟩ := bind_ok.1 run
  obtain ⟨rfl, rfl⟩ := peek_ok.1 peeked
  cases held : same.rest with
  | nil =>
      have ended : same.peek.kind = .endOfInput := by simpa [Cursor.peek, held] using closed
      simp only [ended] at chosen
      exact absurd chosen refuse_ok
  | cons token behind =>
      have seen : same.peek = token := by simp [Cursor.peek, held]
      rw [seen] at chosen
      obtain ⟨rule, isRule, chosen⟩ :
          ∃ rule : Parser Expr, rule = _ ∧ rule same = .ok expr stop := ⟨_, rfl, chosen⟩
      split at isRule <;> subst isRule
      next kind => exact leaf_yields held (literal_reads (by simp [literalOf?, kind])) chosen
      next kind => exact leaf_yields held (literal_reads (by simp [literalOf?, kind])) chosen
      next kind => exact leaf_yields held (literal_reads (by simp [literalOf?, kind])) chosen
      next kind =>
        cases found : Number.read? token.lexeme with
        | some bits =>
            simp only [found] at chosen
            exact leaf_yields held (literal_reads (by simp [literalOf?, kind, found])) chosen
        | none =>
            simp only [found] at chosen
            exact absurd chosen refuse_ok
      next kind => exact leaf_yields held (literal_reads (by simp [literalOf?, kind])) chosen
      next kind => exact leaf_yields held (fun _ => .variableRef kind) chosen
      next kind => exact leaf_yields held (fun _ => .thisRef kind) chosen
      next kind =>
        obtain ⟨_, afterBase, moved, dotRun⟩ := bind_ok.1 chosen
        cases moved
        obtain ⟨dot, afterDot, dotExpected, methodRun⟩ := bind_ok.1 dotRun
        obtain ⟨behindDot, dotHeld, dotKind, rfl⟩ := expect_ok.1 dotExpected
        obtain ⟨method, afterMethod, methodExpected, made⟩ := bind_ok.1 methodRun
        obtain ⟨behindMethod, methodHeld, methodKind, rfl⟩ := expect_ok.1 methodExpected
        obtain ⟨rfl, rfl⟩ := make_ok.1 made
        refine ⟨[token, dot, method], ?_, rfl, rfl, .baseRef kind dotKind methodKind⟩
        simp only [Cursor.advance, held, List.tail_cons] at dotHeld methodHeld
        simp [held, dotHeld, methodHeld]
      next kind =>
        obtain ⟨_, afterParen, moved, innerRun⟩ := bind_ok.1 chosen
        cases moved
        obtain ⟨grouped, afterGrouped, groupedRun, parenRun⟩ := bind_ok.1 innerRun
        obtain ⟨paren, afterClose, expected, made⟩ := bind_ok.1 parenRun
        obtain ⟨behindClose, closeHeld, closeKind, rfl⟩ := expect_ok.1 expected
        obtain ⟨rfl, rfl⟩ := make_ok.1 made
        obtain ⟨words, groupedRead⟩ := innerYields _ _ _ groupedRun closed
        refine ⟨token :: words ++ [paren], ?_, groupedRead.finish, groupedRead.faults,
          .grouping kind groupedRead.reads closeKind⟩
        have inside := groupedRead.rest
        simp only [Cursor.advance, held, List.tail_cons] at inside
        simp [held, inside, closeHeld]
      next => exact absurd chosen refuse_ok

theorem call_yields : Yields (call inner) (.expr .call) := by
  intro start stop expr run closed
  obtain ⟨head, middle, headRun, counted⟩ := bind_ok.1 run
  obtain ⟨count, same, remainingRun, looped⟩ := bind_ok.1 counted
  obtain ⟨-, rfl⟩ := remaining_ok.1 remainingRun
  obtain ⟨words, headRead⟩ := primary_yields innerYields _ _ _ headRun closed
  have lifted : Read (.expr .call head) start same words :=
    { headRead with reads := .only headRead.reads }
  exact suffixes_from_yield innerYields count head words same stop expr lifted looped
    (headRead.finish ▸ closed)

omit innerYields in
/-- Signs are read from the outermost inwards and numbered from the innermost outwards, which is the
order in which their nodes are complete. -/
theorem apply_signs_yields {operators words : List Token} {right : Expr} {first : Nat}
    {start stop : Cursor} {expr : Expr} (kinds : ∀ operator ∈ operators, operator.kind ∈ signs)
    (reads : Reads (.expr .unary right) words first start.nextId)
    (run : applySigns right operators start = .ok expr stop) :
    Reads (.expr .unary expr) (operators ++ words) first stop.nextId ∧
      stop = { start with nextId := stop.nextId } := by
  induction operators generalizing expr stop with
  | nil =>
      obtain ⟨rfl, rfl⟩ := pure_ok.1 run
      exact ⟨reads, rfl⟩
  | cons operator operators induction =>
      obtain ⟨signed, middle, innerRun, made⟩ := bind_ok.1 run
      obtain ⟨rfl, rfl⟩ := make_ok.1 made
      obtain ⟨innerReads, same⟩ :=
        induction (fun other member => kinds other (by simp [member])) innerRun
      refine ⟨.unary (kinds operator (by simp)) innerReads, ?_⟩
      rw [same]

theorem unary_yields : Yields (unary inner) (.expr .unary) := by
  intro start stop expr run closed
  obtain ⟨operators, middle, accepted, followed⟩ := bind_ok.1 run
  obtain ⟨right, afterRight, rightRun, signed⟩ := bind_ok.1 followed
  cases accepted
  obtain ⟨words, rightRead⟩ := call_yields innerYields _ _ _ rightRun closed
  have kinds : ∀ operator ∈ start.rest.takeWhile (signs.contains ·.kind),
      operator.kind ∈ signs := by
    intro operator member
    have accepted := (List.all_takeWhile (l := start.rest) (p := (signs.contains ·.kind)))
    simpa using List.all_eq_true.1 accepted operator member
  obtain ⟨reads, same⟩ := apply_signs_yields kinds (.only rightRead.reads) signed
  refine ⟨start.rest.takeWhile (signs.contains ·.kind) ++ words, ?_, ?_, ?_, reads⟩
  · have split := List.takeWhile_append_dropWhile (p := (signs.contains ·.kind)) (l := start.rest)
    rw [same, List.append_assoc, ← rightRead.rest]
    exact split.symm
  · rw [same]
    exact rightRead.finish
  · rw [same]
    exact rightRead.faults

theorem disjunction_yields : Yields (disjunction inner) (.expr .disjunction) :=
  chain_yields .disjunction (chain_yields .conjunction (chain_yields .equality
    (chain_yields .comparison (chain_yields .term (chain_yields .factor
      (unary_yields innerYields))))))

omit innerYields in
/-- The target was read as an expression before the sign of the assignment was met. Only names and
properties are then made an assignment, and their tokens are those that were read. -/
theorem assign_to_yields {start afterTarget afterValue stop : Cursor}
    {equals : Token} {behind targetWords valueWords : List Token} {target value expr : Expr}
    (targetRead : Read (.expr .disjunction target) start afterTarget targetWords)
    (held : afterTarget.rest = equals :: behind) (kind : equals.kind = .equal)
    (valueRead : Read (.expr .assignment value) { afterTarget with rest := behind } afterValue
      valueWords)
    (run : assignTo equals target value afterValue = .ok expr stop) :
    ∃ words, Read (.expr .assignment expr) start stop words := by
  have rest : start.rest = targetWords ++ equals :: valueWords ++ afterValue.rest := by
    rw [targetRead.rest, held, show behind = _ from valueRead.rest]
    simp
  unfold assignTo at run
  split at run
  next id name =>
    obtain ⟨rfl, rfl⟩ := make_ok.1 run
    rcases targetRead.reads.of_variable with ⟨rfl, nameKind, numbered⟩
    refine ⟨_, rest, valueRead.finish.trans targetRead.finish,
      valueRead.faults.trans targetRead.faults, .assign nameKind kind ?_⟩
    exact numbered ▸ valueRead.reads
  next id object name =>
    obtain ⟨rfl, rfl⟩ := make_ok.1 run
    obtain ⟨objectWords, dot, rfl, dotKind, nameKind, objectReads, numbered⟩ :=
      targetRead.reads.of_get
    refine ⟨objectWords ++ dot :: name :: equals :: valueWords, ?_,
      valueRead.finish.trans targetRead.finish, valueRead.faults.trans targetRead.faults,
      .set objectReads dotKind nameKind kind ?_⟩
    · simpa using rest
    · exact numbered ▸ valueRead.reads
  next => exact absurd run refuse_ok

theorem assignment_yields : Yields (assignment inner) (.expr .assignment) := by
  intro start stop expr run closed
  obtain ⟨target, afterTarget, targetRun, followed⟩ := bind_ok.1 run
  obtain ⟨taken, afterEquals, accepted, assigned⟩ := bind_ok.1 followed
  obtain ⟨targetWords, targetRead⟩ := disjunction_yields innerYields _ _ _ targetRun closed
  obtain ⟨equals, behind, rfl, held, kind, rfl⟩ | ⟨rfl, -, rfl⟩ := accept_option_ok.1 accepted
  · obtain ⟨value, afterValue, valueRun, assignRun⟩ := bind_ok.1 assigned
    obtain ⟨valueWords, valueRead⟩ :=
      innerYields _ _ _ valueRun (targetRead.finish ▸ closed)
    exact assign_to_yields targetRead held (by simpa using kind) valueRead assignRun
  · obtain ⟨rfl, rfl⟩ := pure_ok.1 assigned
    exact ⟨targetWords, { targetRead with reads := .only targetRead.reads }⟩

end Levels

theorem expression_within_yields (budget : Nat) :
    Yields (expressionWithin budget) (.expr .assignment) := by
  induction budget with
  | zero => exact fun _ _ _ run _ => absurd run refuse_here_ok
  | succ budget induction => exact fun start => assignment_yields induction start

theorem expression_yields : Yields expression (.expr .assignment) :=
  fun start => expression_within_yields start.rest.length start

end Quill.Grammar
