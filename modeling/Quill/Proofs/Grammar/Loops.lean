import Quill.Proofs.Grammar.Consumption

/-!
Loops without a budget. The repetitions of the grammar receive a number of turns that they
never exceed. Here a loop goes on as long as its turns ask for another one, and only a loop
that comes to an end has an outcome. Every repetition of the grammar is such a loop, so no
repetition ends for the reason that its budget is spent.
-/

namespace Quill.Grammar

set_option autoImplicit false

inductive Turn (State Result : Type) where
  | again (state : State)
  | ended (result : Result)

/-- Turn follows turn until one of them ends the loop or fails. There is no bound on the turns: that
such a loop has an outcome at all says that it comes to an end. -/
inductive Loops {State Result : Type} (turn : State → Parser (Turn State Result)) :
    State → Cursor → EStateM.Result (Located Fault) Cursor Result → Prop
  | ended {state : State} {start stop : Cursor} {result : Result}
      (run : turn state start = .ok (.ended result) stop) :
      Loops turn state start (.ok result stop)
  | fails {state : State} {start stop : Cursor} {fault : Located Fault}
      (run : turn state start = .error fault stop) :
      Loops turn state start (.error fault stop)
  | again {state next : State} {start middle : Cursor}
      {outcome : EStateM.Result (Located Fault) Cursor Result}
      (run : turn state start = .ok (.again next) middle) (rest : Loops turn next middle outcome) :
      Loops turn state start outcome

section Budgets

variable {State Result : Type}

def Turn.proceed (rest : State → Parser Result) : Turn State Result → Parser Result
  | .again state => rest state
  | .ended result => pure result

variable {turn : State → Parser (Turn State Result)}

/-- A repetition within a budget is the loop of its turns if the budget has room for them. What has
room is left open, and each turn must leave enough for the next. -/
theorem Loops.of_budget (Room : Nat → State → Cursor → Prop) (run : Nat → State → Parser Result)
    (spent : ∀ state cursor, Room 0 state cursor → Loops turn state cursor (run 0 state cursor))
    (step : ∀ budget state cursor, Room (budget + 1) state cursor →
      run (budget + 1) state cursor = (turn state >>= Turn.proceed (run budget)) cursor)
    (keeps : ∀ budget state cursor next middle, Room (budget + 1) state cursor →
      turn state cursor = .ok (.again next) middle → Room budget next middle)
    {budget : Nat} {state : State} {cursor : Cursor} (room : Room budget state cursor) :
    Loops turn state cursor (run budget state cursor) := by
  induction budget generalizing state cursor with
  | zero => exact spent state cursor room
  | succ budget induction =>
      rw [step budget state cursor room]
      change Loops turn state cursor (EStateM.bind (turn state) _ cursor)
      unfold EStateM.bind
      cases found : turn state cursor with
      | error fault middle => exact .fails found
      | ok taken middle =>
          cases taken with
          | ended result => exact .ended found
          | again next =>
              exact .again found (induction (keeps budget state cursor next middle room found))

end Budgets

section Turns

def declarationTurn (declaration : Parser (Option Stmt)) (closing : List Kind)
    (read : List Stmt) : Parser (Turn (List Stmt) (List Stmt)) := do
  if ← atEnd then pure (.ended read)
  else if ← check closing then pure (.ended read)
  else
    let next ← declaration
    pure (.again (read ++ next.toList))

def methodTurn (declaration : Parser (Option Stmt)) (read : List FunctionDecl) :
    Parser (Turn (List FunctionDecl) (List FunctionDecl)) := do
  if ← atEnd then pure (.ended read)
  else if ← check [.rightBrace] then pure (.ended read)
  else
    let _ ← accept .functionWord
    let next ← function declaration .method
    pure (.again (read ++ [next]))

def listTurn {Item : Type} (item : Parser Item) (excess : Fault) (read : List Item) :
    Parser (Turn (List Item) (List Item)) := do
  if listLimit ≤ read.length then refuseHere excess
  else
    let next ← item
    if ← accept .comma then pure (.again (read ++ [next])) else pure (.ended (read ++ [next]))

def chainTurn (operators : List Kind) (build : Nat → Expr → Token → Expr → Expr)
    (operand : Parser Expr) (left : Expr) : Parser (Turn Expr Expr) := do
  match ← accept? operators with
  | none => pure (.ended left)
  | some operator =>
      let right ← operand
      let joined ← make fun id => build id left operator right
      pure (.again joined)

def suffixTurn (expression : Parser Expr) (head : Expr) : Parser (Turn Expr Expr) := do
  match ← accept? [.leftParen, .dot] with
  | none => pure (.ended head)
  | some mark =>
      let longer ← suffix expression mark head
      pure (.again longer)

def skipTurn (_ : Unit) : Parser (Turn Unit Unit) := do
  if ← atEnd then pure (.ended ())
  else
    let token ← peek
    if token.kind = .semicolon then
      advance
      pure (.ended ())
    else if startsDeclaration token.kind then pure (.ended ())
    else
      advance
      pure (.again ())

end Turns

section Tokens

variable {State Result : Type} {turn : State → Parser (Turn State Result)}

/-- A loop that takes a token with every turn but the last never needs more turns than there
are tokens. -/
theorem Loops.of_tokens (run : Nat → State → Parser Result)
    (ended : ∀ state cursor, cursor.rest = [] → Loops turn state cursor (run 0 state cursor))
    (step : ∀ budget state, run (budget + 1) state = turn state >>= Turn.proceed (run budget))
    (takes : ∀ state cursor next middle, turn state cursor = .ok (.again next) middle →
      middle.rest.length ≤ cursor.rest.length - 1)
    (state : State) (cursor : Cursor) :
    Loops turn state cursor (run cursor.rest.length state cursor) := by
  refine Loops.of_budget (fun budget _ cursor => cursor.rest.length ≤ budget) run ?_ ?_ ?_
    (Nat.le_refl _)
  · intro state cursor room
    exact ended state cursor (List.length_eq_zero_iff.1 (Nat.le_zero.1 room))
  · intro budget state cursor _
    exact congrFun (step budget state) cursor
  · intro budget state cursor next middle room found
    have fewer := takes state cursor next middle found
    omega

end Tokens

section Repetitions

variable {First Item : Type}

/-- A repetition whose items take a token each is a loop that ends by itself: with a budget of one
for each token left, the budget is never what ends it. -/
theorem Repeats.loops {closing : List Kind} {item : Parser First} {part : First → List Item}
    {join : First → List Item → List Item} {loop : Nat → Parser (List Item)}
    {turn : List Item → Parser (Turn (List Item) (List Item))}
    (repeats : Repeats closing item join loop)
    (joins : ∀ first others, join first others = part first ++ others)
    (turns : ∀ read, turn read = (do
      if ← atEnd then pure (.ended read)
      else if ← check closing then pure (.ended read)
      else
        let first ← item
        pure (.again (read ++ part first))))
    (consumes : Consumes item) (read : List Item) (cursor : Cursor) :
    Loops turn read cursor (((read ++ ·) <$> loop cursor.rest.length) cursor) := by
  let run (budget : Nat) (read : List Item) : Parser (List Item) := (read ++ ·) <$> loop budget
  refine Loops.of_tokens run (fun read cursor ended => ?_) (fun budget read => ?_) ?_
    read cursor
  · have seen : atEnd cursor = .ok true cursor := at_end_ok.2 (by simp [ended])
    have turned : turn read cursor = .ok (.ended (read ++ [])) cursor := by
      rw [turns, List.append_nil]
      exact bind_of_ok seen
    simp only [run, repeats.spent]
    exact .ended turned
  · simp only [run, repeats.turn, joins, turns, map_bind, bind_assoc]
    congr 1
    funext ended
    split
    · simp [Turn.proceed]
    · simp only [map_bind, bind_assoc]
      congr 1
      funext closed
      split
      · simp [Turn.proceed]
      · simp [Turn.proceed, map_bind]
  · intro read cursor next middle found
    rw [turns] at found
    obtain ⟨ended, _, seen, present⟩ := bind_ok.1 found
    obtain ⟨-, rfl⟩ := at_end_ok.1 seen
    split at present
    · cases (pure_ok.1 present).1
    obtain ⟨closed, _, checked, further⟩ := bind_ok.1 present
    obtain ⟨-, rfl⟩ := check_ok.1 checked
    split at further
    · cases (pure_ok.1 further).1
    obtain ⟨first, last, taken, asked⟩ := bind_ok.1 further
    obtain ⟨-, rfl⟩ := pure_ok.1 asked
    exact consumes _ _ _ taken

theorem declarations_loop {dropping : Parser (Option Stmt)} (consumes : Consumes dropping)
    (closing : List Kind) (read : List Stmt) (cursor : Cursor) :
    Loops (declarationTurn dropping closing) read cursor
      (((read ++ ·) <$> declarationsFrom dropping closing cursor.rest.length) cursor) :=
  (repeats_declarations dropping closing).loops (fun _ _ => rfl) (fun _ => rfl) consumes read cursor

theorem methods_loop {dropping : Parser (Option Stmt)} (advances : Advances dropping)
    (read : List FunctionDecl) (cursor : Cursor) :
    Loops (methodTurn dropping) read cursor
      (((read ++ ·) <$> methodsFrom dropping cursor.rest.length) cursor) := by
  have turns (read : List FunctionDecl) : methodTurn dropping read = (do
      if ← atEnd then pure (.ended read)
      else if ← check [.rightBrace] then pure (.ended read)
      else
        let first ← accept .functionWord >>= fun _ => function dropping .method
        pure (.again (read ++ [first]))) := by
    simp only [methodTurn, bind_assoc]
  exact (repeats_methods dropping).loops (fun _ _ => rfl) turns (consumes_method advances) read
    cursor

/-- A list has room for a number of items and no budget for tokens. Here it is the room that bounds
the turns, and a list that is out of room fails. -/
theorem Separates.loops {excess : Fault} {item : Parser Item} {list : Nat → Parser (List Item)}
    (separates : Separates excess item list) (cursor : Cursor) :
    Loops (listTurn item excess) [] cursor (list listLimit cursor) := by
  let run (room : Nat) (read : List Item) : Parser (List Item) := (read ++ ·) <$> list room
  have start : list listLimit = run listLimit [] := by simp [run]
  rw [start]
  refine Loops.of_budget (fun room read _ => read.length + room = listLimit) run ?_ ?_ ?_
    (Nat.zero_add _)
  · intro read cursor full
    have refused : listTurn item excess read cursor = refuseHere excess cursor := by
      unfold listTurn
      rw [if_pos (by omega)]
    simp only [run, separates.full]
    exact .fails refused
  · intro room read cursor fits
    have same : run (room + 1) read = listTurn item excess read >>= Turn.proceed (run room) := by
      unfold listTurn
      rw [if_neg (by omega)]
      simp only [run, separates.turn, map_bind, bind_assoc]
      congr 1
      funext first
      congr 1
      funext again
      split <;> simp [Turn.proceed]
    exact congrFun same cursor
  · intro room read cursor next middle fits found
    unfold listTurn at found
    rw [if_neg (by omega)] at found
    obtain ⟨first, _, -, further⟩ := bind_ok.1 found
    obtain ⟨again, _, -, asked⟩ := bind_ok.1 further
    split at asked
    · obtain ⟨⟨⟩, -⟩ := pure_ok.1 asked
      simp only [List.length_append, List.length_singleton]
      omega
    · cases (pure_ok.1 asked).1

theorem arguments_loop (inner : Parser Expr) (cursor : Cursor) :
    Loops (listTurn inner .tooManyArguments) [] cursor (arguments inner listLimit cursor) :=
  (separates_arguments inner).loops cursor

theorem parameters_loop (cursor : Cursor) :
    Loops (listTurn (expect .identifier .parameterName) .tooManyParameters) [] cursor
      (parameters listLimit cursor) :=
  separates_parameters.loops cursor

end Repetitions

section Expressions

theorem chain_loop {operand : Parser Expr} (advances : Advances operand) (operators : List Kind)
    (build : Nat → Expr → Token → Expr → Expr) (left : Expr) (cursor : Cursor) :
    Loops (chainTurn operators build operand) left cursor
      (chainFrom operators build operand cursor.rest.length left cursor) := by
  refine Loops.of_tokens (chainFrom operators build operand) (fun left cursor ended => ?_)
    (fun budget left => ?_) ?_ left cursor
  · have absent : accept? operators cursor = .ok none cursor :=
      accept_option_ok.2 (.inr ⟨rfl, by simp [Follows, ended], rfl⟩)
    exact .ended (bind_of_ok absent)
  · simp only [chainFrom, chainTurn, bind_assoc]
    congr 1
    funext taken
    cases taken <;> simp [Turn.proceed]
  · intro left cursor next middle found
    obtain ⟨taken, _, accepted, further⟩ := bind_ok.1 found
    rcases accept_option_ok.1 accepted with ⟨token, rest, rfl, held, -, rfl⟩ | ⟨rfl, -, rfl⟩
    · obtain ⟨right, _, read, joins⟩ := bind_ok.1 further
      obtain ⟨joined, _, made, asked⟩ := bind_ok.1 joins
      obtain ⟨-, rfl⟩ := pure_ok.1 asked
      have onward := ((advances.of_ok read).trans ((advances_make _).of_ok made)).length_le
      simpa [held] using onward
    · cases (pure_ok.1 further).1

theorem suffixes_loop {inner : Parser Expr} (advances : Advances inner) (head : Expr)
    (cursor : Cursor) :
    Loops (suffixTurn inner) head cursor (suffixesFrom inner cursor.rest.length head cursor) := by
  refine Loops.of_tokens (suffixesFrom inner) (fun head cursor ended => ?_)
    (fun budget head => ?_) ?_ head cursor
  · have absent : accept? [.leftParen, .dot] cursor = .ok none cursor :=
      accept_option_ok.2 (.inr ⟨rfl, by simp [Follows, ended], rfl⟩)
    exact .ended (bind_of_ok absent)
  · simp only [suffixesFrom, suffixTurn, bind_assoc]
    congr 1
    funext taken
    cases taken <;> simp [Turn.proceed]
  · intro head cursor next middle found
    obtain ⟨taken, _, accepted, further⟩ := bind_ok.1 found
    rcases accept_option_ok.1 accepted with ⟨token, rest, rfl, held, -, rfl⟩ | ⟨rfl, -, rfl⟩
    · obtain ⟨longer, _, read, asked⟩ := bind_ok.1 further
      obtain ⟨-, rfl⟩ := pure_ok.1 asked
      have onward := ((advances_closed.suffix advances token head).of_ok read).length_le
      simpa [held] using onward
    · cases (pure_ok.1 further).1

end Expressions

theorem skip_loop (cursor : Cursor) :
    Loops skipTurn () cursor (.ok () { cursor with rest := resync cursor.rest }) := by
  rcases cursor with ⟨rest, finish, nextId, faults⟩
  induction rest with
  | nil => exact .ended rfl
  | cons token rest induction =>
      have turn : skipTurn () ⟨token :: rest, finish, nextId, faults⟩ =
          (if token.kind = .semicolon then advance >>= fun _ => pure (.ended ())
            else if startsDeclaration token.kind then pure (.ended ())
            else advance >>= fun _ => pure (.again ()) : Parser (Turn Unit Unit))
            ⟨token :: rest, finish, nextId, faults⟩ := rfl
      by_cases ends : token.kind = .semicolon
      · rw [if_pos ends] at turn
        simp only [resync, if_pos ends]
        exact .ended turn
      · rw [if_neg ends] at turn
        by_cases starts : startsDeclaration token.kind = true
        · rw [if_pos starts] at turn
          simp only [resync, if_neg ends, if_pos starts]
          exact .ended turn
        · rw [if_neg starts] at turn
          simp only [resync, if_neg ends, if_neg starts]
          exact .again turn induction

end Quill.Grammar
