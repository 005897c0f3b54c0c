import Quill.Proofs.Grammar.Bridging

/-!
Errors stay in their declaration. Where tokens break off before a token that begins a
declaration, a declaration that is not complete fails at the break, and reading goes on with
that token, whatever has failed before. Only a body that is still open, and a place where a
statement or a variable may stand, take the token as their own.
-/

namespace Quill.Grammar

set_option autoImplicit false

variable {Result Next Image Mirror : Type} {gap : Gap} {place : Cursor → Prop} {bound : Nat}

section Awaiting

theorem awaited_block (gap : Gap) :
    gap.next.kind ∈ awaited gap.front (.missing .closeBlock) := by
  have starts := gap.starts
  unfold awaited
  revert starts
  cases gap.next.kind <;> simp [startsDeclaration]

def statementWords : List Kind := [.forWord, .ifWord, .whileWord, .returnWord]

/-- Where a statement may stand: not at the end, or there behind a parenthesis or `else`. At the end
the statement that is missing is reported as an expression. -/
def Gap.Branch (gap : Gap) (cursor : Cursor) : Prop :=
  inside cursor ∨ gap.After [.rightParen] cursor ∨ gap.After [.elseWord] cursor

theorem Gap.After.front {kinds : List Kind} {cursor : Cursor} (after : gap.After kinds cursor)
    (ended : cursor.rest = []) : kinds <:+ gap.front := by
  have suffix := after.1
  rw [ended] at suffix
  simpa using suffix

theorem awaited_statement {cursor : Cursor} (branch : gap.Branch cursor)
    (ended : cursor.rest = []) (member : gap.next.kind ∈ statementWords) :
    gap.next.kind ∈ awaited gap.front (.missing .expression) := by
  have behind : [.rightParen] <:+ gap.front ∨ [.elseWord] <:+ gap.front := by
    rcases branch with present | closed | otherwise
    · exact absurd ended present
    · exact .inl (closed.front ended)
    · exact .inr (otherwise.front ended)
  unfold awaited
  rw [if_pos behind]
  exact member

theorem suffix_last (kinds : List Kind) {front : List Kind} {first second : Kind}
    (one : kinds ++ [first] <:+ front) (other : [second] <:+ front) : first = second := by
  have last : front.getLast? = some first := by
    obtain ⟨before, rfl⟩ := one
    simp
  obtain ⟨before, rfl⟩ := other
  simpa using last.symm

theorem awaited_variable {cursor : Cursor} (after : gap.After [.forWord, .leftParen] cursor)
    (ended : cursor.rest = []) :
    awaited gap.front (.missing .expression) = [.varWord] := by
  have opens := after.front ended
  have other : ¬ ([.rightParen] <:+ gap.front ∨ [.elseWord] <:+ gap.front) := by
    rintro (closed | otherwise)
    · cases suffix_last [.forWord] opens closed
    · cases suffix_last [.forWord] opens otherwise
  unfold awaited
  rw [if_neg other, if_pos opens]

theorem Gap.opened_of_fault {outcome : EStateM.Result (Located Fault) Cursor Result} {stop : Cursor}
    {fault : Fault} (fails : outcome = .error ⟨gap.finish.line, fault⟩ stop)
    (goesOn : gap.next.kind ∈ awaited gap.front fault) : gap.Opened outcome := by
  rw [fails]
  exact ⟨_, List.mem_append_right _ List.mem_cons_self, rfl, goesOn⟩

theorem Gap.opened_missing {parser : Parser Result} {cursor : Cursor} (ended : cursor.rest = [])
    (after : gap.After [] cursor)
    (fails : ∀ nextId given, parser ⟨[], gap.finish, nextId, given⟩ =
      .error ⟨gap.finish.line, .missing .expression⟩ ⟨[], gap.finish, nextId, given⟩)
    (goesOn : gap.next.kind ∈ awaited gap.front (.missing .expression)) :
    gap.Opened (parser cursor) := by
  rcases cursor with ⟨rest, finish, nextId, given⟩
  obtain rfl : rest = [] := ended
  obtain rfl : finish = gap.finish := after.2
  exact gap.opened_of_fault (fails nextId given) goesOn

end Awaiting

section Statements

theorem Bridges.accepting {kind : Kind} {proceed : Bool → Parser Next}
    {proceedMirror : Bool → Parser Mirror} {imageNext : Next → Mirror}
    (accepts : Bridges gap place bound id (accept kind) (accept kind))
    (absent : Bridges gap place bound imageNext (proceed false) (proceedMirror false))
    (present : Bridges gap (gap.After [kind]) bound imageNext (proceed true) (proceedMirror true)) :
    Bridges gap place bound imageNext (accept kind >>= proceed)
      (accept kind >>= proceedMirror) := by
  let further : Bool → Cursor → Prop
    | false => place
    | true => gap.After [kind]
  refine Bridges.bind_to further (fun _ => bound) accepts
    (fun cursor answer stop at_ within after run => ?_) fun answer => ?_
  · have fewer := ((advances_accept kind).of_ok run).length_le
    refine ⟨?_, Nat.le_trans fewer within⟩
    rcases accept_ok.1 run with ⟨token, rest, rfl, held, rfl, rfl⟩ | ⟨rfl, -, rfl⟩
    · exact gap.after_token after held
    · exact at_
  · cases answer with
    | false => exact absent
    | true => exact present

theorem bridges_accept_present (kind : Kind) :
    Bridges gap inside bound id (accept kind) (accept kind) := by
  apply (bridges_accept_inside [kind]).map
  intro taken
  cases taken <;> rfl

/-- At the end, the first clause of a counting loop is reported as a missing expression, and a
variable goes on there. -/
theorem bridges_for_initializer :
    Bridges gap (gap.After [.forWord, .leftParen]) bound (Option.map (Stmt.relabel gap.seam.labels))
      forInitializer forInitializer := by
  by_cases declares : gap.next.kind = .varWord
  · have before : Bridges gap inside bound (Option.map (Stmt.relabel gap.seam.labels))
        forInitializer forInitializer := by
      refine (bridges_accept_present .semicolon).accepting ?_ (bridges_pure none)
      refine (bridges_accept_present .varWord).accepting ?_ ?_
      · change Bridges gap inside bound _ (some <$> expressionStatement)
          (some <$> expressionStatement)
        exact bridges_expression_statement.here.map fun _ => rfl
      · change Bridges gap (gap.After [.varWord]) bound _ (some <$> varDeclaration)
          (some <$> varDeclaration)
        exact bridges_var_declaration.here.map fun _ => rfl
    refine ⟨advances_closed.for_initializer, fun cursor recorded at_ within after => ?_⟩
    by_cases ended : cursor.rest = []
    · refine .inl (Gap.opened_missing ended after (fun _ _ => rfl) ?_)
      rw [awaited_variable at_ ended, declares]
      exact List.mem_cons_self
    · exact before.heard cursor recorded ended within after
  · apply (bridges_accept (gap.other (by decide))).bind
    intro absent
    cases absent with
    | true => exact bridges_pure none
    | false =>
        apply (bridges_accept declares).bind
        intro given
        cases given with
        | true => exact bridges_var_declaration.map fun _ => rfl
        | false => exact bridges_expression_statement.map fun _ => rfl

theorem bridges_close_loop (start : Option Stmt) (condition increment : Option Expr)
    (body : Stmt) :
    Bridges gap anywhere bound (Stmt.relabel gap.seam.labels)
      (closeLoop start condition increment body)
      (closeLoop (start.map (Stmt.relabel gap.seam.labels))
        (condition.map (Expr.relabel gap.seam.labels))
        (increment.map (Expr.relabel gap.seam.labels)) (body.relabel gap.seam.labels)) := by
  cases condition with
  | some condition =>
      have built : Bridges gap anywhere bound (Stmt.relabel gap.seam.labels)
          (pure (Stmt.forLoop start condition increment body))
          (pure ((Stmt.forLoop start condition increment body).relabel gap.seam.labels)) :=
        bridges_pure _
      rw [relabel_for_loop] at built
      exact built
  | none =>
      have made : Bridges gap anywhere bound (Expr.relabel gap.seam.labels)
          (make fun id => .literal id (.boolean true))
          (make fun id => .literal id (.boolean true)) := bridges_make fun _ => rfl
      apply made.bind
      intro condition
      rw [← relabel_for_loop]
      exact bridges_pure (Stmt.forLoop start condition increment body)

variable {statement statementMirror : Parser Stmt}
  (bridges : Bridges gap gap.Branch bound (Stmt.relabel gap.seam.labels) statement
    statementMirror)

include bridges

theorem bridges_for_statement :
    Bridges gap (gap.After [.forWord]) bound (Stmt.relabel gap.seam.labels)
      (forStatement statement) (forStatement statementMirror) := by
  apply bridges_expecting (by decide)
  intro _
  apply bridges_for_initializer.bind
  intro start
  apply (bridges_optional_expression (by decide)).bind
  intro condition
  apply (bridges_expect (gap.other (by decide)) _).bind
  intro _
  apply (bridges_optional_expression (by decide)).bind
  intro increment
  apply Bridges.everywhere
  apply bridges_expecting (by decide)
  intro _
  apply (bridges.at_place fun _ closed => .inr (.inl closed)).bind
  intro body
  exact bridges_close_loop start condition increment body

theorem bridges_if_statement :
    Bridges gap anywhere bound (Stmt.relabel gap.seam.labels) (ifStatement statement)
      (ifStatement statementMirror) := by
  apply (bridges_expect (gap.other (by decide)) _).bind
  intro _
  apply bridges_expression.bind
  intro condition
  apply Bridges.everywhere
  apply bridges_expecting (by decide)
  intro _
  apply (bridges.at_place fun _ closed => .inr (.inl closed)).bind
  intro thenBranch
  refine (bridges_accept (gap.other (by decide))).accepting ?_ ?_
  · exact bridges_pure (Stmt.ifThen condition thenBranch)
  · apply (bridges.at_place fun _ otherwise => .inr (.inr otherwise)).bind
    intro elseBranch
    exact bridges_pure (Stmt.ifElse condition thenBranch elseBranch)

theorem bridges_while_statement :
    Bridges gap anywhere bound (Stmt.relabel gap.seam.labels) (whileStatement statement)
      (whileStatement statementMirror) := by
  apply (bridges_expect (gap.other (by decide)) _).bind
  intro _
  apply bridges_expression.bind
  intro condition
  apply Bridges.everywhere
  apply bridges_expecting (by decide)
  intro _
  apply (bridges.at_place fun _ closed => .inr (.inl closed)).bind
  intro body
  exact bridges_pure (Stmt.whileLoop condition body)

end Statements

section Repetitions

variable {First FirstImage Item ItemImage : Type} {image : List Item → List ItemImage}
  {wanted : Wanted}

/-- How a repetition ends that asks for `wanted` behind it: with something left open; at the
gap, where its mirror stops as well if the next token does not go on with it; or before. -/
def Unfolds (gap : Gap) (image : List Item → List ItemImage) (wanted : Wanted)
    (outcome : EStateM.Result (Located Fault) Cursor (List Item))
    (echo : EStateM.Result (Located Fault) Cursor (List ItemImage)) : Prop :=
  gap.Opened outcome ∨
    (∃ items stop, outcome = .ok items stop ∧ stop.rest = [] ∧
      (gap.next.kind ∉ awaited gap.front (.missing wanted) →
        ∃ faults, stopOf echo = stop.beyond gap.seam faults)) ∨
    Echoes gap.seam image outcome echo

theorem stop_of_bind {Result Next : Type} {parser : Parser Result} {proceed : Result → Parser Next}
    (stays : ∀ result cursor, stopOf (proceed result cursor) = cursor) (start : Cursor) :
    stopOf ((parser >>= proceed) start) = stopOf (parser start) := by
  cases run : parser start with
  | ok result stop =>
      rw [bind_of_ok run, stays]
      rfl
  | error fault stop =>
      rw [bind_of_fault run]
      rfl

theorem Unfolds.behind {loop : Parser (List Item)} {loopMirror : Parser (List ItemImage)}
    {cursor last : Cursor} (unfolds : Unfolds gap image wanted (loop cursor) (loopMirror last))
    {join : List Item → List Item} {joinMirror : List ItemImage → List ItemImage}
    (same : ∀ others, image (join others) = joinMirror (image others)) :
    Unfolds gap image wanted ((loop >>= fun others => pure (join others)) cursor)
      ((loopMirror >>= fun others => pure (joinMirror others)) last) := by
  rcases unfolds with opened | ⟨items, stop, run, ended, halts⟩ | echoes
  · exact .inl (opened_bind (fun others => advances_pure _) opened)
  · refine .inr (.inl ⟨join items, stop, bind_of_ok run, ended, fun quiet => ?_⟩)
    rw [stop_of_bind fun _ _ => rfl]
    exact halts quiet
  · refine .inr (.inr ?_)
    rcases echoes.runs with ⟨fault, other, stop, recorded, run, mirrorRun⟩ |
      ⟨others, stop, recorded, run, mirrorRun⟩
    · rw [bind_of_fault run, bind_of_fault mirrorRun]
      exact ⟨recorded, rfl⟩
    · rw [bind_of_ok run, bind_of_ok mirrorRun]
      exact ⟨(same others).symm, recorded, rfl⟩

section Closing

variable {Result Image : Type} {imageResult : Result → Image} {build : List Item → Result}
  {buildMirror : List ItemImage → Image} {loop : Parser (List Item)}
  {loopMirror : Parser (List ItemImage)} {cursor start : Cursor}

theorem advances_closing (build : List Item → Result) (items : List Item) :
    Advances (expect .rightBrace wanted >>= fun _ => pure (build items)) :=
  advances_bind (advances_expect _ _) fun _ => advances_pure _

/-- Where the tokens end the brace is missing. So it is behind the gap, unless the next token goes
on with the items. -/
theorem closing_missing {items : List Item} {stop : Cursor} (run : loop cursor = .ok items stop)
    (ended : stop.rest = []) (finish : stop.finish = gap.finish)
    (stops : gap.next.kind ∉ awaited gap.front (.missing wanted) →
      ∃ faults, stopOf (loopMirror start) = stop.beyond gap.seam faults) :
    gap.Opened ((loop >>= fun items => expect .rightBrace wanted >>= fun _ => pure (build items))
        cursor) ∨
      Echoes gap.seam imageResult
        ((loop >>= fun items => expect .rightBrace wanted >>= fun _ => pure (build items)) cursor)
        ((loopMirror >>= fun items => expect .rightBrace wanted >>= fun _ =>
          pure (buildMirror items)) start) := by
  have refused : (expect .rightBrace wanted >>= fun _ => pure (build items)) stop =
      .error ⟨gap.finish.line, .missing wanted⟩ stop := by
    refine bind_of_fault ?_
    unfold expect
    rw [ended, finish]
  rw [bind_of_ok run, refused]
  by_cases goesOn : gap.next.kind ∈ awaited gap.front (.missing wanted)
  · exact .inl (gap.opened_of_fault rfl goesOn)
  · obtain ⟨faults, stopped⟩ := stops goesOn
    cases mirrorRun : loopMirror start with
    | error other last =>
        rw [mirrorRun] at stopped
        rw [bind_of_fault mirrorRun]
        exact .inr ⟨faults, stopped⟩
    | ok copies last =>
        rw [mirrorRun] at stopped
        obtain rfl : last = stop.beyond gap.seam faults := stopped
        rcases stop with ⟨rest, finish, nextId, given⟩
        obtain rfl : rest = [] := ended
        have unmet : (expect .rightBrace wanted >>= fun _ => pure (buildMirror copies))
            (gap.resumed nextId faults) =
              .error ⟨gap.next.line, .missing wanted⟩ (gap.resumed nextId faults) :=
          bind_of_fault (gap.unmet (gap.other (by decide)) wanted nextId faults)
        rw [bind_of_ok mirrorRun, beyond_ended, unmet]
        exact .inr ⟨faults, (beyond_ended gap _ _ _ _).symm⟩

theorem Unfolds.closing (unfolds : Unfolds gap image wanted (loop cursor) (loopMirror start))
    (built : ∀ items, buildMirror (image items) = imageResult (build items))
    (advances : Advances loop) (within : cursor.rest.length ≤ bound)
    (after : gap.After [] cursor) :
    gap.Opened ((loop >>= fun items => expect .rightBrace wanted >>= fun _ => pure (build items))
        cursor) ∨
      Echoes gap.seam imageResult
        ((loop >>= fun items => expect .rightBrace wanted >>= fun _ => pure (build items)) cursor)
        ((loopMirror >>= fun items => expect .rightBrace wanted >>= fun _ =>
          pure (buildMirror items)) start) := by
  rcases unfolds with opened | ⟨items, stop, run, ended, stops⟩ | echoes
  · exact .inl (opened_bind (advances_closing build) opened)
  · exact closing_missing run ended ((advances.of_ok run).finish.trans after.2) stops
  · rcases echoes.runs with ⟨fault, other, stop, kept, run, mirrorRun⟩ |
      ⟨items, middle, kept, run, mirrorRun⟩
    · rw [bind_of_fault run, bind_of_fault mirrorRun]
      exact .inr ⟨kept, rfl⟩
    · rw [bind_of_ok run, bind_of_ok mirrorRun]
      have moved := advances.of_ok run
      have last : Bridges gap anywhere bound imageResult
          (expect .rightBrace wanted >>= fun _ => pure (build items))
          (expect .rightBrace wanted >>= fun _ => pure (buildMirror (image items))) := by
        apply (bridges_expect (gap.other (by decide)) wanted).bind
        intro _
        rw [built]
        exact bridges_pure (build items)
      exact last.heard middle kept trivial (Nat.le_trans moved.length_le within)
        (moved.after after)

end Closing

variable {item : Parser First} {itemMirror : Parser FirstImage} {imageFirst : First → FirstImage}
  {join : First → List Item → List Item}
  {joinMirror : FirstImage → List ItemImage → List ItemImage}
  {loop : Nat → Parser (List Item)} {loopMirror : Nat → Parser (List ItemImage)}
  (repeats : Repeats [.rightBrace] item join loop)
  (mirrored : Repeats [.rightBrace] itemMirror joinMirror loopMirror)
  (empty : image [] = [])
  (same : ∀ first others, image (join first others) = joinMirror (imageFirst first) (image others))
  (halts : gap.next.kind ∉ awaited gap.front (.missing wanted) →
    ∀ further nextId recorded, ∃ faults,
      stopOf (loopMirror further (gap.resumed nextId recorded)) = gap.resumed nextId faults)
  (bridges : Bridges gap inside bound imageFirst item itemMirror)
  (consumes : Consumes item) (advances : ∀ budget, Advances (loop budget))

include repeats mirrored empty same halts bridges consumes advances

/-- A repetition unfolds item by item until something is left open or the gap is reached. The
induction is on the budget; behind the gap the budget may be larger. -/
theorem Repeats.unfolds {budget further : Nat} {cursor : Cursor}
    (recorded : List (Located Fault)) (enough : cursor.rest.length ≤ budget)
    (within : cursor.rest.length ≤ bound) (room : budget ≤ further)
    (after : gap.After [] cursor) :
    Unfolds gap image wanted (loop budget cursor)
      (loopMirror further (cursor.beyond gap.seam recorded)) := by
  have atGap {budget further : Nat} {cursor : Cursor} {recorded : List (Located Fault)}
      (held : cursor.rest = []) : Unfolds gap image wanted (loop budget cursor)
        (loopMirror further (cursor.beyond gap.seam recorded)) := by
    refine .inr (.inl ⟨[], cursor, repeats.ended held, held, fun quiet => ?_⟩)
    rcases cursor with ⟨rest, finish, nextId, given⟩
    obtain rfl : rest = [] := held
    obtain ⟨faults, stops⟩ := halts quiet further nextId recorded
    rw [beyond_ended]
    exact ⟨faults, stops.trans (beyond_ended gap _ _ _ _).symm⟩
  induction budget generalizing further cursor recorded with
  | zero => exact atGap (List.length_eq_zero_iff.1 (Nat.le_zero.1 enough))
  | succ budget induction =>
      obtain ⟨fewer, rfl⟩ := Nat.exists_eq_add_of_le' (Nat.le_trans (Nat.le_add_left 1 budget) room)
      cases held : cursor.rest with
      | nil => exact atGap held
      | cons token rest =>
          have heldBeyond : (cursor.beyond gap.seam recorded).rest =
              token.relabel gap.seam.labels ::
                (rest.map (Token.relabel gap.seam.labels) ++ gap.seam.tail) := by
            simp [Cursor.beyond, Cursor.across, held]
          by_cases closes : token.kind ∈ [Kind.rightBrace]
          · rw [repeats.closed held closes, mirrored.closed heldBeyond closes]
            exact .inr (.inr ⟨empty.symm, recorded, rfl⟩)
          rw [repeats.continued held closes, mirrored.continued heldBeyond closes]
          have present : inside cursor := by
            unfold inside
            rw [held]
            exact List.cons_ne_nil token rest
          have onward (first : First) :
              Advances (loop budget >>= fun others => pure (join first others)) :=
            advances_bind (advances budget) fun others => advances_pure _
          rcases bridges.heard cursor recorded present within after with opened | echoes
          · exact .inl (opened_bind onward opened)
          rcases echoes.runs with ⟨fault, other, stop, kept, run, mirrorRun⟩ |
            ⟨first, middle, kept, run, mirrorRun⟩
          · rw [bind_of_fault run, bind_of_fault mirrorRun]
            exact .inr (.inr ⟨kept, rfl⟩)
          · rw [bind_of_ok run, bind_of_ok mirrorRun]
            have shorter := consumes cursor first middle run
            exact (induction kept (by omega) (by omega) (Nat.le_of_succ_le_succ room)
              ((bridges.advances.of_ok run).after after)).behind (same first)

theorem bridges_closing {Result Image : Type} {imageResult : Result → Image}
    {build : List Item → Result} {buildMirror : List ItemImage → Image}
    (built : ∀ items, buildMirror (image items) = imageResult (build items)) :
    Bridges gap place bound imageResult
      (do
        let items ← loop (← remaining)
        let _ ← expect .rightBrace wanted
        pure (build items))
      (do
        let items ← loopMirror (← remaining)
        let _ ← expect .rightBrace wanted
        pure (buildMirror items)) := by
  refine ⟨advances_bind advances_remaining fun count =>
    advances_bind (advances count) fun items => advances_closing build items,
    fun cursor recorded _ within after => ?_⟩
  have room : cursor.rest.length ≤ (cursor.beyond gap.seam recorded).rest.length := by
    simp [Cursor.beyond, Cursor.across]
  rw [bind_of_ok (remaining_ok.2 ⟨rfl, rfl⟩), bind_of_ok (remaining_ok.2 ⟨rfl, rfl⟩)]
  have unfolds := repeats.unfolds mirrored empty same halts bridges consumes advances recorded
    (Nat.le_refl _) within room after
  exact unfolds.closing built (advances _) within after

end Repetitions

section Declarations

variable {declaration declarationMirror : Parser (Option Stmt)}
  (bridges : Bridges gap inside bound (Option.map (Stmt.relabel gap.seam.labels)) declaration
    declarationMirror)

include bridges

theorem bridges_block (consumes : Consumes declaration) :
    Bridges gap place bound (relabelStmts gap.seam.labels) (block declaration)
      (block declarationMirror) := by
  have adds (first : Option Stmt) (others : List Stmt) :
      relabelStmts gap.seam.labels (first.toList ++ others) =
        (first.map (Stmt.relabel gap.seam.labels)).toList ++
          relabelStmts gap.seam.labels others := by
    rw [relabel_stmts_append, relabel_stmts_option]
  exact bridges_closing (repeats_declarations declaration _)
    (repeats_declarations declarationMirror _) rfl adds
    (fun quiet => absurd (awaited_block gap) quiet) bridges consumes
    (advances_closed.declarations_from bridges.advances _) fun _ => rfl

theorem bridges_function (consumes : Consumes declaration) (role : Role) :
    Bridges gap place bound (FunctionDecl.relabel gap.seam.labels) (function declaration role)
      (function declarationMirror role) := by
  apply (bridges_expect (gap.other (by decide)) _).bind
  intro name
  apply (bridges_expect (gap.other (by decide)) _).bind
  intro _
  apply bridges_parameter_list.bind
  intro names
  apply (bridges_expect (gap.other (by decide)) _).bind
  intro _
  apply (bridges_expect (gap.other (by decide)) _).bind
  intro _
  apply (bridges_block bridges consumes).bind
  intro body
  exact bridges_pure (FunctionDecl.mk name names body)

omit bridges in
/-- At the gap the methods of an open class come to an end, if the next token is not one that goes
on with them. -/
theorem methods_halt (quiet : gap.next.kind ∉ awaited gap.front (.missing .closeClass))
    (further nextId : Nat) (recorded : List (Located Fault)) :
    ∃ faults, stopOf (methodsFrom declarationMirror further (gap.resumed nextId recorded)) =
      gap.resumed nextId faults := by
  refine ⟨recorded, ?_⟩
  cases further with
  | zero => rfl
  | succ further =>
      have wordless : gap.next.kind ∉ [Kind.functionWord] := quiet
      have closed : gap.next.kind ∉ [Kind.rightBrace] := gap.quiet (by decide)
      have unaccepted : accept .functionWord (gap.resumed nextId recorded) =
          .ok false (gap.resumed nextId recorded) := by
        change EStateM.map Option.isSome (accept? [.functionWord]) _ = _
        unfold EStateM.map
        rw [gap.absent wordless]
        rfl
      have nameless : function declarationMirror .method (gap.resumed nextId recorded) =
          .error ⟨gap.next.line, .missing (.routineName .method)⟩ (gap.resumed nextId recorded) :=
        bind_of_fault (gap.unmet (gap.other (by decide)) _ _ _)
      rw [(repeats_methods declarationMirror).continued rfl closed,
        bind_of_fault ((bind_of_ok unaccepted).trans nameless)]
      rfl

theorem bridges_class_declaration (consumes : Consumes declaration) :
    Bridges gap place bound (Stmt.relabel gap.seam.labels) (classDeclaration declaration)
      (classDeclaration declarationMirror) := by
  apply (bridges_expect (gap.other (by decide)) _).bind
  intro name
  apply bridges_class_base.bind
  intro base
  apply (bridges_expect (gap.other (by decide)) _).bind
  intro _
  have method : Bridges gap inside bound (FunctionDecl.relabel gap.seam.labels)
      (do
        let _ ← accept .functionWord
        function declaration .method)
      (do
        let _ ← accept .functionWord
        function declarationMirror .method) := by
    apply (bridges_accept_present .functionWord).bind
    intro _
    exact bridges_function bridges consumes .method
  exact bridges_closing (repeats_methods declaration) (repeats_methods declarationMirror) rfl
    (fun _ _ => rfl) methods_halt method (consumes_method bridges.advances)
    (advances_closed.methods_from bridges.advances) fun _ => rfl

end Declarations

section Rules

variable {statement statementMirror : Parser Stmt}
  {declaration declarationMirror : Parser (Option Stmt)}
  (stated : Bridges gap gap.Branch bound (Stmt.relabel gap.seam.labels) statement statementMirror)
  (declared : Bridges gap inside bound (Option.map (Stmt.relabel gap.seam.labels)) declaration
    declarationMirror)
  (consumes : Consumes declaration)

theorem Gap.wordless (gap : Gap) (other : gap.next.kind ∉ statementWords) :
    gap.next.kind ∉ [Kind.forWord, .ifWord, .whileWord, .returnWord, .leftBrace] := by
  intro member
  rcases List.mem_append.1 (show gap.next.kind ∈ statementWords ++ [.leftBrace] from member) with
    word | brace
  · exact other word
  · exact gap.other (by decide) (List.mem_singleton.1 brace)

include stated declared consumes

theorem bridges_marked (token : Token) :
    Bridges gap (gap.After [token.kind]) bound (Stmt.relabel gap.seam.labels)
      (match token.kind with
        | .forWord => forStatement statement
        | .ifWord => ifStatement statement
        | .whileWord => whileStatement statement
        | .returnWord => returnStatement token
        | _ => .block <$> block declaration)
      (match (token.relabel gap.seam.labels).kind with
        | .forWord => forStatement statementMirror
        | .ifWord => ifStatement statementMirror
        | .whileWord => whileStatement statementMirror
        | .returnWord => returnStatement (token.relabel gap.seam.labels)
        | _ => .block <$> block declarationMirror) := by
  rw [relabel_kind]
  split
  next word =>
    rw [word]
    exact bridges_for_statement stated
  · exact (bridges_if_statement stated).here
  · exact (bridges_while_statement stated).here
  · exact (bridges_return_statement token).here
  · exact (bridges_block declared consumes).map fun _ => rfl

theorem bridges_statement_rule :
    Bridges gap gap.Branch (bound + 1) (Stmt.relabel gap.seam.labels)
      (statementRule statement declaration) (statementRule statementMirror declarationMirror) := by
  have present := bridges_marked stated declared consumes
  by_cases member : gap.next.kind ∈ statementWords
  · have before : Bridges gap inside (bound + 1) (Stmt.relabel gap.seam.labels)
        (statementRule statement declaration) (statementRule statementMirror declarationMirror) :=
      (bridges_accept_inside _).taking bridges_expression_statement.here present
    refine ⟨before.advances, fun cursor recorded branch within after => ?_⟩
    by_cases ended : cursor.rest = []
    · exact .inl (Gap.opened_missing ended after (fun _ _ => rfl)
        (awaited_statement branch ended member))
    · exact before.heard cursor recorded ended within after
  · exact bridges_taking (gap.wordless member) bridges_expression_statement.here present

theorem bridges_declaration_rule :
    Bridges gap inside (bound + 1) (Stmt.relabel gap.seam.labels)
      (declarationRule statement declaration)
      (declarationRule statementMirror declarationMirror) := by
  have other := (bridges_statement_rule stated declared consumes).at_place
    fun _ (present : inside _) => .inl present
  refine (bridges_accept_inside _).taking other fun token => ?_
  dsimp only
  rw [relabel_kind]
  split
  · exact bridges_class_declaration declared consumes
  · exact (bridges_function declared consumes .function).map fun _ => rfl
  · exact bridges_var_declaration.here

end Rules

section Recovery

/-- Skipping stops at the gap if not before, because the token behind the gap begins a declaration.
So no fault before the gap drops what stands behind it. -/
theorem resync_breaks (gap : Gap) (tokens : List Token) :
    resync (tokens.map (Token.relabel gap.seam.labels) ++ gap.seam.tail) =
      (resync tokens).map (Token.relabel gap.seam.labels) ++ gap.seam.tail := by
  induction tokens with
  | nil =>
      have other : gap.next.kind ≠ .semicolon := gap.other (by decide)
      simp [gap.tail, resync, other, gap.starts]
  | cons token rest induction =>
      by_cases ends : token.kind = .semicolon
      · simp [resync, ends]
      · by_cases starts : startsDeclaration token.kind = true
        · simp [resync, ends, starts]
        · simp [resync, ends, starts, induction]

/-- Recovery before the gap is the same across it. A fault that leaves nothing open is one on both
sides, and skipping ends at the gap at the latest. -/
theorem bridges_recovering {rule ruleMirror : Parser Stmt}
    (bridges : Bridges gap inside bound (Stmt.relabel gap.seam.labels) rule ruleMirror) :
    Bridges gap inside bound (Option.map (Stmt.relabel gap.seam.labels)) (recovering rule)
      (recovering ruleMirror) := by
  refine ⟨advances_recovering bridges.advances, fun cursor recorded present within after => ?_⟩
  rcases bridges.heard cursor recorded present within after with opened | echoes
  · left
    obtain ⟨fault, member, ended, awaits⟩ := opened
    refine ⟨fault, ?_, ended, awaits⟩
    unfold recovering
    cases run : rule cursor with
    | ok stmt stop =>
        rw [run] at member
        exact member
    | error last stop =>
        rw [run] at member
        dsimp only
        split <;> exact member
  · right
    unfold recovering
    rcases echoes.runs with ⟨fault, other, stop, kept, run, mirrorRun⟩ |
      ⟨stmt, stop, kept, run, mirrorRun⟩
    · let resumed : Cursor := { stop.record fault with rest := resync stop.rest }
      have rests : resync (stop.beyond gap.seam kept).rest =
          (resync stop.rest).map (Token.relabel gap.seam.labels) ++ gap.seam.tail :=
        resync_breaks gap stop.rest
      have across : { (stop.beyond gap.seam kept).record other with
          rest := resync (stop.beyond gap.seam kept).rest } =
            resumed.beyond gap.seam (kept ++ [other]) := by
        rw [rests]
        rfl
      have lengths : (resync (stop.beyond gap.seam kept).rest).length =
          (cursor.beyond gap.seam recorded).rest.length ↔
            (resync stop.rest).length = cursor.rest.length := by
        rw [rests]
        simp [Cursor.beyond, Cursor.across]
      rw [run, mirrorRun]
      refine ⟨rfl, kept ++ [other], ?_⟩
      simp only [lengths, across]
      by_cases stuck : (resync stop.rest).length = cursor.rest.length
      · -- What is left is not empty, so the token that is lost stands before the gap.
        have left : inside resumed := by
          intro ended
          have nothing : cursor.rest.length = 0 := by
            rw [← stuck, show resync stop.rest = [] from ended, List.length_nil]
          exact present (List.length_eq_zero_iff.1 nothing)
        rw [if_pos stuck, if_pos stuck, advance_beyond left]
      · rw [if_neg stuck, if_neg stuck]
    · rw [run, mirrorRun]
      exact ⟨rfl, kept, rfl⟩

/-- Both recursions at once, by induction on the budget. With nothing left before the gap, something
is left open, or the next token is refused in the place of what is missing. -/
theorem bridges_within {budget further : Nat} (room : budget ≤ further) :
    Bridges gap gap.Branch budget (Stmt.relabel gap.seam.labels) (statementWithin budget)
        (statementWithin further) ∧
      Bridges gap inside budget (Option.map (Stmt.relabel gap.seam.labels))
        (declarationWithin budget) (declarationWithin further) := by
  induction budget generalizing further with
  | zero =>
      constructor
      · refine ⟨advances_refuse_here _, fun cursor recorded branch within after => ?_⟩
        have ended := List.length_eq_zero_iff.1 (Nat.le_zero.1 within)
        by_cases member : gap.next.kind ∈ statementWords
        · exact .inl (Gap.opened_missing ended after (fun _ _ => rfl)
            (awaited_statement branch ended member))
        · right
          rcases cursor with ⟨rest, finish, nextId, given⟩
          obtain rfl : rest = [] := ended
          have refused : statementWithin further (gap.resumed nextId recorded) =
              .error ⟨gap.next.line, .missing .expression⟩ (gap.resumed nextId recorded) := by
            cases further with
            | zero => rfl
            | succ further =>
                exact (bind_of_ok (gap.absent (gap.wordless member) nextId recorded)).trans
                  (bind_of_fault (resumed_refuses _ nextId recorded))
          rw [beyond_ended, refused]
          exact ⟨recorded, (beyond_ended gap _ _ _ _).symm⟩
      · refine ⟨advances_recovering (advances_refuse_here _),
          fun cursor recorded present within after => ?_⟩
        exact absurd (List.length_eq_zero_iff.1 (Nat.le_zero.1 within)) present
  | succ budget induction =>
      obtain ⟨fewer, rfl⟩ := Nat.exists_eq_add_of_le' (Nat.le_trans (Nat.le_add_left 1 budget) room)
      obtain ⟨stated, declared⟩ := induction (Nat.le_of_succ_le_succ room)
      have consumes := consumes_declaration_within budget
      exact ⟨bridges_statement_rule stated declared consumes,
        bridges_recovering (bridges_declaration_rule stated declared consumes)⟩

theorem bridges_declaration :
    Bridges gap inside bound (Option.map (Stmt.relabel gap.seam.labels)) declaration
      declaration := by
  refine ⟨advances_closed.declaration, fun cursor recorded present _ after => ?_⟩
  have room : cursor.rest.length ≤ (cursor.beyond gap.seam recorded).rest.length := by
    simp [Cursor.beyond, Cursor.across]
  exact (bridges_within room).2.heard cursor recorded present (Nat.le_refl _) after

end Recovery

/-- Unless something is left open at the gap, the tokens before it are read as they are without
what goes on there, and that is read next. -/
theorem program_confined {cursor stop : Cursor} {stmts : List Stmt} (after : gap.After [] cursor)
    (run : program cursor = .ok stmts stop) (shut : ¬ gap.Opened (program cursor))
    (recorded : List (Located Fault)) :
    ∃ faults, ∀ others last, program (stop.beyond gap.seam faults) = .ok others last →
      program (cursor.beyond gap.seam recorded) =
        .ok (relabelStmts gap.seam.labels stmts ++ others) last := by
  -- A declaration takes a token, so what is left before the gap gets shorter.
  induction length : cursor.rest.length using Nat.strongRecOn generalizing cursor stmts recorded with
  | _ size induction =>
  by_cases ended : cursor.rest = []
  · rw [program_nil ended] at run
    cases run
    exact ⟨recorded, fun others last onward => onward⟩
  · rw [program_step ended] at run shut
    have onward (first : Option Stmt) :
        Advances (program >>= fun others => pure (first.toList ++ others)) :=
      advances_bind advances_closed.program fun _ => advances_pure _
    rcases bridges_declaration.heard cursor recorded ended (Nat.le_refl _) after with
      opened | echoes
    · exact absurd (opened_bind onward opened) shut
    obtain ⟨first, middle, firstRun⟩ := declaration_total cursor
    rw [firstRun] at echoes
    rcases echoes.runs with ⟨_, _, _, _, impossible, -⟩ | ⟨_, _, kept, same, mirrorRun⟩
    · cases impossible
    cases same
    obtain ⟨others, final, othersRun, built⟩ := bind_ok.1 ((bind_of_ok firstRun).symm.trans run)
    obtain ⟨rfl, rfl⟩ := pure_ok.1 built
    have shorter := consumes_declaration cursor first middle firstRun
    have positive := List.length_pos_iff.2 ended
    have shutBehind : ¬ gap.Opened (program middle) := fun opened => by
      rw [bind_of_ok firstRun] at shut
      exact shut (opened_bind (fun _ => advances_pure _) opened)
    obtain ⟨faults, follows⟩ := induction middle.rest.length (by omega)
      ((advances_closed.declaration.of_ok firstRun).after after) othersRun shutBehind kept rfl
    refine ⟨faults, fun others last more => ?_⟩
    have present : inside (cursor.beyond gap.seam recorded) := by
      simp [inside, Cursor.beyond, Cursor.across, gap.tail]
    rw [program_step present, bind_of_ok mirrorRun, bind_of_ok (follows others last more),
      relabel_stmts_append, relabel_stmts_option, List.append_assoc]
    rfl

end Quill.Grammar
