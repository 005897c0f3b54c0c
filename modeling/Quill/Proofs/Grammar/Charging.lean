import Mathlib.Algebra.Group.Nat.Defs
import Quill.Proofs.Grammar.Moments
import Quill.Proofs.Grammar.Steps
import Quill.Proofs.Tree.Formed

/-!
Numbers are paid for with tokens. Every token that is taken earns one number, and a rule may
hand on what it has earned and not yet spent. At no moment of a run have more numbers been
given out than tokens taken, although nodes are built anew when a target turns out to be
assigned to, a counting loop makes up its condition, and a recovery gives up what was built.
-/

namespace Quill.Grammar

set_option autoImplicit false

/-- The numbers given out, and those that the tokens to come may still earn. No step makes this more
by itself; what a rule builds is paid for with the tokens that it takes. -/
def Cursor.weight (cursor : Cursor) : Nat := cursor.nextId + cursor.rest.length

variable {Result Next : Type}

/-- From `start`, a run that has `credit` to spend never spends more, and a result leaves
`left` unspent. -/
structure Charged {parser : Parser Result} (script : Script parser) (credit : Nat)
    (left : Result → Nat) (start : Cursor) : Prop where
  moments : ∀ moment ∈ script.moments start, moment.weight ≤ start.weight + credit
  result : ∀ result stop, parser start = .ok result stop →
    stop.weight + left result ≤ start.weight + credit

def Charges {parser : Parser Result} (script : Script parser) (credit : Nat)
    (left : Result → Nat) : Prop :=
  ∀ start : Cursor, start.finish.kind = .endOfInput → Charged script credit left start

abbrev Free {parser : Parser Result} (script : Script parser) : Prop :=
  Charges script 0 fun _ => 0

section Combining

variable {parser : Parser Result} {script : Script parser} {credit : Nat} {left : Result → Nat}

theorem Charges.more (charges : Charges script credit left) (extra : Nat) :
    Charges script (credit + extra) fun result => left result + extra := by
  intro start closed
  obtain ⟨moments, result⟩ := charges start closed
  refine ⟨fun moment member => ?_, fun value stop run => ?_⟩
  · have bound := moments moment member
    omega
  · have bound := result value stop run
    omega

theorem Free.keep (free : Free script) (credit : Nat) :
    Charges script credit fun _ => credit := by
  have more := Charges.more free credit
  simp only [Nat.zero_add] at more
  exact more

theorem Charges.drop {less : Result → Nat} (charges : Charges script credit left)
    (fewer : ∀ result, less result ≤ left result) : Charges script credit less := by
  intro start closed
  obtain ⟨moments, result⟩ := charges start closed
  refine ⟨moments, fun value stop run => ?_⟩
  exact Nat.le_trans (Nat.add_le_add_left (fewer value) _) (result value stop run)

theorem Charged.bind {proceed : Result → Parser Next} {middle : Result → Nat}
    {last : Next → Nat} {start : Cursor} {after : ∀ value, Script (proceed value)}
    (first : Charged script credit middle start)
    (second : ∀ value between, parser start = .ok value between →
      Charged (after value) (middle value) last between) :
    Charged (.bind script after) credit last start := by
  refine ⟨fun moment member => ?_, fun value stop run => ?_⟩
  · rcases Script.bind_moments member with early | ⟨value, between, run, late⟩
    · exact first.moments moment early
    · exact Nat.le_trans ((second value between run).moments moment late)
        (first.result value between run)
  · obtain ⟨between, spot, firstRun, lastRun⟩ := bind_ok.1 run
    exact Nat.le_trans ((second between spot firstRun).result value stop lastRun)
      (first.result between spot firstRun)

theorem Charged.followed {proceed : Result → Parser Next} {middle : Result → Nat}
    {last : Next → Nat} {start : Cursor} {after : ∀ value, Script (proceed value)}
    (first : Charged script credit middle start) (closed : start.finish.kind = .endOfInput)
    (second : ∀ value, Charges (after value) (middle value) last) :
    Charged (.bind script after) credit last start := by
  refine first.bind fun value between run => ?_
  have kept := (script.advances.of_ok run).finish
  exact second value between (kept ▸ closed)

theorem Charges.bind {proceed : Result → Parser Next} {middle : Result → Nat}
    {last : Next → Nat} {after : ∀ value, Script (proceed value)}
    (first : Charges script credit middle)
    (second : ∀ value, Charges (after value) (middle value) last) :
    Charges (.bind script after) credit last :=
  fun start closed => (first start closed).followed closed second

theorem Charges.map {last : Next → Nat} (build : Result → Next)
    (charges : Charges script credit fun result => last (build result)) :
    Charges (.map build script) credit last := by
  intro start closed
  obtain ⟨moments, result⟩ := charges start closed
  refine ⟨moments, fun value stop run => ?_⟩
  obtain ⟨inner, innerRun, rfl⟩ := map_ok.1 run
  exact result inner stop innerRun

theorem Free.map (build : Result → Next) (free : Free script) : Free (.map build script) :=
  Charges.map build free

theorem charges_either {yes no : Parser Result} {condition : Prop} [Decidable condition]
    {first : Script yes} {second : Script no}
    (positive : condition → Charges first credit left)
    (negative : ¬ condition → Charges second credit left) :
    Charges (.either condition first second) credit left := by
  intro start closed
  by_cases holds : condition
  · obtain ⟨moments, result⟩ := positive holds start closed
    refine ⟨fun moment member => ?_, fun value stop run => ?_⟩
    · rw [Script.moments, if_pos holds] at member
      exact moments moment member
    · rw [if_pos holds] at run
      exact result value stop run
  · obtain ⟨moments, result⟩ := negative holds start closed
    refine ⟨fun moment member => ?_, fun value stop run => ?_⟩
    · rw [Script.moments, if_neg holds] at member
      exact moments moment member
    · rw [if_neg holds] at run
      exact result value stop run

end Combining

section Steps

variable {credit : Nat}

theorem passing_weight {start stop moment : Cursor} {limit : Nat}
    (starts : start.weight ≤ limit) (stops : stop.weight ≤ limit)
    (member : moment ∈ start.passing stop) : moment.weight ≤ limit := by
  rcases passing_cases member with ⟨count, rfl⟩ | rfl
  · refine Nat.le_trans ?_ starts
    exact Nat.add_le_add_left (List.drop_sublist count start.rest).length_le _
  · exact stops

theorem charged_step {parser : Parser Result} {primitive : Primitive parser}
    {left : Result → Nat} {start : Cursor}
    (ends : (stopOf (parser start)).weight ≤ start.weight + credit)
    (results : ∀ result stop, parser start = .ok result stop →
      stop.weight + left result ≤ start.weight + credit) :
    Charged (.step primitive) credit left start :=
  ⟨fun _ member => passing_weight (Nat.le_add_right _ _) ends member, results⟩

theorem charges_still {parser : Parser Result} {primitive : Primitive parser}
    {left : Result → Nat} (enough : ∀ result, left result ≤ credit)
    (still : ∀ start, stopOf (parser start) = start) :
    Charges (.step primitive) credit left := by
  intro start _
  refine charged_step ?_ fun result stop run => ?_
  · rw [still]
    exact Nat.le_add_right _ _
  · have same : stop = start := by
      rw [← still start, run]
      rfl
    rw [same]
    exact Nat.add_le_add_left (enough result) _

theorem charges_pure {value : Result} {left : Result → Nat} (enough : left value ≤ credit) :
    Charges (.step (.pure value)) credit left := by
  intro start _
  refine charged_step (Nat.le_add_right _ _) fun result stop run => ?_
  obtain ⟨rfl, rfl⟩ := pure_ok.1 run
  exact Nat.add_le_add_left enough _

theorem free_pure (value : Result) : Free (.step (.pure value)) := charges_pure (Nat.le_refl _)

theorem free_refuse (token : Token) (fault : Fault) :
    Free (.step (.refuse token fault) : Script (refuse token fault : Parser Result)) :=
  charges_still (fun _ => Nat.le_refl _) fun _ => rfl

theorem free_refuse_here (fault : Fault) :
    Free (.step (.refuseHere fault) : Script (refuseHere fault : Parser Result)) :=
  charges_still (fun _ => Nat.le_refl _) fun _ => rfl

theorem free_remaining : Free (.step .remaining) :=
  charges_still (fun _ => Nat.le_refl _) fun _ => rfl

theorem free_at_end : Free (.step .atEnd) :=
  charges_still (fun _ => Nat.le_refl _) fun _ => rfl

theorem free_check (kinds : List Kind) : Free (.step (.check kinds)) := by
  refine charges_still (fun _ => Nat.le_refl _) fun start => ?_
  unfold check
  split <;> rfl

theorem weight_taken {cursor : Cursor} {token : Token} {behind : List Token}
    (held : cursor.rest = token :: behind) :
    { cursor with rest := behind }.weight + 1 = cursor.weight := by
  simp [Cursor.weight, held, Nat.add_assoc]

def earned : Option Token → Nat
  | none => 0
  | some _ => 1

theorem charges_accept_option (kinds : List Kind) :
    Charges (.step (.accept? kinds)) credit fun taken => credit + earned taken := by
  intro start _
  refine charged_step ?_ fun taken stop run => ?_
  · have shorter := (advances_accept_option kinds start).rest.length_le
    have same : (stopOf (accept? kinds start)).nextId = start.nextId := by
      unfold accept?
      repeat' split
      all_goals rfl
    unfold Cursor.weight
    omega
  · rcases accept_option_ok.1 run with ⟨token, behind, rfl, held, -, rfl⟩ | ⟨rfl, -, rfl⟩
    · have taken := weight_taken held
      simp only [earned]
      omega
    · exact Nat.le_refl _

theorem charges_accept (kind : Kind) :
    Charges (Script.accept kind) credit fun taken => credit + taken.toNat :=
  .map _ ((charges_accept_option [kind]).drop fun taken => by
    cases taken <;> exact Nat.le_refl _)

theorem free_accept_option (kinds : List Kind) : Free (.step (.accept? kinds)) :=
  (charges_accept_option kinds).drop fun _ => Nat.zero_le _

theorem free_accept (kind : Kind) : Free (.accept kind) :=
  (charges_accept kind).drop fun _ => Nat.zero_le _

theorem charges_expect (kind : Kind) (wanted : Wanted) :
    Charges (.step (.expect kind wanted)) credit fun _ => credit + 1 := by
  intro start _
  refine charged_step ?_ fun token stop run => ?_
  · have shorter := (advances_expect kind wanted start).rest.length_le
    have same : (stopOf (expect kind wanted start)).nextId = start.nextId := by
      unfold expect
      repeat' split
      all_goals rfl
    unfold Cursor.weight
    omega
  · obtain ⟨behind, held, -, rfl⟩ := expect_ok.1 run
    have taken := weight_taken held
    omega

theorem free_expect (kind : Kind) (wanted : Wanted) : Free (.step (.expect kind wanted)) :=
  (charges_expect kind wanted).drop fun _ => Nat.zero_le _

theorem charges_accept_all (kinds : List Kind) :
    Charges (.step (.acceptAll kinds)) 0 fun taken => taken.length := by
  intro start _
  have split := congrArg List.length
    (List.takeWhile_append_dropWhile (p := (kinds.contains ·.kind)) (l := start.rest))
  rw [List.length_append] at split
  refine charged_step ?_ fun taken stop run => ?_
  · simp only [acceptAll, stopOf, Cursor.weight]
    omega
  · cases run
    simp only [Cursor.weight]
    omega

theorem charges_make (build : Nat → Expr) :
    Charges (.step (.make build)) (credit + 1) fun _ => credit := by
  intro start _
  refine charged_step ?_ fun expr stop run => ?_
  · simp only [make, stopOf, Cursor.weight]
    omega
  · obtain ⟨-, rfl⟩ := make_ok.1 run
    simp only [Cursor.weight]
    omega

end Steps

section Expressions

variable {inner : Parser Expr} {expression : Script inner} (free : Free expression)

include free

/-- The operator pays for the node that it joins, and the operands have paid for themselves. -/
theorem free_chain_from (operators : List Kind) (build : Nat → Expr → Token → Expr → Expr)
    (budget : Nat) (left : Expr) : Free (.chainFrom expression operators build budget left) := by
  induction budget generalizing left with
  | zero => exact free_pure left
  | succ budget induction =>
      refine (charges_accept_option operators).bind fun taken => ?_
      cases taken with
      | none => exact free_pure left
      | some operator =>
          exact (free.keep 1).bind fun right => (charges_make _).bind fun joined =>
            induction joined

theorem free_chain (operators : List Kind) (build : Nat → Expr → Token → Expr → Expr) :
    Free (.chain expression operators build) :=
  free.bind fun first => free_remaining.bind fun count =>
    free_chain_from free operators build count first

theorem free_arguments (room : Nat) : Free (.arguments expression room) := by
  induction room with
  | zero => exact free_refuse_here _
  | succ room induction =>
      refine free.bind fun first => (free_accept .comma).bind fun _ => ?_
      exact charges_either (fun _ => induction.bind fun others => free_pure _)
        fun _ => free_pure _

theorem free_argument_list : Free (.argumentList expression) :=
  (free_check _).bind fun _ => charges_either (fun _ => free_pure _)
    fun _ => free_arguments free listLimit

theorem charges_suffix (mark : Token) (head : Expr) :
    Charges (.suffix expression mark head) 1 fun _ => 0 := by
  refine charges_either (fun _ => ?_) (fun _ => ?_)
  · exact ((free_argument_list free).keep 1).bind fun given =>
      (charges_expect _ _).bind fun paren => (charges_make _).drop fun _ => Nat.zero_le _
  · exact (charges_expect _ _).bind fun name => (charges_make _).drop fun _ => Nat.zero_le _

theorem free_suffixes_from (budget : Nat) (head : Expr) :
    Free (.suffixesFrom expression budget head) := by
  induction budget generalizing head with
  | zero => exact free_pure head
  | succ budget induction =>
      refine (charges_accept_option _).bind fun taken => ?_
      cases taken with
      | none => exact free_pure head
      | some mark => exact (charges_suffix free mark head).bind fun longer => induction longer

omit free in
theorem charged_advance {start : Cursor} (present : start.rest ≠ []) :
    Charged (.step .advance) 0 (fun _ => 1) start := by
  obtain ⟨token, behind, held⟩ := List.exists_cons_of_ne_nil present
  have taken := weight_taken held
  have moved : start.advance = { start with rest := behind } := by
    rw [Cursor.advance, held, List.tail_cons]
  refine charged_step ?_ fun result stop run => ?_
  · simp only [advance, stopOf, moved]
    omega
  · cases run
    rw [moved]
    omega

omit free in
theorem charged_leaf {start : Cursor} (closed : start.finish.kind = .endOfInput)
    (present : start.rest ≠ []) (build : Nat → Expr) :
    Charged (.leaf build) 0 (fun _ => 0) start :=
  (charged_advance present).followed closed fun _ => charges_make build

/-- The end mark begins no primary, so a primary has a token to take, and with it the number of its
node is earned. -/
theorem free_primary : Free (.primary expression) := by
  intro start closed
  have begun : start.peek.kind ≠ .endOfInput → start.rest ≠ [] := by
    intro other ended
    exact other (by rw [Cursor.peek, ended]; exact closed)
  have still : Free (.step .peek) := charges_still (fun _ => Nat.le_refl _) fun _ => rfl
  refine (still start closed).bind fun token same run => ?_
  obtain ⟨rfl, rfl⟩ := peek_ok.1 run
  dsimp only
  generalize same.peek.kind = kind at begun
  cases kind
  case falseWord | trueWord | nilWord | string | identifier | thisWord =>
    exact charged_leaf closed (begun (by decide)) _
  case number =>
    cases Number.read? same.peek.lexeme with
    | some bits => exact charged_leaf closed (begun (by decide)) _
    | none => exact free_refuse _ _ same closed
  case baseWord =>
    exact (charged_advance (begun (by decide))).followed closed fun _ =>
      (charges_expect _ _).bind fun _ => (charges_expect _ _).bind fun method =>
        (charges_make _).drop fun _ => Nat.zero_le _
  case leftParen =>
    exact (charged_advance (begun (by decide))).followed closed fun _ =>
      (free.keep 1).bind fun grouped => (charges_expect _ _).bind fun _ =>
        (charges_make _).drop fun _ => Nat.zero_le _
  all_goals exact free_refuse _ _ same closed

theorem free_call : Free (.call expression) :=
  (free_primary free).bind fun head => free_remaining.bind fun count =>
    free_suffixes_from free count head

omit free in
theorem charges_apply_signs (right : Expr) (operators : List Token) :
    Charges (.applySigns right operators) operators.length fun _ => 0 := by
  induction operators with
  | nil => exact free_pure right
  | cons operator operators induction =>
      have spared : Charges (.applySigns right operators) (operators.length + 1) fun _ => 1 :=
        (induction.more 1).drop fun _ => Nat.le_refl _
      exact spared.bind fun signed => charges_make _

theorem free_unary : Free (.unary expression) :=
  (charges_accept_all _).bind fun operators => ((free_call free).keep _).bind fun right =>
    charges_apply_signs right operators

theorem free_disjunction : Free (.disjunction expression) :=
  free_chain (free_chain (free_chain (free_chain (free_chain (free_chain (free_unary free) _ _)
    _ _) _ _) _ _) _ _) _ _

omit free in
/-- The node of the target was paid for with its name. The equals sign pays for the node that
takes its place. -/
theorem charges_assign_to (equals : Token) (target value : Expr) :
    Charges (.assignTo equals target value) 1 fun _ => 0 := by
  cases target with
  | variableRef _ name => exact charges_make fun id => .assign id name value
  | get _ object name => exact charges_make fun id => .set id object name value
  | _ =>
      have refused : Free (.step (.refuse equals .invalidTarget) :
          Script (refuse equals .invalidTarget : Parser Expr)) := free_refuse _ _
      exact (refused.keep 1).drop fun _ => Nat.zero_le _

theorem free_assignment : Free (.assignment expression) := by
  refine (free_disjunction free).bind fun target => (charges_accept_option _).bind fun taken => ?_
  cases taken with
  | none => exact free_pure target
  | some equals => exact (free.keep 1).bind fun value => charges_assign_to equals target value

end Expressions

theorem free_expression_within (budget : Nat) : Free (.expressionWithin budget) := by
  induction budget with
  | zero => exact free_refuse_here _
  | succ budget induction => exact free_assignment induction

theorem free_expression : Free .expression := by
  intro start closed
  obtain ⟨moments, result⟩ := free_expression_within start.rest.length start closed
  exact ⟨moments, result⟩

section Declarations

variable {dropping : Parser (Option Stmt)} {declaration : Script dropping}
  (free : Free declaration)

include free

theorem free_declarations_from (closing : List Kind) (budget : Nat) :
    Free (.declarationsFrom declaration closing budget) := by
  induction budget with
  | zero => exact free_pure _
  | succ budget induction =>
      refine free_at_end.bind fun _ => charges_either (fun _ => free_pure _) fun _ => ?_
      refine (free_check _).bind fun _ => charges_either (fun _ => free_pure _) fun _ => ?_
      exact free.bind fun first => induction.bind fun others => free_pure _

theorem free_block : Free (.block declaration) :=
  free_remaining.bind fun count => (free_declarations_from free _ count).bind fun _ =>
    (free_expect _ _).bind fun _ => free_pure _

omit free in
theorem free_parameters (room : Nat) : Free (.parameters room) := by
  induction room with
  | zero => exact free_refuse_here _
  | succ room induction =>
      refine (free_expect _ _).bind fun first => (free_accept .comma).bind fun _ => ?_
      exact charges_either (fun _ => induction.bind fun others => free_pure _)
        fun _ => free_pure _

omit free in
theorem free_parameter_list : Free .parameterList :=
  (free_check _).bind fun _ => charges_either (fun _ => free_pure _)
    fun _ => free_parameters listLimit

theorem free_function (role : Role) : Free (.function declaration role) :=
  (free_expect _ _).bind fun _ => (free_expect _ _).bind fun _ =>
    free_parameter_list.bind fun _ => (free_expect _ _).bind fun _ =>
      (free_expect _ _).bind fun _ => (free_block free).bind fun _ => free_pure _

theorem free_methods_from (budget : Nat) : Free (.methodsFrom declaration budget) := by
  induction budget with
  | zero => exact free_pure _
  | succ budget induction =>
      refine free_at_end.bind fun _ => charges_either (fun _ => free_pure _) fun _ => ?_
      refine (free_check _).bind fun _ => charges_either (fun _ => free_pure _) fun _ => ?_
      exact (free_accept _).bind fun _ => (free_function free _).bind fun first =>
        induction.bind fun others => free_pure _

omit free in
theorem free_class_base : Free .classBase := by
  refine (free_accept _).bind fun _ => charges_either (fun _ => ?_) fun _ => free_pure _
  exact (charges_expect _ _).bind fun name => (charges_make _).bind fun base => free_pure _

theorem free_class_declaration : Free (.classDeclaration declaration) :=
  (free_expect _ _).bind fun _ => free_class_base.bind fun _ => (free_expect _ _).bind fun _ =>
    free_remaining.bind fun count => (free_methods_from free count).bind fun _ =>
      (free_expect _ _).bind fun _ => free_pure _

end Declarations

theorem free_var_declaration : Free .varDeclaration := by
  have initializer : Free .initializer := (free_accept _).bind fun _ =>
    charges_either (fun _ => free_expression.map _) fun _ => free_pure _
  exact (free_expect _ _).bind fun _ => initializer.bind fun _ => (free_expect _ _).bind
    fun _ => free_pure _

theorem free_expression_statement : Free .expressionStatement :=
  free_expression.bind fun _ => (free_expect _ _).bind fun _ => free_pure _

theorem free_optional_expression (closing : Kind) : Free (.optionalExpression closing) :=
  (free_check _).bind fun _ => charges_either (fun _ => free_pure _)
    fun _ => free_expression.map _

theorem free_for_initializer : Free .forInitializer := by
  refine (free_accept _).bind fun _ => charges_either (fun _ => free_pure _) fun _ => ?_
  exact (free_accept _).bind fun _ => charges_either (fun _ => free_var_declaration.map _)
    fun _ => free_expression_statement.map _

section Statements

variable {single : Parser Stmt} {statement : Script single} (free : Free statement)

include free

/-- The opening parenthesis pays for a condition that is not there, which is the one node of a loop
that no token stands for. -/
theorem free_for_statement : Free (.forStatement statement) := by
  refine (charges_expect _ _).bind fun _ => (free_for_initializer.keep 1).bind fun initializer =>
    ((free_optional_expression _).keep 1).bind fun condition =>
      ((free_expect _ _).keep 1).bind fun _ =>
        ((free_optional_expression _).keep 1).bind fun increment =>
          ((free_expect _ _).keep 1).bind fun _ => (free.keep 1).bind fun body => ?_
  cases condition with
  | some condition => exact charges_pure (Nat.zero_le _)
  | none => exact (charges_make _).bind fun condition => free_pure _

theorem free_if_statement : Free (.ifStatement statement) := by
  refine (free_expect _ _).bind fun _ => free_expression.bind fun condition =>
    (free_expect _ _).bind fun _ => free.bind fun thenBranch => (free_accept _).bind fun _ => ?_
  exact charges_either (fun _ => free.bind fun elseBranch => free_pure _) fun _ => free_pure _

theorem free_while_statement : Free (.whileStatement statement) :=
  (free_expect _ _).bind fun _ => free_expression.bind fun _ => (free_expect _ _).bind fun _ =>
    free.bind fun _ => free_pure _

omit free in
theorem free_return_statement (keyword : Token) : Free (.returnStatement keyword) :=
  (free_optional_expression _).bind fun _ => (free_expect _ _).bind fun _ => free_pure _

variable {dropping : Parser (Option Stmt)} {declaration : Script dropping}
  (freeDeclaration : Free declaration)

include freeDeclaration

theorem free_statement_rule : Free (.statementRule statement declaration) := by
  refine (free_accept_option _).bind fun taken => ?_
  cases taken with
  | none => exact free_expression_statement
  | some token =>
      dsimp only [id]
      generalize token.kind = kind
      cases kind
      case forWord => exact free_for_statement free
      case ifWord => exact free_if_statement free
      case whileWord => exact free_while_statement free
      case returnWord => exact free_return_statement token
      all_goals exact (free_block freeDeclaration).map _

theorem free_declaration_rule : Free (.declarationRule statement declaration) := by
  refine (free_accept_option _).bind fun taken => ?_
  cases taken with
  | none => exact free_statement_rule free freeDeclaration
  | some token =>
      dsimp only [id]
      generalize token.kind = kind
      cases kind
      case classWord => exact free_class_declaration freeDeclaration
      case functionWord => exact (free_function freeDeclaration _).map _
      all_goals exact free_var_declaration

end Statements

/-- What a dropped declaration was given is lost, and the tokens that are skipped earn more, so
recovery costs nothing. -/
theorem free_recovering {rule : Parser Stmt} {script : Script rule} (free : Free script) :
    Free (.recovering script) := by
  intro start closed
  obtain ⟨moments, result⟩ := free start closed
  have ending : ∀ fault stop, rule start = .error fault stop →
      stop.weight ≤ start.weight ∧ (stopOf (recovering rule start)).weight ≤ start.weight := by
    intro fault stop run
    have last := moments _ (script.stop_mem_moments start)
    rw [run] at last
    have shorter := (resync_suffix stop.rest).length_le
    refine ⟨last, Nat.le_trans ?_ last⟩
    unfold recovering
    simp only [run, stopOf, Cursor.weight]
    split
    · simp only [Cursor.advance, Cursor.record, List.length_tail]
      omega
    · simp only [Cursor.record]
      omega
  refine ⟨fun moment member => ?_, fun kept stop run => ?_⟩
  · rcases Script.recovering_moments member with early | ⟨fault, stop, run, late⟩
    · exact moments moment early
    · have recorded : (stop.record fault).weight ≤ start.weight := (ending fault stop run).1
      exact passing_weight recorded (ending fault stop run).2 late
  · cases found : rule start with
    | ok stmt last =>
        unfold recovering at run
        simp only [found, EStateM.Result.ok.injEq] at run
        obtain ⟨-, rfl⟩ := run
        exact result stmt last found
    | error fault last =>
        have bound := (ending fault last found).2
        rw [run] at bound
        exact bound

theorem free_within (budget : Nat) :
    Free (.statementWithin budget) ∧ Free (.declarationWithin budget) := by
  induction budget with
  | zero => exact ⟨free_refuse_here _, free_recovering (free_refuse_here _)⟩
  | succ budget induction =>
      obtain ⟨statement, declaration⟩ := induction
      exact ⟨free_statement_rule statement declaration,
        free_recovering (free_declaration_rule statement declaration)⟩

theorem free_declaration : Free .declaration := by
  intro start closed
  obtain ⟨moments, result⟩ := (free_within start.rest.length).2 start closed
  exact ⟨moments, result⟩

theorem free_program : Free .program :=
  free_remaining.bind fun count => free_declarations_from free_declaration [] count

/-- At every moment of a parse, which ends at one of them, at most as many numbers have been
given out as tokens have been consumed, so that no counter of 32 bits wraps on fewer than
`2 ^ 32` tokens; and the expressions of the result have distinct numbers, all of them given
out. -/
theorem identities_bounded (source : String) (tokens : List Token) :
    (stopOf (program (Cursor.start tokens (Token.endOf source.toList))) ∈
        Script.program.moments (Cursor.start tokens (Token.endOf source.toList)) ∧
      ∀ moment ∈ Script.program.moments (Cursor.start tokens (Token.endOf source.toList)),
        ∃ consumed, consumed ++ moment.rest = beforeEnd tokens ∧
          moment.nextId ≤ consumed.length ∧
          (tokens.length < 2 ^ 32 → moment.nextId < 2 ^ 32)) ∧
      (nodeIds (bodyNodes (parse tokens (Token.endOf source.toList)).statements)).Nodup ∧
      ∀ id ∈ nodeIds (bodyNodes (parse tokens (Token.endOf source.toList)).statements),
        id < assigned tokens (Token.endOf source.toList) := by
  have closed := end_of_kind source.toList
  have numbered : Numbered
      (nodeIds (bodyNodes (parse tokens (Token.endOf source.toList)).statements)) 0
      (assigned tokens (Token.endOf source.toList)) := (parse_assigns tokens closed).numbered
  refine ⟨⟨Script.stop_mem_moments _ _, fun moment member => ?_⟩, numbered.distinct,
    fun id member => (numbered.range id member).2⟩
  have bound := (free_program _ (start_closed tokens closed)).moments moment member
  obtain ⟨consumed, held⟩ := (Script.program.moments_advance member).rest
  have split : consumed ++ moment.rest = beforeEnd tokens := held
  have whole : (Cursor.start tokens (Token.endOf source.toList)).weight =
      (consumed ++ moment.rest).length := by
    rw [split]
    exact Nat.zero_add _
  have within : (beforeEnd tokens).length ≤ tokens.length :=
    (List.takeWhile_prefix _).length_le
  rw [whole, List.length_append] at bound
  rw [← split, List.length_append] at within
  unfold Cursor.weight at bound
  exact ⟨consumed, split, by omega, fun few => by omega⟩

end Quill.Grammar
