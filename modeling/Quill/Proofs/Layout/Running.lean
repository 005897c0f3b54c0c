import Quill.Machine.Step
import Quill.Proofs.Layout.Storing

/-!
Running does not see where tokens stand. One step of a bare machine leads to the bare next
machine, so a bare machine stops when the machine itself does, with the same output and the
same fault up to its line.
-/

namespace Quill

set_option autoImplicit false

namespace Machine

def Task.bare : Task → Task
  | unary operator => unary operator.bare
  | leftOperand operator right => leftOperand operator.bare right.bare
  | rightOperand left operator => rightOperand left operator.bare
  | logical operator right => logical operator.bare right.bare
  | assign id name => assign id name.bare
  | callee paren given => callee paren.bare (bareExprs given)
  | argument called evaluated paren remaining =>
      argument called evaluated paren.bare (bareExprs remaining)
  | getProperty name => getProperty name.bare
  | setObject name value => setObject name.bare value.bare
  | setField receiver name => setField receiver name.bare
  | declareVar name => declareVar name.bare
  | classBase name base methods => classBase name.bare base.bare (bareDecls methods)
  | branch thenBranch elseBranch => branch thenBranch.bare (elseBranch.map Stmt.bare)
  | loopTest condition body => loopTest condition.bare body.bare
  | loopBody condition body => loopBody condition.bare body.bare
  | giveBack => giveBack
  | block remaining outer => block (bareStmts remaining) outer
  | leaveCall completion => leaveCall completion
  | program remaining => program (bareStmts remaining)

def Control.bare : Control → Control
  | evaluate expr => evaluate expr.bare
  | execute stmt => execute stmt.bare
  | done value => done value
  | returning value => returning value
  | failing fault => failing fault.bare

def bare (machine : Machine) : Machine where
  state := machine.state.bare
  control := machine.control.bare
  stack := machine.stack.map Task.bare

variable (state : State) (stack : List Task)

theorem deliver_bare (line : Nat) (result : Except Fault Value) :
    deliver state.bare 0 result (stack.map Task.bare) = (deliver state line result stack).bare := by
  cases result <;> rfl

theorem deliver_read_bare (line : Nat) (result : Except Heap.AccessFault Value) :
    deliverRead state.bare 0 result (stack.map Task.bare) =
      (deliverRead state line result stack).bare := by
  cases result <;> rfl

theorem deliver_bound_bare (method : Closure) (receiver : InstanceRef) :
    deliverBound state.bare method.bare receiver (stack.map Task.bare) =
      (deliverBound state method receiver stack).bare := by
  unfold deliverBound
  rw [State.bare_add_bound, State.bare_heap, Heap.bare_next_function]
  rfl

theorem base_operands_bare (id : Nat) : baseOperands state.bare id = baseOperands state id := by
  unfold baseOperands
  simp only [State.bare, Heap.bare_read_at]

theorem evaluate_base_bare (id : Nat) (keyword method : Token) :
    evaluateBase state.bare id keyword.bare method.bare (stack.map Task.bare) =
      (evaluateBase state id keyword method stack).bare := by
  unfold evaluateBase
  rw [base_operands_bare]
  cases baseOperands state id with
  | error fault => rfl
  | ok operands =>
      rcases operands with ⟨parent, receiver⟩
      simp only [State.bare_heap, Heap.bare_method, Heap.bare_field, Token.bare_lexeme]
      cases state.heap.method? parent method.lexeme with
      | some closure => exact deliver_bound_bare state stack closure receiver
      | none =>
          cases state.heap.field? receiver method.lexeme <;> rfl

theorem evaluate_bare (expr : Expr) :
    evaluate state.bare expr.bare (stack.map Task.bare) = (evaluate state expr stack).bare := by
  cases expr with
  | variableRef id name =>
      simp only [Expr.bare, evaluate, State.bare_read, Token.bare_lexeme]
      exact deliver_read_bare state stack name.line _
  | thisRef id keyword =>
      simp only [Expr.bare, evaluate, State.bare_read, Token.bare_lexeme]
      exact deliver_read_bare state stack keyword.line _
  | baseRef id keyword method => exact evaluate_base_bare state stack id keyword method
  | _ => rfl

theorem define_class_bare (name : Token) (parent : Option ClassRef) (methods : List FunctionDecl) :
    defineClass state.bare name.bare parent (bareDecls methods) (stack.map Task.bare) =
      (defineClass state name parent methods stack).bare := by
  cases parent with
  | none =>
      simp only [defineClass, Heap.method_table_bare, State.bare_heap, Heap.bare_next_class]
      have added := State.bare_add_class state
        ⟨name.lexeme, none, Heap.methodTable name.lexeme state.environment methods⟩
      exact congrArg (fun added => Machine.mk (added.declare name.lexeme
        (.classRef state.heap.nextClass)) (.done .nil) (stack.map Task.bare)) added
  | some parent =>
      simp only [defineClass, Heap.method_table_bare, State.bare_heap, Heap.bare_next_class]
      have added := State.bare_add_class
        (state.addFrame ⟨some state.environment, Bindings.empty.insert "base" (.classRef parent)⟩)
        ⟨name.lexeme, some parent, Heap.methodTable name.lexeme state.heap.nextFrame methods⟩
      exact congrArg (fun added => Machine.mk (added.declare name.lexeme
        (.classRef state.heap.nextClass)) (.done .nil) (stack.map Task.bare)) added

theorem execute_bare (stmt : Stmt) :
    execute state.bare stmt.bare (stack.map Task.bare) = (execute state stmt stack).bare := by
  cases stmt with
  | varDecl name initializer => cases initializer <;> rfl
  | functionDecl decl =>
      simp only [Stmt.bare, execute, State.bare_heap, Heap.bare_next_function,
        FunctionDecl.bare_name, Token.bare_lexeme]
      have added := State.bare_add_function state ⟨decl, state.environment, false⟩
      exact congrArg (fun added => Machine.mk (added.declare decl.name.lexeme
        (.functionRef state.heap.nextFunction)) (.done .nil) (stack.map Task.bare)) added
  | classDecl name base methods =>
      cases base with
      | none => exact define_class_bare state stack name none methods
      | some base => rfl
  | returnStmt keyword value => cases value <;> rfl
  | _ => rfl

theorem parameter_bindings_bare (parameters : List Token) (given : List Value) :
    parameterBindings (parameters.map Token.bare) given = parameterBindings parameters given := by
  unfold parameterBindings
  rw [List.zip_map_left, List.foldl_map]
  rfl

theorem enter_call_bare (closure : Closure) (given : List Value) (completion : Completion) :
    enterCall state.bare closure.bare given completion (stack.map Task.bare) =
      (enterCall state closure given completion stack).bare := by
  simp only [enterCall, Closure.bare, FunctionDecl.bare_parameters, FunctionDecl.bare_body,
    parameter_bindings_bare]
  rfl

theorem call_function_bare (closure : Closure) (given : List Value) (line : Nat) :
    callFunction state.bare closure.bare given 0 (stack.map Task.bare) =
      (callFunction state closure given line stack).bare := by
  unfold callFunction
  rw [Closure.bare_arity, State.bare_refusal]
  cases state.refusal? closure.arity given.length with
  | some fault => rfl
  | none => exact enter_call_bare state stack closure given _

theorem call_print_bare (given : List Value) (line : Nat) :
    callPrint state.bare given 0 (stack.map Task.bare) =
      (callPrint state given line stack).bare := by
  have same : state.bare.heap.display = state.heap.display :=
    funext fun value => Heap.bare_display state.heap value
  unfold callPrint
  simp only [same]
  change (if state.sink.fits _ then _ else _) = _
  split <;> rfl

theorem call_native_bare (native : Native) (given : List Value) (line : Nat) :
    callNative state.bare native given 0 (stack.map Task.bare) =
      (callNative state native given line stack).bare := by
  unfold callNative
  rw [State.bare_refusal]
  cases state.refusal? native.arity given.length with
  | some fault => rfl
  | none =>
      cases native.builtin with
      | print => exact call_print_bare state stack given line
      | clock => rfl

theorem call_class_bare (ref : ClassRef) (given : List Value) (line : Nat) :
    callClass state.bare ref given 0 (stack.map Task.bare) =
      (callClass state ref given line stack).bare := by
  unfold callClass
  simp only [State.bare_heap, Heap.bare_class_arity, State.bare_refusal, Heap.bare_constructor]
  cases state.refusal? (state.heap.classArity ref) given.length with
  | some fault => rfl
  | none =>
      cases state.heap.constructor? ref with
      | none => rfl
      | some method =>
          exact enter_call_bare
            ((state.addInstance ⟨ref, .empty⟩).addFrame
              (Heap.receiverFrame method state.heap.nextInstance))
            stack (state.heap.boundMethod method) given (.created state.heap.nextInstance)

theorem call_value_bare (callee : Value) (given : List Value) (line : Nat) :
    callValue state.bare callee given 0 (stack.map Task.bare) =
      (callValue state callee given line stack).bare := by
  cases callee with
  | functionRef ref =>
      simp only [callValue, State.bare_heap, Heap.bare_function]
      cases state.heap.function? ref with
      | some closure => exact call_function_bare state stack closure given line
      | none => rfl
  | nativeRef ref =>
      simp only [callValue, State.bare_heap, Heap.bare_native]
      cases state.heap.native? ref with
      | some native => exact call_native_bare state stack native given line
      | none => rfl
  | classRef ref => exact call_class_bare state stack ref given line
  | _ => rfl

theorem gather_bare (callee : Value) (evaluated : List Value) (paren : Token)
    (remaining : List Expr) :
    gather state.bare callee evaluated paren.bare (bareExprs remaining) (stack.map Task.bare) =
      (gather state callee evaluated paren remaining stack).bare := by
  cases remaining with
  | nil => exact call_value_bare state stack callee evaluated paren.line
  | cons argument rest => rfl

theorem finish_call_bare (completion : Completion) (value : Value) :
    finishCall state.bare completion value (stack.map Task.bare) =
      (finishCall state completion value stack).bare := by
  cases completion <;> rfl

theorem apply_binary_bare (heap : Heap) (left : Value) (operator : Kind) (right : Value) :
    applyBinary heap.bare left operator right = applyBinary heap left operator right := by
  unfold applyBinary add
  simp only [Heap.bare_display]

theorem get_property_bare (name : Token) (value : Value) :
    resume state.bare value (.getProperty name.bare) (stack.map Task.bare) =
      (resume state value (.getProperty name) stack).bare := by
  cases value with
  | instanceRef receiver =>
      simp only [resume, Heap.property?, State.bare_heap, Heap.bare_field, Heap.bare_instance,
        Token.bare_lexeme]
      cases state.heap.field? receiver name.lexeme with
      | some held => rfl
      | none =>
          cases state.heap.instance? receiver with
          | none => rfl
          | some object =>
              simp only [Option.bind_eq_bind, Option.bind_some, Heap.bare_method]
              cases state.heap.method? object.cls name.lexeme with
              | some closure => exact deliver_bound_bare state stack closure receiver
              | none => rfl
  | _ => rfl

theorem base_line_bare (name : Token) (base : Expr) : baseLine name.bare base.bare = 0 := by
  cases base <;> rfl

/-- A task goes on in the same way when tokens say no longer where they stand. It may look at their
kinds and texts, which are left. -/
theorem resume_bare (value : Value) (task : Task) :
    resume state.bare value task.bare (stack.map Task.bare) =
      (resume state value task stack).bare := by
  cases task with
  | unary operator => exact deliver_bare state stack operator.line _
  | rightOperand left operator =>
      simp only [Task.bare, resume, State.bare_heap, apply_binary_bare, Token.bare_kind]
      exact deliver_bare state stack operator.line _
  | logical operator right =>
      cases short : shortCircuits operator.kind value <;>
        simp [Task.bare, resume, short, bare, Control.bare]
  | assign id name =>
      simp only [Task.bare, resume, State.bare_slot, Token.bare_lexeme]
      cases state.slot id name.lexeme <;> rfl
  | callee paren given => exact gather_bare state stack value [] paren given
  | argument callee evaluated paren remaining =>
      exact gather_bare state stack callee (evaluated ++ [value]) paren remaining
  | getProperty name => exact get_property_bare state stack name value
  | setObject name expr => cases value <;> rfl
  | classBase name base methods =>
      cases value with
      | classRef parent => exact define_class_bare state stack name (some parent) methods
      | _ =>
          simp only [Task.bare, resume, base_line_bare]
          rfl
  | branch thenBranch elseBranch =>
      simp only [Task.bare, resume]
      cases value.isTruthy with
      | true => rfl
      | false => cases elseBranch <;> rfl
  | loopTest condition body =>
      simp only [Task.bare, resume]
      cases value.isTruthy <;> rfl
  | block remaining outer => cases remaining <;> rfl
  | leaveCall completion => exact finish_call_bare state stack completion .nil
  | program remaining => cases remaining <;> rfl
  | _ => rfl

theorem release_bare (task : Task) : task.bare.release state.bare = (task.release state).bare := by
  cases task <;> rfl

theorem unwind_return_bare (value : Value) (task : Task) :
    unwindReturn state.bare value task.bare (stack.map Task.bare) =
      (unwindReturn state value task stack).bare := by
  cases task with
  | leaveCall completion => exact finish_call_bare state stack completion value
  | _ => rfl

theorem next_bare (machine : Machine) : machine.bare.next = machine.next.bare := by
  rcases machine with ⟨state, control, stack⟩
  cases control with
  | evaluate expr => exact evaluate_bare state stack expr
  | execute stmt => exact execute_bare state stack stmt
  | done value =>
      cases stack with
      | nil => rfl
      | cons task stack => exact resume_bare state stack value task
  | returning value =>
      cases stack with
      | nil => rfl
      | cons task stack => exact unwind_return_bare state stack value task
  | failing fault =>
      cases stack with
      | nil => rfl
      | cons task stack =>
          exact congrArg (Machine.mk · (.failing fault.bare) (stack.map Task.bare))
            (release_bare state task)

@[simp] theorem halted_bare (machine : Machine) : machine.bare.halted = machine.halted := by
  rcases machine with ⟨state, control, stack⟩
  cases control <;> cases stack <;> rfl

theorem run_bare (steps : Nat) (machine : Machine) :
    machine.bare.run steps = (machine.run steps).bare := by
  induction steps generalizing machine with
  | zero => rfl
  | succ steps induction =>
      unfold run
      rw [halted_bare, next_bare, induction]
      cases machine.halted <;> rfl

theorem load_bare (locals : Scope.Table) (statements : List Stmt) :
    load state locals (bareStmts statements) = (load state locals statements).bare := by
  unfold load bare
  rw [State.bare_reset]
  rfl

end Machine

end Quill
