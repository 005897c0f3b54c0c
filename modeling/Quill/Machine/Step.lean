import Quill.Diagnostic
import Quill.Machine.Operator
import Quill.Machine.State

/-!
The evaluator as a machine that takes one small step at a time. It looks at one
expression or statement, or holds the outcome of the last one, and keeps a stack of what
is left to do. A `return` and a fault take the tasks off the stack one by one; each task
taken off gives back what it borrowed, so whatever way a piece of work ends, the frame
and the call depth are those from before it.
-/

namespace Quill

set_option autoImplicit false

namespace Machine

inductive Completion where
  /-- What the body returned, and `nil` if it returned nothing. -/
  | ordinary
  /-- The receiver that a constructor's frame holds. -/
  | receiver (frame : FrameRef)
  /-- The instance that a class was called for. -/
  | created (ref : InstanceRef)
deriving DecidableEq, Repr

/-- What is left to do once there is an outcome. A task keeps what has been evaluated before of the
same expression or statement, and, if it is to restore a frame, that frame. -/
inductive Task where
  | unary (operator : Token)
  | leftOperand (operator : Token) (right : Expr)
  | rightOperand (left : Value) (operator : Token)
  | logical (operator : Token) (right : Expr)
  | assign (id : Nat) (name : Token)
  | callee (paren : Token) (arguments : List Expr)
  | argument (callee : Value) (evaluated : List Value) (paren : Token) (remaining : List Expr)
  | getProperty (name : Token)
  | setObject (name : Token) (value : Expr)
  | setField (receiver : InstanceRef) (name : Token)
  | declareVar (name : Token)
  | classBase (name : Token) (base : Expr) (methods : List FunctionDecl)
  | branch (thenBranch : Stmt) (elseBranch : Option Stmt)
  | loopTest (condition : Expr) (body : Stmt)
  | loopBody (condition : Expr) (body : Stmt)
  | giveBack
  | block (remaining : List Stmt) (outer : FrameRef)
  | leaveCall (completion : Completion)
  | program (remaining : List Stmt)

/-- What the machine attends to. A statement that ends normally is done with `nil`. -/
inductive Control where
  | evaluate (expr : Expr)
  | execute (stmt : Stmt)
  | done (value : Value)
  | returning (value : Value)
  | failing (fault : Located Fault)

end Machine

structure Machine where
  state : Machine.State
  control : Machine.Control
  stack : List Machine.Task

namespace Machine

def fail (state : State) (line : Nat) (fault : Fault) (stack : List Task) : Machine :=
  ⟨state, .failing ⟨line, fault⟩, stack⟩

def deliver (state : State) (line : Nat) (result : Except Fault Value) (stack : List Task) :
    Machine :=
  match result with
  | .ok value => ⟨state, .done value, stack⟩
  | .error fault => fail state line fault stack

def deliverRead (state : State) (line : Nat) (result : Except Heap.AccessFault Value)
    (stack : List Task) : Machine :=
  match result with
  | .ok value => ⟨state, .done value, stack⟩
  | .error fault => fail state line (.access fault) stack

/-- A method as a value is a new function each time it is read. Two readings are never the same
value, even of one method through one instance. -/
def deliverBound (state : State) (method : Closure) (receiver : InstanceRef)
    (stack : List Task) : Machine :=
  let ref := state.heap.nextFunction
  ⟨state.addBound method receiver, .done (.functionRef ref), stack⟩

def literalValue : Literal → Value
  | .nil => .nil
  | .boolean truth => .boolean truth
  | .number bits => .number (Float.ofBits bits)
  | .text value => .text value

/-- The base class and the receiver that `base` refers to. The receiver lies one scope
nearer than the base class. -/
def baseOperands (state : State) (id : Nat) : Except Fault (ClassRef × InstanceRef) :=
  match state.locals.get? id with
  | none => .error .misplacedBase
  | some distance =>
      match state.heap.readAt state.environment distance "base" with
      | .error fault => .error (.access fault)
      | .ok parent =>
          match state.heap.readAt state.environment (distance - 1) "this" with
          | .error fault => .error (.access fault)
          | .ok receiver =>
              match parent, receiver with
              | .classRef parent, .instanceRef receiver => .ok (parent, receiver)
              | _, _ => .error .misplacedBase

/-- `base.name` is a method from the base class upwards, or else a field of the receiver. -/
def evaluateBase (state : State) (id : Nat) (keyword method : Token) (stack : List Task) :
    Machine :=
  match baseOperands state id with
  | .error fault => fail state keyword.line fault stack
  | .ok (parent, receiver) =>
      match state.heap.method? parent method.lexeme with
      | some closure => deliverBound state closure receiver stack
      | none =>
          match state.heap.field? receiver method.lexeme with
          | some value => ⟨state, .done value, stack⟩
          | none => fail state method.line (.undefinedProperty method.lexeme) stack

def evaluate (state : State) (expr : Expr) (stack : List Task) : Machine :=
  match expr with
  | .literal _ value => ⟨state, .done (literalValue value), stack⟩
  | .grouping _ inner => ⟨state, .evaluate inner, stack⟩
  | .unary _ operator right => ⟨state, .evaluate right, .unary operator :: stack⟩
  | .binary _ left operator right => ⟨state, .evaluate left, .leftOperand operator right :: stack⟩
  | .logical _ left operator right => ⟨state, .evaluate left, .logical operator right :: stack⟩
  | .variableRef id name => deliverRead state name.line (state.read id name.lexeme) stack
  | .thisRef id keyword => deliverRead state keyword.line (state.read id keyword.lexeme) stack
  | .baseRef id keyword method => evaluateBase state id keyword method stack
  | .assign id name value => ⟨state, .evaluate value, .assign id name :: stack⟩
  | .call _ callee paren arguments => ⟨state, .evaluate callee, .callee paren arguments :: stack⟩
  | .get _ object name => ⟨state, .evaluate object, .getProperty name :: stack⟩
  | .set _ object name value => ⟨state, .evaluate object, .setObject name value :: stack⟩

/-- Builds a class and binds its name. Methods of a derived class see their base class
in a frame of its own. -/
def defineClass (state : State) (name : Token) (parent : Option ClassRef)
    (methods : List FunctionDecl) (stack : List Task) : Machine :=
  let outer := state.environment
  let ref := state.heap.nextClass
  match parent with
  | none =>
      let table := Heap.methodTable name.lexeme outer methods
      ⟨(state.addClass ⟨name.lexeme, none, table⟩).declare name.lexeme (.classRef ref),
        .done .nil, stack⟩
  | some parent =>
      let frame := state.heap.nextFrame
      let table := Heap.methodTable name.lexeme frame methods
      let framed := state.addFrame ⟨some outer, Bindings.empty.insert "base" (.classRef parent)⟩
      ⟨(framed.addClass ⟨name.lexeme, some parent, table⟩).declare name.lexeme (.classRef ref),
        .done .nil, stack⟩

def execute (state : State) (stmt : Stmt) (stack : List Task) : Machine :=
  match stmt with
  | .expression expr => ⟨state, .evaluate expr, stack⟩
  | .varDecl name none => ⟨state.declare name.lexeme .nil, .done .nil, stack⟩
  | .varDecl name (some initializer) => ⟨state, .evaluate initializer, .declareVar name :: stack⟩
  | .functionDecl decl =>
      let ref := state.heap.nextFunction
      let closure : Closure := ⟨decl, state.environment, false⟩
      ⟨(state.addFunction closure).declare decl.name.lexeme (.functionRef ref), .done .nil, stack⟩
  | .classDecl name none methods => defineClass state name none methods stack
  | .classDecl name (some base) methods =>
      ⟨state, .evaluate base, .classBase name base methods :: stack⟩
  | .block body =>
      let outer := state.environment
      ⟨state.enter outer .empty, .done .nil, .block body outer :: stack⟩
  | .ifThen condition thenBranch => ⟨state, .evaluate condition, .branch thenBranch none :: stack⟩
  | .ifElse condition thenBranch elseBranch =>
      ⟨state, .evaluate condition, .branch thenBranch (some elseBranch) :: stack⟩
  | .whileLoop condition body => ⟨state, .evaluate condition, .loopTest condition body :: stack⟩
  | .returnStmt _ none => ⟨state, .returning .nil, stack⟩
  | .returnStmt _ (some value) => ⟨state, .evaluate value, .giveBack :: stack⟩

def parameterBindings (parameters : List Token) (given : List Value) : Bindings Value :=
  (parameters.zip given).foldl (fun bindings pair => bindings.insert pair.1.lexeme pair.2) .empty

def enterCall (state : State) (closure : Closure) (given : List Value)
    (completion : Completion) (stack : List Task) : Machine :=
  let outer := state.environment
  let entered := state.enter closure.frame (parameterBindings closure.decl.parameters given)
  ⟨{ entered with depth := entered.depth + 1 }, .done .nil,
    .block closure.decl.body outer :: .leaveCall completion :: stack⟩

def callFunction (state : State) (closure : Closure) (given : List Value) (line : Nat)
    (stack : List Task) : Machine :=
  match state.refusal? closure.arity given.length with
  | some fault => fail state line fault stack
  | none =>
      enterCall state closure given
        (if closure.isConstructor then .receiver closure.frame else .ordinary) stack

/-- Printing writes the value and a newline, and keeps what fits when it fails. -/
def callPrint (state : State) (given : List Value) (line : Nat) (stack : List Task) : Machine :=
  let text := (given.head?.map state.heap.display).getD ""
  let bytes := (text ++ "\n").toUTF8
  if state.sink.fits bytes then ⟨state.write bytes, .done .nil, stack⟩
  else fail (state.write bytes) line (.printFailed state.wording.full) stack

def callNative (state : State) (native : Native) (given : List Value) (line : Nat)
    (stack : List Task) : Machine :=
  match state.refusal? native.arity given.length with
  | some fault => fail state line fault stack
  | none =>
      match native.builtin with
      | .print => callPrint state given line stack
      | .clock =>
          let time := state.settings.clock state.readings
          ⟨{ state with readings := state.readings + 1 }, .done (.number time), stack⟩

/-- Calling a class creates an instance and runs the nearest constructor on it, if there is one. The
instance is what the call gives, whatever the constructor returns. -/
def callClass (state : State) (ref : ClassRef) (given : List Value) (line : Nat)
    (stack : List Task) : Machine :=
  match state.refusal? (state.heap.classArity ref) given.length with
  | some fault => fail state line fault stack
  | none =>
      let object := state.heap.nextInstance
      match state.heap.constructor? ref with
      | none => ⟨state.addInstance ⟨ref, .empty⟩, .done (.instanceRef object), stack⟩
      | some method =>
          let bound := state.heap.boundMethod method
          let created := state.addInstance ⟨ref, .empty⟩
          let framed := created.addFrame (Heap.receiverFrame method object)
          enterCall framed bound given (.created object) stack

/-- Functions, native functions and classes can be called. The fault for anything else names the
type of what was called. -/
def callValue (state : State) (callee : Value) (given : List Value) (line : Nat)
    (stack : List Task) : Machine :=
  match callee with
  | .functionRef ref =>
      match state.heap.function? ref with
      | some closure => callFunction state closure given line stack
      | none => fail state line (.notCallable callee.typeName) stack
  | .nativeRef ref =>
      match state.heap.native? ref with
      | some native => callNative state native given line stack
      | none => fail state line (.notCallable callee.typeName) stack
  | .classRef ref => callClass state ref given line stack
  | _ => fail state line (.notCallable callee.typeName) stack

def gather (state : State) (callee : Value) (evaluated : List Value) (paren : Token)
    (remaining : List Expr) (stack : List Task) : Machine :=
  match remaining with
  | [] => callValue state callee evaluated paren.line stack
  | argument :: rest =>
      ⟨state, .evaluate argument, .argument callee evaluated paren rest :: stack⟩

def Completion.result (completion : Completion) (heap : Heap) (value : Value) : Value :=
  match completion with
  | ordinary => value
  | receiver frame => (heap.local? frame "this").getD .nil
  | created ref => .instanceRef ref

def finishCall (state : State) (completion : Completion) (value : Value) (stack : List Task) :
    Machine :=
  let result := completion.result state.heap value
  ⟨{ state with depth := state.depth - 1 }, .done result, stack⟩

/-- A base class that is no class is charged to its name, if it has one. -/
def baseLine (name : Token) (base : Expr) : Nat :=
  match base with
  | .variableRef _ baseName => baseName.line
  | _ => name.line

def resume (state : State) (value : Value) (task : Task) (stack : List Task) : Machine :=
  match task with
  | .unary operator => deliver state operator.line (applyUnary operator.kind value) stack
  | .leftOperand operator right => ⟨state, .evaluate right, .rightOperand value operator :: stack⟩
  | .rightOperand left operator =>
      deliver state operator.line (applyBinary state.heap left operator.kind value) stack
  | .logical operator right =>
      if shortCircuits operator.kind value then ⟨state, .done value, stack⟩
      else ⟨state, .evaluate right, stack⟩
  | .assign id name =>
      match state.slot id name.lexeme with
      | .ok frame => ⟨state.define frame name.lexeme value, .done value, stack⟩
      | .error fault => fail state name.line (.access fault) stack
  | .callee paren arguments => gather state value [] paren arguments stack
  | .argument callee evaluated paren remaining =>
      gather state callee (evaluated ++ [value]) paren remaining stack
  | .getProperty name =>
      match value with
      | .instanceRef receiver =>
          match state.heap.property? receiver name.lexeme with
          | some (.field held) => ⟨state, .done held, stack⟩
          | some (.method closure) => deliverBound state closure receiver stack
          | none => fail state name.line (.undefinedProperty name.lexeme) stack
      | _ => fail state name.line .noProperties stack
  | .setObject name expr =>
      match value with
      | .instanceRef receiver => ⟨state, .evaluate expr, .setField receiver name :: stack⟩
      | _ => fail state name.line .noFields stack
  | .setField receiver name => ⟨state.setField receiver name.lexeme value, .done value, stack⟩
  | .declareVar name => ⟨state.declare name.lexeme value, .done .nil, stack⟩
  | .classBase name base methods =>
      match value with
      | .classRef parent => defineClass state name (some parent) methods stack
      | _ => fail state (baseLine name base) .baseNotClass stack
  | .branch thenBranch elseBranch =>
      if value.isTruthy then ⟨state, .execute thenBranch, stack⟩
      else
        match elseBranch with
        | some elseBranch => ⟨state, .execute elseBranch, stack⟩
        | none => ⟨state, .done .nil, stack⟩
  | .loopTest condition body =>
      if value.isTruthy then ⟨state, .execute body, .loopBody condition body :: stack⟩
      else ⟨state, .done .nil, stack⟩
  | .loopBody condition body => ⟨state, .evaluate condition, .loopTest condition body :: stack⟩
  | .giveBack => ⟨state, .returning value, stack⟩
  | .block [] outer => ⟨{ state with environment := outer }, .done .nil, stack⟩
  | .block (stmt :: rest) outer => ⟨state, .execute stmt, .block rest outer :: stack⟩
  | .leaveCall completion => finishCall state completion .nil stack
  | .program [] => ⟨state, .done .nil, stack⟩
  | .program (stmt :: rest) => ⟨state, .execute stmt, .program rest :: stack⟩

/-- What a task gives back when it is taken off the stack unfinished: a block the frame around it,
and a call its level of depth. -/
def Task.release (task : Task) (state : State) : State :=
  match task with
  | block _ outer => { state with environment := outer }
  | leaveCall _ => { state with depth := state.depth - 1 }
  | _ => state

/-- A `return` ends at the call it belongs to. Outside of any call it ends the program. -/
def unwindReturn (state : State) (value : Value) (task : Task) (stack : List Task) : Machine :=
  match task with
  | .leaveCall completion => finishCall state completion value stack
  | .program _ => ⟨state, .done .nil, stack⟩
  | _ => ⟨task.release state, .returning value, stack⟩

def halted (machine : Machine) : Bool :=
  match machine.control, machine.stack with
  | .evaluate _, _ => false
  | .execute _, _ => false
  | _, stack => stack.isEmpty

/-- One step. A machine that has halted stays as it is. -/
def next (machine : Machine) : Machine :=
  match machine with
  | ⟨state, .evaluate expr, stack⟩ => evaluate state expr stack
  | ⟨state, .execute stmt, stack⟩ => execute state stmt stack
  | ⟨state, .done value, task :: stack⟩ => resume state value task stack
  | ⟨state, .returning value, task :: stack⟩ => unwindReturn state value task stack
  | ⟨state, .failing fault, task :: stack⟩ => ⟨task.release state, .failing fault, stack⟩
  | ⟨state, control, []⟩ => ⟨state, control, []⟩

theorem next_of_halted (machine : Machine) (stopped : machine.halted = true) :
    machine.next = machine := by
  obtain ⟨state, control, stack⟩ := machine
  cases control <;> cases stack <;> simp_all [halted, next]

def run : Nat → Machine → Machine
  | 0, machine => machine
  | count + 1, machine => if machine.halted then machine else run count machine.next

def load (state : State) (locals : Scope.Table) (statements : List Stmt) : Machine :=
  ⟨state.reset locals, .done .nil, [.program statements]⟩

end Machine

end Quill
