import Quill.Machine.Step

/-!
What a call can come to, what an access through `base` can come to, and how a task goes on with
the value that it waited for. Each outcome is told once, with the guards that it passes; what a
step keeps of an invariant is then a matter of one case for every outcome, and no proof looks into
the steps again.
-/

namespace Quill.Machine

set_option autoImplicit false

def arity? (heap : Heap) : Value → Option Nat
  | .functionRef ref => (heap.function? ref).map Closure.arity
  | .nativeRef ref => (heap.native? ref).map Native.arity
  | .classRef ref => some (heap.classArity ref)
  | _ => none

theorem refusal_none_iff {state : State} {arity given : Nat} :
    state.refusal? arity given = none ↔
      given = arity ∧ state.depth < state.settings.maxCallDepth := by
  unfold State.refusal?
  split
  next wrong => simp [wrong]
  next same =>
    split
    next full => simp [Nat.not_lt.2 full]
    next room => simpa using ⟨Decidable.not_not.1 same, Nat.not_le.1 room⟩

theorem refusal_some {state : State} {arity given : Nat} {fault : Fault}
    (refused : state.refusal? arity given = some fault) :
    fault = .wrongArity arity given ∨ fault = .stackOverflow := by
  unfold State.refusal? at refused
  split at refused
  · cases refused
    exact .inl rfl
  · split at refused <;> cases refused
    exact .inr rfl

section Calls

variable (state : State) (given : List Value) (line : Nat) (stack : List Task)

/-- `CallOutcome state given line stack callee machine`: a call of the callee leads to the
machine. Only a function or a constructor is entered; all other calls are over at once. -/
inductive CallOutcome : Value → Machine → Prop where
  | uncallable {callee : Value} (takes : arity? state.heap callee = none) :
      CallOutcome callee (fail state line (.notCallable callee.typeName) stack)
  | refused {callee : Value} {arity : Nat} {fault : Fault}
      (takes : arity? state.heap callee = some arity)
      (refused : state.refusal? arity given.length = some fault) :
      CallOutcome callee (fail state line fault stack)
  | printed {ref : NativeRef} {native : Native} {bytes : ByteArray}
      (found : state.heap.native? ref = some native)
      (allowed : state.refusal? native.arity given.length = none)
      (fits : state.sink.fits bytes = true) :
      CallOutcome (.nativeRef ref) ⟨state.write bytes, .done .nil, stack⟩
  | unprinted {ref : NativeRef} {native : Native} {bytes : ByteArray}
      (found : state.heap.native? ref = some native)
      (allowed : state.refusal? native.arity given.length = none)
      (full : state.sink.fits bytes = false) :
      CallOutcome (.nativeRef ref)
        (fail (state.write bytes) line (.printFailed state.wording.full) stack)
  | timed {ref : NativeRef} {native : Native} (found : state.heap.native? ref = some native)
      (allowed : state.refusal? native.arity given.length = none) :
      CallOutcome (.nativeRef ref) ⟨{ state with readings := state.readings + 1 },
        .done (.number (state.settings.clock state.readings)), stack⟩
  | entered {ref : FunctionRef} {closure : Closure}
      (found : state.heap.function? ref = some closure)
      (allowed : state.refusal? closure.arity given.length = none) :
      CallOutcome (.functionRef ref) (enterCall state closure given
        (if closure.isConstructor then .receiver closure.frame else .ordinary) stack)
  | created {ref : ClassRef} (none : state.heap.constructor? ref = none)
      (allowed : state.refusal? (state.heap.classArity ref) given.length = .none) :
      CallOutcome (.classRef ref) ⟨state.addInstance ⟨ref, .empty⟩,
        .done (.instanceRef state.heap.nextInstance), stack⟩
  | constructed {ref : ClassRef} {method : Closure}
      (found : state.heap.constructor? ref = some method)
      (allowed : state.refusal? (state.heap.classArity ref) given.length = .none) :
      CallOutcome (.classRef ref) (enterCall
        ((state.addInstance ⟨ref, .empty⟩).addFrame
          (Heap.receiverFrame method state.heap.nextInstance))
        (state.heap.boundMethod method) given (.created state.heap.nextInstance) stack)

theorem call_native_outcome {ref : NativeRef} {native : Native}
    (found : state.heap.native? ref = some native) :
    CallOutcome state given line stack (.nativeRef ref)
      (callNative state native given line stack) := by
  have takes : arity? state.heap (.nativeRef ref) = some native.arity := by simp [arity?, found]
  unfold callNative
  split
  next fault refused => exact .refused takes refused
  next allowed =>
    split
    · unfold callPrint
      simp only
      split
      next fits => exact .printed found allowed fits
      next full => exact .unprinted found allowed (by simpa using full)
    · exact .timed found allowed

theorem call_value_outcome (callee : Value) :
    CallOutcome state given line stack callee (callValue state callee given line stack) := by
  cases callee with
  | functionRef ref =>
      simp only [callValue]
      split
      next closure found =>
        have takes : arity? state.heap (.functionRef ref) = some closure.arity := by
          simp [arity?, found]
        unfold callFunction
        split
        next fault refused => exact .refused takes refused
        next allowed => exact .entered found allowed
      next missing => exact .uncallable (by simp [arity?, missing])
  | nativeRef ref =>
      simp only [callValue]
      split
      next native found => exact call_native_outcome state given line stack found
      next missing => exact .uncallable (by simp [arity?, missing])
  | classRef ref =>
      simp only [callValue, callClass]
      split
      next fault refused => exact .refused rfl refused
      next allowed =>
        split
        next none => exact .created none allowed
        next method found => exact .constructed found allowed
  | _ => exact .uncallable rfl

end Calls

section Base

variable (state : State) (id : Nat) (keyword name : Token) (stack : List Task)

inductive BaseOutcome : Machine → Prop where
  | misplaced {fault : Fault} (failed : baseOperands state id = .error fault) :
      BaseOutcome (fail state keyword.line fault stack)
  | bound {parent : ClassRef} {receiver : InstanceRef} {method : Closure}
      (operands : baseOperands state id = .ok (parent, receiver))
      (found : state.heap.method? parent name.lexeme = some method) :
      BaseOutcome (deliverBound state method receiver stack)
  | field {parent : ClassRef} {receiver : InstanceRef} {value : Value}
      (operands : baseOperands state id = .ok (parent, receiver))
      (none : state.heap.method? parent name.lexeme = none)
      (held : state.heap.field? receiver name.lexeme = some value) :
      BaseOutcome ⟨state, .done value, stack⟩
  | missing {parent : ClassRef} {receiver : InstanceRef}
      (operands : baseOperands state id = .ok (parent, receiver))
      (none : state.heap.method? parent name.lexeme = none)
      (unset : state.heap.field? receiver name.lexeme = .none) :
      BaseOutcome (fail state name.line (.undefinedProperty name.lexeme) stack)

theorem evaluate_base_outcome :
    BaseOutcome state id keyword name stack (evaluateBase state id keyword name stack) := by
  unfold evaluateBase
  split
  next fault failed => exact .misplaced failed
  next parent receiver operands =>
    split
    next method found => exact .bound operands found
    next none =>
      split
      next value held => exact .field operands none held
      next unset => exact .missing operands none unset

end Base

section Tasks

variable (state : State) (stack : List Task)

/-- `ResumeOutcome state stack value task machine`: the task goes on with the value that it waited
for, which leads to the machine. What a call comes to is left open, and told by `CallOutcome`. -/
inductive ResumeOutcome : Value → Task → Machine → Prop where
  | unary {value result : Value} {operator : Token}
      (applied : applyUnary operator.kind value = .ok result) :
      ResumeOutcome value (.unary operator) ⟨state, .done result, stack⟩
  | unaryFails {value : Value} {operator : Token} {fault : Fault}
      (failed : applyUnary operator.kind value = .error fault) :
      ResumeOutcome value (.unary operator) (fail state operator.line fault stack)
  | left {value : Value} {operator : Token} {right : Expr} :
      ResumeOutcome value (.leftOperand operator right)
        ⟨state, .evaluate right, .rightOperand value operator :: stack⟩
  | right {left value result : Value} {operator : Token}
      (applied : applyBinary state.heap left operator.kind value = .ok result) :
      ResumeOutcome value (.rightOperand left operator) ⟨state, .done result, stack⟩
  | rightFails {left value : Value} {operator : Token} {fault : Fault}
      (failed : applyBinary state.heap left operator.kind value = .error fault) :
      ResumeOutcome value (.rightOperand left operator) (fail state operator.line fault stack)
  | decided {value : Value} {operator : Token} {right : Expr}
      (short : shortCircuits operator.kind value = true) :
      ResumeOutcome value (.logical operator right) ⟨state, .done value, stack⟩
  | undecided {value : Value} {operator : Token} {right : Expr}
      (long : shortCircuits operator.kind value = false) :
      ResumeOutcome value (.logical operator right) ⟨state, .evaluate right, stack⟩
  | assigned {value : Value} {id : Nat} {name : Token} {frame : FrameRef}
      (slot : state.slot id name.lexeme = .ok frame) :
      ResumeOutcome value (.assign id name)
        ⟨state.define frame name.lexeme value, .done value, stack⟩
  | unassigned {value : Value} {id : Nat} {name : Token} {fault : Heap.AccessFault}
      (slot : state.slot id name.lexeme = .error fault) :
      ResumeOutcome value (.assign id name) (fail state name.line (.access fault) stack)
  | bareCall {value : Value} {paren : Token} :
      ResumeOutcome value (.callee paren []) (callValue state value [] paren.line stack)
  | firstArgument {value : Value} {paren : Token} {argument : Expr} {rest : List Expr} :
      ResumeOutcome value (.callee paren (argument :: rest))
        ⟨state, .evaluate argument, .argument value [] paren rest :: stack⟩
  | lastCall {callee value : Value} {evaluated : List Value} {paren : Token} :
      ResumeOutcome value (.argument callee evaluated paren [])
        (callValue state callee (evaluated ++ [value]) paren.line stack)
  | nextArgument {callee value : Value} {evaluated : List Value} {paren : Token}
      {argument : Expr} {rest : List Expr} :
      ResumeOutcome value (.argument callee evaluated paren (argument :: rest))
        ⟨state, .evaluate argument, .argument callee (evaluated ++ [value]) paren rest :: stack⟩
  | field {receiver : InstanceRef} {name : Token} {held : Value}
      (found : state.heap.property? receiver name.lexeme = some (.field held)) :
      ResumeOutcome (.instanceRef receiver) (.getProperty name) ⟨state, .done held, stack⟩
  | bound {receiver : InstanceRef} {name : Token} {method : Closure}
      (found : state.heap.property? receiver name.lexeme = some (.method method)) :
      ResumeOutcome (.instanceRef receiver) (.getProperty name)
        (deliverBound state method receiver stack)
  | missing {receiver : InstanceRef} {name : Token}
      (absent : state.heap.property? receiver name.lexeme = none) :
      ResumeOutcome (.instanceRef receiver) (.getProperty name)
        (fail state name.line (.undefinedProperty name.lexeme) stack)
  | noProperties {value : Value} {name : Token} (other : ∀ receiver, value ≠ .instanceRef receiver) :
      ResumeOutcome value (.getProperty name) (fail state name.line .noProperties stack)
  | setObject {receiver : InstanceRef} {name : Token} {expr : Expr} :
      ResumeOutcome (.instanceRef receiver) (.setObject name expr)
        ⟨state, .evaluate expr, .setField receiver name :: stack⟩
  | noFields {value : Value} {name : Token} {expr : Expr}
      (other : ∀ receiver, value ≠ .instanceRef receiver) :
      ResumeOutcome value (.setObject name expr) (fail state name.line .noFields stack)
  | setField {value : Value} {receiver : InstanceRef} {name : Token} :
      ResumeOutcome value (.setField receiver name)
        ⟨state.setField receiver name.lexeme value, .done value, stack⟩
  | declared {value : Value} {name : Token} :
      ResumeOutcome value (.declareVar name)
        ⟨state.declare name.lexeme value, .done .nil, stack⟩
  | derived {parent : ClassRef} {name : Token} {base : Expr} {methods : List FunctionDecl} :
      ResumeOutcome (.classRef parent) (.classBase name base methods)
        (defineClass state name (some parent) methods stack)
  | noClass {value : Value} {name : Token} {base : Expr} {methods : List FunctionDecl}
      (other : ∀ parent, value ≠ .classRef parent) :
      ResumeOutcome value (.classBase name base methods)
        (fail state (baseLine name base) .baseNotClass stack)
  | taken {value : Value} {thenBranch : Stmt} {elseBranch : Option Stmt}
      (truthy : value.isTruthy = true) :
      ResumeOutcome value (.branch thenBranch elseBranch) ⟨state, .execute thenBranch, stack⟩
  | otherwise {value : Value} {thenBranch elseBranch : Stmt} (falsy : value.isTruthy = false) :
      ResumeOutcome value (.branch thenBranch (some elseBranch))
        ⟨state, .execute elseBranch, stack⟩
  | skipped {value : Value} {thenBranch : Stmt} (falsy : value.isTruthy = false) :
      ResumeOutcome value (.branch thenBranch none) ⟨state, .done .nil, stack⟩
  | turn {value : Value} {condition : Expr} {body : Stmt} (truthy : value.isTruthy = true) :
      ResumeOutcome value (.loopTest condition body)
        ⟨state, .execute body, .loopBody condition body :: stack⟩
  | stopped {value : Value} {condition : Expr} {body : Stmt} (falsy : value.isTruthy = false) :
      ResumeOutcome value (.loopTest condition body) ⟨state, .done .nil, stack⟩
  | again {value : Value} {condition : Expr} {body : Stmt} :
      ResumeOutcome value (.loopBody condition body)
        ⟨state, .evaluate condition, .loopTest condition body :: stack⟩
  | returned {value : Value} : ResumeOutcome value .giveBack ⟨state, .returning value, stack⟩
  | blockEnds {value : Value} {outer : FrameRef} :
      ResumeOutcome value (.block [] outer)
        ⟨{ state with environment := outer }, .done .nil, stack⟩
  | blockNext {value : Value} {stmt : Stmt} {rest : List Stmt} {outer : FrameRef} :
      ResumeOutcome value (.block (stmt :: rest) outer)
        ⟨state, .execute stmt, .block rest outer :: stack⟩
  | callEnds {value : Value} {completion : Completion} :
      ResumeOutcome value (.leaveCall completion) (finishCall state completion .nil stack)
  | programEnds {value : Value} : ResumeOutcome value (.program []) ⟨state, .done .nil, stack⟩
  | programNext {value : Value} {stmt : Stmt} {rest : List Stmt} :
      ResumeOutcome value (.program (stmt :: rest)) ⟨state, .execute stmt, .program rest :: stack⟩

/-- All that a task can lead to. What is proved about tasks further on is proved for these outcomes,
without opening the definitions of the machine again. -/
theorem resume_outcome (value : Value) (task : Task) :
    ResumeOutcome state stack value task (resume state value task stack) := by
  cases task with
  | unary operator =>
      simp only [resume]
      cases applied : applyUnary operator.kind value with
      | ok result => exact .unary applied
      | error fault => exact .unaryFails applied
  | leftOperand operator right => exact .left
  | rightOperand left operator =>
      simp only [resume]
      cases applied : applyBinary state.heap left operator.kind value with
      | ok result => exact .right applied
      | error fault => exact .rightFails applied
  | logical operator right =>
      simp only [resume]
      split
      next short => exact .decided short
      next long => exact .undecided (Bool.eq_false_iff.2 long)
  | assign id name =>
      simp only [resume]
      split
      next frame slot => exact .assigned slot
      next fault slot => exact .unassigned slot
  | callee paren arguments =>
      cases arguments with
      | nil => exact .bareCall
      | cons argument rest => exact .firstArgument
  | argument callee evaluated paren remaining =>
      cases remaining with
      | nil => exact .lastCall
      | cons argument rest => exact .nextArgument
  | getProperty name =>
      cases value with
      | instanceRef receiver =>
          simp only [resume]
          split
          next held found => exact .field found
          next method found => exact .bound found
          next absent => exact .missing absent
      | _ => exact .noProperties nofun
  | setObject name expr =>
      cases value with
      | instanceRef receiver => exact .setObject
      | _ => exact .noFields nofun
  | setField receiver name => exact .setField
  | declareVar name => exact .declared
  | classBase name base methods =>
      cases value with
      | classRef parent => exact .derived
      | _ => exact .noClass nofun
  | branch thenBranch elseBranch =>
      simp only [resume]
      split
      next truthy => exact .taken truthy
      next falsy =>
        cases elseBranch with
        | some elseBranch => exact .otherwise (Bool.eq_false_iff.2 falsy)
        | none => exact .skipped (Bool.eq_false_iff.2 falsy)
  | loopTest condition body =>
      simp only [resume]
      split
      next truthy => exact .turn truthy
      next falsy => exact .stopped (Bool.eq_false_iff.2 falsy)
  | loopBody condition body => exact .again
  | giveBack => exact .returned
  | block remaining outer =>
      cases remaining with
      | nil => exact .blockEnds
      | cons stmt rest => exact .blockNext
  | leaveCall completion => exact .callEnds
  | program remaining =>
      cases remaining with
      | nil => exact .programEnds
      | cons stmt rest => exact .programNext

end Tasks

end Quill.Machine
