/-!
What can be wrong with a sequence of tokens, and how it is worded.
-/

namespace Quill.Grammar

set_option autoImplicit false

inductive Role where
  | function
  | method
deriving DecidableEq, Repr

def Role.word : Role → String
  | function => "function"
  | method => "method"

inductive Wanted where
  | className
  | baseName
  | openClass
  | closeClass
  | routineName (role : Role)
  | openParameters (role : Role)
  | parameterName
  | closeParameters
  | openBody (role : Role)
  | variableName
  | endVariable
  | openFor
  | endCondition
  | closeFor
  | openIf
  | closeIf
  | openWhile
  | closeWhile
  | endReturn
  | closeBlock
  | endExpression
  | propertyName
  | closeArguments
  | dotAfterBase
  | baseMethod
  | closeGroup
  | expression
deriving DecidableEq, Repr

def Wanted.phrase : Wanted → String
  | className => "class name"
  | baseName => "base class name"
  | openClass => "'\x7b' before class body"
  | closeClass => "'\x7d' after class body"
  | routineName role => role.word ++ " name"
  | openParameters role => "'(' after " ++ role.word ++ " name"
  | parameterName => "parameter name"
  | closeParameters => "')' after parameters"
  | openBody role => "'\x7b' before " ++ role.word ++ " body"
  | variableName => "variable name"
  | endVariable => "';' after variable declaration"
  | openFor => "'(' after 'for'"
  | endCondition => "';' after loop condition"
  | closeFor => "')' after for clauses"
  | openIf => "'(' after 'if'"
  | closeIf => "')' after if condition"
  | openWhile => "'(' after 'while'"
  | closeWhile => "')' after while condition"
  | endReturn => "';' after return value"
  | closeBlock => "'\x7d' after block"
  | endExpression => "';' after expression"
  | propertyName => "property name after '.'"
  | closeArguments => "')' after arguments"
  | dotAfterBase => "'.' after 'base'"
  | baseMethod => "base class method name"
  | closeGroup => "')' after expression"
  | expression => "expression"

/-- A function has at most this many parameters and a call as many arguments. -/
def listLimit : Nat := 255

inductive Fault where
  | missing (wanted : Wanted)
  | tooManyParameters
  | tooManyArguments
  | invalidNumber (lexeme : String)
  | invalidTarget
deriving DecidableEq, Repr

def Fault.message : Fault → String
  | missing wanted => "Expect " ++ wanted.phrase ++ "."
  | tooManyParameters => s!"Can't have more than {listLimit} parameters."
  | tooManyArguments => s!"Can't have more than {listLimit} arguments."
  | invalidNumber lexeme => s!"Invalid number '{lexeme}'."
  | invalidTarget => "Invalid assignment target."

end Quill.Grammar
