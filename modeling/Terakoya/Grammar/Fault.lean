import Terakoya.Diagnostic.Basic

/-! What can be wrong with a program's text. -/
namespace Terakoya

inductive Expectation where
  | expression | openBrace | appendEnding | bar | closeBracket
  | commaOr (close : String)
  | expectedOnNextLine | expectedValue
  deriving DecidableEq, Repr

def Expectation.describe : Expectation → String
  | expression => "an expression"
  | openBrace => "'\x7b'"
  | appendEnding => "'を追加する'"
  | bar => "'|'"
  | closeBracket => "']'"
  | commaOr close => "',' or '" ++ close ++ "'"
  | expectedOnNextLine => "the expected value on the next line"
  | expectedValue => "the expected value"

inductive SyntaxFault where
  | missing (what : Expectation) (got : String)
  | noStatement
  | infixOperator (operator : Char)
  | fraction
  | unclosedText
  | duplicateParameter (name : String)
  | unclosedBlock
  | trailing (got : String)
  | textIndex (index : String) (length : Nat)
  | unreadableParameter (name : String)
  deriving DecidableEq, Repr

structure SyntaxError where
  offset : Nat
  fault : SyntaxFault
  deriving DecidableEq, Repr

namespace SyntaxFault

def code : SyntaxFault → String
  | missing _ _ => "PARSE-0001"
  | noStatement => "PARSE-0002"
  | infixOperator _ => "PARSE-0003"
  | fraction => "PARSE-0004"
  | unclosedText => "PARSE-0005"
  | duplicateParameter _ => "PARSE-0006"
  | unclosedBlock => "PARSE-0007"
  | trailing _ => "PARSE-0008"
  | textIndex _ _ => "PARSE-0009"
  | unreadableParameter _ => "PARSE-0010"

def data : SyntaxFault → Option Data
  | missing what got => some [("Expected", .text what.describe), ("Got", .text got)]
  | infixOperator operator => some [("Operator", .text (String.singleton operator))]
  | duplicateParameter name => some [("Name", .text name)]
  | trailing got => some [("Got", .text got)]
  | textIndex index length => some [("Index", .text index), ("Length", .int length)]
  | unreadableParameter name => some [("Name", .text name)]
  | noStatement | fraction | unclosedText | unclosedBlock => none

end SyntaxFault

def SyntaxError.diagnostic (source : Text) (e : SyntaxError) : Diagnostic :=
  { Diagnostic.ofCode e.fault.code e.fault.data with
    location := Location.ofOffset source e.offset }

end Terakoya
