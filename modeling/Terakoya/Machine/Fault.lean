import Terakoya.Diagnostic.Basic

/-! What can go wrong when a program runs. -/
namespace Terakoya

inductive IntegerUse where
  | increment | decrement | negate
  deriving DecidableEq, Repr

/-- A cause. Values in it are literals, cut to the length that a message shows. -/
inductive RuntimeFault where
  | undefinedName (name : String) (known : List String)
  | undefinedFunction (name : String) (known : List String)
  | arity (function : String) (want got : Nat)
  | notInteger (use : IntegerUse) (got : String)
  | noLength (got : String)
  | notIndexable (got : String)
  | badIndex (got : String)
  | notAppendable (got : String)
  | notCallable (got : String)
  | incomparable (left right operator : String)
  | outOfRange (index : Int) (max : Nat)
  | emptySequence (index : String)
  | negativeCount (count : Int)
  | badCount (got : String)
  | timedOut (budget : String)
  | stopped
  | mismatch (expected actual : String)
  | answerOutside
  | leaveOutside
  | tooDeep (max : Nat) (function : String)
  deriving DecidableEq, Repr

namespace RuntimeFault

def code : RuntimeFault → String
  | undefinedName _ _ => "UNDEF-0001"
  | undefinedFunction _ _ => "UNDEF-0002"
  | arity _ _ _ => "ARITY-0001"
  | notInteger .increment _ => "TYPE-0001"
  | notInteger .decrement _ => "TYPE-0002"
  | notInteger .negate _ => "TYPE-0003"
  | noLength _ => "TYPE-0004"
  | notIndexable _ => "TYPE-0005"
  | badIndex _ => "TYPE-0006"
  | notAppendable _ => "TYPE-0007"
  | notCallable _ => "TYPE-0008"
  | incomparable _ _ _ => "TYPE-0009"
  | outOfRange _ _ => "INDEX-0001"
  | emptySequence _ => "INDEX-0002"
  | negativeCount _ => "LOOP-0001"
  | badCount _ => "LOOP-0002"
  | timedOut _ => "TIME-0001"
  | stopped => "STOP-0001"
  | mismatch _ _ => "ASSERT-0001"
  | answerOutside => "STATE-0001"
  | leaveOutside => "STATE-0002"
  | tooDeep _ _ => "STATE-0003"

def data : RuntimeFault → Option Data
  | undefinedName name _ | undefinedFunction name _ => some [("Name", .text name)]
  | arity function want got =>
    some [("Function", .text function), ("Want", .int want), ("Got", .int got)]
  | notInteger _ got | noLength got | notIndexable got | badIndex got | notAppendable got
  | notCallable got | badCount got => some [("Got", .text got)]
  | incomparable left right operator =>
    some [("Left", .text left), ("Right", .text right), ("Operator", .text operator)]
  | outOfRange index max => some [("Index", .text (toString index)), ("Max", .int max)]
  | emptySequence index => some [("Index", .text index)]
  | negativeCount count => some [("Count", .text (toString count))]
  | timedOut budget => some [("Budget", .text budget)]
  | mismatch expected actual => some [("Expected", .text expected), ("Actual", .text actual)]
  | tooDeep max function => some [("Max", .int max), ("Function", .text function)]
  | stopped | answerOutside | leaveOutside => none

def diagnostic (f : RuntimeFault) : Diagnostic :=
  match f with
  | undefinedName name known | undefinedFunction name known =>
    .undefinedName f.code name known
  | _ => .ofCode f.code f.data

end RuntimeFault

structure RuntimeError where
  fault : RuntimeFault
  location : Location
  trace : List String
  actual : Option String := none

def RuntimeError.diagnostic (e : RuntimeError) (file : String) : Diagnostic :=
  { e.fault.diagnostic with
    location := e.location, trace := e.trace, actual := e.actual, file }

end Terakoya
