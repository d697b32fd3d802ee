import Keyspace.Message.Transaction
import Keyspace.Store.Basic

namespace Keyspace

/-- Does the relation hold of a value that stands in the given order to another? -/
def CompareResult.holds : CompareResult → Ordering → Bool
  | equal, o => o = .eq
  | notEqual, o => o ≠ .eq
  | greater, o => o = .gt
  | less, o => o = .lt

/-- The order of what is looked at of a key to the operand. There is none when there is no value
to compare, and the operand must be of the kind that is looked at. -/
def CompareTarget.order (target : CompareTarget) (operand : Option Operand) (l : Option Live) :
    Except Refusal (Option Ordering) :=
  match target, operand with
  | version, some (.version n) =>
      .ok (compareOfLessAndEq ((l.elim 0 Live.version : Nat) : Int) n.toInt)
  | createRevision, some (.createRevision n) =>
      .ok (compareOfLessAndEq ((l.elim 0 Live.created : Nat) : Int) n.toInt)
  | modRevision, some (.modRevision n) =>
      .ok (compareOfLessAndEq ((l.elim 0 Live.modified : Nat) : Int) n.toInt)
  | lease, some (.lease n) =>
      .ok (compareOfLessAndEq (l.elim 0 Live.lease).toInt n.toInt)
  | value, some (.value bytes) =>
      .ok (l.map fun l => Bytes.order l.value bytes)
  | _, _ => .error .operandMismatch

/-- Does the comparison hold of one key? Without a value to compare it does not. -/
def CompareResult.holdsFor (result : CompareResult) (target : CompareTarget)
    (operand : Option Operand) (l : Option Live) : Except Refusal Bool :=
  match target.order operand l with
  | .error refusal => .error refusal
  | .ok none => .ok false
  | .ok (some o) => .ok (result.holds o)

/-- Does the comparison hold of every key? The first key for which it does not decides. -/
def CompareResult.holdsForAll (result : CompareResult) (target : CompareTarget)
    (operand : Option Operand) : List Live → Except Refusal Bool
  | [] => .ok true
  | l :: ls =>
      match result.holdsFor target operand (some l) with
      | .ok true => result.holdsForAll target operand ls
      | answer => answer

def Compare.span (c : Compare) : Span where
  start := c.key
  stop := c.rangeEnd

namespace Store

/-- Evaluates a comparison on the keys of its span that are there now, or on a missing key when
there are none. -/
def evaluate (s : Store) (c : Compare) : Except Refusal Bool :=
  match CompareResult.ofWire? c.result, CompareTarget.ofWire? c.target with
  | none, _ => .error .unknownCompareResult
  | some _, none => .error .unknownCompareTarget
  | some result, some target =>
      match s.scan c.span 0 with
      | [] => result.holdsFor target c.operand none
      | keys => result.holdsForAll target c.operand keys

/-- Do all comparisons hold? Each of them is evaluated, so that a bad one is always noticed. -/
def evaluateAll (s : Store) : List Compare → Except Refusal Bool
  | [] => .ok true
  | c :: cs =>
      match s.evaluate c with
      | .error refusal => .error refusal
      | .ok holds =>
          match s.evaluateAll cs with
          | .error refusal => .error refusal
          | .ok rest => .ok (holds && rest)

end Store

end Keyspace
