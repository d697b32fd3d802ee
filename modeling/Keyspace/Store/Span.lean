import Keyspace.Bytes

namespace Keyspace

structure Span where
  start : Bytes
  stop : Bytes
  deriving DecidableEq, Inhabited, Repr

/-- Without an end the span is the one key it starts with. The single zero byte stands for the
end of all keys. Any other end is not in the span itself. -/
def Span.covers (s : Span) (key : Bytes) : Bool :=
  if s.stop = [] then key = s.start
  else if s.stop = [0] then s.start ≤ key
  else s.start ≤ key && key < s.stop

end Keyspace
