namespace Keyspace

structure Stream where
  /-- The end was asked for. -/
  completed : Bool := false
  /-- The handle is still there. -/
  held : Bool := true
  deriving DecidableEq, Inhabited, Repr

namespace Stream

/-- What a completion of the stream tells: the end was asked for, or nobody is left to do so. -/
def isOver (s : Stream) : Bool :=
  s.completed || !s.held

/-- The receiver asks for the end. Without a handle it cannot. -/
def complete (s : Stream) : Stream :=
  if s.held then { s with completed := true } else s

def drop (s : Stream) : Stream :=
  { s with held := false }

@[simp] theorem isOver_complete (s : Stream) : s.complete.isOver = true := by
  cases h : s.held <;> simp [complete, isOver, h]

@[simp] theorem isOver_drop (s : Stream) : s.drop.isOver = true := by
  simp [drop, isOver]

end Stream

end Keyspace
