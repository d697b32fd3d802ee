namespace Keyspace

/-- How a part of type `α` is read off a whole of type `M`, and how it is replaced in one. -/
structure Part (M α : Type) where
  get : M → α
  set : α → M → M

end Keyspace
