import Keyspace.Bytes

namespace Keyspace.Bytes

/-- The least byte string above every string that starts with `s`. There is none when no byte of
`s` can grow; then the single zero byte stands for the end of all keys. -/
def prefixEnd (s : Bytes) : Bytes :=
  match s.reverse.dropWhile (· = 255) with
  | [] => [0]
  | last :: before => ((last + 1) :: before).reverse

end Keyspace.Bytes
