import TreeQuery.Text.Search

/-!
Pools of strings. Each string that is put in gets a number, equal strings the same one; number
zero is the empty string, and unknown numbers stand for it too. All strings lie in one text, one
behind the other. The numbers are filed under a hash of their strings, and a string is looked for
among those under its own hash only.
-/
namespace TreeQuery

/-- A stretch of a text, in bytes. -/
structure Span where
  start : UInt32
  length : UInt32
deriving DecidableEq

structure StringPool where
  hash : String → UInt64
  /-- All strings, one behind the other. -/
  data : String
  /-- Where the string of each number lies. -/
  spans : Array Span
  /-- Hashes, each with the numbers of the strings that have it, the oldest first. -/
  buckets : List (UInt64 × List UInt32)

namespace StringPool

/-- A pool that knows the empty string only. -/
def empty (hash : String → UInt64) : StringPool :=
  { hash, data := "", spans := #[⟨0, 0⟩], buckets := [] }

instance : Inhabited StringPool := ⟨empty fun _ => 0⟩

/-- The string of a number. -/
def get (pool : StringPool) (id : UInt32) : String :=
  match pool.spans[id.toNat]? with
  | some span =>
    (slice? pool.data span.start.toNat (span.start.toNat + span.length.toNat)).getD ""
  | none => ""

/-- The numbers under a hash. -/
def bucket (pool : StringPool) (hash : UInt64) : List UInt32 := (pool.buckets.lookup hash).getD []

/-- The number of a string that is in the pool. -/
def find? (pool : StringPool) (text : String) : Option UInt32 :=
  if text = "" then some 0 else (pool.bucket (pool.hash text)).find? (pool.get · == text)

/-- Puts a string behind the others, under the next number. Numbers and places are 32-bit words. -/
def push (pool : StringPool) (text : String) : UInt32 × StringPool :=
  let id := UInt32.ofNat pool.spans.size
  let hash := pool.hash text
  (id,
    { pool with
      data := pool.data ++ text
      spans := pool.spans.push ⟨.ofNat pool.data.utf8ByteSize, .ofNat text.utf8ByteSize⟩
      buckets := (hash, pool.bucket hash ++ [id]) :: pool.buckets.filter (·.1 != hash) })

/-- Puts a string in, unless it is there, and gives its number. -/
def intern (pool : StringPool) (text : String) : UInt32 × StringPool :=
  match pool.find? text with
  | some id => (id, pool)
  | none => pool.push text

/-- The string of a number other than that of the empty string. -/
def getNonEmpty? (pool : StringPool) (id : UInt32) : Option String :=
  if id = 0 then none else some (pool.get id)

/-- How many strings the pool knows, the empty one included. -/
def size (pool : StringPool) : Nat := pool.spans.size

def isEmpty (pool : StringPool) : Bool := pool.size ≤ 1

end StringPool

end TreeQuery
