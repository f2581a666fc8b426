/-!
Caches by text. Entries stand in the order of their last use, the latest first; a cache with a
capacity forgets from the end. A build may use the cache that it builds for: what it finds there
when it is done counts more than its own result, and a build that fails leaves nothing of its own.
-/
namespace TreeQuery

/-- How many entries a cache keeps. -/
inductive CachePolicy where
  | unbounded
  | bounded (capacity : Nat) (positive : 0 < capacity)
deriving DecidableEq, Inhabited

structure Cache (α : Type) where
  policy : CachePolicy
  /-- Texts and their values, the one last used first. -/
  entries : List (String × α)

namespace Cache

variable {α ε σ : Type}

def empty (policy : CachePolicy) : Cache α := ⟨policy, []⟩

def size (c : Cache α) : Nat := c.entries.length

/-- The value under a text. -/
def lookup? (c : Cache α) (key : String) : Option α := c.entries.lookup key

/-- The entries of other texts. -/
def others (c : Cache α) (key : String) : List (String × α) := c.entries.filter (·.1 != key)

/-- Moves the entry of a text to the front. -/
def touch (c : Cache α) (key : String) (value : α) : Cache α :=
  { c with entries := (key, value) :: c.others key }

/-- The value under a text, which counts as a use. -/
def get? (c : Cache α) (key : String) : Option (α × Cache α) :=
  (c.lookup? key).map fun value => (value, c.touch key value)

/-- Drops what goes beyond the capacity. -/
def trim (c : Cache α) : Cache α :=
  match c.policy with
  | .unbounded => c
  | .bounded capacity _ => { c with entries := c.entries.take capacity }

/-- Puts a value under a text. -/
def insert (c : Cache α) (key : String) (value : α) : Cache α := (c.touch key value).trim

def clear (c : Cache α) : Cache α := { c with entries := [] }

/-- A cache as a part of a larger state. -/
structure Slot (σ α : Type) where
  read : σ → Cache α
  write : Cache α → σ → σ

/-- A cache that is the whole state. -/
def Slot.whole : Slot (Cache α) α := ⟨id, fun c _ => c⟩

/-- The value under a text; on a miss it is built and put in, unless the build has led to another
value under the same text. -/
def getOrBuild (slot : Slot σ α) (key : String) (build : σ → Except ε α × σ) (s : σ) :
    Except ε α × σ :=
  match (slot.read s).get? key with
  | some (value, c) => (.ok value, slot.write c s)
  | none =>
    match build s with
    | (.error e, s) => (.error e, s)
    | (.ok built, s) =>
      match (slot.read s).get? key with
      | some (value, c) => (.ok value, slot.write c s)
      | none => (.ok built, slot.write ((slot.read s).insert key built) s)

/-! ## Uses of one cache -/

/-- A use of a cache, with everything that its build does. -/
inductive Action (ε α : Type) where
  | get (key : String)
  | build (key : String) (inner : List (Action ε α)) (outcome : Except ε α)
  | clear

instance : Inhabited (Action ε α) := ⟨.clear⟩

/-- What a use is answered, and how many entries there are after it: a value if there is one, or
the outcome of a build and the answers to what it did, or nothing. -/
inductive Answer (ε α : Type) where
  | found (size : Nat) (value : Option α)
  | built (size : Nat) (outcome : Except ε α) (inner : List (Answer ε α))
  | cleared

mutual

def run (c : Cache α) : Action ε α → Answer ε α × Cache α
  | .get key =>
    match c.get? key with
    | some (value, c) => (.found c.size (some value), c)
    | none => (.found c.size none, c)
  | .build key inner outcome =>
    let slot : Slot (List (Answer ε α) × Cache α) α := ⟨(·.2), fun c s => (s.1, c)⟩
    let (result, answers, c) :=
      getOrBuild slot key (fun s => (outcome, runAll s.2 inner)) ([], c)
    (.built c.size result answers, c)
  | .clear => (.cleared, c.clear)

/-- Uses one after the other. -/
def runAll (c : Cache α) : List (Action ε α) → List (Answer ε α) × Cache α
  | [] => ([], c)
  | action :: actions =>
    let (answer, c) := run c action
    let (answers, c) := runAll c actions
    (answer :: answers, c)

end

end Cache

end TreeQuery
