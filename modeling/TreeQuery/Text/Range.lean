/-!
Sets of characters given as code ranges. `inRanges` is membership in such a set; a table lists the
ranges above the first 128 codes, which every class below spells out by itself.
-/
namespace TreeQuery.Text

/-- Whether a code lies in one of the ranges, both ends included. -/
def inRanges (ranges : List (Nat × Nat)) (code : Nat) : Bool :=
  ranges.any fun (first, last) => first ≤ code && code ≤ last

end TreeQuery.Text
