namespace QoreSyntax.Text

/-- Blocks of code points, each by its first and its last member, in increasing order. -/
abbrev Blocks := Array (Nat × Nat)

namespace Blocks

/-- Looks for a block with the member `n` among those with an index from `low` up to `high`. Each
step takes one unit of `fuel`; as many units as there are blocks suffice. -/
def search (blocks : Blocks) (n : Nat) : (fuel low high : Nat) → Bool
  | 0, _, _ => false
  | fuel + 1, low, high =>
      if high ≤ low then false
      else
        let middle := (low + high) / 2
        match blocks[middle]? with
        | none => false
        | some (first, last) =>
            if n < first then search blocks n fuel low middle
            else if last < n then search blocks n fuel (middle + 1) high
            else true

def contains (blocks : Blocks) (c : Char) : Bool :=
  blocks.search c.toNat blocks.size 0 blocks.size

end Blocks

end QoreSyntax.Text
