import StandingQuery.Order

/-! Buckets: from a key to the set of things filed under it.

A bucket exists only while something is in it. `discard` drops a bucket with its
last member, so that an index built of buckets holds nothing that its contents do
not call for. -/
namespace StandingQuery
open Std

abbrev Buckets (κ ι : Type) [Ord κ] [Ord ι] := ExtTreeMap κ (ExtTreeSet ι)

namespace Buckets
variable {κ ι : Type} [Ord κ] [TransOrd κ] [Ord ι] [TransOrd ι]

/-- What is filed under a key. -/
def find (b : Buckets κ ι) (k : κ) : ExtTreeSet ι := b[k]?.getD ∅

def add (b : Buckets κ ι) (k : κ) (i : ι) : Buckets κ ι := b.insert k ((find b k).insert i)

def discard (b : Buckets κ ι) (k : κ) (i : ι) : Buckets κ ι :=
  let rest := (find b k).erase i
  if rest.isEmpty then b.erase k else b.insert k rest

end Buckets

end StandingQuery
