/-!
# Profiles

Counts over highlighting calls.
-/

namespace HaskellLexis

/-- `sourceLength` and `tokenCount` are sums over the calls; failed calls count
with their source, and with no tokens. -/
structure Profile where
  sourceLength : Int
  tokenCount : Int
  calls : Nat
  failures : Nat
  deriving DecidableEq

namespace Profile

def empty : Profile := ⟨0, 0, 0, 0⟩

def record (p : Profile) (length count : Int) : Profile :=
  ⟨p.sourceLength + length, p.tokenCount + count, p.calls + 1, p.failures⟩

def recordFailure (p : Profile) (length : Int) : Profile :=
  ⟨p.sourceLength + length, p.tokenCount, p.calls + 1, p.failures + 1⟩

end Profile

end HaskellLexis
