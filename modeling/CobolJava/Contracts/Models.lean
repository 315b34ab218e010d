/-
**Comparison policies.**

The three policies of `engine/contracts/models.py` a declared artifact may carry.  A policy the
constructor refuses cannot be built.
-/

import Mathlib

set_option autoImplicit false

namespace CobolJava

/-- The normalizations no policy may allow. -/
def forbiddenNormalizations : List String :=
  ["case_folding", "whitespace_normalization", "encoding_conversion",
    "trailing_whitespace_removal", "trailing_newline_removal", "substring_containment"]

/-- Permitted normalizations of an artifact comparison. -/
structure NormalizationPolicy where
  allowedNormalizations : List String
  not_forbidden : ∀ norm ∈ allowedNormalizations, norm ∉ forbiddenNormalizations := by decide

/-- Ordering rules of an artifact comparison. -/
structure OrderingPolicy where
  order : String
  order_mem : order ∈ ["SEQUENTIAL", "SORTED", "UNORDERED"] := by decide

/-- What a missing or malformed artifact leads to. -/
structure FailurePolicy where
  onMissing : String
  onMalformed : String
  onExtra : String
  onMissing_mem : onMissing ∈ ["UNAVAILABLE", "FAILED"] := by decide
  onMalformed_mem : onMalformed ∈ ["INCONCLUSIVE", "MISMATCH"] := by decide

end CobolJava
