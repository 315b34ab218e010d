/-
**Comparator identity binding.**

The two tables at the end of `engine/comparators/framework.py`: which comparator is registered for
an artifact type, and which legacy names stand for it.
-/

import CobolJava.Lib.PyText

set_option autoImplicit false

namespace CobolJava

/-- The id of the comparator registered for each artifact type. -/
def canonicalComparatorIds : List (String × String) :=
  [("STDOUT", "STDOUT_COMPARATOR"),
    ("STDERR", "STDERR_COMPARATOR"),
    ("EXIT_STATUS", "EXIT_STATUS_COMPARATOR"),
    ("TEXT_FILE", "TEXT_FILE_COMPARATOR"),
    ("FIXED_RECORD", "FIXED_RECORD_COMPARATOR"),
    ("BUSINESS_INVARIANT", "BUSINESS_INVARIANT_COMPARATOR")]

/-- The comparator a legacy id stands for. -/
def comparatorIdAliases : List (String × String) :=
  [("stdout-exact", "STDOUT_COMPARATOR"),
    ("stderr-exact", "STDERR_COMPARATOR"),
    ("exit-status-exact", "EXIT_STATUS_COMPARATOR"),
    ("text-file-exact", "TEXT_FILE_COMPARATOR"),
    ("fixed-record-exact", "FIXED_RECORD_COMPARATOR"),
    ("business-invariant-exact", "BUSINESS_INVARIANT_COMPARATOR")]

/-- The lookup `COMPARATOR_ID_ALIASES.get(id, id)`. -/
def resolveAlias (comparatorId : String) : String :=
  (comparatorIdAliases.lookup comparatorId).getD comparatorId

/-- A declared comparator id, resolved. -/
def resolveComparatorId (declaredId : String) : String := resolveAlias (Py.strip declaredId)

end CobolJava
