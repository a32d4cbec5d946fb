import SysAnalyzer.Foundation.Words

/-!
# Values that stand for nothing

The filters mark what is missing by the largest value of a type.
-/

namespace SysAnalyzer.Filter

def invalidUint32 : UInt32 := 0xFFFFFFFF

/-- `INVALID_UINT64`, which is also a duration of -1. -/
def invalidUint64 : UInt64 := 0xFFFFFFFFFFFFFFFF

end SysAnalyzer.Filter
