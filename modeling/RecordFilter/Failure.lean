import RecordFilter.Expression.Reader
import RecordFilter.Query.OfFilter
import RecordFilter.Record.Matching

/-!
Everything that can go wrong between a filter's text and its use.
-/

namespace RecordFilter

inductive Failure where
  | reading (cause : InvalidFilter)
  | querying (cause : QueryError)
  | matching (cause : MatchError)
  deriving DecidableEq

namespace Failure

def message : Failure → String
  | reading cause => cause.message
  | querying cause => cause.message
  | matching cause => cause.message

/-- Whether whoever wrote the filter can mend it. -/
def isCallersFault : Failure → Bool
  | reading _ => true
  | querying _ => true
  | matching cause => !cause.isProgramFault

end Failure

end RecordFilter
