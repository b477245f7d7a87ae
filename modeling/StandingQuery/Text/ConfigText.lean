import StandingQuery.Config
import StandingQuery.Text.Json

/-! Configurations as texts.

The text of a configuration is a JSON object with a member for each setting, or an
array with the settings in their order. Settings that are left out keep their
defaults, members with other names are passed over, and a setting that is given
twice is an error. -/
namespace StandingQuery.Text
open Json (Reader Member)

/-- What is asked for where a size is expected. -/
def size : Reader Nat := Json.natural "usize"

/-- What is asked for where a time is expected. -/
def duration : Reader Nat := Json.natural "u64"

/-- A strategy by its name. -/
def strategy : Reader JoinStrategy := do
  let s ← Json.choice [JoinStrategy.symmetric.name, JoinStrategy.caching.name]
  return (JoinStrategy.ofName? s).getD .symmetric

/-- The bound on the number of queries, which is a record of its own. An array has to
give it. -/
def registryBound : Reader (Option Nat) :=
  Json.record "struct QueryRegistryConfig"
    (some (.tooShort 0 "struct QueryRegistryConfig with 1 element"))
    [⟨"max_queries", fun _ => Json.optional size⟩] none

/-- The settings in their order. -/
def settings : List (Member Config) := [
  ⟨"arity", fun c => return { c with arity := ← size }⟩,
  ⟨"reduced_capacity", fun c => return { c with reducedCapacity := ← size }⟩,
  ⟨"join_strategy", fun c => return { c with joinStrategy := ← strategy }⟩,
  ⟨"cleanup_interval_secs", fun c => return { c with cleanupIntervalSecs := ← duration }⟩,
  ⟨"housekeeping_poll_ms", fun c => return { c with housekeepingPollMs := ← duration }⟩,
  ⟨"max_query_ttl_secs", fun c => return { c with maxQueryTtlSecs := ← Json.optional duration }⟩,
  ⟨"registry", fun c => return { c with maxQueries := ← registryBound }⟩,
  ⟨"start_housekeeping", fun c => return { c with startHousekeeping := ← Json.bool }⟩]

def config : Reader Config := Json.record "struct EngineConfig" none settings {}

end StandingQuery.Text

namespace StandingQuery

/-- The configuration a text stands for, if it makes sense. -/
def Config.ofText? (text : String) : Except Error Config :=
  match Text.Json.ofText? Text.config text with
  | .ok c => c.validate
  | .error (fault, place) => .error (.config (.unreadable fault place))

end StandingQuery
