import StandingQuery.Error

/-! Configurations.

The settings of an engine with their defaults, what makes them invalid, and the
default rule for when to look for expired entries. -/
namespace StandingQuery

/-- What is stored between tuples. -/
inductive JoinStrategy where
  /-- Every partial solution. -/
  | symmetric
  /-- The matches of single patterns only. -/
  | caching
deriving DecidableEq, Inhabited

namespace JoinStrategy

/-- The name of a strategy in a configuration. -/
def name : JoinStrategy → String
  | .symmetric => "symmetric_hash_join"
  | .caching => "caching"

def ofName? (s : String) : Option JoinStrategy :=
  if s = "symmetric_hash_join" then some .symmetric else if s = "caching" then some .caching else none

end JoinStrategy

structure Config where
  /-- Three for triples, four for quads. -/
  arity : Nat := 3
  /-- How many bindings a query with reduced solutions remembers. -/
  reducedCapacity : Nat := 1000
  joinStrategy : JoinStrategy := .symmetric
  cleanupIntervalSecs : Nat := 30
  housekeepingPollMs : Nat := 1000
  /-- The longest time to live of a query; with a limit, endless lives are refused too. -/
  maxQueryTtlSecs : Option Nat := none
  maxQueries : Option Nat := none
  startHousekeeping : Bool := true
deriving DecidableEq, Inhabited

namespace Config

/-- The first thing that is wrong with the settings. -/
def fault? (c : Config) : Option Misconfigured :=
  if c.arity < 3 ∨ 4 < c.arity then some (.arity c.arity)
  else if c.reducedCapacity = 0 then some .reducedCapacity
  else if c.housekeepingPollMs = 0 then some .pollInterval
  else if c.maxQueries = some 0 then some .maxQueries
  else none

/-- Refuses settings that make no sense. -/
def validate (c : Config) : Except Error Config :=
  match c.fault? with
  | some fault => .error (.config fault)
  | none => .ok c

/-- Whether a query may be registered or renewed with this time to live. -/
def admitsQueryTtl (c : Config) (ttl : Nat) : Bool :=
  match c.maxQueryTtlSecs with
  | some maximum => 0 < ttl && ttl ≤ maximum
  | none => true

/-- The default cleanup rule: `interval` seconds after the last eviction, provided
that a tuple has been added since. -/
def intervalDue (interval sinceSecs tuples : Nat) : Bool := 0 < tuples && interval ≤ sinceSecs

end Config

end StandingQuery
