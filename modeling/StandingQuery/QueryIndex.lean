import StandingQuery.Config
import StandingQuery.Index.PatternIndex
import StandingQuery.Join.Caching
import StandingQuery.Join.Symmetric
import StandingQuery.Registry

/-! The query index: all registered queries at work on one stream.

The index matches each tuple against the patterns of all queries, lets one of the
two joins find the solutions that the tuple completes, and hands them to the
subscribers. A subscriber may react to a solution: it may change the set of active
queries and a state of its own, and it may fail, which stops the operation where it
stands. Everything is as of the instant `now` that comes with an operation. -/
namespace StandingQuery
open Std

/-! ### The state of the joins -/

/-- What the chosen join strategy stores. -/
inductive JoinState where
  | symmetric (store : SolutionStore)
  | caching (cache : MatchCache)

namespace JoinState

def new : JoinStrategy → JoinState
  | .symmetric => .symmetric .empty
  | .caching => .caching .empty

def size : JoinState → Nat
  | symmetric s => s.size
  | caching c => c.size

def sizeOf (j : JoinState) (query : QueryId) : Nat :=
  match j with
  | symmetric s => s.sizeOf query
  | caching c => c.sizeOf query

/-- Takes out what is stored under a number and tells whether there was something. -/
def remove (j : JoinState) (id : SolutionId) : Bool × JoinState :=
  match j with
  | symmetric s => ((s.remove id).1.isSome, symmetric (s.remove id).2)
  | caching c => ((c.remove id).1.isSome, caching (c.remove id).2)

/-- Takes out what is stored for a query and lists the numbers. -/
def removeQuery (j : JoinState) (query : QueryId) : List SolutionId × JoinState :=
  match j with
  | symmetric s => ((s.removeQuery query).1, symmetric (s.removeQuery query).2)
  | caching c => ((c.removeQuery query).1, caching (c.removeQuery query).2)

def clear : JoinState → JoinState
  | symmetric s => symmetric s.clear
  | caching c => caching c.clear

/-- What one match came to. -/
structure Advance where
  /-- Something was stored or lives longer. -/
  changed : Bool
  /-- The solutions that the match completes. -/
  candidates : List Candidate
  joins : JoinState
  expirations : Expirations

/-- Takes in the match of one pattern of a query. -/
def advance (j : JoinState) (expirations : Expirations) (q : Registered) (pattern : Nat)
    (m : Candidate) (now : Nat) : Advance :=
  match j with
  | symmetric s =>
    let p := SolutionStore.propagate s expirations
      (.ofPattern q.id pattern m.binding m.expiration) q.analysis now
    { changed := p.changed
      candidates := p.complete.map fun c => ⟨c.binding, c.expiration⟩
      joins := symmetric p.store
      expirations := p.expirations }
  | caching c =>
    let (found, c, expirations) :=
      MatchCache.addMatch c expirations ⟨q.id, pattern, m.binding, m.expiration⟩ q.analysis now
    { changed := found.isSome, candidates := found.getD [], joins := caching c, expirations }

end JoinState

/-! ### Subscribers -/

/-- How a subscriber answers to a solution. -/
structure Reaction (σ : Type) where
  active : Active
  state : σ
  failed : Bool := false

/-- What a subscriber does with a solution, given the active queries and its state. -/
abbrev Subscriber (σ : Type) := Active → σ → Solution → Reaction σ

/-- The subscriber that only keeps what it receives. -/
def Subscriber.recorder : Subscriber (List Solution) := fun active log solution =>
  { active, state := log ++ [solution] }

/-- Where the delivery of candidates to one query stands. -/
structure Delivery (σ : Type) where
  query : Registered
  active : Active
  state : σ
  /-- The query has answered or reached its limit. -/
  satisfied : Bool := false
  failed : Bool := false

/-- Delivers candidates one by one, leaving out those that have expired, as long as
the query is active. The query is over with its last solution. -/
def Registered.deliver (receive : Subscriber σ) (now : Nat) :
    Registered → Active → σ → List Candidate → Delivery σ
  | query, active, state, [] => { query, active, state }
  | query, active, state, c :: rest =>
    if c.expiration.expiredAt now || !active.contains query.id then
      query.deliver receive now active state rest
    else
      match query.offer c with
      | (.suppressed, query) => query.deliver receive now active state rest
      | (.exhausted, query) =>
        { query, active := active.erase query.id, state, satisfied := true }
      | (.delivered solution last, query) =>
        let r := receive active state solution
        if r.failed then { query, active := r.active, state := r.state, failed := true }
        else if last then
          { query, active := r.active.erase query.id, state := r.state, satisfied := true }
        else query.deliver receive now r.active r.state rest

/-! ### The index -/

structure QueryIndex where
  arity : Nat
  reducedCapacity : Nat
  registry : Registry
  active : Active := ∅
  patterns : PatternIndex := {}
  joins : JoinState
  expirations : Expirations := {}

/-- A validated query on its way into the index. -/
structure Registration where
  id : QueryId
  query : Query
  analysis : Analysis
  ttl : Nat

/-- What one eviction has removed. -/
structure EvictionReport where
  queries : Nat := 0
  solutions : Nat := 0
deriving DecidableEq, Inhabited

namespace QueryIndex

def new (c : Config) : QueryIndex :=
  { arity := c.arity
    reducedCapacity := c.reducedCapacity
    registry := { maxQueries := c.maxQueries }
    joins := .new c.joinStrategy }

/-- Takes in a validated query. Whether it is active is not touched. -/
def register (x : QueryIndex) (r : Registration) (now : Nat) : Except Declined QueryIndex := do
  let expiration := Expiration.ofTtl now r.ttl
  let registry ← x.registry.register
    (.new r.id r.query r.analysis expiration now x.reducedCapacity)
  return { x with
    registry
    patterns := x.patterns.insertQuery r.id r.query.pattern
    expirations := x.expirations.track (.query r.id) expiration }

/-- Lets a query receive solutions. -/
def activate (x : QueryIndex) (id : QueryId) : QueryIndex :=
  { x with active := x.active.insert id }

/-- Ends delivery to a query; it stays in the index until it is unregistered. -/
def deactivate (x : QueryIndex) (id : QueryId) : QueryIndex :=
  { x with active := x.active.erase id }

/-- Takes out a query with everything that was stored for it. -/
def unregister (x : QueryIndex) (id : QueryId) : Bool × QueryIndex :=
  match x.registry.unregister id with
  | .error _ => (false, x)
  | .ok (q, registry) =>
    let (solutions, joins) := x.joins.removeQuery id
    let expirations := solutions.foldl (fun e s => e.untrack (.solution s)) x.expirations
    (true,
      { x with
        registry, joins
        active := x.active.erase id
        patterns := x.patterns.removeQuery id q.pattern
        expirations := expirations.untrack (.query id) })

/-- Gives an active query a new lifetime. -/
def renew (x : QueryIndex) (id : QueryId) (ttl now : Nat) : Bool × QueryIndex :=
  match x.registry.get? id with
  | none => (false, x)
  | some q =>
    if !x.active.contains id then (false, x)
    else
      let expiration := Expiration.ofTtl now ttl
      (true,
        { x with
          registry := x.registry.update { q with expiration }
          expirations := (x.expirations.renew (.query id) expiration).2 })

/-- Where the addition of a tuple stands. -/
structure Addition (σ : Type) where
  index : QueryIndex
  state : σ
  /-- Something was stored or lives longer. -/
  changed : Bool := false
  /-- The queries that are over, in the order in which they ended. -/
  satisfied : List QueryId := []
  failed : Bool := false

/-- Takes a tuple to one pattern that it could match. -/
def visit (receive : Subscriber σ) (t : Tuple) (expiration : Expiration) (now : Nat)
    (w : Addition σ) (ref : PatternRef) : Addition σ :=
  if w.failed then w
  else
    match w.index.registry.get? ref.query with
    | none => w
    | some q =>
      if !w.index.active.contains ref.query then w
      else
        match q.pattern[ref.pattern]?.bind (·.match? t) with
        | none => w
        | some binding =>
          let a := w.index.joins.advance w.index.expirations q ref.pattern ⟨binding, expiration⟩ now
          let d := q.deliver receive now w.index.active w.state a.candidates
          { index := { w.index with
              registry := w.index.registry.update d.query
              active := d.active
              joins := a.joins
              expirations := a.expirations }
            state := d.state
            changed := w.changed || a.changed
            satisfied := if d.satisfied then w.satisfied ++ [d.query.id] else w.satisfied
            failed := d.failed }

/-- Adds a tuple and delivers what it completes. Queries that are over leave the index
at the end, unless a subscriber has failed. -/
def add (receive : Subscriber σ) (x : QueryIndex) (t : Tuple) (ttl now : Nat) (state : σ) :
    Addition σ :=
  if t.arity ≠ x.arity then { index := x, state }
  else
    let w := (x.patterns.lookup t).foldl (visit receive t (.ofTtl now ttl) now) { index := x, state }
    if w.failed then w
    else { w with index := w.satisfied.foldl (fun x id => (x.unregister id).2) w.index }

/-- Removes one thing that is due. -/
def evict (s : EvictionReport × QueryIndex) (e : Mortal) : EvictionReport × QueryIndex :=
  match e with
  | .query id =>
    let (found, x) := s.2.unregister id
    (if found then { s.1 with queries := s.1.queries + 1 } else s.1, x)
  | .solution id =>
    let (found, joins) := s.2.joins.remove id
    (if found then { s.1 with solutions := s.1.solutions + 1 } else s.1, { s.2 with joins })

/-- Removes everything that is due at `now`. Queries take what was stored for them along. -/
def removeExpired (x : QueryIndex) (now : Nat) : EvictionReport × QueryIndex :=
  let (due, expirations) := x.expirations.removeExpired now
  due.foldl evict ({}, { x with expirations })

/-- Removes everything and deactivates the registered queries. -/
def clear (x : QueryIndex) : QueryIndex :=
  { x with
    registry := x.registry.clear
    active := x.registry.ids.foldl (·.erase ·) x.active
    patterns := {}
    joins := x.joins.clear
    expirations := {} }

/-! ### Looking in -/

def contains (x : QueryIndex) (id : QueryId) : Bool := x.registry.contains id

def queryCount (x : QueryIndex) : Nat := x.registry.size

def queryIds (x : QueryIndex) : List QueryId := x.registry.ids

def info? (x : QueryIndex) (id : QueryId) : Option QueryInfo :=
  (x.registry.get? id).map (·.info x.active)

/-- How many partial solutions, or matches, are stored. -/
def partialCount (x : QueryIndex) : Nat := x.joins.size

def partialCountOf (x : QueryIndex) (id : QueryId) : Nat := x.joins.sizeOf id

/-- How many bindings a registered query remembers. -/
def remembered? (x : QueryIndex) (id : QueryId) : Option Nat :=
  (x.registry.get? id).map (·.memory.size)

def trackedExpirations (x : QueryIndex) : Nat := x.expirations.size

end QueryIndex

end StandingQuery
