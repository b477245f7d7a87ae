import StandingQuery.Engine.Program

/-! The engine: a query index with subscribers that may call back.

Subscribers are served in the middle of an operation on the index. What they issue
meanwhile must not touch the index, so it is deferred: a request is put into a queue,
and the queue is worked off, oldest request first, before the operation returns. Only
what does not concern the index takes effect at once: cancelling ends delivery, a new
query has its id, and every tuple is counted.

The engine also counts what was added since the last eviction. After each addition a
rule that the client provides says whether to look for expired entries. If so, the
housekeeping worker is woken; it asks the rule once more and evicts. -/
namespace StandingQuery
open Std

/-! ### State -/

/-- A change of the index that has been asked for. -/
inductive Request where
  | register (r : Registration)
  | unregister (id : QueryId)
  | renew (id : QueryId) (ttl : Nat)
  | add (t : Tuple) (ttl : Nat)
  | removeExpired
  | clear

/-- What the index answers to a request. -/
inductive Answer where
  | done
  | refused (reason : Declined)
  | flag (b : Bool)
  | report (r : EvictionReport)
deriving DecidableEq

/-- What of the engine can be reached while the index is busy. -/
structure Front where
  clock : Clock
  nextId : QueryId := 1
  /-- Requests that have been deferred, oldest first. -/
  queue : List Request := []
  lastCleanup : Nat
  queriesSince : Nat := 0
  tuplesSince : Nat := 0
  /-- The number of queries after the last completed operation. -/
  queryCount : Nat := 0
  /-- The number of partial solutions after the last completed operation. -/
  partialCount : Nat := 0
  /-- The worker runs. -/
  housekeeping : Bool
  /-- How often the worker has been woken since it last looked. -/
  signals : Nat := 0
  /-- The engine has not been given up. -/
  alive : Bool := true

structure Engine where
  config : Config
  index : QueryIndex
  front : Front

/-- Who asks whether a cleanup is due. -/
inductive Asker where
  | caller
  | worker
deriving DecidableEq

/-- The client of an engine: what its subscribers do, and when it wants a cleanup, given
the seconds, queries and tuples since the last one. -/
structure Client (σ : Type) where
  respond : Solution → Program σ Unit
  cleanupDue : Asker → (sinceSecs queries tuples : Nat) → σ → Bool × σ

variable {σ α : Type}

namespace Front

def defer (f : Front) (r : Request) : Front := { f with queue := f.queue ++ [r] }

def advanceMillis (f : Front) (n : Nat) : Front := { f with clock := f.clock.advanceMillis n }

def moveTo (f : Front) (n : Nat) : Front := { f with clock := f.clock.moveTo n }

/-- Notes that an eviction takes place now. -/
def resetCounters (f : Front) : Front :=
  { f with lastCleanup := f.clock.now, queriesSince := 0, tuplesSince := 0 }

/-- Checks a query and gives it an id. -/
def enrol (f : Front) (c : Config) (query : Query) (ttl : Nat) :
    Except Error (Registration × Front) := do
  if let some maximum := c.maxQueryTtlSecs then
    if !c.admitsQueryTtl ttl then throw (.incompatibleQuery (.ttlTooLong ttl maximum))
  let analysis ← query.validate c.arity
  return (⟨f.nextId, query, analysis, ttl⟩, { f with nextId := f.nextId + 1 })

end Front

namespace Client

/-- Asks the client's rule. -/
def asks (client : Client σ) (who : Asker) (f : Front) (s : σ) : Bool × σ :=
  client.cleanupDue who ((f.clock.now - f.lastCleanup) / 1000) f.queriesSince f.tuplesSince s

/-- Wakes the worker, if it runs, when a cleanup is due. -/
def signalIfDue (client : Client σ) (f : Front) (s : σ) : Front × σ :=
  if f.housekeeping then
    let (due, s) := client.asks .caller f s
    (if due then { f with signals := f.signals + 1 } else f, s)
  else (f, s)

end Client

/-! ### Inside a subscriber -/

/-- What a program inside a subscriber works on. -/
structure Desk (σ : Type) where
  active : Active
  front : Front
  state : σ

namespace Desk

def defer (d : Desk σ) (r : Request) : Desk σ := { d with front := d.front.defer r }

/-- Answers a command while the index is busy. -/
def answer (config : Config) (client : Client σ) (d : Desk σ) : (c : Command) → c.Reply × Desk σ
  | .nextId => (d.front.nextId, d)
  | .register query ttl =>
    match d.front.enrol config query ttl with
    | .error e => (.error e, d)
    | .ok (r, front) =>
      let front := { front.defer (.register r) with queriesSince := front.queriesSince + 1 }
      let (front, state) := client.signalIfDue front d.state
      (.ok r.id, { active := d.active.insert r.id, front, state })
  | .cancel id =>
    if d.active.contains id then
      ((), { d with active := d.active.erase id }.defer (.unregister id))
    else ((), d)
  | .renew id ttl =>
    if d.active.contains id && config.admitsQueryTtl ttl then
      (true, d.defer (.renew id ttl))
    else (false, d)
  | .isActive id => (d.active.contains id, d)
  | .add t ttl =>
    (false, { d with front := { d.front.defer (.add t ttl) with tuplesSince := d.front.tuplesSince + 1 } })
  | .removeExpired => ({}, d.defer .removeExpired)
  | .clear => ((), d.defer .clear)
  | .info _ => (none, d)
  | .partialCountOf _ => (none, d)
  | .remembered _ => (none, d)
  | .queryIds => ([], d)
  | .queryCount => (d.front.queryCount, d)
  | .partialCount => (d.front.partialCount, d)
  | .advanceMillis n =>
    let front := d.front.advanceMillis n
    (front.clock.now, { d with front })
  | .moveTo n =>
    let front := d.front.moveTo n
    (front.clock.now, { d with front })
  | .shutdown => ((), { d with front := { d.front with housekeeping := false } })
  | .isHousekeeping => (d.front.housekeeping, d)
  | .drop => ((), { d with front := { d.front with alive := false } })

/-- Runs a program while the index is busy. There is no value if it breaks off. -/
def run (config : Config) (client : Client σ) : Desk σ → Program σ α → Option α × Desk σ
  | d, .done a => (some a, d)
  | d, .fail => (none, d)
  | d, .get next => run config client d (next d.state)
  | d, .set s next => run config client { d with state := s } next
  | d, .issue c next =>
    let (r, d) := d.answer config client c
    run config client d (next r)

end Desk

/-- The subscriber of the index that runs the client's programs. -/
def Client.subscriber (client : Client σ) (config : Config) : Subscriber (Front × σ) :=
  fun active (front, state) solution =>
    let (value, d) := Desk.run config client ⟨active, front, state⟩ (client.respond solution)
    { active := d.active, state := (d.front, d.state), failed := value.isNone }

/-! ### Operations -/

/-- How an operation ends: with a value, broken off by a subscriber, or not within the
given number of deferred requests. -/
inductive Outcome (α : Type) where
  | done (a : α)
  | failed
  | unfinished

namespace Engine

/-- An engine as it starts at the instant of its clock. -/
def new (config : Config) (clock : Clock) : Engine :=
  { config
    index := .new config
    front := { clock, lastCleanup := clock.now, housekeeping := config.startHousekeeping } }

/-- The engine with a valid configuration. -/
def build (config : Config) (clock : Clock) : Except Error Engine :=
  return .new (← config.validate) clock

/-- What one request has come to. -/
structure Applied (σ : Type) where
  answer : Answer := .done
  engine : Engine
  state : σ
  failed : Bool := false

/-- Applies one request to the index. A query that is refused does not stay active. -/
def apply (client : Client σ) (e : Engine) (s : σ) (r : Request) : Applied σ :=
  let now := e.front.clock.now
  match r with
  | .register r =>
    match e.index.register r now with
    | .ok index => { engine := { e with index }, state := s }
    | .error reason =>
      { answer := .refused reason, engine := { e with index := e.index.deactivate r.id }, state := s }
  | .unregister id =>
    let (found, index) := e.index.unregister id
    { answer := .flag found, engine := { e with index }, state := s }
  | .renew id ttl =>
    let (found, index) := e.index.renew id ttl now
    { answer := .flag found, engine := { e with index }, state := s }
  | .add t ttl =>
    let a := e.index.add (client.subscriber e.config) t ttl now (e.front, s)
    { answer := .flag a.changed
      engine := { e with index := a.index, front := a.state.1 }
      state := a.state.2
      failed := a.failed }
  | .removeExpired =>
    let (report, index) := e.index.removeExpired now
    { answer := .report report, engine := { e with index, front := e.front.resetCounters }, state := s }
  | .clear => { engine := { e with index := e.index.clear }, state := s }

/-- Works off the deferred requests, at most `fuel` of them. -/
def drain (client : Client σ) : (fuel : Nat) → Engine → σ → Outcome Unit × Engine × σ
  | fuel, e, s =>
    match e.front.queue with
    | [] => (.done (), e, s)
    | r :: queue =>
      match fuel with
      | 0 => (.unfinished, e, s)
      | fuel + 1 =>
        let a := apply client { e with front := { e.front with queue } } s r
        if a.failed then (.failed, a.engine, a.state) else drain client fuel a.engine a.state

/-- Makes the sizes of the index known. -/
def publish (e : Engine) : Engine :=
  { e with
    front := { e.front with
      queryCount := e.index.queryCount
      partialCount := e.index.partialCount } }

/-- Applies a request and everything that is deferred meanwhile. -/
def run (client : Client σ) (fuel : Nat) (e : Engine) (s : σ) (r : Request) :
    Outcome Answer × Engine × σ :=
  let a := apply client e s r
  if a.failed then (.failed, a.engine, a.state)
  else
    match drain client fuel a.engine a.state with
    | (.done (), e, s) => (.done a.answer, e.publish, s)
    | (.failed, e, s) => (.failed, e, s)
    | (.unfinished, e, s) => (.unfinished, e, s)

/-- Runs a request and goes on with its answer, unless it has not come to its end. -/
def runThen (client : Client σ) (fuel : Nat) (e : Engine) (s : σ) (r : Request)
    (next : Answer → Engine → σ → α × Engine × σ) : Outcome α × Engine × σ :=
  match run client fuel e s r with
  | (.done answer, e, s) =>
    let (a, e, s) := next answer e s
    (.done a, e, s)
  | (.failed, e, s) => (.failed, e, s)
  | (.unfinished, e, s) => (.unfinished, e, s)

/-- Wakes the worker if a cleanup is due. -/
def signalIfDue (client : Client σ) (e : Engine) (s : σ) : Engine × σ :=
  let (front, s) := client.signalIfDue e.front s
  ({ e with front }, s)

/-- Registers a query and tells its id. -/
def register (client : Client σ) (fuel : Nat) (e : Engine) (s : σ) (query : Query) (ttl : Nat) :
    Outcome (Except Error QueryId) × Engine × σ :=
  match e.front.enrol e.config query ttl with
  | .error reason => (.done (.error reason), e, s)
  | .ok (r, front) =>
    runThen client fuel { e with index := e.index.activate r.id, front } s (.register r)
      fun answer e s =>
        match answer with
        | .refused reason => (.error (.registry reason), e, s)
        | _ =>
          let front := { e.front with queriesSince := e.front.queriesSince + 1 }
          let (e, s) := signalIfDue client { e with front } s
          (.ok r.id, e, s)

/-- Adds a tuple and tells whether the index has changed. -/
def add (client : Client σ) (fuel : Nat) (e : Engine) (s : σ) (t : Tuple) (ttl : Nat) :
    Outcome Bool × Engine × σ :=
  let front := { e.front with tuplesSince := e.front.tuplesSince + 1 }
  runThen client fuel { e with front } s (.add t ttl) fun answer e s =>
    let (e, s) := signalIfDue client e s
    (answer = .flag true, e, s)

/-- Ends a query. Its subscriber receives nothing any more, even before the index
knows. -/
def cancel (client : Client σ) (fuel : Nat) (e : Engine) (s : σ) (id : QueryId) :
    Outcome Unit × Engine × σ :=
  if e.index.active.contains id then
    let e := { e with index := e.index.deactivate id }
    if e.front.alive then runThen client fuel e s (.unregister id) fun _ e s => ((), e, s)
    else (.done (), e, s)
  else (.done (), e, s)

/-- Gives an active query a new lifetime and tells whether it has. -/
def renew (client : Client σ) (fuel : Nat) (e : Engine) (s : σ) (id : QueryId) (ttl : Nat) :
    Outcome Bool × Engine × σ :=
  if e.index.active.contains id && e.front.alive && e.config.admitsQueryTtl ttl then
    runThen client fuel e s (.renew id ttl) fun answer e s => (answer = .flag true, e, s)
  else (.done false, e, s)

/-- Evicts what has expired. -/
def removeExpired (client : Client σ) (fuel : Nat) (e : Engine) (s : σ) :
    Outcome EvictionReport × Engine × σ :=
  runThen client fuel e s .removeExpired fun answer e s =>
    match answer with
    | .report r => (r, e, s)
    | _ => ({}, e, s)

/-- Answers a command outside of all subscribers. -/
def execute (client : Client σ) (fuel : Nat) (e : Engine) (s : σ) :
    (c : Command) → Outcome c.Reply × Engine × σ
  | .nextId => (.done e.front.nextId, e, s)
  | .register query ttl => register client fuel e s query ttl
  | .cancel id => cancel client fuel e s id
  | .renew id ttl => renew client fuel e s id ttl
  | .isActive id => (.done (e.index.active.contains id), e, s)
  | .add t ttl => add client fuel e s t ttl
  | .removeExpired => removeExpired client fuel e s
  | .clear => runThen client fuel e s .clear fun _ e s => ((), e, s)
  | .info id => (.done (e.index.info? id), e, s)
  | .partialCountOf id =>
    (.done (if e.index.contains id then some (e.index.partialCountOf id) else none), e, s)
  | .remembered id => (.done (e.index.remembered? id), e, s)
  | .queryIds => (.done e.index.queryIds, e, s)
  | .queryCount => (.done e.front.queryCount, e, s)
  | .partialCount => (.done e.front.partialCount, e, s)
  | .advanceMillis n =>
    let front := e.front.advanceMillis n
    (.done front.clock.now, { e with front }, s)
  | .moveTo n =>
    let front := e.front.moveTo n
    (.done front.clock.now, { e with front }, s)
  | .shutdown => (.done (), { e with front := { e.front with housekeeping := false } }, s)
  | .isHousekeeping => (.done e.front.housekeeping, e, s)
  | .drop => (.done (), { e with front := { e.front with alive := false } }, s)

/-! ### Housekeeping -/

/-- The worker's rounds: in each it asks the rule and evicts if a cleanup is due. -/
def rounds (client : Client σ) (fuel : Nat) : Nat → Engine → σ → Engine × σ
  | 0, e, s => (e, s)
  | n + 1, e, s =>
    let (due, s) := client.asks .worker e.front s
    if due then
      let (_, e, s) := run client fuel e s .removeExpired
      rounds client fuel n e s
    else rounds client fuel n e s

/-- Lets the worker answer the signals it has received. -/
def housekeep (client : Client σ) (fuel : Nat) (e : Engine) (s : σ) : Engine × σ :=
  rounds client fuel e.front.signals { e with front := { e.front with signals := 0 } } s

/-- Runs a program outside of all subscribers. The worker gets its turn after every
command. -/
def perform (client : Client σ) (fuel : Nat) : Engine → σ → Program σ α → Outcome α × Engine × σ
  | e, s, .done a => (.done a, e, s)
  | e, s, .fail => (.failed, e, s)
  | e, s, .get next => perform client fuel e s (next s)
  | e, _, .set s next => perform client fuel e s next
  | e, s, .issue c next =>
    match execute client fuel e s c with
    | (.done r, e, s) =>
      let (e, s) := housekeep client fuel e s
      perform client fuel e s (next r)
    | (.failed, e, s) =>
      let (e, s) := housekeep client fuel e s
      (.failed, e, s)
    | (.unfinished, e, s) => (.unfinished, e, s)

end Engine

end StandingQuery
