import StandingQuery.Engine
import StandingQuery.Text.Statement

/-! Scripts: whole sessions with an engine, played without a client.

A script is a list of steps. Subscriptions have names, and a subscription either lets
its solutions wait in a channel or reacts to the first few of them with steps of its
own. The same program stands behind a step wherever it is played, inside a reaction or
outside. A played script answers with the result of each step and a transcript of what
the subscribers received and did. -/
namespace StandingQuery
open Std

namespace Script

/-! ### Steps -/

/-- One thing to do. A subscription is referred to by its name. -/
inductive Step where
  /-- Registers a query, unless its text is wrong, under a name that is then taken over.
  The reaction is played with each of the first `times` solutions. -/
  | register (name : String) (query : Except Error Query) (ttl : Nat) (channel : Bool)
      (reaction : List Step) (times : Nat)
  | add (t : Tuple) (ttl : Nat)
  | addLine (line : String) (ttl : Nat)
  | addAll (ts : List Tuple) (ttl : Nat)
  | removeExpired
  | clear
  | counts
  | config
  | info (id : QueryId)
  | infoOf (name : String)
  | cancel (name : String)
  | renew (name : String) (ttl : Nat)
  | isActive (name : String)
  /-- Takes all solutions that wait in the channel. -/
  | drain (name : String)
  /-- Takes the first solution that waits, if there is one. -/
  | tryReceive (name : String)
  | receiveTimeout (name : String)
  /-- Takes the first solution that waits, but only when no more can come. -/
  | receive (name : String)
  | cancelChannel (name : String)
  | advanceSecs (n : Nat)
  | advanceMillis (n : Nat)
  | moveTo (n : Nat)
  | shutdown
  | isHousekeeping
  | dropEngine
  /-- Breaks off the reaction that plays it. -/
  | fail
  /-- Does nothing, under any word. -/
  | idle (word : String)
  /-- Plays a step if there is a subscription with the name. -/
  | provided (name : String) (step : Step)

/-- The word for a step in a transcript. -/
def Step.word : Step → String
  | register .. => "register"
  | add .. | addLine .. => "add"
  | addAll .. => "add_all"
  | removeExpired => "remove_expired"
  | clear => "clear"
  | counts => "counts"
  | config => "config"
  | info _ | infoOf _ => "info"
  | cancel _ => "cancel"
  | renew .. => "renew"
  | isActive _ => "active"
  | drain _ => "drain"
  | tryReceive _ => "try_receive"
  | receiveTimeout _ => "receive_timeout"
  | receive _ => "receive"
  | cancelChannel _ => "cancel_handle"
  | advanceSecs _ => "advance_secs"
  | advanceMillis _ => "advance_millis"
  | moveTo _ => "set_millis"
  | shutdown => "shutdown"
  | isHousekeeping => "is_housekeeping"
  | dropEngine => "drop_engine"
  | fail => "panic"
  | idle word => word
  | provided _ step => step.word

mutual

/-- A bound on the number of commands that playing a step can lead to. -/
def Step.weight : Step → Nat
  | .register _ _ _ _ reaction times => 1 + times * weights reaction
  | .addAll ts _ => 1 + ts.length
  | .provided _ step => step.weight
  | _ => 1

def weights : List Step → Nat
  | [] => 0
  | s :: rest => s.weight + weights rest

end

/-- What a step comes to. -/
inductive Result where
  | nothing
  | refused (e : Error)
  | flag (b : Bool)
  | number (n : Nat)
  | registered (id : QueryId) (active : Bool)
  | report (r : EvictionReport)
  | counts (queries partials : Nat) (ids : List QueryId)
  | config (c : Config)
  | info (info : Option QueryInfo) (partials remembered : Option Nat)
  | solutions (ss : List Solution)
  | solution (s : Option Solution)
  | noSuchName
  | noChannel
  | wouldBlock
  | noEngine
  /-- A subscriber has broken off. -/
  | failed

/-- What the transcript notes between the results of two steps. -/
inductive Event where
  | received (name : String) (s : Solution)
  | reacted (name word : String) (r : Result)

/-! ### Cleanup rules -/

/-- One answer of a scripted rule: yes or no, or a failure, which counts as no. -/
inductive RuleAnswer where
  | answer (b : Bool)
  | failure (kind : String)

/-- When a cleanup is due. -/
inductive Rule where
  | interval (secs : Nat)
  | since (secs : Nat)
  | queries (n : Nat)
  | tuples (n : Nat)
  /-- Answers in turn, and `no` at the end. -/
  | scripted (answers : List RuleAnswer)

/-- A question to the rule, with its answer. -/
structure RuleCall where
  who : Asker
  sinceSecs : Nat
  queries : Nat
  tuples : Nat
  answer : RuleAnswer

def RuleAnswer.isDue : RuleAnswer → Bool
  | answer b => b
  | failure _ => false

/-- The answer of a rule, and the rule for the next question. -/
def Rule.ask (since queries tuples : Nat) : Rule → RuleAnswer × Rule
  | interval secs => (.answer (Config.intervalDue secs since tuples), interval secs)
  | .since secs => (.answer (secs ≤ since), .since secs)
  | .queries n => (.answer (n ≤ queries), .queries n)
  | .tuples n => (.answer (n ≤ tuples), .tuples n)
  | scripted [] => (.answer false, scripted [])
  | scripted (a :: rest) => (a, scripted rest)

/-! ### The state of a session -/

/-- A subscription as its holder sees it. -/
structure Subscription where
  id : QueryId
  channel : Bool

/-- What happens to the solutions of a query. -/
structure Inbox where
  name : String
  channel : Bool
  reaction : List Step
  /-- How often the reaction is still to be played. -/
  times : Nat
  waiting : List Solution := []

structure Session where
  config : Config
  rule : Rule
  subscriptions : ExtTreeMap String Subscription := ∅
  inboxes : ExtTreeMap QueryId Inbox := ∅
  engineDropped : Bool := false
  /-- What has happened in the current step. -/
  events : List Event := []
  ruleCalls : List RuleCall := []

namespace Session

def note (s : Session) (e : Event) : Session := { s with events := s.events ++ [e] }

/-- Asks the rule and notes the call. -/
def cleanupDue (who : Asker) (since queries tuples : Nat) (s : Session) : Bool × Session :=
  let (answer, rule) := s.rule.ask since queries tuples
  (answer.isDue,
    { s with rule, ruleCalls := s.ruleCalls ++ [⟨who, since, queries, tuples, answer⟩] })

end Session

/-! ### Playing steps -/

abbrev Play := Program Session

open Program in
/-- Plays a step that concerns a subscription. -/
def withName (name : String) (play : Subscription → Play Result) : Play Result := do
  match (← state).subscriptions[name]? with
  | none => return .noSuchName
  | some sub => play sub

/-- Plays a step on the channel of a subscription. -/
def withChannel (name : String) (play : Subscription → List Solution → Play Result) : Play Result :=
  withName name fun sub => do
    if sub.channel then
      play sub (((← Program.state).inboxes[sub.id]?.map (·.waiting)).getD [])
    else return .noChannel

/-- Plays a step that needs the engine. -/
def withEngine (play : Play Result) : Play Result := do
  if (← Program.state).engineDropped then return .noEngine else play

/-- Leaves only the given solutions waiting. -/
def leave (id : QueryId) (waiting : List Solution) : Play Unit :=
  Program.update fun s =>
    { s with inboxes := s.inboxes.modify id fun inbox => { inbox with waiting } }

/-- Takes the first waiting solution. -/
def takeFirst (sub : Subscription) : List Solution → Play Result
  | [] => return .solution none
  | s :: rest => do
    leave sub.id rest
    return .solution (some s)

open Program in
/-- Registers a query. Its inbox is there before its first solution. -/
def playRegister (name : String) (query : Query) (ttl : Nat) (channel : Bool)
    (reaction : List Step) (times : Nat) : Play Result := do
  let next ← call .nextId
  update fun s => { s with inboxes := s.inboxes.insert next { name, channel, reaction, times } }
  match ← call (.register query ttl) with
  | .error e => return .refused e
  | .ok id =>
    update fun s => { s with subscriptions := s.subscriptions.insert name { id, channel } }
    return .registered id (← call (.isActive id))

open Program in
def playInfo (id : QueryId) : Play Result := do
  return .info (← call (.info id)) (← call (.partialCountOf id)) (← call (.remembered id))

open Program in
/-- Adds tuples one by one and counts those that change the index. -/
def playAddAll (ttl : Nat) : List Tuple → Play Nat
  | [] => return 0
  | t :: ts => do
    let changed ← call (.add t ttl)
    let rest ← playAddAll ttl ts
    return changed.toNat + rest

open Program in
def play : Step → Play Result
  | .register name query ttl channel reaction times => withEngine do
    match query with
    | .error e => return .refused e
    | .ok query => playRegister name query ttl channel reaction times
  | .add t ttl => withEngine do return .flag (← call (.add t ttl))
  | .addLine line ttl => withEngine do
    match Tuple.ofLine? line with
    | .error e => return .refused e
    | .ok none => return .nothing
    | .ok (some t) => return .flag (← call (.add t ttl))
  | .addAll ts ttl => withEngine do return .number (← playAddAll ttl ts)
  | .removeExpired => withEngine do return .report (← call .removeExpired)
  | .clear => withEngine do
    call .clear
    return .nothing
  | .counts => withEngine do
    return .counts (← call .queryCount) (← call .partialCount) (← call .queryIds)
  | .config => withEngine do return .config (← state).config
  | .info id => withEngine (playInfo id)
  | .infoOf name => withName name fun sub => withEngine (playInfo sub.id)
  | .cancel name => withName name fun sub => do
    call (.cancel sub.id)
    return .flag (← call (.isActive sub.id))
  | .renew name ttl => withName name fun sub => do return .flag (← call (.renew sub.id ttl))
  | .isActive name => withName name fun sub => do return .flag (← call (.isActive sub.id))
  | .drain name => withChannel name fun sub waiting => do
    leave sub.id []
    return .solutions waiting
  | .tryReceive name => withChannel name takeFirst
  | .receiveTimeout name => withChannel name takeFirst
  | .receive name => withChannel name fun sub waiting => do
    if ← call (.isActive sub.id) then return .wouldBlock else takeFirst sub waiting
  | .cancelChannel name => withChannel name fun sub _ => do
    call (.cancel sub.id)
    return .flag (← call (.isActive sub.id))
  | .advanceSecs n => do return .number (← call (.advanceMillis (n * 1000)))
  | .advanceMillis n => do return .number (← call (.advanceMillis n))
  | .moveTo n => do return .number (← call (.moveTo n))
  | .shutdown => withEngine do
    call .shutdown
    return .flag (← call .isHousekeeping)
  | .isHousekeeping => withEngine do return .flag (← call .isHousekeeping)
  | .dropEngine => withEngine do
    call .drop
    update fun s => { s with engineDropped := true }
    return .nothing
  | .fail => .fail
  | .idle _ => return .nothing
  | .provided name step => withName name fun _ => play step

open Program in
/-- Plays the steps of a reaction and notes each with its result. -/
def react (name : String) : List Step → Play Unit
  | [] => return
  | step :: rest => do
    let r ← play step
    update (·.note (.reacted name step.word r))
    react name rest

open Program in
/-- Takes in a solution: into the channel, or into the transcript and with a reaction. -/
def respond (solution : Solution) : Play Unit := do
  match (← state).inboxes[solution.query]? with
  | none => return
  | some inbox =>
    let keep (inbox : Inbox) : Play Unit :=
      update fun s => { s with inboxes := s.inboxes.insert solution.query inbox }
    if inbox.channel then keep { inbox with waiting := inbox.waiting ++ [solution] }
    else
      update (·.note (.received inbox.name solution))
      if 0 < inbox.times then
        keep { inbox with times := inbox.times - 1 }
        react inbox.name inbox.reaction

/-- The client that plays a session. -/
def client : Client Session := { respond, cleanupDue := Session.cleanupDue }

/-! ### Playing scripts -/

/-- What is told after each step. The sizes are missing when the engine is gone. -/
structure Report where
  result : Result
  events : List Event
  ruleCalls : List RuleCall
  sizes : Option (Nat × Nat)

/-- Plays one step outside of all reactions. -/
def playStep (fuel : Nat) (e : Engine) (s : Session) (step : Step) : Report × Engine × Session :=
  let (outcome, e, s) := Engine.perform client fuel e { s with events := [], ruleCalls := [] } (play step)
  let result := match outcome with
    | .done r => r
    | _ => .failed
  ({ result
     events := s.events
     ruleCalls := s.ruleCalls
     sizes := if s.engineDropped then none else some (e.front.queryCount, e.front.partialCount) },
    e, s)

/-- How a script ends: the reports of its steps, the registered queries unless the engine
is gone, and which subscriptions are active. -/
structure Ending where
  reports : List Report
  ids : Option (List QueryId)
  active : List (String × Bool)

def playSteps (fuel : Nat) : Engine → Session → List Step → List Report × Engine × Session
  | e, s, [] => ([], e, s)
  | e, s, step :: rest =>
    let (report, e, s) := playStep fuel e s step
    let (reports, e, s) := playSteps fuel e s rest
    (report :: reports, e, s)

/-- Plays a whole script on a new engine. -/
def run (config : Config) (clock : Clock) (rule : Rule) (steps : List Step) : Except Error Ending := do
  let e ← Engine.build config clock
  let (reports, e, s) := playSteps (weights steps) e { config, rule } steps
  return {
    reports
    ids := if s.engineDropped then none else some e.index.queryIds
    active := s.subscriptions.toList.map fun (name, sub) => (name, e.index.active.contains sub.id) }

end Script

end StandingQuery
