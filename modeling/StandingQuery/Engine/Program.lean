import StandingQuery.QueryIndex

/-! What clients can do, as data.

A command is one call of a client to the engine, and `Command.Reply` is the type of
its answer. A program is a client's whole behaviour from one moment on: it issues
commands, goes on with their answers, keeps a state of its own, and ends with a value
or breaks off. What a command does depends on where a program runs, inside a
subscriber that is just being served or outside, so programs say nothing about it. -/
namespace StandingQuery

inductive Command where
  /-- The id that the next accepted query will have. -/
  | nextId
  | register (query : Query) (ttl : Nat)
  | cancel (id : QueryId)
  | renew (id : QueryId) (ttl : Nat)
  | isActive (id : QueryId)
  | add (t : Tuple) (ttl : Nat)
  | removeExpired
  | clear
  | info (id : QueryId)
  | partialCountOf (id : QueryId)
  | remembered (id : QueryId)
  | queryIds
  | queryCount
  | partialCount
  /-- Moves the clock on and reads it. -/
  | advanceMillis (n : Nat)
  | moveTo (n : Nat)
  | shutdown
  | isHousekeeping
  /-- Gives up the engine. Its queries keep their flags, but nothing happens any more once
  the operation has ended that is under way. -/
  | drop

/-- The type of the answer to a command. -/
abbrev Command.Reply : Command → Type
  | nextId => QueryId
  | register .. => Except Error QueryId
  | cancel _ => Unit
  | renew .. => Bool
  | isActive _ => Bool
  | add .. => Bool
  | removeExpired => EvictionReport
  | clear => Unit
  | info _ => Option QueryInfo
  | partialCountOf _ => Option Nat
  | remembered _ => Option Nat
  | queryIds => List QueryId
  | queryCount => Nat
  | partialCount => Nat
  | advanceMillis _ => Nat
  | moveTo _ => Nat
  | shutdown => Unit
  | isHousekeeping => Bool
  | drop => Unit

/-- The behaviour of a client with a state in `σ`. -/
inductive Program (σ α : Type) where
  | done (a : α)
  /-- Breaks off. -/
  | fail
  | get (next : σ → Program σ α)
  | set (s : σ) (next : Program σ α)
  | issue (c : Command) (next : c.Reply → Program σ α)

namespace Program
variable {σ α β : Type}

def bind : Program σ α → (α → Program σ β) → Program σ β
  | done a, f => f a
  | fail, _ => fail
  | get next, f => get fun s => (next s).bind f
  | set s next, f => set s (next.bind f)
  | issue c next, f => issue c fun r => (next r).bind f

instance : Monad (Program σ) where
  pure := done
  bind := bind

/-- Issues one command. -/
def call (c : Command) : Program σ c.Reply := issue c done

def state : Program σ σ := get done

/-- Changes the state. -/
def update (f : σ → σ) : Program σ Unit := get fun s => set (f s) (done ())

end Program

end StandingQuery
