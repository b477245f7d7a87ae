import StandingQuery.Proofs.Deferral

/-! What happens in the course of a run.

A run is a list of *moves*: calls of the engine from outside, and what goes on between
them. Beside it two records are kept. The *log* lists what can be observed: the solutions
that are served, the answers to commands, and the calls that do not come to their end. It
is written by the client itself, whose programs note what they do (`Client.noted`), and
noting it changes nothing else (`Engine.execute_noted`). The *points* are the requests that
are applied, each with the engine as it is then. Any program, with the worker's turns
between its commands, is a list of moves (`perform_follows`). -/
namespace StandingQuery
open Std

variable {σ α : Type}

/-! ### Notes -/

/-- Something that can be observed. -/
inductive Happening where
  | served (x : Solution)
  /-- A command inside a subscriber has been answered. -/
  | answered (c : Command) (r : c.Reply)
  /-- A call from outside has returned. -/
  | returned (c : Command) (r : c.Reply)
  /-- A call from outside has not come to its end. -/
  | broken (c : Command)

/-- How a call from outside ends. -/
def Command.ending (c : Command) : Outcome c.Reply → Happening
  | .done r => .returned c r
  | .failed => .broken c
  | .unfinished => .broken c

/-- The program, which also notes the answers to its commands. -/
def Program.noted : Program σ α → Program (σ × List Happening) α
  | .done a => .done a
  | .fail => .fail
  | .get next => .get fun t => (next t.1).noted
  | .set s next => .get fun t => .set (s, t.2) next.noted
  | .issue c next => .issue c fun r => .get fun t => .set (t.1, t.2 ++ [.answered c r]) (next r).noted

/-- The client, which also notes what its subscribers are served and what they do. -/
def Client.noted (client : Client σ) : Client (σ × List Happening) where
  respond x := .get fun t => .set (t.1, t.2 ++ [.served x]) (client.respond x).noted
  cleanupDue who since queries tuples t :=
    let (due, s) := client.cleanupDue who since queries tuples t.1
    (due, s, t.2)

/-! ### Points -/

/-- A request that is applied, with the engine that applies it. -/
structure Point (σ : Type) where
  engine : Engine
  state : σ
  request : Request
  /-- It has waited in the queue. -/
  deferred : Bool

namespace Point

def now (p : Point σ) : Nat := p.engine.front.clock.now

def applied (client : Client σ) (p : Point σ) : Engine.Applied σ :=
  Engine.apply client p.engine p.state p.request

end Point

namespace Engine

/-- The points of working off the deferred requests. -/
def drainPoints (client : Client σ) : (fuel : Nat) → Engine → σ → List (Point σ)
  | fuel, e, s =>
    match e.front.queue with
    | [] => []
    | r :: queue =>
      match fuel with
      | 0 => []
      | fuel + 1 =>
        let e := { e with front := { e.front with queue } }
        let a := apply client e s r
        ⟨e, s, r, true⟩ :: if a.failed then [] else drainPoints client fuel a.engine a.state

/-- The points of applying a request with everything that is deferred meanwhile. -/
def runPoints (client : Client σ) (fuel : Nat) (e : Engine) (s : σ) (r : Request) : List (Point σ) :=
  let a := apply client e s r
  ⟨e, s, r, false⟩ :: if a.failed then [] else drainPoints client fuel a.engine a.state

/-- The points of a call from outside. -/
def points (client : Client σ) (fuel : Nat) (e : Engine) (s : σ) (c : Command) : List (Point σ) :=
  match e.outset c with
  | none => []
  | some (r, e) => runPoints client fuel e s r

end Engine

/-! ### Courses -/

/-- Where a run stands, with its log and its points so far. -/
structure Course (σ : Type) where
  engine : Engine
  state : σ
  log : List Happening := []
  points : List (Point (σ × List Happening)) := []

/-- One move of a run. -/
inductive Move (σ : Type) where
  /-- A call from outside. For the index the worker's evictions are calls like any other. -/
  | call (c : Command) (fuel : Nat)
  /-- The client, or its rule, does something of its own. -/
  | own (s : σ)
  /-- The worker looks at its signals. -/
  | look

namespace Course

/-- A new engine. -/
def start (config : Config) (clock : Clock) (s : σ) : Course σ :=
  { engine := .new config clock, state := s }

def next (client : Client σ) (x : Course σ) : Move σ → Course σ
  | .call c fuel =>
    let o := x.engine.execute client.noted fuel (x.state, x.log) c
    { engine := o.2.1
      state := o.2.2.1
      log := o.2.2.2 ++ [c.ending o.1]
      points := x.points ++ x.engine.points client.noted fuel (x.state, x.log) c }
  | .own s => { x with state := s }
  | .look => { x with engine := { x.engine with front := { x.engine.front with signals := 0 } } }

def follow (client : Client σ) (x : Course σ) (moves : List (Move σ)) : Course σ :=
  moves.foldl (next client) x

/-- A run of a new engine. -/
def run (client : Client σ) (config : Config) (clock : Clock) (s : σ) (moves : List (Move σ)) :
    Course σ :=
  (start config clock s).follow client moves

end Course

def Happening.isBroken : Happening → Bool
  | .broken _ => true
  | _ => false

/-- Every call has come to its end. -/
def Course.Unbroken (x : Course σ) : Prop := ∀ h ∈ x.log, h.isBroken = false

instance (x : Course σ) : Decidable x.Unbroken :=
  inferInstanceAs (Decidable (∀ h ∈ x.log, h.isBroken = false))

/-! ### Notes change nothing -/

section Forgetting

variable {client : Client σ} {config : Config}

/-- The desk without the notes. -/
def Desk.forget {β : Type} (d : Desk (σ × β)) : Desk σ := ⟨d.active, d.front, d.state.1⟩

theorem Client.signalIfDue_noted (client : Client σ) (f : Front) (t : σ × List Happening) :
    client.noted.signalIfDue f t =
      ((client.signalIfDue f t.1).1, (client.signalIfDue f t.1).2, t.2) := by
  unfold signalIfDue
  split
  · rfl
  · rfl

theorem Desk.answer_noted (config : Config) (client : Client σ) (d : Desk (σ × List Happening))
    (c : Command) :
    d.forget.answer config client c =
        ((d.answer config client.noted c).1, (d.answer config client.noted c).2.forget) ∧
      (d.answer config client.noted c).2.state.2 = d.state.2 := by
  cases c with
  | register query ttl =>
    cases h : d.front.enrol config query ttl with
    | error e =>
      have hsame : d.forget.front.enrol config query ttl = .error e := h
      simp only [answer, h, hsame]
      exact ⟨trivial, trivial⟩
    | ok p =>
      have hsame : d.forget.front.enrol config query ttl = .ok p := h
      simp only [answer, h, hsame, Client.signalIfDue_noted]
      exact ⟨rfl, trivial⟩
  | cancel id =>
    by_cases hactive : d.active.contains id = true
    · have hsame : d.forget.active.contains id = true := hactive
      simp only [answer, hactive, hsame, if_true]
      exact ⟨rfl, rfl⟩
    · have hsame : ¬ d.forget.active.contains id = true := hactive
      simp only [answer, hactive, hsame]
      exact ⟨rfl, rfl⟩
  | renew id ttl =>
    by_cases hactive : (d.active.contains id && config.admitsQueryTtl ttl) = true
    · have hsame : (d.forget.active.contains id && config.admitsQueryTtl ttl) = true := hactive
      simp only [answer, hactive, hsame, if_true]
      exact ⟨rfl, rfl⟩
    · have hsame : ¬ (d.forget.active.contains id && config.admitsQueryTtl ttl) = true := hactive
      simp only [answer, hactive, hsame]
      exact ⟨rfl, rfl⟩
  | _ => exact ⟨rfl, rfl⟩

theorem Desk.run_noted (d : Desk (σ × List Happening)) (p : Program σ α) :
    run config client d.forget p =
      ((run config client.noted d p.noted).1, (run config client.noted d p.noted).2.forget) := by
  induction p generalizing d with
  | done a => rfl
  | fail => rfl
  | get next ih => exact ih d.state.1 d
  | set s next ih => exact ih { d with state := (s, d.state.2) }
  | issue c next ih =>
    have hanswer : d.forget.answer config client c = _ := (answer_noted config client d c).1
    rw [run, hanswer]
    exact ih _ { (d.answer config client.noted c).2 with
      state := ((d.answer config client.noted c).2.state.1, (d.answer config client.noted c).2.state.2 ++
        [.answered c (d.answer config client.noted c).1]) }

theorem Client.imitates_noted (client : Client σ) (config : Config) :
    (client.subscriber config).Imitates (client.noted.subscriber config) fun t s =>
      (t.1, t.2.1) = s := by
  intro active ⟨front, s, log⟩ x t ht
  have hrun : Desk.run config client ⟨active, front, s⟩ (client.respond x) = _ :=
    Desk.run_noted ⟨active, front, s, log ++ [.served x]⟩ (client.respond x)
  refine ⟨(front, s), rfl, ?_⟩
  rw [← ht]
  unfold subscriber
  dsimp only
  rw [hrun]
  rfl

namespace Engine

variable {e : Engine} {t : σ × List Happening} {r : Request} {c : Command} {fuel : Nat}

theorem apply_noted (client : Client σ) (e : Engine) (t : σ × List Happening) (r : Request) :
    let a := apply client.noted e t r
    apply client e t.1 r = ⟨a.answer, a.engine, a.state.1, a.failed⟩ := by
  cases r with
  | register r =>
    unfold apply
    dsimp only
    cases e.index.register r e.front.clock.now <;> rfl
  | add x ttl =>
    obtain ⟨_, rfl, hadd⟩ := QueryIndex.imitates_add (client.imitates_noted e.config) e.index x ttl
      e.front.clock.now (e.front, t) _ rfl
    unfold apply
    dsimp only at hadd ⊢
    rw [hadd]
    rfl
  | _ => rfl

/-- An outcome with an engine and a state, without the notes. -/
def forget (o : Outcome α × Engine × σ × List Happening) : Outcome α × Engine × σ :=
  (o.1, o.2.1, o.2.2.1)

theorem drain_noted (client : Client σ) (fuel : Nat) (e : Engine) (t : σ × List Happening) :
    drain client fuel e t.1 = forget (drain client.noted fuel e t) := by
  fun_induction drain client.noted fuel e t with
  | case1 fuel e t hq => rw [drain, hq]; rfl
  | case2 e t r queue hq => rw [drain, hq]; rfl
  | case3 e t r queue hq fuel a hfailed =>
    have ha := apply_noted client { e with front := { e.front with queue } } t r
    rw [drain, hq]
    dsimp only at ha ⊢
    rw [ha, if_pos hfailed]
    rfl
  | case4 e t r queue hq fuel a hfailed ih =>
    have ha := apply_noted client { e with front := { e.front with queue } } t r
    rw [drain, hq]
    dsimp only at ha ⊢
    rw [ha, if_neg hfailed]
    exact ih

theorem run_noted (client : Client σ) (fuel : Nat) (e : Engine) (t : σ × List Happening)
    (r : Request) : run client fuel e t.1 r = forget (run client.noted fuel e t r) := by
  have ha := apply_noted client e t r
  unfold run
  dsimp only at ha ⊢
  rw [ha]
  dsimp only
  split
  · rfl
  · rw [drain_noted]
    cases drain client.noted fuel (apply client.noted e t r).engine
      (apply client.noted e t r).state with
    | mk outcome after => cases outcome <;> rfl

theorem runThen_noted (client : Client σ) (fuel : Nat) (e : Engine) (t : σ × List Happening)
    (r : Request) {next : Answer → Engine → σ → α × Engine × σ}
    {next' : Answer → Engine → σ × List Happening → α × Engine × σ × List Happening}
    (h : ∀ a e t, next a e t.1 = ((next' a e t).1, (next' a e t).2.1, (next' a e t).2.2.1)) :
    runThen client fuel e t.1 r next = forget (runThen client.noted fuel e t r next') := by
  unfold runThen
  rw [run_noted]
  cases run client.noted fuel e t r with
  | mk outcome after =>
    cases outcome with
    | done a =>
      unfold forget
      dsimp only
      rw [h a after.1 after.2]
    | failed => rfl
    | unfinished => rfl

/-- A client that notes what happens is the same to the engine. -/
theorem execute_noted (client : Client σ) (fuel : Nat) (e : Engine) (t : σ × List Happening)
    (c : Command) : e.execute client fuel t.1 c = forget (e.execute client.noted fuel t c) := by
  have hsignal : ∀ (e : Engine) (t : σ × List Happening), signalIfDue client e t.1 =
      ((signalIfDue client.noted e t).1, (signalIfDue client.noted e t).2.1) := by
    intro e t
    unfold signalIfDue
    rw [Client.signalIfDue_noted]
  cases c with
  | register query ttl =>
    unfold execute register
    dsimp only
    cases e.front.enrol e.config query ttl with
    | error reason => rfl
    | ok p =>
      refine runThen_noted client fuel _ t _ fun a e t => ?_
      cases a <;> simp only [hsignal]
  | cancel id =>
    unfold execute cancel
    dsimp only
    split
    · split
      · exact runThen_noted client fuel _ t _ fun _ _ _ => rfl
      · rfl
    · rfl
  | renew id ttl =>
    unfold execute renew
    dsimp only
    split
    · exact runThen_noted client fuel _ t _ fun _ _ _ => rfl
    · rfl
  | add x ttl =>
    unfold execute add
    exact runThen_noted client fuel _ t _ fun a e t => by rw [hsignal]
  | removeExpired =>
    unfold execute removeExpired
    refine runThen_noted client fuel _ t _ fun a e t => ?_
    cases a <;> rfl
  | clear =>
    unfold execute
    exact runThen_noted client fuel _ t _ fun _ _ _ => rfl
  | _ => rfl

end Engine

end Forgetting

/-! ### Programs as moves -/

namespace Course

variable {client : Client σ} {x : Course σ}

theorem follow_append (client : Client σ) (x : Course σ) (moves moves' : List (Move σ)) :
    x.follow client (moves ++ moves') = (x.follow client moves).follow client moves' :=
  List.foldl_append

/-- Of the engine and the client's state a call makes what it makes of them without the notes. -/
theorem next_call (client : Client σ) (x : Course σ) (c : Command) (fuel : Nat) :
    (x.next client (.call c fuel)).engine = (x.engine.execute client fuel x.state c).2.1 ∧
      (x.next client (.call c fuel)).state = (x.engine.execute client fuel x.state c).2.2 := by
  rw [Engine.execute_noted client fuel x.engine (x.state, x.log) c]
  exact ⟨rfl, rfl⟩

/-- Moves that lead to an engine and a state of the client. -/
def LeadsTo (client : Client σ) (x : Course σ) (after : Engine × σ) : Prop :=
  ∃ moves, (x.follow client moves).engine = after.1 ∧ (x.follow client moves).state = after.2

theorem LeadsTo.stay : LeadsTo client x (x.engine, x.state) := ⟨[], rfl, rfl⟩

theorem LeadsTo.move {m : Move σ} {after : Engine × σ} (h : LeadsTo client (x.next client m) after) :
    LeadsTo client x after := by
  obtain ⟨moves, hengine, hstate⟩ := h
  exact ⟨m :: moves, hengine, hstate⟩

theorem LeadsTo.trans {after after' : Engine × σ} (h : LeadsTo client x after)
    (h' : ∀ y : Course σ, (y.engine, y.state) = after → LeadsTo client y after') :
    LeadsTo client x after' := by
  obtain ⟨moves, hengine, hstate⟩ := h
  obtain ⟨moves', hengine', hstate'⟩ := h' (x.follow client moves) (Prod.ext hengine hstate)
  exact ⟨moves ++ moves', by rwa [follow_append], by rwa [follow_append]⟩

theorem rounds_follows (client : Client σ) (fuel n : Nat) (x : Course σ) :
    LeadsTo client x (Engine.rounds client fuel n x.engine x.state) := by
  induction n generalizing x with
  | zero => exact .stay
  | succ n ih =>
    unfold Engine.rounds
    generalize client.asks .worker x.engine.front x.state = asked
    obtain ⟨due, s⟩ := asked
    refine LeadsTo.move (m := .own s) ?_
    cases due with
    | false => exact ih _
    | true =>
      -- The worker's eviction does to the engine what a call of the client would.
      have hcall : ∀ (e : Engine) (s : σ), (e.execute client fuel s .removeExpired).2 =
          (Engine.run client fuel e s .removeExpired).2 := by
        intro e s
        unfold Engine.execute Engine.removeExpired Engine.runThen
        cases Engine.run client fuel e s .removeExpired with
        | mk outcome after =>
          cases outcome with
          | done a => cases a <;> rfl
          | failed => rfl
          | unfinished => rfl
      refine LeadsTo.move (m := .call .removeExpired fuel) ?_
      obtain ⟨hengine, hstate⟩ := next_call client (x.next client (.own s)) .removeExpired fuel
      rw [hcall] at hengine hstate
      have hrest := ih ((x.next client (.own s)).next client (.call .removeExpired fuel))
      rw [hengine, hstate] at hrest
      exact hrest

theorem housekeep_follows (client : Client σ) (fuel : Nat) (x : Course σ) :
    LeadsTo client x (Engine.housekeep client fuel x.engine x.state) :=
  LeadsTo.move (m := .look) (rounds_follows client fuel _ (x.next client .look))

/-- Whatever a program does outside of all subscribers, with the worker's turns in between, is a
list of moves. -/
theorem perform_follows (client : Client σ) (fuel : Nat) (x : Course σ) (p : Program σ α) :
    LeadsTo client x (Engine.perform client fuel x.engine x.state p).2 := by
  induction p generalizing x with
  | done a => exact .stay
  | fail => exact .stay
  | get next ih => exact ih x.state x
  | set s next ih => exact LeadsTo.move (m := .own s) (ih (x.next client (.own s)))
  | issue c next ih =>
    refine LeadsTo.move (m := .call c fuel) ?_
    obtain ⟨hengine, hstate⟩ := next_call client x c fuel
    have hkept := housekeep_follows client fuel (x.next client (.call c fuel))
    have hstay : LeadsTo client (x.next client (.call c fuel)) _ := .stay
    unfold Engine.perform
    rw [hengine, hstate] at hkept hstay
    cases hcall : x.engine.execute client fuel x.state c with
    | mk outcome after =>
      rw [hcall] at hkept hstay
      cases outcome with
      | done r =>
        refine hkept.trans fun y hy => ?_
        dsimp only
        rw [← hy]
        exact ih r y
      | failed => exact hkept
      | unfinished => exact hstay

end Course

end StandingQuery
