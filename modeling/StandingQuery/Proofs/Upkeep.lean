import StandingQuery.Proofs.Operations
import StandingQuery.Proofs.Transcript

/-! What is kept up in the course of a run.

All that a client can do, from inside a subscriber and from outside, comes down to a few
small steps: a command issues a request or nothing (`Issues`), a solution is served, a query
is over, a request is applied, and the rest of the engine `Stands`. What every one of them
keeps, holds throughout: of an addition with all its subscribers (`add_keeps`), of working
off the queue (`Upheld.drain`), and of a whole call (`Upheld.execute`). -/
namespace StandingQuery
open Std

variable {σ τ α : Type}

/-! ### Additions, step by step -/

namespace Registered

variable {q : Registered} {now : Nat} {receive : Subscriber τ} {P : Active → τ → Prop}

/-- What every reaction keeps holds after a delivery, before its query is struck off if it is over. -/
theorem deliver_keeps (hserve : ∀ a s x, P a s → x.query = q.id → x.query ∈ a →
      x.expiration.expiredAt now = false → P (receive a s x).active (receive a s x).state)
    {a : Active} {s : τ} (h : P a s) (cs : List Candidate) :
    let d := q.deliver receive now a s cs
    (d.satisfied = false ∧ P d.active d.state) ∨
      (d.satisfied = true ∧ ∃ a', P a' d.state ∧ d.active = a'.erase q.id) := by
  induction cs generalizing q a s with
  | nil => exact .inl ⟨rfl, h⟩
  | cons c rest ih =>
    by_cases hpassed : (c.expiration.expiredAt now || !a.contains q.id) = true
    · simp only [deliver_passed hpassed]
      exact ih hserve h
    · simp only [deliver_offered hpassed]
      rw [Bool.not_eq_true, Bool.or_eq_false_iff, Bool.not_eq_false'] at hpassed
      obtain ⟨hvalid, hactive⟩ := hpassed
      have hsettled := settled_offer (q := q) (c := c)
      cases hoffer : q.offer c with
      | mk verdict q' =>
        rw [hoffer] at hsettled
        have hid : q'.id = q.id := id_of_settled hsettled
        have hserve' := hid ▸ hserve
        cases verdict with
        | suppressed =>
          have hrest := ih hserve' h
          rwa [hid] at hrest
        | exhausted => exact .inr ⟨rfl, a, h, congrArg a.erase hid⟩
        | delivered x last =>
          obtain ⟨rfl, -⟩ := offer_delivered hoffer
          have hreaction := hserve a s (q.solution c) h rfl (ExtTreeSet.mem_iff_contains.2 hactive) hvalid
          cases hfailed : (receive a s (q.solution c)).failed with
          | true =>
            refine .inl ⟨by simp [hfailed], ?_⟩
            simpa [hfailed] using hreaction
          | false =>
            cases last with
            | true =>
              refine .inr ⟨by simp [hfailed], (receive a s (q.solution c)).active, ?_, ?_⟩
              · simpa [hfailed] using hreaction
              · simp [hfailed, hid]
            | false =>
              have hrest := ih hserve' hreaction
              rw [hid] at hrest
              simpa [hfailed] using hrest

end Registered

namespace QueryIndex

variable {x : QueryIndex} {receive : Subscriber τ} {t : Tuple} {ttl now : Nat} {e : Expiration}
variable {P : List QueryId → Active → τ → Prop}

/-- An addition under way: nothing that it does concerns which queries are registered, and of the
queries that are over, the active ones and the state, `P` holds. -/
structure Underway (x : QueryIndex) (P : List QueryId → Active → τ → Prop) (w : Addition τ) : Prop where
  consistent : w.index.Consistent []
  settled : ∀ id, w.index.settled? id = x.settled? id
  settings : w.index.settings = x.settings
  holds : P w.satisfied w.index.active w.state

/-- What a subscriber is served belongs to a registered and active query and is valid, and a query
that is over is registered. -/
structure Kept (x : QueryIndex) (now : Nat) (receive : Subscriber τ)
    (P : List QueryId → Active → τ → Prop) : Prop where
  serve : ∀ past a s y q, P past a s → x.registry.get? y.query = some q → y.query ∈ a →
    y.expiration.expiredAt now = false → P past (receive a s y).active (receive a s y).state
  past : ∀ past a s id q, P past a s → x.registry.get? id = some q → P (past ++ [id]) (a.erase id) s

theorem get?_of_settled {y : QueryIndex} {id : QueryId} {q : Registered}
    (h : y.settled? id = x.settled? id) (hq : y.registry.get? id = some q) :
    ∃ q', x.registry.get? id = some q' ∧ q'.settled = q.settled := by
  unfold settled? at h
  rw [hq, Option.map_some, eq_comm, Option.map_eq_some_iff] at h
  exact h

theorem underway_visit [e.Timely] (hP : Kept x now receive P) {w : Addition τ}
    (h : Underway x P w) (ref : PatternRef) : Underway x P (visit receive t e now w ref) := by
  refine ⟨consistent_visit h.consistent receive t e now ref, fun id => ?_, ?_, ?_⟩
  · exact (settled?_visit h.consistent t e now ref id).trans (h.settled id)
  · exact (settings_visit h.consistent t e now ref).trans h.settings
  · rcases visit_cases receive t e now w ref with hsame | ⟨q, b, hfailed, hq, hactive, hb⟩
    · rw [hsame]
      exact h.holds
    · obtain ⟨q', hq', hsettled⟩ := get?_of_settled (h.settled ref.query) hq
      have hid : q.id = ref.query := (h.consistent.accepted _ q hq).id
      rw [visit_match hfailed hq hactive hb]
      dsimp only
      rcases Registered.deliver_keeps (P := P w.satisfied) (fun a s y hPs hy hin hvalid =>
          hP.serve _ a s y q' hPs (by rw [hy, hid, hq']) hin hvalid) h.holds
        (w.index.joins.advance w.index.expirations q ref.pattern ⟨b, e⟩ now).candidates with
        ⟨hgoes, hholds⟩ | ⟨hover, a', hholds, hactive'⟩
      · rw [hgoes]
        exact hholds
      · rw [hover, hactive', if_pos rfl, Registered.id_deliver, hid]
        exact hP.past _ a' _ _ q' hholds hq'

/-- What serving a solution and ending a query keep holds of an addition when its visits are done.
Then the queries that are over are taken out, unless a subscriber has failed. -/
theorem add_keeps (hc : x.Consistent []) (hP : Kept x now receive P) {s : τ}
    (h : P [] x.active s) : ∃ w : Addition τ, Underway x P w ∧
      x.add receive t ttl now s = if w.failed then w else
        { w with index := w.satisfied.foldl (fun x id => (x.unregister id).2) w.index } := by
  have hstart : Underway x P { index := x, state := s } := ⟨hc, fun _ => rfl, rfl, h⟩
  unfold add
  split
  · exact ⟨_, hstart, rfl⟩
  · refine ⟨_, ?_, rfl⟩
    generalize x.patterns.lookup t = refs
    induction refs using List.reverseRecOn with
    | nil => exact hstart
    | append_singleton refs ref ih =>
      rw [List.foldl_append]
      exact underway_visit hP ih ref

end QueryIndex

/-! ### Commands -/

def Request.isRegister : Request → Bool
  | .register _ => true
  | _ => false

def Request.isAdd : Request → Bool
  | .add .. => true
  | _ => false

def Request.isEviction : Request → Bool
  | .removeExpired => true
  | _ => false

theorem Request.eq_of_isEviction {r : Request} (h : r.isEviction = true) : r = .removeExpired := by
  cases r <;> first | rfl | cases h

/-- A query enters the index. -/
def Point.enters (p : Point τ) : Bool :=
  match p.request with
  | .register r => (p.engine.index.register r p.now).isOk
  | _ => false

theorem Point.isRegister_of_enters {p : Point τ} (h : p.enters = true) : p.request.isRegister = true := by
  unfold enters at h
  split at h
  · next r hr => rw [hr, Request.isRegister]
  · cases h

namespace Front

/-- Nothing has happened but to the clock, the signals and the published sizes, and the engine may
have been given up. -/
structure Alike (f g : Front) : Prop where
  nextId : g.nextId = f.nextId
  queue : g.queue = f.queue
  queriesSince : g.queriesSince = f.queriesSince
  tuplesSince : g.tuplesSince = f.tuplesSince
  alive : g.alive = true → f.alive = true

theorem Alike.refl (f : Front) : f.Alike f := ⟨rfl, rfl, rfl, rfl, id⟩

/-- What issuing a request does at once, if one is issued. A new query has the next id and counts
for `n`, and is the only one that is active from then on and was not before. -/
inductive Issues (config : Config) (n : Nat) (a : Active) (f : Front) : Active → Front → Prop where
  | nothing {g : Front} : f.Alike g → Issues config n a f a g
  | register {r : Registration} {g : Front} : r.id = f.nextId →
      r.query.validate config.arity = .ok r.analysis →
      { f with
        queue := f.queue ++ [.register r]
        nextId := f.nextId + 1
        queriesSince := f.queriesSince + n : Front }.Alike g →
      Issues config n a f (a.insert r.id) g
  | other {r : Request} {g : Front} : r.isRegister = false →
      { f with
        queue := f.queue ++ [r]
        tuplesSince := f.tuplesSince + r.isAdd.toNat : Front }.Alike g →
      Issues config n a f (r.flag a) g

theorem Alike.signals (f : Front) (n : Nat) : f.Alike { f with signals := n } :=
  ⟨rfl, rfl, rfl, rfl, id⟩

end Front

variable {config : Config} {client : Client σ}

/-- A command inside a subscriber issues its request, or nothing. -/
theorem Desk.issues_answer (config : Config) (client : Client σ) (d : Desk σ) (c : Command) :
    Front.Issues config 1 d.active d.front (d.answer config client c).2.active
      (d.answer config client c).2.front := by
  cases c with
  | register query ttl =>
    cases h : d.front.enrol config query ttl with
    | error e =>
      simp only [answer, h]
      exact .nothing (.refl _)
    | ok p =>
      obtain ⟨r, front⟩ := p
      obtain ⟨hvalid, hr, rfl⟩ := Front.enrol_eq_ok h
      obtain ⟨n, hn⟩ := client.signalIfDue_front
        { d.front with
          queue := d.front.queue ++ [.register r]
          nextId := d.front.nextId + 1
          queriesSince := d.front.queriesSince + 1 } d.state
      simp only [answer, h, Front.defer, hn]
      refine .register (by rw [hr]) (by rw [hr]; exact hvalid) ?_
      exact ⟨rfl, rfl, rfl, rfl, id⟩
  | cancel id =>
    by_cases hactive : d.active.contains id = true
    · simp only [answer, hactive, if_true]
      exact .other (r := .unregister id) rfl ⟨rfl, rfl, rfl, rfl, fun h => h⟩
    · simp only [answer, hactive]
      exact .nothing (.refl _)
  | renew id ttl =>
    by_cases hactive : (d.active.contains id && config.admitsQueryTtl ttl) = true
    · simp only [answer, hactive, if_true]
      exact .other (r := .renew id ttl) rfl ⟨rfl, rfl, rfl, rfl, fun h => h⟩
    · simp only [answer, hactive]
      exact .nothing (.refl _)
  | add t ttl => exact .other (r := .add t ttl) rfl ⟨rfl, rfl, rfl, rfl, id⟩
  | removeExpired => exact .other (r := .removeExpired) rfl ⟨rfl, rfl, rfl, rfl, id⟩
  | clear => exact .other (r := .clear) rfl ⟨rfl, rfl, rfl, rfl, id⟩
  | drop => exact .nothing ⟨rfl, rfl, rfl, rfl, fun h => Bool.noConfusion h⟩
  | _ => exact .nothing ⟨rfl, rfl, rfl, rfl, fun h => h⟩

namespace Client

/-- The desk after a command, which is noted. -/
def told (client : Client σ) (config : Config) (d : Desk (σ × List Happening)) (c : Command) :
    Desk (σ × List Happening) :=
  let (r, d) := d.answer config client.noted c
  { d with state := (d.state.1, d.state.2 ++ [.answered c r]) }

/-- What the service of a solution and the answers to commands keep, a subscriber keeps. -/
theorem subscriber_keeps {K : Active → Front → List Happening → Prop}
    (htold : ∀ d c, K d.active d.front d.state.2 → K (client.told config d c).active
      (client.told config d c).front (client.told config d c).state.2)
    {a : Active} {f : Front} {s : σ} {log : List Happening} {x : Solution}
    (h : K a f (log ++ [.served x])) :
    let r := client.noted.subscriber config a (f, s, log) x
    K r.active r.state.1 r.state.2.2 := by
  have hrun : ∀ {α : Type} (p : Program σ α) (d : Desk (σ × List Happening)),
      K d.active d.front d.state.2 →
        K (Desk.run config client.noted d p.noted).2.active
          (Desk.run config client.noted d p.noted).2.front
          (Desk.run config client.noted d p.noted).2.state.2 := by
    intro α p
    induction p with
    | done a => exact fun d h => h
    | fail => exact fun d h => h
    | get next ih => exact fun d h => ih d.state.1 d h
    | set s next ih => exact fun d h => ih { d with state := (s, d.state.2) } h
    | issue c next ih => exact fun d h => ih _ (client.told config d c) (htold d c h)
  exact hrun (client.respond x) ⟨a, f, s, log ++ [.served x]⟩ h

end Client

/-! ### Requests -/

namespace Engine

variable {e : Engine} {s : σ} {log : List Happening}

/-- A query is registered, or refused and struck off. -/
theorem apply_register (client : Client τ) (e : Engine) (s : τ) (r : Registration) :
    (∃ y, e.index.register r e.front.clock.now = .ok y ∧
        apply client e s (.register r) = { engine := { e with index := y }, state := s }) ∨
      ∃ reason, e.index.register r e.front.clock.now = .error reason ∧
        apply client e s (.register r) = { answer := .refused reason
                                           engine := { e with index := e.index.deactivate r.id }
                                           state := s } := by
  unfold apply
  dsimp only
  cases e.index.register r e.front.clock.now with
  | ok y => exact .inl ⟨y, rfl, rfl⟩
  | error reason => exact .inr ⟨reason, rfl, rfl⟩

/-- What goes on while a tuple is added keeps `K`: of the queries that are over, the active ones,
the front and the log. -/
structure Sustains (client : Client σ) (e : Engine)
    (K : List QueryId → Active → Front → List Happening → Prop) : Prop where
  serve : ∀ past a f log x q, K past a f log → e.index.registry.get? x.query = some q → x.query ∈ a →
    x.expiration.expiredAt e.front.clock.now = false → K past a f (log ++ [.served x])
  told : ∀ past d c, K past d.active d.front d.state.2 → K past (client.told e.config d c).active
    (client.told e.config d c).front (client.told e.config d c).state.2
  past : ∀ past a f log id q, K past a f log → e.index.registry.get? id = some q →
    K (past ++ [id]) (a.erase id) f log

/-- The index when all visits are done, with the queries that are over. They are taken out then,
unless a subscriber has failed. -/
structure Visited (e : Engine) (K : List QueryId → Active → Front → List Happening → Prop)
    (a : Applied (σ × List Happening)) (x : QueryIndex) (past : List QueryId) : Prop where
  consistent : x.Consistent []
  settled : ∀ id, x.settled? id = e.index.settled? id
  settings : x.settings = e.index.settings
  holds : K past x.active a.engine.front a.state.2
  config : a.engine.config = e.config
  index : a.engine.index =
    if a.failed then x else past.foldl (fun x id => (x.unregister id).2) x

theorem visited_add {K : List QueryId → Active → Front → List Happening → Prop}
    (hc : e.index.Consistent []) (hK : Sustains client e K) (h : K [] e.index.active e.front log)
    (s : σ) (t : Tuple) (ttl : Nat) :
    ∃ x past, Visited e K (apply client.noted e (s, log) (.add t ttl)) x past := by
  have hkept : QueryIndex.Kept e.index e.front.clock.now (client.noted.subscriber e.config)
      fun past a t => K past a t.1 t.2.2 := by
    constructor
    · intro past a t y q hK' hq hin hvalid
      exact client.subscriber_keeps (hK.told past) (hK.serve past a t.1 t.2.2 y q hK' hq hin hvalid)
    · exact fun past a t id q hK' hq => hK.past past a t.1 t.2.2 id q hK' hq
  obtain ⟨w, hw, hadd⟩ := QueryIndex.add_keeps hc hkept (s := (e.front, s, log)) h
  have happlied : apply client.noted e (s, log) (.add t ttl) =
      { answer := .flag w.changed
        engine := { e with
          index := if w.failed then w.index else
            w.satisfied.foldl (fun x id => (x.unregister id).2) w.index
          front := w.state.1 }
        state := w.state.2
        failed := w.failed } := by
    unfold apply
    dsimp only
    rw [hadd]
    split <;> rfl
  rw [happlied]
  exact ⟨w.index, w.satisfied, hw.consistent, hw.settled, hw.settings, hw.holds, rfl, rfl⟩

/-- Nothing has happened to the index or the front, except that flags may be struck off once the
engine has been given up. -/
structure Stands (e e' : Engine) : Prop where
  config : e'.config = e.config
  front : e.front.Alike e'.front
  index : e'.index = { e.index with active := e'.index.active }
  active : ∀ id ∈ e'.index.active, id ∈ e.index.active
  alive : e'.front.alive = true → e'.index.active = e.index.active

theorem Stands.of_front {f : Front} (h : e.front.Alike f) : e.Stands { e with front := f } :=
  ⟨rfl, h, rfl, fun _ h => h, fun _ => rfl⟩

/-- A request waits in front of all others. -/
def push (e : Engine) (r : Request) : Engine :=
  { e with front := { e.front with queue := r :: e.front.queue } }

theorem push_of_queue {r : Request} {queue : List Request} (h : e.front.queue = r :: queue) :
    push { e with front := { e.front with queue } } r = e := by
  unfold push
  rw [← h]

/-- The numbers of queries and of partial solutions, as they have been made known. -/
def sizes (e : Engine) : Nat × Nat := (e.front.queryCount, e.front.partialCount)

/-- A call ends as its request does. What it does after that is to count a query and to wake the
worker. -/
structure Finishes (c : Command) (p : Outcome Answer × Engine × σ × List Happening)
    (p' : Outcome α × Engine × σ × List Happening) : Prop where
  ends : p'.1.ends = p.1.ends
  stands : (p.2.1.counted (tally c p.1)).Stands p'.2.1
  sizes : p'.2.1.sizes = p.2.1.sizes
  log : p'.2.2.2 = p.2.2.2

/-- A call that comes to a request applies it and finishes. -/
theorem finishes_execute {c : Command} {r : Request} {e₀ : Engine} (h : e.outset c = some (r, e₀))
    (client : Client σ) (fuel : Nat) (t : σ × List Happening) :
    Finishes c (run client.noted fuel e₀ t r) (e.execute client.noted fuel t c) := by
  obtain ⟨next, hexecute, hcloses⟩ := execute_eq_runThen h client.noted fuel t
  have hbroken : ∀ (o : Outcome Answer) (e : Engine), (∀ a, o ≠ .done a) →
      (e.counted (tally c o)).Stands e := by
    intro o e ho
    have hnone : tally c o = 0 := by
      unfold tally
      split <;> first | rfl | exact absurd rfl (ho _)
    rw [hnone]
    exact .of_front (.refl e.front)
  rw [hexecute]
  unfold runThen
  cases run client.noted fuel e₀ t r with
  | mk outcome after =>
    cases outcome with
    | done a =>
      obtain ⟨⟨n, hn⟩, hstate⟩ := hcloses a after.1 after.2
      dsimp only
      rw [hn]
      refine ⟨rfl, .of_front (.signals _ n), rfl, ?_⟩
      rcases hstate with hsame | ⟨f, hasked⟩
      · rw [hsame]
      · rw [hasked, client.signalIfDue_noted]
    | failed => exact ⟨rfl, hbroken _ _ (by simp), rfl, rfl⟩
    | unfinished => exact ⟨rfl, hbroken _ _ (by simp), rfl, rfl⟩

/-- A call that comes to no request returns at once. -/
theorem execute_idle {c : Command} (h : e.outset c = none) (client : Client σ) (fuel : Nat)
    (t : σ × List Happening) : ∃ r, (e.execute client.noted fuel t c).1 = .done r ∧
      e.Stands (e.execute client.noted fuel t c).2.1 ∧
      (e.execute client.noted fuel t c).2.1.sizes = e.sizes ∧
      (e.execute client.noted fuel t c).2.2 = t := by
  have hfront : ∀ f : Front, e.front.Alike f → e.Stands { e with front := f } := fun _ => .of_front
  cases c with
  | register query ttl =>
    unfold outset at h
    dsimp only at h
    cases henrol : e.front.enrol e.config query ttl with
    | error reason =>
      simp only [execute, register, henrol]
      exact ⟨_, rfl, hfront _ (.refl _), trivial, trivial⟩
    | ok p =>
      rw [henrol] at h
      cases h
  | cancel id =>
    unfold outset at h
    dsimp only at h
    split at h
    · cases h
    · next hgone =>
      unfold execute cancel
      dsimp only
      split
      · next hactive =>
        rw [hactive, Bool.true_and] at hgone
        rw [if_neg hgone]
        refine ⟨_, rfl, ⟨rfl, .refl _, rfl, fun i hi => ?_, fun halive => absurd halive hgone⟩, rfl, rfl⟩
        exact ExtTreeSet.mem_of_mem_erase hi
      · exact ⟨_, rfl, hfront _ (.refl _), rfl, rfl⟩
  | renew id ttl =>
    unfold outset at h
    dsimp only at h
    split at h
    · cases h
    · next hgone =>
      unfold execute renew
      dsimp only
      rw [if_neg hgone]
      exact ⟨_, rfl, hfront _ (.refl _), rfl, rfl⟩
  | add t ttl => cases h
  | removeExpired => cases h
  | clear => cases h
  | drop => exact ⟨_, rfl, hfront _ ⟨rfl, rfl, rfl, rfl, fun h => Bool.noConfusion h⟩, rfl, rfl⟩
  | _ => exact ⟨_, rfl, hfront _ ⟨rfl, rfl, rfl, rfl, fun h => h⟩, rfl, rfl⟩

end Engine

/-- An invariant of engine, log and points that every step of a call keeps. -/
structure Upheld (client : Client σ)
    (I : Engine → List Happening → List (Point (σ × List Happening)) → Prop) : Prop where
  stands : ∀ {e e' log points}, I e log points → e.Stands e' → I e' log points
  applies : ∀ {e log points r}, I (e.push r) log points → ∀ (s : σ) (deferred : Bool),
    I (Engine.apply client.noted e (s, log) r).engine (Engine.apply client.noted e (s, log) r).state.2
      (points ++ [⟨e, (s, log), r, deferred⟩])

namespace Upheld
open Engine

variable {I : Engine → List Happening → List (Point (σ × List Happening)) → Prop}
variable {e e₀ : Engine} {log : List Happening} {points : List (Point (σ × List Happening))}
variable {c : Command} {r : Request}

theorem drain (hI : Upheld client I) (fuel : Nat) (t : σ × List Happening) (h : I e t.2 points) :
    I (Engine.drain client.noted fuel e t).2.1 (Engine.drain client.noted fuel e t).2.2.2
      (points ++ drainPoints client.noted fuel e t) := by
  induction fuel generalizing e t points with
  | zero =>
    unfold Engine.drain drainPoints
    cases hq : e.front.queue <;> simpa using h
  | succ fuel ih =>
    unfold Engine.drain drainPoints
    cases hq : e.front.queue with
    | nil => simpa using h
    | cons r queue =>
      have hfirst := hI.applies ((push_of_queue hq).symm ▸ h) t.1 true
      dsimp only
      split
      · exact hfirst
      · rw [List.append_cons]
        exact ih _ hfirst

/-- So it holds when a request and everything that is deferred meanwhile have been applied. -/
theorem run (hI : Upheld client I) (fuel : Nat) (s : σ) (h : I (e.push r) log points) :
    I (Engine.run client.noted fuel e (s, log) r).2.1
      (Engine.run client.noted fuel e (s, log) r).2.2.2
      (points ++ runPoints client.noted fuel e (s, log) r) := by
  have hfirst := hI.applies h s false
  unfold Engine.run runPoints
  dsimp only
  split
  · exact hfirst
  · rw [List.append_cons]
    have hdrain := hI.drain fuel (apply client.noted e (s, log) r).state hfirst
    generalize Engine.drain client.noted fuel _ _ = o at hdrain ⊢
    obtain ⟨outcome, e', t⟩ := o
    cases outcome with
    | done u => exact hI.stands hdrain (.of_front ⟨rfl, rfl, rfl, rfl, id⟩)
    | failed => exact hdrain
    | unfinished => exact hdrain

/-- And so it does when a call from outside has ended, if counting a query does no harm. -/
theorem execute_of_outset (hI : Upheld client I) (points : List (Point (σ × List Happening)))
    (hcounted : ∀ o {e log points}, I e log points → I (e.counted (tally c o)) log points)
    (hout : e.outset c = some (r, e₀)) (fuel : Nat) (s : σ) (h : I (e₀.push r) log points) :
    I (e.execute client.noted fuel (s, log) c).2.1 (e.execute client.noted fuel (s, log) c).2.2.2
      (points ++ e.points client.noted fuel (s, log) c) := by
  have hfinishes := finishes_execute hout client fuel (s, log)
  unfold Engine.points
  rw [hfinishes.log, hout]
  exact hI.stands (hcounted _ (hI.run fuel s h)) hfinishes.stands

theorem execute (hI : Upheld client I) (points : List (Point (σ × List Happening)))
    (hcounted : ∀ o {e log points}, I e log points → I (e.counted (tally c o)) log points)
    (hissued : ∀ r e₀, e.outset c = some (r, e₀) → I (e₀.push r) log points)
    (fuel : Nat) (s : σ) (h : I e log points) :
    I (e.execute client.noted fuel (s, log) c).2.1 (e.execute client.noted fuel (s, log) c).2.2.2
      (points ++ e.points client.noted fuel (s, log) c) := by
  cases hout : e.outset c with
  | none =>
    obtain ⟨_, -, hstands, -, hsame⟩ := execute_idle hout client fuel (s, log)
    unfold Engine.points
    rw [hsame, hout, List.append_nil]
    exact hI.stands h hstands
  | some p => exact hI.execute_of_outset points hcounted hout fuel s (hissued p.1 p.2 hout)

/-- What every call keeps holds throughout a run. -/
theorem run_course (hI : Upheld client I)
    (hcounted : ∀ n {e log points}, I e log points → I (e.counted n) log points)
    (hissued : ∀ {e log points c r e₀}, I e log points → e.outset c = some (r, e₀) →
      I (e₀.push r) log points)
    (hends : ∀ {e log points} (c : Command) o, I e log points → I e (log ++ [c.ending o]) points)
    (config : Config) (clock : Clock) (h : I (.new config clock) [] []) (s : σ)
    (moves : List (Move σ)) :
    let x := Course.run client config clock s moves
    I x.engine x.log x.points := by
  induction moves using List.reverseRecOn with
  | nil => exact h
  | append_singleton moves m ih =>
    unfold Course.run at ih ⊢
    rw [Course.follow_append]
    generalize (Course.start config clock s).follow client moves = x at ih ⊢
    cases m with
    | call c fuel =>
      exact hends c _ (hI.execute _ (fun _ => hcounted _) (fun _ _ => hissued ih) fuel x.state ih)
    | own s => exact ih
    | look => exact hI.stands ih (.of_front (.signals _ 0))

end Upheld

/-! ### Soundness -/

namespace Engine

variable {e e' e₀ : Engine} {c : Command} {r : Request}

/-- Outside of all subscribers a command enrols a query, or it changes a flag or counts a tuple. -/
theorem outset_cases (h : e.outset c = some (r, e₀)) :
    (∃ query ttl r' front, c = .register query ttl ∧
        e.front.enrol e.config query ttl = .ok (r', front) ∧ r = .register r' ∧
        e₀ = { e with index := e.index.activate r'.id, front }) ∨
      (r.isRegister = false ∧ (∀ o, tally c o = 0) ∧
        e₀ = { e with
          index := { e.index with active := Request.flag e.index.active r }
          front := { e.front with tuplesSince := e.front.tuplesSince + r.isAdd.toNat } }) := by
  unfold outset at h
  split at h
  · split at h
    · cases h
    · next henrol =>
      cases h
      exact .inl ⟨_, _, _, _, rfl, henrol, rfl, rfl⟩
  · split at h <;> cases h
    exact .inr ⟨rfl, fun _ => rfl, rfl⟩
  · split at h <;> cases h
    exact .inr ⟨rfl, fun _ => rfl, rfl⟩
  · cases h
    exact .inr ⟨rfl, fun _ => rfl, rfl⟩
  · cases h
    exact .inr ⟨rfl, fun _ => rfl, rfl⟩
  · cases h
    exact .inr ⟨rfl, fun _ => rfl, rfl⟩
  · cases h

/-- What a command does at once outside of all subscribers is what it does inside one, but that the
query is counted when the call returns, and the request does not wait. -/
theorem issues_outset (h : e.outset c = some (r, e₀)) :
    e₀.config = e.config ∧ e₀.index = { e.index with active := e₀.index.active } ∧
      e₀.front.queue = e.front.queue ∧
      Front.Issues e.config 0 e.index.active e.front e₀.index.active
        { e₀.front with queue := e.front.queue ++ [r] } := by
  rcases outset_cases h with ⟨query, ttl, r, front, rfl, henrol, rfl, rfl⟩ | ⟨hother, -, rfl⟩
  · obtain ⟨hvalid, hr, rfl⟩ := Front.enrol_eq_ok henrol
    refine ⟨rfl, rfl, rfl, .register (by rw [hr]) (by rw [hr]; exact hvalid) ?_⟩
    exact ⟨rfl, rfl, rfl, rfl, id⟩
  · exact ⟨rfl, rfl, rfl, .other hother ⟨rfl, rfl, rfl, rfl, id⟩⟩

/-- The parts of the index agree, and queries that wait to be registered are valid. -/
structure Sound (e : Engine) : Prop where
  consistent : e.index.Consistent []
  arity : e.index.arity = e.config.arity
  valid : ∀ r, Request.register r ∈ e.front.queue → r.query.validate e.config.arity = .ok r.analysis

theorem sound_new (config : Config) (clock : Clock) : (Engine.new config clock).Sound :=
  ⟨QueryIndex.consistent_new config, rfl, by simp [Engine.new]⟩

theorem Sound.counted (h : e.Sound) (n : Nat) : (e.counted n).Sound :=
  ⟨h.consistent, h.arity, h.valid⟩

theorem Sound.stands (h : e.Sound) (hs : e.Stands e') : e'.Sound := by
  constructor
  · rw [hs.index]
    exact h.consistent.reactive _
  · rw [hs.index, hs.config]
    exact h.arity
  · rw [hs.front.queue, hs.config]
    exact h.valid

/-- What is issued is valid. -/
theorem valid_issues {n : Nat} {a a' : Active} {f g : Front} (h : Front.Issues config n a f a' g)
    (hf : ∀ r, Request.register r ∈ f.queue → r.query.validate config.arity = .ok r.analysis) :
    ∀ r, Request.register r ∈ g.queue → r.query.validate config.arity = .ok r.analysis := by
  cases h with
  | nothing hg =>
    rw [hg.queue]
    exact hf
  | @register r₀ g _ hvalid hg =>
    intro r hr
    rw [hg.queue, List.mem_append, List.mem_singleton] at hr
    rcases hr with hr | hr
    · exact hf r hr
    · cases hr
      exact hvalid
  | @other r₀ g hother hg =>
    intro r hr
    rw [hg.queue, List.mem_append, List.mem_singleton] at hr
    rcases hr with hr | hr
    · exact hf r hr
    · rw [← hr] at hother
      cases hother

theorem Sound.issued (h : e.Sound) (hout : e.outset c = some (r, e₀)) : (e₀.push r).Sound := by
  obtain ⟨hconfig, hindex, hqueue, hissues⟩ := issues_outset hout
  constructor
  · show e₀.index.Consistent []
    rw [hindex]
    exact h.consistent.reactive _
  · show e₀.index.arity = e₀.config.arity
    rw [hindex, hconfig]
    exact h.arity
  · intro r' hr'
    have hmem : Request.register r' ∈ e.front.queue ++ [r] := by
      rw [← hqueue]
      simpa [push, or_comm] using hr'
    show r'.query.validate e₀.config.arity = _
    rw [hconfig]
    exact valid_issues hissues h.valid r' hmem

theorem sound_apply (client : Client σ) (h : (e.push r).Sound) (s : σ) (log : List Happening) :
    (apply client.noted e (s, log) r).engine.Sound := by
  have hc : e.index.Consistent [] := h.consistent
  have harity : e.index.arity = e.config.arity := h.arity
  have hvalid : ∀ r, Request.register r ∈ e.front.queue →
      r.query.validate e.config.arity = .ok r.analysis := fun r hr =>
    h.valid r (List.mem_cons_of_mem _ hr)
  cases r with
  | register r =>
    obtain ⟨hanalysed, hpatterns⟩ := Query.validate_eq_ok (h.valid r List.mem_cons_self)
    rcases apply_register client.noted e (s, log) r with ⟨y, hr, happlied⟩ | ⟨_, -, happlied⟩
    · rw [happlied]
      refine ⟨QueryIndex.consistent_register hc hr hanalysed (harity ▸ hpatterns), ?_, hvalid⟩
      obtain ⟨-, rfl⟩ := QueryIndex.register_eq_ok hr
      exact harity
    · rw [happlied]
      exact ⟨hc.reactive _, harity, hvalid⟩
  | unregister id =>
    have hsame := congrArg QueryIndex.Settings.arity (QueryIndex.settings_unregister e.index id)
    exact ⟨QueryIndex.consistent_unregister hc id, hsame.trans harity, hvalid⟩
  | renew id ttl =>
    have hsame := congrArg QueryIndex.Settings.arity
      (QueryIndex.settings_renew e.index id ttl e.front.clock.now)
    exact ⟨QueryIndex.consistent_renew hc id ttl _, hsame.trans harity, hvalid⟩
  | removeExpired =>
    have hsame := congrArg QueryIndex.Settings.arity
      (QueryIndex.settings_removeExpired e.index e.front.clock.now)
    exact ⟨QueryIndex.consistent_removeExpired hc _, hsame.trans harity, hvalid⟩
  | clear => exact ⟨QueryIndex.consistent_clear _, harity, hvalid⟩
  | add t ttl =>
    obtain ⟨x, past, hx⟩ := visited_add
      (K := fun _ _ f _ => ∀ r, Request.register r ∈ f.queue →
        r.query.validate e.config.arity = .ok r.analysis)
      hc ⟨fun _ _ _ _ _ _ h _ _ _ => h, fun _ d c h => valid_issues (Desk.issues_answer e.config
        client.noted d c) h, fun _ _ _ _ _ _ h _ => h⟩ hvalid s t ttl
    have hkept : (apply client.noted e (s, log) (.add t ttl)).engine.index.Consistent [] ∧
        (apply client.noted e (s, log) (.add t ttl)).engine.index.settings = e.index.settings := by
      rw [hx.index]
      split
      · exact ⟨hx.consistent, hx.settings⟩
      · exact QueryIndex.foldl_unregister_induct
          (P := fun y => y.Consistent [] ∧ y.settings = e.index.settings)
          (fun y i h => ⟨QueryIndex.consistent_unregister h.1 i,
            (QueryIndex.settings_unregister y i).trans h.2⟩) _ ⟨hx.consistent, hx.settings⟩
    refine ⟨hkept.1, ?_, ?_⟩
    · rw [hx.config]
      exact (congrArg QueryIndex.Settings.arity hkept.2).trans harity
    · rw [hx.config]
      exact hx.holds

end Engine

/-- An engine is sound throughout; so its invariants may be kept up for sound engines only. -/
theorem Upheld.of_sound {I : Engine → List Happening → List (Point (σ × List Happening)) → Prop}
    (hstands : ∀ {e e' log points}, I e log points → e.Stands e' → I e' log points)
    (happlies : ∀ {e log points r}, (e.push r).Sound → I (e.push r) log points →
      ∀ (s : σ) (deferred : Bool), I (Engine.apply client.noted e (s, log) r).engine
        (Engine.apply client.noted e (s, log) r).state.2 (points ++ [⟨e, (s, log), r, deferred⟩])) :
    Upheld client fun e log points => e.Sound ∧ I e log points where
  stands h hs := ⟨h.1.stands hs, hstands h.2 hs⟩
  applies h s deferred := ⟨Engine.sound_apply client h.1 s _, happlies h.1 h.2 s deferred⟩

/-! ### Unbroken runs -/

namespace Engine

variable {e e₀ : Engine} {c : Command} {r : Request}

/-- In a call that returns no request has failed, and none is left waiting. -/
theorem drain_done (client : Client τ) (fuel : Nat) (e : Engine) (s : τ)
    (h : (drain client fuel e s).1.ends = .done ()) :
    (drain client fuel e s).2.1.front.queue = [] ∧
      ∀ p ∈ drainPoints client fuel e s, (p.applied client).failed = false := by
  induction fuel generalizing e s with
  | zero =>
    rw [drain] at h ⊢
    rw [drainPoints]
    cases hq : e.front.queue with
    | nil => simp [hq]
    | cons r queue => simp [hq, Outcome.ends] at h
  | succ fuel ih =>
    rw [drain] at h ⊢
    rw [drainPoints]
    cases hq : e.front.queue with
    | nil => simp [hq]
    | cons r queue =>
      simp only [hq] at h ⊢
      split at h
      · cases h
      · next hfine =>
        rw [if_neg hfine, if_neg hfine]
        obtain ⟨hempty, hpoints⟩ := ih _ _ h
        exact ⟨hempty, List.forall_mem_cons.2 ⟨Bool.eq_false_iff.2 hfine, hpoints⟩⟩

theorem run_done (client : Client τ) (fuel : Nat) (e : Engine) (s : τ) (r : Request)
    (h : (run client fuel e s r).1.ends = .done ()) :
    (run client fuel e s r).2.1.front.queue = [] ∧
      (run client fuel e s r).2.1.sizes = ((run client fuel e s r).2.1.index.queryCount,
        (run client fuel e s r).2.1.index.partialCount) ∧
      ∀ p ∈ runPoints client fuel e s r, (p.applied client).failed = false := by
  unfold run runPoints at *
  dsimp only at h ⊢
  split at h
  · cases h
  · next hfine =>
    have hdone := drain_done client fuel (apply client e s r).engine (apply client e s r).state
    rw [if_neg hfine, if_neg hfine]
    rw [List.forall_mem_cons]
    generalize drain client fuel (apply client e s r).engine (apply client e s r).state = o at h hdone ⊢
    obtain ⟨outcome, e', s'⟩ := o
    cases outcome with
    | done u =>
      obtain ⟨hempty, hpoints⟩ := hdone rfl
      exact ⟨hempty, rfl, Bool.eq_false_iff.2 hfine, hpoints⟩
    | failed => cases h
    | unfinished => cases h

end Engine

/-! ### What only wanes -/

/-- What is kept while solutions are served and commands answered, and as flags are struck off. -/
structure Waning (client : Client σ) (K : Active → Front → List Happening → Prop) : Prop where
  strike : ∀ {a a' f f' log}, K a f log → (∀ id ∈ a', id ∈ a) → f'.nextId = f.nextId → K a' f' log
  serve : ∀ {a f log x}, K a f log → x.query ∈ a → K a f (log ++ [.served x])
  told : ∀ {config : Config} {d : Desk (σ × List Happening)} {c}, K d.active d.front d.state.2 →
    K (client.told config d c).active (client.told config d c).front (client.told config d c).state.2

namespace Engine

variable {e : Engine} {r : Request}

theorem mem_active_of_unregister {x : QueryIndex} {i id : QueryId}
    (h : id ∈ (x.unregister i).2.active) : id ∈ x.active :=
  QueryIndex.mem_active_of_evict (s := ({}, x)) (e := .query i) h

/-- No request but an addition does anything to the flags but to strike some off. -/
theorem strikes_apply (client : Client τ) (e : Engine) (s : τ) (hr : r.isAdd = false) :
    (∀ id ∈ (apply client e s r).engine.index.active, id ∈ e.index.active) ∧
      (apply client e s r).engine.front.nextId = e.front.nextId ∧ (apply client e s r).state = s := by
  cases r with
  | register r =>
    rcases apply_register client e s r with ⟨y, hr, happlied⟩ | ⟨_, -, happlied⟩
    · obtain ⟨-, rfl⟩ := QueryIndex.register_eq_ok hr
      rw [happlied]
      exact ⟨fun _ h => h, rfl, rfl⟩
    · rw [happlied]
      exact ⟨fun _ h => ExtTreeSet.mem_of_mem_erase h, rfl, rfl⟩
  | unregister i => exact ⟨fun _ h => mem_active_of_unregister h, rfl, rfl⟩
  | renew i ttl =>
    refine ⟨fun id h => ?_, rfl, rfl⟩
    rwa [← (QueryIndex.renew_frame e.index i ttl e.front.clock.now).1]
  | removeExpired => exact ⟨fun _ h => QueryIndex.mem_active_of_removeExpired h, rfl, rfl⟩
  | clear => exact ⟨fun _ h => (QueryIndex.mem_active_clear.1 h).1, rfl, rfl⟩
  | add t ttl => cases hr

end Engine

open Engine in
theorem Waning.upheld {K : Active → Front → List Happening → Prop} (hK : Waning client K) :
    Upheld client fun e log _ => e.Sound ∧ K e.index.active e.front log := by
  refine .of_sound (fun h hs => hK.strike h hs.active hs.front.nextId)
    fun {e log points r} hsound h s deferred => ?_
  by_cases hadd : r.isAdd = true
  · cases r with
    | add t ttl =>
      have hkept : Sustains client e fun _ a f log => K a f log :=
        ⟨fun _ _ _ _ _ _ h _ hin _ => hK.serve h hin, fun _ _ _ h => hK.told h,
          fun _ _ _ _ _ _ h _ => hK.strike h (fun _ hin => ExtTreeSet.mem_of_mem_erase hin) rfl⟩
      have hc : e.index.Consistent [] := hsound.consistent
      have hstart : K e.index.active e.front log := hK.strike h (fun _ hin => hin) rfl
      obtain ⟨x, past, hx⟩ := visited_add hc hkept hstart s t ttl
      refine hK.strike hx.holds (fun id hin => ?_) rfl
      rw [hx.index] at hin
      split at hin
      · exact hin
      · exact QueryIndex.foldl_unregister_induct (P := fun y => id ∈ y.active → id ∈ x.active)
          (fun y i h hin => h (mem_active_of_unregister hin)) past (fun hin => hin) hin
    | _ => cases hadd
  · obtain ⟨hactive, hid, hstate⟩ := strikes_apply client.noted e (s, log) (Bool.eq_false_iff.2 hadd)
    rw [hstate]
    exact hK.strike h hactive hid

theorem waning_log (client : Client σ) (log₀ : List Happening) :
    Waning client fun _ _ log => log₀ <+: log where
  strike h _ _ := h
  serve h _ := h.trans (List.prefix_append _ _)
  told {config d c} h := by
    rw [← (Desk.answer_noted config client d c).2] at h
    exact h.trans (List.prefix_append _ _)

namespace Course

variable {x : Course σ} {I : Engine → List Happening → List (Point (σ × List Happening)) → Prop}

theorem sound_run (client : Client σ) (config : Config) (clock : Clock) (s : σ)
    (moves : List (Move σ)) : (run client config clock s moves).engine.Sound :=
  ((waning_log client []).upheld.run_course (fun _ _ _ _ h => ⟨h.1.counted _, h.2⟩)
    (fun h hout => ⟨h.1.issued hout, h.2⟩) (fun _ _ h => ⟨h.1, List.nil_prefix⟩) config clock
    ⟨Engine.sound_new config clock, List.nil_prefix⟩ s moves).1

/-- A call that returns leaves no request waiting, none has failed, and all before it have returned. -/
theorem unbroken_call (client : Client σ) (h : x.engine.Sound) {c : Command} {fuel : Nat}
    (hnext : (x.next client (.call c fuel)).Unbroken) : x.Unbroken ∧
      ∃ r, (x.engine.execute client.noted fuel (x.state, x.log) c).1 = .done r := by
  have hlog := ((waning_log client x.log).upheld.execute (c := c) x.points
    (fun _ _ _ _ h => ⟨h.1.counted _, h.2⟩)
    (fun _ _ hout => ⟨h.issued hout, List.prefix_rfl⟩) fuel x.state
    ⟨h, List.prefix_rfl⟩).2
  refine ⟨fun p hp => hnext p (List.mem_append_left _ (hlog.subset hp)), ?_⟩
  have hlast := hnext _ (List.mem_append_right _ List.mem_cons_self)
  cases hends : (x.engine.execute client.noted fuel (x.state, x.log) c).1 with
  | done r => exact ⟨r, rfl⟩
  | failed =>
    rw [hends] at hlast
    cases hlast
  | unfinished =>
    rw [hends] at hlast
    cases hlast

/-- No request is waiting and none has failed, and the sizes of the index are known. -/
structure Settled (client : Client σ) (x : Course σ) : Prop where
  queue : x.engine.front.queue = []
  sizes : x.engine.sizes = (x.engine.index.queryCount, x.engine.index.partialCount)
  fine : ∀ p ∈ x.points, (p.applied client.noted).failed = false

theorem settled_start (client : Client σ) (config : Config) (clock : Clock) (s : σ) :
    (start config clock s).Settled client := by
  refine ⟨rfl, ?_, fun _ h => absurd h List.not_mem_nil⟩
  have hsize : (JoinState.new config.joinStrategy).size = 0 := by
    cases config.joinStrategy <;> rfl
  simp [start, Engine.new, Engine.sizes, QueryIndex.new, QueryIndex.queryCount,
    QueryIndex.partialCount, Registry.size, hsize]

theorem settled_call (h : x.Settled client) {c : Command} {fuel : Nat} {r : c.Reply}
    (hr : (x.engine.execute client.noted fuel (x.state, x.log) c).1 = .done r) :
    (x.next client (.call c fuel)).Settled client := by
  unfold next Engine.points
  have hsame : ∀ {e e' : Engine}, e.Stands e' → (e'.index.queryCount, e'.index.partialCount) =
      (e.index.queryCount, e.index.partialCount) := fun hs => by
    rw [hs.index]
    rfl
  cases hout : x.engine.outset c with
  | none =>
    obtain ⟨_, -, hstands, hsizes, -⟩ := Engine.execute_idle hout client fuel (x.state, x.log)
    refine ⟨hstands.front.queue.trans h.queue, ?_, ?_⟩
    · exact hsizes.trans (h.sizes.trans (hsame hstands).symm)
    · simpa only [hout, List.append_nil] using h.fine
  | some p =>
    obtain ⟨r', e₀⟩ := p
    have hfinishes := Engine.finishes_execute hout client fuel (x.state, x.log)
    have hends := hfinishes.ends
    rw [hr] at hends
    obtain ⟨hempty, hsizes, hfine⟩ := Engine.run_done client.noted fuel e₀ (x.state, x.log) r' hends.symm
    refine ⟨hfinishes.stands.front.queue.trans hempty, ?_, ?_⟩
    · exact hfinishes.sizes.trans (hsizes.trans (hsame hfinishes.stands).symm)
    · simpa only [hout, List.forall_mem_append] using ⟨h.fine, hfine⟩

/-- What every call keeps that returns and has found everything settled, holds throughout a run in
which all calls return; and everything is settled then. -/
theorem unbroken_induct (client : Client σ) (config : Config) (clock : Clock) (s : σ)
    {I : Course σ → Prop} (hstart : I (start config clock s))
    (hown : ∀ x s, I x → I (x.next client (.own s)))
    (hlook : ∀ x, I x → I (x.next client .look))
    (hcall : ∀ x c fuel, x.engine.Sound → x.Settled client → I x →
      (x.next client (.call c fuel)).Settled client → I (x.next client (.call c fuel)))
    (moves : List (Move σ)) :
    let x := run client config clock s moves
    x.Unbroken → x.Settled client ∧ I x := by
  induction moves using List.reverseRecOn with
  | nil => exact fun _ => ⟨settled_start client config clock s, hstart⟩
  | append_singleton moves m ih =>
    have hsound := sound_run client config clock s moves
    unfold run at ih hsound ⊢
    rw [follow_append]
    generalize (start config clock s).follow client moves = x at ih hsound ⊢
    intro y hy
    cases m with
    | call c fuel =>
      obtain ⟨hbefore, r, hr⟩ := unbroken_call client hsound hy
      obtain ⟨hsettled, hI⟩ := ih hbefore
      have hafter := settled_call hsettled hr
      exact ⟨hafter, hcall x c fuel hsound hsettled hI hafter⟩
    | own s =>
      obtain ⟨hsettled, hI⟩ := ih hy
      exact ⟨⟨hsettled.queue, hsettled.sizes, hsettled.fine⟩, hown x s hI⟩
    | look =>
      obtain ⟨hsettled, hI⟩ := ih hy
      exact ⟨⟨hsettled.queue, hsettled.sizes, hsettled.fine⟩, hlook x hI⟩

end Course

end StandingQuery
