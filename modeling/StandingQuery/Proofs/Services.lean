import StandingQuery.Engine
import StandingQuery.Proofs.Subscribers

/-! What a client does inside its subscribers.

While the index is busy the commands of a client come to requests, which go into the queue;
only the flags change at once (`Desk.answer_issues`). To the index a subscriber is no more
than the requests that it issues, with each solution it is served: written down as
`Service`s they can be replayed without the client (`Client.imitates_replay`). -/
namespace StandingQuery
open Std

/-! ### Issuing -/

/-- What issuing a request does at once: a new query is active, and one that is to be taken out
is not active any more. -/
def Request.flag (active : Active) : Request → Active
  | .register r => active.insert r.id
  | .unregister id => active.erase id
  | _ => active

/-- The request that a command comes to, if it comes to one. -/
def Command.request? (config : Config) (active : Active) (front : Front) : Command → Option Request
  | .register query ttl =>
    match front.enrol config query ttl with
    | .error _ => none
    | .ok (r, _) => some (.register r)
  | .cancel id => if active.contains id then some (.unregister id) else none
  | .renew id ttl =>
    if active.contains id && config.admitsQueryTtl ttl then some (.renew id ttl) else none
  | .add t ttl => some (.add t ttl)
  | .removeExpired => some .removeExpired
  | .clear => some .clear
  | _ => none

variable {σ α : Type} {config : Config} {client : Client σ}

/-- A query is enrolled if it is valid and may live that long; it gets the next id. -/
theorem Front.enrol_eq_ok {f f' : Front} {query : Query} {ttl : Nat} {r : Registration}
    (h : f.enrol config query ttl = .ok (r, f')) : query.validate config.arity = .ok r.analysis ∧
      r = ⟨f.nextId, query, r.analysis, ttl⟩ ∧ f' = { f with nextId := f.nextId + 1 } := by
  unfold enrol at h
  have haccepted : (do
      let analysis ← query.validate config.arity
      return (⟨f.nextId, query, analysis, ttl⟩, { f with nextId := f.nextId + 1 })) =
        (.ok (r, f') : Except Error (Registration × Front)) := by
    split at h
    · split at h
      · cases h
      · exact h
    · exact h
  cases hv : query.validate config.arity with
  | error e =>
    rw [hv] at haccepted
    cases haccepted
  | ok analysis =>
    rw [hv] at haccepted
    cases haccepted
    exact ⟨rfl, rfl, rfl⟩

theorem Front.queue_enrol {f f' : Front} {query : Query} {ttl : Nat} {r : Registration}
    (h : f.enrol config query ttl = .ok (r, f')) : f'.queue = f.queue := by
  rw [(Front.enrol_eq_ok h).2.2]

/-- Of the front a signal changes the number of signals. -/
theorem Client.signalIfDue_front (client : Client σ) (f : Front) (s : σ) :
    ∃ n, (client.signalIfDue f s).1 = { f with signals := n } := by
  unfold signalIfDue
  split
  · dsimp only
    split
    · exact ⟨_, rfl⟩
    · exact ⟨f.signals, rfl⟩
  · exact ⟨f.signals, rfl⟩

theorem Client.queue_signalIfDue (client : Client σ) (f : Front) (s : σ) :
    (client.signalIfDue f s).1.queue = f.queue := by
  obtain ⟨n, hn⟩ := client.signalIfDue_front f s
  rw [hn]

namespace Desk

/-- The requests that a program issues, in order. -/
def requests (config : Config) (client : Client σ) : Desk σ → Program σ α → List Request
  | _, .done _ => []
  | _, .fail => []
  | d, .get next => requests config client d (next d.state)
  | d, .set s next => requests config client { d with state := s } next
  | d, .issue c next =>
    let (r, d') := d.answer config client c
    (c.request? config d.active d.front).toList ++ requests config client d' (next r)

/-- A command changes the flags as its request does, and defers it. -/
theorem answer_issues (config : Config) (client : Client σ) (d : Desk σ) (c : Command) :
    (d.answer config client c).2.active =
        (c.request? config d.active d.front).toList.foldl Request.flag d.active ∧
      (d.answer config client c).2.front.queue =
        d.front.queue ++ (c.request? config d.active d.front).toList := by
  have hquiet : ∀ d' : Desk σ, d'.active = d.active → d'.front.queue = d.front.queue →
      d'.active = (none : Option Request).toList.foldl Request.flag d.active ∧
        d'.front.queue = d.front.queue ++ (none : Option Request).toList := fun d' ha hq =>
    ⟨ha, hq.trans (List.append_nil _).symm⟩
  cases c with
  | register query ttl =>
    cases h : d.front.enrol config query ttl with
    | error e =>
      simp only [answer, Command.request?, h]
      exact hquiet d rfl rfl
    | ok p =>
      have hqueue := Front.queue_enrol h
      simp only [answer, Command.request?, h, Client.queue_signalIfDue]
      exact ⟨rfl, congrArg (· ++ [Request.register p.1]) hqueue⟩
  | cancel id =>
    unfold answer Command.request?
    dsimp only
    split
    · exact ⟨rfl, rfl⟩
    · exact hquiet d rfl rfl
  | renew id ttl =>
    unfold answer Command.request?
    dsimp only
    split
    · exact ⟨rfl, rfl⟩
    · exact hquiet d rfl rfl
  | add t ttl => exact ⟨rfl, rfl⟩
  | removeExpired => exact ⟨rfl, rfl⟩
  | clear => exact ⟨rfl, rfl⟩
  | nextId => exact hquiet d rfl rfl
  | isActive id => exact hquiet d rfl rfl
  | info id => exact hquiet d rfl rfl
  | partialCountOf id => exact hquiet d rfl rfl
  | remembered id => exact hquiet d rfl rfl
  | queryIds => exact hquiet d rfl rfl
  | queryCount => exact hquiet d rfl rfl
  | partialCount => exact hquiet d rfl rfl
  | advanceMillis n => exact hquiet _ rfl rfl
  | moveTo n => exact hquiet _ rfl rfl
  | shutdown => exact hquiet _ rfl rfl
  | isHousekeeping => exact hquiet d rfl rfl
  | drop => exact hquiet _ rfl rfl

theorem run_issues (d : Desk σ) (p : Program σ α) :
    (run config client d p).2.active = (requests config client d p).foldl Request.flag d.active ∧
      (run config client d p).2.front.queue = d.front.queue ++ requests config client d p := by
  induction p generalizing d with
  | done a => exact ⟨rfl, (List.append_nil _).symm⟩
  | fail => exact ⟨rfl, (List.append_nil _).symm⟩
  | get next ih => exact ih d.state d
  | set s next ih => exact ih { d with state := s }
  | issue c next ih =>
    obtain ⟨hactive, hqueue⟩ := answer_issues config client d c
    obtain ⟨hactive', hqueue'⟩ := ih (d.answer config client c).1 (d.answer config client c).2
    rw [run, requests, List.foldl_append, ← hactive, ← List.append_assoc, ← hqueue]
    exact ⟨hactive', hqueue'⟩

end Desk

/-! ### Services -/

/-- What a subscriber does with one solution, as far as the index is concerned. -/
structure Service where
  /-- The requests that it issues, in order. -/
  issued : List Request
  /-- It breaks off. -/
  failed : Bool

/-- The subscriber that does what is written down, and nothing else: flags change as requests are
issued, but nothing is deferred. -/
def Service.replay : Subscriber (List Service) := fun active services _ =>
  match services with
  | [] => { active, state := [] }
  | v :: rest => { active := v.issued.foldl Request.flag active, state := rest, failed := v.failed }

/-- If no service breaks off, neither does the addition. -/
theorem Service.replay_succeeds {services : List Service} (h : ∀ v ∈ services, v.failed = false)
    (x : QueryIndex) (t : Tuple) (ttl now : Nat) : (x.add replay t ttl now services).failed = false := by
  refine QueryIndex.add_succeeds (P := fun services => ∀ v ∈ services, v.failed = false)
    (fun active services _ h => ?_) x t ttl now h
  cases services with
  | nil => exact ⟨rfl, h⟩
  | cons v rest => exact ⟨h v List.mem_cons_self, fun v hv => h v (List.mem_cons_of_mem _ hv)⟩

namespace Client

/-- The service of a client for a solution. -/
def service (client : Client σ) (config : Config) (active : Active) (s : Front × σ) (x : Solution) :
    Service :=
  ⟨Desk.requests config client ⟨active, s.1, s.2⟩ (client.respond x),
    (client.subscriber config active s x).failed⟩

theorem subscriber_issues (client : Client σ) (config : Config) (active : Active) (s : Front × σ)
    (x : Solution) :
    (client.subscriber config active s x).active =
        (client.service config active s x).issued.foldl Request.flag active ∧
      (client.subscriber config active s x).state.1.queue =
        s.1.queue ++ (client.service config active s x).issued :=
  Desk.run_issues ⟨active, s.1, s.2⟩ (client.respond x)

/-- The subscriber of a client, which also writes down its services. -/
def observed (client : Client σ) (config : Config) : Subscriber ((Front × σ) × List Service) :=
  fun active (s, log) x =>
    let r := client.subscriber config active s x
    { active := r.active
      state := (r.state, log ++ [client.service config active s x])
      failed := r.failed }

theorem imitates_observed (client : Client σ) (config : Config) :
    (client.subscriber config).Imitates (client.observed config) fun s s' => s.1 = s' := by
  intro active s x t' ht
  refine ⟨s.1, rfl, ?_⟩
  rw [← ht]
  rfl

/-- What is written down can be replayed; what it lists is then in the queue. -/
theorem imitates_replay (client : Client σ) (config : Config) (final : (Front × σ) × List Service) :
    Service.replay.Imitates (client.observed config) fun s services =>
      s.2 ++ services = final.2 ∧
        s.1.1.queue ++ services.flatMap Service.issued = final.1.1.queue := by
  intro active s x services hs
  obtain ⟨hlog, hqueue⟩ := hs
  obtain ⟨hactive, hissued⟩ := client.subscriber_issues config active s.1 x
  refine ⟨client.service config active s.1 x :: services, ⟨?_, ?_⟩, ?_⟩
  · rw [← hlog]
    exact List.append_cons ..
  · rw [← hqueue, List.flatMap_cons, ← List.append_assoc, ← hissued]
    rfl
  · unfold Service.replay Reaction.withState
    dsimp only
    rw [← hactive]
    rfl

end Client

end StandingQuery
