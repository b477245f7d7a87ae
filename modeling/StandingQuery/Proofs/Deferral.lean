import StandingQuery.Proofs.History
import StandingQuery.Proofs.Services

/-! What subscribers issue is carried out in turn.

A call of the engine comes to a list of *errands*: the request of the call itself, then
those in the queue, each with the services of its subscribers. They are carried out one
after the other, directly on the index, and each of them is one that an earlier errand has
issued; when the call returns none is left (`deferred_in_turn`). -/
namespace StandingQuery
open Std

variable {σ α β : Type} {client : Client σ}

/-! ### Errands -/

/-- A request that has been carried out: when, and how its subscribers were served. -/
structure Errand where
  now : Nat
  request : Request
  /-- The services of the subscribers, in the order of the solutions. -/
  services : List Service

/-- What the subscribers have issued while it was carried out. -/
def Errand.issued (d : Errand) : List Request := d.services.flatMap Service.issued

/-- Carries out an errand directly on an index. A query that is refused does not stay active. -/
def QueryIndex.carryOut (x : QueryIndex) (d : Errand) : QueryIndex :=
  match d.request with
  | .register r =>
    match x.register r d.now with
    | .ok y => y
    | .error _ => x.deactivate r.id
  | .unregister id => (x.unregister id).2
  | .renew id ttl => (x.renew id ttl d.now).2
  | .add t ttl => (x.add Service.replay t ttl d.now d.services).index
  | .removeExpired => (x.removeExpired d.now).2
  | .clear => x.clear

/-- Of an index with some requests waiting, `done` have been carried out, each after the errand
that has issued it, and `left` are waiting now. -/
structure InTurn (x : QueryIndex) (waiting : List Request) (done : List Errand) (y : QueryIndex)
    (left : List Request) : Prop where
  index : y = done.foldl QueryIndex.carryOut x
  order : done.map Errand.request ++ left = waiting ++ done.flatMap Errand.issued
  earlier : ∀ k, (done.take (k + 1)).map Errand.request <+:
    waiting ++ (done.take k).flatMap Errand.issued

namespace InTurn

variable {x y : QueryIndex} {waiting left : List Request} {d : Errand} {done : List Errand}

theorem nil : InTurn x waiting [] x waiting := ⟨rfl, (List.append_nil _).symm, by simp⟩

theorem cons {r : Request} (hr : d.request = r)
    (h : InTurn (x.carryOut d) (waiting ++ d.issued) done y left) :
    InTurn x (r :: waiting) (d :: done) y left where
  index := h.index
  order := by
    rw [List.map_cons, List.cons_append, h.order, List.flatMap_cons, List.cons_append,
      List.append_assoc, hr]
  earlier k := by
    rw [List.take_succ_cons, List.map_cons, List.cons_append, List.cons_prefix_cons]
    refine ⟨hr, ?_⟩
    cases k with
    | zero => exact List.nil_prefix
    | succ k =>
      rw [List.take_succ_cons, List.flatMap_cons, ← List.append_assoc]
      exact h.earlier k

/-- Every request is carried out once or is still waiting. -/
theorem length_eq (h : InTurn x waiting done y left) :
    done.length + left.length = waiting.length + (done.flatMap Errand.issued).length := by
  have hlength := congrArg List.length h.order
  rwa [List.length_append, List.length_append, List.length_map] at hlength

end InTurn

/-- How a call ends, whatever its value. -/
def Outcome.ends : Outcome α → Outcome Unit
  | .done _ => .done ()
  | .failed => .failed
  | .unfinished => .unfinished

/-- It has come to its end. -/
def Outcome.isOver : Outcome α → Bool
  | .done _ => true
  | .failed => true
  | .unfinished => false

namespace Engine

/-- How the subscribers are served while a request is applied. -/
def services (client : Client σ) (e : Engine) (s : σ) : Request → List Service
  | .add t ttl =>
    (e.index.add (client.observed e.config) t ttl e.front.clock.now ((e.front, s), [])).state.2
  | _ => []

/-- The application of a request as an errand. -/
def errand (client : Client σ) (e : Engine) (s : σ) (r : Request) : Errand :=
  ⟨e.front.clock.now, r, e.services client s r⟩

/-- The errands of working off the deferred requests. -/
def drained (client : Client σ) : (fuel : Nat) → Engine → σ → List Errand
  | fuel, e, s =>
    match e.front.queue with
    | [] => []
    | r :: queue =>
      match fuel with
      | 0 => []
      | fuel + 1 =>
        let e := { e with front := { e.front with queue } }
        let a := apply client e s r
        e.errand client s r :: if a.failed then [] else drained client fuel a.engine a.state

/-- The errands that applying a request comes to, with everything that is deferred meanwhile. -/
def errands (client : Client σ) (fuel : Nat) (e : Engine) (s : σ) (r : Request) : List Errand :=
  let a := apply client e s r
  e.errand client s r :: if a.failed then [] else drained client fuel a.engine a.state

variable {e e₀ : Engine} {s : σ} {r : Request} {c : Command} {fuel n : Nat}

/-- Applying a request is carrying out its errand, and defers what this has issued. -/
theorem apply_errand (client : Client σ) (e : Engine) (s : σ) (r : Request) :
    (apply client e s r).engine.index = e.index.carryOut (e.errand client s r) ∧
      (apply client e s r).engine.front.queue = e.front.queue ++ (e.errand client s r).issued ∧
      ((apply client e s r).failed = true → ∃ v ∈ (e.errand client s r).services, v.failed = true) := by
  have hquiet : ∀ queue : List Request, queue = queue ++ [] := fun queue => (List.append_nil _).symm
  cases r with
  | register r =>
    unfold apply QueryIndex.carryOut errand
    dsimp only
    cases e.index.register r e.front.clock.now with
    | ok index => exact ⟨rfl, hquiet _, fun h => Bool.noConfusion h⟩
    | error reason => exact ⟨rfl, hquiet _, fun h => Bool.noConfusion h⟩
  | unregister id => exact ⟨rfl, hquiet _, fun h => Bool.noConfusion h⟩
  | renew id ttl => exact ⟨rfl, hquiet _, fun h => Bool.noConfusion h⟩
  | removeExpired => exact ⟨rfl, hquiet _, fun h => Bool.noConfusion h⟩
  | clear => exact ⟨rfl, hquiet _, fun h => Bool.noConfusion h⟩
  | add t ttl =>
    let o := e.index.add (client.observed e.config) t ttl e.front.clock.now ((e.front, s), [])
    obtain ⟨_, rfl, hreal⟩ := QueryIndex.imitates_add (client.imitates_observed e.config) e.index t ttl
      e.front.clock.now ((e.front, s), []) o.state.1 rfl
    obtain ⟨services, ⟨hservices, hqueue⟩, hreplay⟩ := QueryIndex.imitates_add
      (client.imitates_replay e.config o.state) e.index t ttl e.front.clock.now ((e.front, s), []) []
      ⟨List.append_nil _, List.append_nil _⟩
    rw [List.nil_append] at hservices
    subst hservices
    unfold apply QueryIndex.carryOut errand
    dsimp only [Engine.services]
    rw [hreal]
    refine ⟨(congrArg QueryIndex.Addition.index hreplay).symm, hqueue.symm, fun hfailed => ?_⟩
    by_contra hnone
    have hfine : ∀ v ∈ o.state.2, v.failed = false := fun v hv =>
      Bool.eq_false_iff.2 fun hv' => hnone ⟨v, hv, hv'⟩
    have hreplayed := Service.replay_succeeds hfine e.index t ttl e.front.clock.now
    rw [hreplay] at hreplayed
    exact Bool.false_ne_true (hreplayed.symm.trans hfailed)

/-- What is left, by how it ends. -/
def Leaves (fuel : Nat) (done : List Errand) (left : List Request) : Outcome Unit → Prop
  | .done _ => left = []
  | .failed => ∃ d ∈ done, ∃ v ∈ d.services, v.failed = true
  | .unfinished => fuel ≤ done.length ∧ left ≠ []

theorem Leaves.cons {d : Errand} {done : List Errand} {left : List Request} {outcome : Outcome Unit}
    (h : Leaves fuel done left outcome) : Leaves (fuel + 1) (d :: done) left outcome := by
  cases outcome with
  | done _ => exact h
  | failed =>
    obtain ⟨d', hd, hv⟩ := h
    exact ⟨d', List.mem_cons_of_mem _ hd, hv⟩
  | unfinished => exact ⟨Nat.succ_le_succ h.1, h.2⟩

/-- Working off the queue carries out the requests in it in turn, and what they issue. -/
theorem inTurn_drain (client : Client σ) (fuel : Nat) (e : Engine) (s : σ) :
    InTurn e.index e.front.queue (drained client fuel e s) (drain client fuel e s).2.1.index
        (drain client fuel e s).2.1.front.queue ∧
      Leaves fuel (drained client fuel e s) (drain client fuel e s).2.1.front.queue
        (drain client fuel e s).1 := by
  fun_induction drain client fuel e s with
  | case1 fuel e s hq =>
    rw [drained, hq]
    exact ⟨.nil, rfl⟩
  | case2 e s r queue hq =>
    rw [drained, hq]
    exact ⟨.nil, le_rfl, by simp⟩
  | case3 e s r queue hq fuel a hfailed =>
    obtain ⟨hindex, hqueue, hservice⟩ :=
      apply_errand client { e with front := { e.front with queue } } s r
    rw [drained, hq]
    dsimp only
    rw [if_pos hfailed]
    refine ⟨InTurn.cons rfl ?_, _, List.mem_singleton_self _, hservice hfailed⟩
    rw [← hindex, ← hqueue]
    exact .nil
  | case4 e s r queue hq fuel a hfailed ih =>
    obtain ⟨hindex, hqueue, -⟩ := apply_errand client { e with front := { e.front with queue } } s r
    rw [drained, hq]
    dsimp only
    rw [if_neg hfailed]
    refine ⟨InTurn.cons rfl ?_, ih.2.cons⟩
    rw [← hindex, ← hqueue]
    exact ih.1

/-- So does applying a request, which comes first. -/
theorem inTurn_run (client : Client σ) (fuel : Nat) (e : Engine) (s : σ) (r : Request) :
    InTurn e.index (r :: e.front.queue) (errands client fuel e s r) (run client fuel e s r).2.1.index
        (run client fuel e s r).2.1.front.queue ∧
      Leaves (fuel + 1) (errands client fuel e s r) (run client fuel e s r).2.1.front.queue
        (run client fuel e s r).1.ends := by
  obtain ⟨hindex, hqueue, hservice⟩ := apply_errand client e s r
  unfold run errands
  dsimp only
  by_cases hfailed : (apply client e s r).failed = true
  · rw [if_pos hfailed, if_pos hfailed]
    refine ⟨InTurn.cons rfl ?_, _, List.mem_singleton_self _, hservice hfailed⟩
    rw [← hindex, ← hqueue]
    exact .nil
  · obtain ⟨hturn, hleaves⟩ := inTurn_drain client fuel (apply client e s r).engine
      (apply client e s r).state
    rw [hindex, hqueue] at hturn
    have hturn := InTurn.cons (d := e.errand client s r) rfl hturn
    rw [if_neg hfailed, if_neg hfailed]
    cases hdrain : drain client fuel (apply client e s r).engine (apply client e s r).state with
    | mk outcome after =>
      rw [hdrain] at hturn hleaves
      cases outcome with
      | done u => exact ⟨hturn, hleaves.cons⟩
      | failed => exact ⟨hturn, hleaves.cons⟩
      | unfinished => exact ⟨hturn, hleaves.cons⟩

/-! ### Calls from outside -/

/-- The request that a command comes to outside of all subscribers, if it comes to one, and the
engine that applies it. -/
def outset (e : Engine) : Command → Option (Request × Engine)
  | .register query ttl =>
    match e.front.enrol e.config query ttl with
    | .error _ => none
    | .ok (r, front) => some (.register r, { e with index := e.index.activate r.id, front })
  | .cancel id =>
    if e.index.active.contains id && e.front.alive then
      some (.unregister id, { e with index := e.index.deactivate id })
    else none
  | .renew id ttl =>
    if e.index.active.contains id && e.front.alive && e.config.admitsQueryTtl ttl then
      some (.renew id ttl, e)
    else none
  | .add t ttl =>
    some (.add t ttl, { e with front := { e.front with tuplesSince := e.front.tuplesSince + 1 } })
  | .removeExpired => some (.removeExpired, e)
  | .clear => some (.clear, e)
  | _ => none

/-- The flags are changed at once, as for a request from inside a subscriber. -/
theorem outset_flag (h : e.outset c = some (r, e₀)) :
    e₀.index = { e.index with active := Request.flag e.index.active r } ∧
      e₀.front.queue = e.front.queue := by
  unfold outset at h
  split at h
  · next query ttl =>
    split at h
    · cases h
    · next r' front henrol =>
      cases h
      exact ⟨rfl, Front.queue_enrol henrol⟩
  · split at h
    · cases h
      exact ⟨rfl, rfl⟩
    · cases h
  · split at h
    · cases h
      exact ⟨rfl, rfl⟩
    · cases h
  · cases h
    exact ⟨rfl, rfl⟩
  · cases h
    exact ⟨rfl, rfl⟩
  · cases h
    exact ⟨rfl, rfl⟩
  · cases h

/-- More queries are counted. -/
def counted (e : Engine) (n : Nat) : Engine :=
  { e with front := { e.front with queriesSince := e.front.queriesSince + n } }

/-- How many queries a call counts when it returns. -/
def tally : Command → Outcome Answer → Nat
  | .register .., .done (.refused _) => 0
  | .register .., .done _ => 1
  | _, _ => 0

/-- What a call does when its request is done: it counts a query and wakes the worker. -/
structure Closes (client : Client σ) (n : Nat) (e : Engine) (s : σ) (e' : Engine) (s' : σ) : Prop where
  engine : ∃ k, e' = { e.counted n with front := { (e.counted n).front with signals := k } }
  state : s' = s ∨ ∃ f, s' = (client.signalIfDue f s).2

theorem closes_none (client : Client σ) (e : Engine) (s : σ) : Closes client 0 e s e s :=
  ⟨⟨e.front.signals, rfl⟩, .inl rfl⟩

theorem closes_signalIfDue (client : Client σ) (n : Nat) (e : Engine) (s : σ) :
    let o := signalIfDue client (e.counted n) s
    Closes client n e s o.1 o.2 := by
  obtain ⟨k, hk⟩ := client.signalIfDue_front (e.counted n).front s
  unfold signalIfDue
  dsimp only
  rw [hk]
  exact ⟨⟨k, rfl⟩, .inr ⟨_, rfl⟩⟩

/-- A call that comes to a request runs it and closes. -/
theorem execute_eq_runThen (h : e.outset c = some (r, e₀)) (client : Client σ) (fuel : Nat) (s : σ) :
    ∃ next, e.execute client fuel s c = runThen client fuel e₀ s r next ∧ ∀ a e s,
      Closes client (tally c (.done a)) e s (next a e s).2.1 (next a e s).2.2 := by
  unfold outset at h
  split at h
  · next query ttl =>
    split at h
    · cases h
    · next r' front henrol =>
      cases h
      unfold execute register
      simp only [henrol]
      refine ⟨_, rfl, fun a e s => ?_⟩
      cases a with
      | refused reason => exact closes_none client e s
      | _ => exact closes_signalIfDue client 1 e s
  · next id =>
    split at h
    · next hactive =>
      cases h
      rw [Bool.and_eq_true] at hactive
      unfold execute cancel
      simp only [hactive.1, if_true, hactive.2]
      exact ⟨_, rfl, fun _ e s => closes_none client e s⟩
    · cases h
  · next id ttl =>
    split at h
    · next hactive =>
      cases h
      unfold execute renew
      simp only [hactive, if_true]
      exact ⟨_, rfl, fun _ e s => closes_none client e s⟩
    · cases h
  · cases h
    unfold execute add
    exact ⟨_, rfl, fun _ e s => closes_signalIfDue client 0 e s⟩
  · cases h
    unfold execute removeExpired
    refine ⟨_, rfl, fun a e s => ?_⟩
    cases a <;> exact closes_none client e s
  · cases h
    unfold execute
    exact ⟨_, rfl, fun _ e s => closes_none client e s⟩
  · cases h

/-- Two calls end alike, with the same index and the same requests waiting. -/
def EndsLike (p : Outcome α × Engine × σ) (p' : Outcome β × Engine × σ) : Prop :=
  p.1.ends = p'.1.ends ∧ p.2.1.index = p'.2.1.index ∧ p.2.1.front.queue = p'.2.1.front.queue

/-- What a command does to the index is what its request does. -/
theorem endsLike_execute (h : e.outset c = some (r, e₀)) (client : Client σ) (fuel : Nat) (s : σ) :
    EndsLike (e.execute client fuel s c) (run client fuel e₀ s r) := by
  obtain ⟨next, hexecute, hcloses⟩ := execute_eq_runThen h client fuel s
  rw [hexecute]
  unfold runThen EndsLike
  cases run client fuel e₀ s r with
  | mk outcome after =>
    cases outcome with
    | done a =>
      obtain ⟨n, hn⟩ := (hcloses a after.1 after.2).engine
      dsimp only
      rw [hn]
      exact ⟨rfl, rfl, rfl⟩
    | failed => exact ⟨rfl, rfl, rfl⟩
    | unfinished => exact ⟨rfl, rfl, rfl⟩

/-! ### How long a call is let run -/

theorem drained_prefix (client : Client σ) (n : Nat) (e : Engine) (s : σ)
    (h : (drain client n e s).1.isOver = true) (fuel : Nat) :
    drained client fuel e s <+: drained client n e s := by
  fun_induction drain client n e s generalizing fuel with
  | case1 n e s hq =>
    rw [drained, hq]
    exact List.nil_prefix
  | case2 e s r queue hq => cases h
  | case3 e s r queue hq n a hfailed =>
    rw [drained, drained, hq]
    cases fuel with
    | zero => exact List.nil_prefix
    | succ fuel =>
      dsimp only
      rw [if_pos hfailed, if_pos hfailed]
  | case4 e s r queue hq n a hfailed ih =>
    rw [drained, drained, hq]
    cases fuel with
    | zero => exact List.nil_prefix
    | succ fuel =>
      dsimp only
      rw [if_neg hfailed, if_neg hfailed]
      exact List.cons_prefix_cons.2 ⟨rfl, ih h fuel⟩

/-- A call that has come to its end carries out nothing more if it is let run longer. -/
theorem errands_prefix (client : Client σ) {n : Nat} {e : Engine} {s : σ} {r : Request}
    (h : (run client n e s r).1.isOver = true) (fuel : Nat) :
    errands client fuel e s r <+: errands client n e s r := by
  unfold errands
  dsimp only
  refine List.cons_prefix_cons.2 ⟨rfl, ?_⟩
  by_cases hfailed : (apply client e s r).failed = true
  · rw [if_pos hfailed, if_pos hfailed]
  · rw [if_neg hfailed, if_neg hfailed]
    refine drained_prefix client n _ _ ?_ fuel
    unfold run at h
    dsimp only at h
    rw [if_neg hfailed] at h
    cases hdrain : drain client n (apply client e s r).engine (apply client e s r).state with
    | mk outcome after =>
      rw [hdrain] at h
      cases outcome with
      | done u => rfl
      | failed => rfl
      | unfinished => exact h

end Engine

/-- If the subscribers issue finitely many requests in the course of a call, `bound` at most however
long it is let run, then given enough steps the call comes to its end, and its request and those
that have been deferred have been carried out in turn: one after the other, directly on the index,
in the order in which they were issued, and each after the errand that has issued it. Each once:
when the call returns nothing is left, and a call that a subscriber has broken off leaves the
rest in the queue. -/
theorem deferred_in_turn (client : Client σ) {e e₀ : Engine} (s : σ) {c : Command} {r : Request}
    (hout : e.outset c = some (r, e₀)) {bound fuel : Nat}
    (hfinite : ∀ n, ((e₀.errands client n s r).flatMap Errand.issued).length ≤ bound)
    (hfuel : e.front.queue.length + bound ≤ fuel) :
    let done := e₀.errands client fuel s r
    let after := e.execute client fuel s c
    InTurn { e.index with active := Request.flag e.index.active r } (r :: e.front.queue) done
        after.2.1.index after.2.1.front.queue ∧
      ((∃ a, after.1 = .done a) ∧ after.2.1.front.queue = [] ∨
        after.1 = .failed ∧ ∃ d ∈ done, ∃ v ∈ d.services, v.failed = true) := by
  obtain ⟨hindex, hqueue⟩ := Engine.outset_flag hout
  obtain ⟨hends, hindex', hqueue'⟩ := Engine.endsLike_execute hout client fuel s
  obtain ⟨hturn, hleaves⟩ := Engine.inTurn_run client fuel e₀ s r
  dsimp only
  rw [← hends, ← hqueue'] at hleaves
  rw [← hindex', ← hqueue', hindex, hqueue] at hturn
  refine ⟨hturn, ?_⟩
  cases houtcome : (e.execute client fuel s c).1 with
  | done a =>
    rw [houtcome] at hleaves
    exact .inl ⟨⟨a, rfl⟩, hleaves⟩
  | failed =>
    rw [houtcome] at hleaves
    exact .inr ⟨rfl, hleaves⟩
  | unfinished =>
    rw [houtcome] at hleaves
    obtain ⟨hlong, hleft⟩ := hleaves
    -- All requests that there can be have been carried out, so none is left.
    have hlength := hturn.length_eq
    have hissued := hfinite fuel
    have hpos := List.length_pos_of_ne_nil hleft
    rw [List.length_cons] at hlength
    omega

/-- With its first solution it asks for another query, ends its own and adds a loop. -/
def meddler : Client Bool where
  respond x := .get fun served =>
    if served then .done ()
    else .set true <| .issue (.register ⟨QueryIndex.twoEdges, {}⟩ 0) fun _ =>
      .issue (.cancel x.query) fun _ => .issue (.add QueryIndex.loop 0) fun _ => .done ()
  cleanupDue _ _ _ _ s := (false, s)

/-- An engine with one query, served by the client that meddles. -/
def meddled : Engine :=
  ((Engine.new {} ⟨0⟩).execute meddler 0 false (.register ⟨QueryIndex.twoEdges, {}⟩ 0)).2.1

/-- All three are deferred, and carried out before the addition returns: the new query is there and
has been served by the second loop, and the old one has gone. -/
theorem deferred_in_turn_meddler :
    let after := meddled.execute meddler 3 false (.add QueryIndex.loop 0)
    after.2.1.front.queue = [] ∧ after.2.1.index.queryIds = [2] ∧
      (after.2.1.index.info? 2).map QueryInfo.delivered = some 1 := by
  let e₀ : Engine := { meddled with
    front := { meddled.front with tuplesSince := meddled.front.tuplesSince + 1 } }
  let done := e₀.errands meddler 3 false (.add QueryIndex.loop 0)
  have hout : meddled.outset (.add QueryIndex.loop 0) = some (.add QueryIndex.loop 0, e₀) := rfl
  have hover : (e₀.run meddler 3 false (.add QueryIndex.loop 0)).1.isOver = true := by decide +kernel
  have hissued : (done.flatMap Errand.issued).length = 3 := by decide +kernel
  have hserved : ∀ d ∈ done, ∀ v ∈ d.services, v.failed = false := by decide +kernel
  have hfinite : ∀ n, ((e₀.errands meddler n false (.add QueryIndex.loop 0)).flatMap
      Errand.issued).length ≤ 3 := fun n =>
    hissued ▸ ((Engine.errands_prefix meddler hover n).flatMap Errand.issued).length_le
  have hdirect : let x := done.foldl QueryIndex.carryOut { meddled.index with
        active := Request.flag meddled.index.active (.add QueryIndex.loop 0) }
      x.queryIds = [2] ∧ (x.info? 2).map QueryInfo.delivered = some 1 := by decide +kernel
  have hqueue : meddled.front.queue.length + 3 ≤ 3 := by decide +kernel
  obtain ⟨hturn, hends⟩ := deferred_in_turn meddler false hout hfinite hqueue
  dsimp only
  rw [hturn.index]
  refine ⟨?_, hdirect⟩
  rcases hends with ⟨-, hempty⟩ | ⟨-, d, hd, v, hv, hfailed⟩
  · exact hempty
  · exact absurd hfailed (Bool.eq_false_iff.1 (hserved d hd v hv))

end StandingQuery
