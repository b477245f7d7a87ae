import Mathlib.Data.List.DropRight
import StandingQuery.Proofs.EvictionSchedule
import StandingQuery.Proofs.Upkeep

/-! How long queries are served.

A query is granted a lifetime by its registration and by every renewal that succeeds. Only
evictions look at it. A tuple that comes after its end, and before an eviction, still makes
solutions for the query, and they are delivered: what has to be valid is the solution. So a
query is served until an eviction finds it expired, and not until it expires
(`served_until_evicted`). -/
namespace StandingQuery
open Std

variable {σ τ : Type} {client : Client σ}

/-! ### Lifetimes -/

namespace Point

/-- The lifetime that a query is granted at a point. -/
def grants? (id : QueryId) (p : Point τ) : Option Expiration :=
  match p.request with
  | .register r => if r.id = id ∧ p.enters then some (.ofTtl p.now r.ttl) else none
  | .renew i ttl =>
    if i = id ∧ (p.engine.index.renew i ttl p.now).1 then some (.ofTtl p.now ttl) else none
  | _ => none

end Point

/-- The lifetime of a query, as its registration or its latest renewal has granted it. -/
def granted (id : QueryId) (points : List (Point τ)) : Option Expiration :=
  (points.filterMap (Point.grants? id)).getLast?

/-- The points since then. -/
def sinceGranted (id : QueryId) (points : List (Point τ)) : List (Point τ) :=
  points.rtakeWhile fun p => (p.grants? id).isNone

/-- A query lives until `e`, and no eviction has found it expired. -/
structure LivesUntil (id : QueryId) (e : Expiration) (points : List (Point τ)) : Prop where
  granted : granted id points = some e
  spared : ∀ p ∈ sinceGranted id points, p.request.isEviction = true → e.expiredAt p.now = false

namespace LivesUntil

variable {id : QueryId} {e : Expiration} {points : List (Point τ)} {p : Point τ}

theorem of_grants (h : p.grants? id = some e) : LivesUntil id e (points ++ [p]) where
  granted := by simp [StandingQuery.granted, h]
  spared := by simp [sinceGranted, h]

theorem concat (h : LivesUntil id e points) (hp : p.grants? id = none)
    (hspared : p.request.isEviction = true → e.expiredAt p.now = false) :
    LivesUntil id e (points ++ [p]) where
  granted := by simpa [StandingQuery.granted, hp] using h.granted
  spared := by
    have hsince : sinceGranted id (points ++ [p]) = sinceGranted id points ++ [p] := by
      simp [sinceGranted, hp]
    rw [hsince]
    exact List.forall_mem_append.2 ⟨h.spared, by simpa using hspared⟩

end LivesUntil

namespace Engine

variable {e : Engine} {r : Request} {log : List Happening}
variable {points : List (Point (σ × List Happening))}

/-- Every registered query lives until its recorded expiration. -/
def Recorded (x : QueryIndex) (points : List (Point τ)) : Prop :=
  ∀ id q, x.settled? id = some q → LivesUntil id q.expiration points

/-- Only queries that have been there are there after an addition. -/
theorem Visited.kept {K : List QueryId → Active → Front → List Happening → Prop}
    {a : Applied (σ × List Happening)} {x : QueryIndex} {past : List QueryId}
    (hx : Visited e K a x past) {id : QueryId} {q : Registered}
    (h : a.engine.index.settled? id = some q) : e.index.settled? id = some q := by
  rw [← hx.settled]
  rw [hx.index] at h
  split at h
  · exact h
  · refine QueryIndex.foldl_unregister_induct (P := fun y => y.settled? id = some q →
      x.settled? id = some q) (fun y i hy hq => ?_) past (fun hq => hq) h
    rw [QueryIndex.settled?_unregister] at hq
    split at hq
    · cases hq
    · exact hy hq

variable {id : QueryId} {q : Registered} {s : σ} {deferred : Bool}

theorem livesUntil_register {r : Registration} {y : QueryIndex} (h : Recorded e.index points)
    (hy : e.index.register r e.front.clock.now = .ok y) (hq : y.settled? id = some q) :
    LivesUntil id q.expiration (points ++ [⟨e, (s, log), .register r, deferred⟩]) := by
  have hq' : (y.activate r.id).settled? id = some q := hq
  rw [QueryIndex.settled?_register hy] at hq'
  by_cases hid : r.id = id
  · rw [if_pos hid] at hq'
    cases hq'
    refine .of_grants ?_
    simp [Point.grants?, hid, Point.enters, Point.now, hy, Except.isOk, Except.toBool]
    rfl
  · rw [if_neg hid] at hq'
    exact (h id q hq').concat (by simp [Point.grants?, hid]) nofun

theorem livesUntil_renew {i : QueryId} {ttl : Nat} (hc : e.index.Consistent [])
    (h : Recorded e.index points)
    (hq : (e.index.renew i ttl e.front.clock.now).2.settled? id = some q) :
    LivesUntil id q.expiration (points ++ [⟨e, (s, log), .renew i ttl, deferred⟩]) := by
  have hfound := QueryIndex.renew_found e.index i ttl e.front.clock.now
  rw [QueryIndex.settled?_renew hc] at hq
  split at hq
  · next hi =>
    obtain ⟨rfl, hactive⟩ := hi
    obtain ⟨q₀, hq₀, rfl⟩ := Option.map_eq_some_iff.1 hq
    rw [QueryIndex.isSome_get?, hq₀, ExtTreeSet.mem_iff_contains.1 hactive] at hfound
    exact .of_grants (by simp [Point.grants?, Point.now, hfound])
  · next hi =>
    have hnone : i = id → (e.index.registry.get? i).isSome = true → i ∉ e.index.active :=
      fun hid _ hin => hi ⟨hid, hin⟩
    refine (h id q hq).concat ?_ nofun
    simpa [Point.grants?, Point.now, hfound] using hnone

theorem recorded_apply (client : Client σ) (hc : e.index.Consistent []) (h : Recorded e.index points)
    (s : σ) (deferred : Bool) : Recorded (apply client.noted e (s, log) r).engine.index
      (points ++ [⟨e, (s, log), r, deferred⟩]) := by
  intro id q hq
  cases r with
  | register r =>
    rcases apply_register client.noted e (s, log) r with ⟨y, hy, happlied⟩ | ⟨_, hy, happlied⟩
    · rw [happlied] at hq
      exact livesUntil_register h hy hq
    · rw [happlied] at hq
      refine (h id q hq).concat ?_ nofun
      simp [Point.grants?, Point.enters, Point.now, hy, Except.isOk, Except.toBool]
  | unregister i =>
    have hq' : (e.index.unregister i).2.settled? id = some q := hq
    rw [QueryIndex.settled?_unregister] at hq'
    split at hq'
    · cases hq'
    · exact (h id q hq').concat rfl nofun
  | renew i ttl => exact livesUntil_renew hc h hq
  | add t ttl =>
    obtain ⟨x, past, hx⟩ := visited_add (K := fun _ _ _ _ => True) hc
      ⟨fun _ _ _ _ _ _ h _ _ _ => h, fun _ _ _ h => h, fun _ _ _ _ _ _ h _ => h⟩ trivial s t ttl
    exact (h id q (hx.kept hq)).concat rfl nofun
  | removeExpired =>
    have hq' : (e.index.removeExpired e.front.clock.now).2.settled? id = some q := hq
    rw [QueryIndex.settled?_removeExpired hc, Option.filter_eq_some_iff] at hq'
    refine (h id q hq'.1).concat rfl fun _ => ?_
    simpa [Point.now] using hq'.2
  | clear =>
    have hq' : e.index.clear.settled? id = some q := hq
    rw [QueryIndex.settled?_clear] at hq'
    cases hq'

end Engine

/-! ### Services -/

def Happening.served? : Happening → Option Solution
  | .served x => some x
  | _ => none

/-- The solutions of a log, in the order in which they are served. -/
def solutions (log : List Happening) : List Solution := log.filterMap Happening.served?

theorem solutions_append (log more : List Happening) :
    solutions (log ++ more) = solutions log ++ solutions more := List.filterMap_append

/-- The solutions that are served at a point. -/
def Point.served (client : Client σ) (p : Point (σ × List Happening)) : List Solution :=
  solutions ((p.applied client.noted).state.2.drop p.state.2.length)

namespace Engine

variable {e : Engine} {r : Request} {log : List Happening}

/-- The log has grown, and what has been served is valid and has gone to registered queries. -/
def Grown (e : Engine) (log log' : List Happening) : Prop :=
  ∃ more, log' = log ++ more ∧ ∀ y ∈ solutions more,
    y.expiration.expiredAt e.front.clock.now = false ∧ ∃ q, e.index.settled? y.query = some q

theorem Grown.refl (e : Engine) (log : List Happening) : e.Grown log log :=
  ⟨[], (List.append_nil log).symm, nofun⟩

theorem Grown.concat {log' : List Happening} (h : e.Grown log log') {g : Happening}
    (hg : ∀ y, g.served? = some y → y.expiration.expiredAt e.front.clock.now = false ∧
      ∃ q, e.index.settled? y.query = some q) : e.Grown log (log' ++ [g]) := by
  obtain ⟨more, rfl, hmore⟩ := h
  refine ⟨more ++ [g], List.append_assoc _ _ _, ?_⟩
  rw [solutions_append, List.forall_mem_append]
  refine ⟨hmore, fun y hy => hg y ?_⟩
  obtain ⟨g', hg', hy⟩ := List.mem_filterMap.1 hy
  rwa [← List.mem_singleton.1 hg']

theorem grown_apply (client : Client σ) (hc : e.index.Consistent []) (s : σ) (log : List Happening) :
    e.Grown log (apply client.noted e (s, log) r).state.2 := by
  cases hadd : r.isAdd with
  | false =>
    obtain ⟨-, -, hstate⟩ := strikes_apply client.noted e (s, log) hadd
    rw [hstate]
    exact .refl e log
  | true =>
    cases r with
    | add t ttl =>
      have hkept : Sustains client e fun _ _ _ log' => e.Grown log log' := by
        refine ⟨fun _ _ _ _ x q h hq _ hvalid => h.concat fun y hy => ?_, fun _ d c h => ?_,
          fun _ _ _ _ _ _ h _ => h⟩
        · cases hy
          exact ⟨hvalid, q.settled, by rw [QueryIndex.settled?, hq, Option.map_some]⟩
        · rw [← (Desk.answer_noted e.config client d c).2] at h
          refine h.concat fun y hy => ?_
          cases hy
      obtain ⟨x, past, hx⟩ := visited_add hc hkept (.refl e log) s t ttl
      exact hx.holds
    | _ => cases hadd

end Engine

/-- At every point, what is served is valid then, and goes to queries that no eviction has found
expired. -/
def Timely (client : Client σ) (points : List (Point (σ × List Happening))) : Prop :=
  ∀ before p after, points = before ++ p :: after → ∀ y ∈ p.served client,
    y.expiration.expiredAt p.now = false ∧ ∃ e, LivesUntil y.query e before

theorem Timely.concat {points : List (Point (σ × List Happening))} {p : Point (σ × List Happening)}
    (h : Timely client points) (hp : ∀ y ∈ p.served client,
      y.expiration.expiredAt p.now = false ∧ ∃ e, LivesUntil y.query e points) :
    Timely client (points ++ [p]) := by
  intro before p' after heq
  induction after using List.reverseRecOn with
  | nil =>
    obtain ⟨rfl, hlast⟩ := List.append_inj' heq rfl
    obtain rfl := List.head_eq_of_cons_eq hlast
    exact hp
  | append_singleton after last _ =>
    rw [← List.cons_append, ← List.append_assoc] at heq
    obtain ⟨hfirst, -⟩ := List.append_inj' heq rfl
    exact h before p' after hfirst

open Engine in
theorem upheld_timely (client : Client σ) : Upheld client fun e log points => e.Sound ∧
    Recorded e.index points ∧ solutions log = points.flatMap (Point.served client) ∧
      Timely client points := by
  refine .of_sound (fun {e e' log points} h hs => ?_) fun {e log points r} hsound h s deferred => ?_
  · obtain ⟨hrecorded, hrest⟩ := h
    rw [hs.index]
    exact ⟨hrecorded, hrest⟩
  · obtain ⟨hrecorded, hserved, htimely⟩ := h
    have hc : e.index.Consistent [] := hsound.consistent
    obtain ⟨more, hlog, hmore⟩ := grown_apply (r := r) client hc s log
    have hpoint : Point.served client ⟨e, (s, log), r, deferred⟩ = solutions more := by
      unfold Point.served Point.applied
      rw [hlog, List.drop_left]
    refine ⟨recorded_apply client hc hrecorded s deferred, ?_, htimely.concat fun y hy => ?_⟩
    · rw [hlog, solutions_append, hserved, List.flatMap_append, List.flatMap_singleton, hpoint]
    · rw [hpoint] at hy
      obtain ⟨hvalid, q, hq⟩ := hmore y hy
      exact ⟨hvalid, q.expiration, hrecorded y.query q hq⟩

open Engine in
theorem Course.timely_run (client : Client σ) (config : Config) (clock : Clock) (s : σ)
    (moves : List (Move σ)) : let x := run client config clock s moves
    x.engine.Sound ∧ Recorded x.engine.index x.points ∧
      solutions x.log = x.points.flatMap (Point.served client) ∧ Timely client x.points := by
  refine (upheld_timely client).run_course
    (fun _ _ _ _ h => ⟨h.1.counted _, h.2⟩)
    (fun {e log points c r e₀} h hout => ⟨h.1.issued hout, ?_, h.2.2⟩)
    (fun {e log points} c o h => ⟨h.1, h.2.1, ?_, h.2.2.2⟩) config clock
    ⟨sound_new config clock, fun id q hq => ?_, rfl, fun before p after heq => ?_⟩ s moves
  · have hindex : (e₀.push r).index = { e.index with active := e₀.index.active } :=
      (issues_outset hout).2.1
    rw [hindex]
    exact h.2.1
  · have hsame : solutions (log ++ [c.ending o]) = solutions log := by
      rw [solutions_append]
      cases o <;> exact List.append_nil _
    rw [hsame]
    exact h.2.2.1
  · simp [Engine.new, QueryIndex.new, QueryIndex.settled?, Registry.get?] at hq
  · simp at heq

/-- A query is served until an eviction finds it expired. Whatever the subscribers do, a solution is
served at a point at which it is valid, and to a query whose lifetime, as its registration or its
latest renewal has granted it, had not ended at any eviction since. At the point itself it may have
ended. -/
theorem served_until_evicted (client : Client σ) (config : Config) (clock : Clock) (s : σ)
    (moves : List (Move σ)) :
    let x := Course.run client config clock s moves
    solutions x.log = x.points.flatMap (Point.served client) ∧
      ∀ before p after, x.points = before ++ p :: after → ∀ y ∈ p.served client,
        y.expiration.expiredAt p.now = false ∧ ∃ e, LivesUntil y.query e before := by
  obtain ⟨-, -, hserved, htimely⟩ := Course.timely_run client config clock s moves
  exact ⟨hserved, htimely⟩

/-- It takes what it is served. -/
def listener : Client Unit where
  respond _ := .done ()
  cleanupDue _ _ _ _ s := (false, s)

/-- A query is registered for a second, and a loop comes when that has passed. -/
def outlasting : List (Move Unit) :=
  [.call (.register ⟨QueryIndex.twoEdges, {}⟩ 1) 0, .call (.advanceMillis 1000) 0,
    .call (.add QueryIndex.loop 0) 0]

/-- The query has expired when it is served, and no eviction has found it so. -/
theorem served_until_evicted_outlasting :
    ∃ before p y, (Course.run listener {} ⟨0⟩ () outlasting).points = before ++ [p] ∧
      y ∈ p.served listener ∧ LivesUntil y.query (.instant 1000) before ∧ p.now = 1000 ∧
      y.expiration.expiredAt 1000 = false := by
  have hone : (Course.run listener {} ⟨0⟩ () outlasting).points.length = 2 := by decide +kernel
  have hgranted : granted 1 ((Course.run listener {} ⟨0⟩ () outlasting).points.take 1) =
      some (.instant 1000) := by decide +kernel
  have hnow : ((Course.run listener {} ⟨0⟩ () outlasting).points.drop 1).map Point.now = [1000] := by
    decide +kernel
  have hqueries : (((Course.run listener {} ⟨0⟩ () outlasting).points.drop 1).flatMap
      (Point.served listener)).map Solution.query = [1] := by decide +kernel
  have htimely := (served_until_evicted listener {} ⟨0⟩ () outlasting).2
  obtain ⟨p, hp⟩ : ∃ p, (Course.run listener {} ⟨0⟩ () outlasting).points.drop 1 = [p] :=
    List.length_eq_one_iff.1 (by rw [List.length_drop, hone])
  have hsplit := (List.take_append_drop 1 (Course.run listener {} ⟨0⟩ () outlasting).points).symm
  rw [hp] at hsplit hnow hqueries
  rw [List.flatMap_singleton, List.map_eq_singleton_iff] at hqueries
  obtain ⟨y, hserved, hy⟩ := hqueries
  obtain ⟨hvalid, e, hlives⟩ := htimely _ p [] hsplit y (hserved ▸ List.mem_singleton_self y)
  obtain rfl : Expiration.instant 1000 = e := by
    have hsome := hlives.granted
    rw [hy, hgranted] at hsome
    exact Option.some.inj hsome
  have hlate : p.now = 1000 := by simpa using hnow
  exact ⟨_, p, y, hsplit, hserved ▸ List.mem_singleton_self y, hlives, hlate, hlate ▸ hvalid⟩

end StandingQuery
