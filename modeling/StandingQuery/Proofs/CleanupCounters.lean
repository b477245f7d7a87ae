import Mathlib.Data.List.DropRight
import StandingQuery.Proofs.Upkeep

/-! What has been added since the last eviction.

The rule for cleanups is told how many tuples and queries were added since the last
eviction. Both counters go up when an addition is *issued* and start again when an eviction
is *applied*, and in between requests wait. While one is applied after the other, what is
counted in addition is what waits in addition (`Counter.Keeps`); but an eviction forgets the
requests that wait behind it. They have been counted, are applied after it, and are missing
from then on (`counters_since`): a tuple that a subscriber adds after it has evicted is
never counted. -/
namespace StandingQuery
open Std

variable {σ τ : Type} {client : Client σ}

/-! ### Since the last eviction -/

/-- A query that has waited for it is refused. -/
def Point.declines (p : Point τ) : Bool := p.deferred && p.request.isRegister && !p.enters

/-- The points after the last eviction. -/
def recent (points : List (Point τ)) : List (Point τ) :=
  points.rtakeWhile fun p => !p.request.isEviction

/-- What waited when the last eviction was applied. -/
def overlooked (points : List (Point τ)) : List Request :=
  ((points.filter fun p => p.request.isEviction).getLast?.map fun p => p.engine.front.queue).getD []

section
variable (points : List (Point τ)) (p : Point τ)

theorem recent_concat :
    recent (points ++ [p]) = if p.request.isEviction then [] else recent points ++ [p] := by
  cases h : p.request.isEviction <;> simp [recent, h]

theorem overlooked_concat :
    overlooked (points ++ [p]) =
      if p.request.isEviction then p.engine.front.queue else overlooked points := by
  cases h : p.request.isEviction <;> simp [overlooked, List.filter_append, h]

end

/-! ### Counters -/

theorem Front.Issues.queriesSince {config : Config} {a a' : Active} {f g : Front}
    (hi : Front.Issues config 0 a f a' g) : g.queriesSince = f.queriesSince := by
  cases hi with
  | nothing hg => exact hg.queriesSince
  | register _ _ hg => exact hg.queriesSince
  | other _ hg => exact hg.queriesSince

/-- What is counted since the last eviction. -/
inductive Counter where
  | tuples
  | queries

namespace Counter

def value : Counter → Front → Nat
  | tuples, f => f.tuplesSince
  | queries, f => f.queriesSince

/-- The requests that are counted as they are issued. -/
def counts : Counter → Request → Bool
  | tuples, r => r.isAdd
  | queries, r => r.isRegister

/-- The points whose requests have been counted. A query that is registered at once counts only
when it has entered the index. -/
def counted : Counter → Point τ → Bool
  | tuples, p => p.request.isAdd
  | queries, p => p.enters || p.declines

def waiting (k : Counter) (f : Front) : Nat := f.queue.countP k.counts

/-- What is counted in addition waits in addition. -/
def Keeps (k : Counter) (f g : Front) : Prop := k.value g + k.waiting f = k.value f + k.waiting g

/-- What has been counted has been applied since, or waits still, unless it was overlooked. -/
def Exact (k : Counter) (f : Front) (points : List (Point τ)) : Prop :=
  k.value f + (overlooked points).countP k.counts = (recent points).countP k.counted + k.waiting f

variable {k : Counter} {f g : Front} {points : List (Point τ)}

theorem Keeps.trans {f' : Front} (h : k.Keeps f f') (h' : k.Keeps f' g) : k.Keeps f g := by
  unfold Keeps at *
  omega

theorem Exact.keeps (h : k.Exact f points) (hg : k.Keeps f g) : k.Exact g points := by
  unfold Exact Keeps at *
  omega

/-- A request has been applied that is no eviction. -/
theorem Exact.concat {p : Point τ} (h : k.Exact f points) (hp : p.request.isEviction = false)
    (hg : k.value g + k.waiting f = k.value f + (k.counted p).toNat + k.waiting g) :
    k.Exact g (points ++ [p]) := by
  have hcount : [p].countP k.counted = (k.counted p).toNat := by
    cases hc : k.counted p <;> simp [hc]
  unfold Exact at *
  rw [recent_concat, overlooked_concat, hp]
  simp only [Bool.false_eq_true, if_false, List.countP_append, hcount]
  omega

theorem keeps_alike (h : f.Alike g) : k.Keeps f g := by
  cases k <;> simp [Keeps, value, waiting, h.queue, h.tuplesSince, h.queriesSince]

/-- A query counts at once if it is issued inside a subscriber. -/
theorem keeps_issues {config : Config} {n : Nat} {a a' : Active}
    (hi : Front.Issues config n a f a' g) (hn : k = .queries → n = 1) : k.Keeps f g := by
  cases hi with
  | nothing hg => exact keeps_alike hg
  | register _ _ hg =>
    refine Keeps.trans ?_ (keeps_alike hg)
    cases k with
    | tuples => simp [Keeps, value, waiting, counts, Request.isAdd]
    | queries => simp [Keeps, value, waiting, counts, Request.isRegister, hn rfl]; omega
  | @other r _ hother hg =>
    refine Keeps.trans ?_ (keeps_alike hg)
    cases k with
    | tuples => cases h : r.isAdd <;> simp [Keeps, value, waiting, counts, h]; omega
    | queries => simp [Keeps, value, waiting, counts, hother]

end Counter

namespace Engine

variable {k : Counter} {e e₀ : Engine} {r : Request} {c : Command}
variable {log : List Happening} {points : List (Point (σ × List Happening))}

theorem waiting_push : k.waiting (e.push r).front = k.waiting e.front + (k.counts r).toNat := by
  cases h : k.counts r <;> simp [Counter.waiting, push, h]

/-- No request but an eviction sets a counter back. -/
theorem keeps_apply (client : Client σ) (hc : e.index.Consistent []) (hr : r.isEviction = false)
    (s : σ) (log : List Happening) :
    k.Keeps e.front (apply client.noted e (s, log) r).engine.front := by
  cases r with
  | register r =>
    rcases apply_register client.noted e (s, log) r with ⟨y, -, happlied⟩ | ⟨_, -, happlied⟩ <;>
      rw [happlied] <;> rfl
  | add t ttl =>
    obtain ⟨x, past, hx⟩ := visited_add (K := fun _ _ f _ => k.Keeps e.front f) hc
      ⟨fun _ _ _ _ _ _ h _ _ _ => h, fun _ d c h => h.trans (Counter.keeps_issues
        (Desk.issues_answer e.config client.noted d c) fun _ => rfl), fun _ _ _ _ _ _ h _ => h⟩
      rfl s t ttl
    exact hx.holds
  | removeExpired => cases hr
  | _ => rfl

/-- Applying a request keeps a counter exact, if it is one that has been counted. -/
theorem exact_apply (hc : e.index.Consistent []) (h : k.Exact (e.push r).front points) (s : σ)
    (deferred : Bool) (hr : k.counted (⟨e, (s, log), r, deferred⟩ : Point _) = k.counts r) :
    k.Exact (apply client.noted e (s, log) r).engine.front (points ++ [⟨e, (s, log), r, deferred⟩]) := by
  cases hev : r.isEviction with
  | true =>
    -- The counter starts again, whatever waits.
    obtain rfl := Request.eq_of_isEviction hev
    unfold Counter.Exact
    rw [recent_concat, overlooked_concat]
    cases k <;> simp [apply, Counter.value, Counter.waiting, Front.resetCounters, Request.isEviction]
  | false =>
    have hkeeps : k.Keeps e.front _ := keeps_apply client hc hev s log
    have hvalue : k.value (e.push r).front = k.value e.front := by cases k <;> rfl
    refine h.concat hev ?_
    rw [hr, hvalue, waiting_push]
    unfold Counter.Keeps at hkeeps
    omega

/-- Outside of all subscribers a tuple counts at once, and a query when the call returns. -/
theorem keeps_outset (hout : e.outset c = some (r, e₀)) (hr : k.counts r = true → k = .tuples) :
    k.Keeps e.front (e₀.push r).front := by
  obtain ⟨-, -, hqueue, hissues⟩ := issues_outset hout
  cases k with
  | tuples =>
    have hkeeps : Counter.tuples.Keeps e.front _ := Counter.keeps_issues hissues nofun
    simp only [Counter.Keeps, Counter.waiting, Counter.value, List.countP_append] at hkeeps ⊢
    simp only [push, hqueue, List.countP_cons, List.countP_nil] at hkeeps ⊢
    omega
  | queries =>
    have hnone : r.isRegister = false := Bool.eq_false_iff.2 fun h => Counter.noConfusion (hr h)
    have hsame : e₀.front.queriesSince = e.front.queriesSince := hissues.queriesSince
    show e₀.front.queriesSince + _ = e.front.queriesSince + _
    rw [waiting_push, hsame]
    simp [Counter.waiting, Counter.counts, hnone, hqueue]

end Engine

/-! ### Runs -/

namespace Point

/-- What has waited has been counted as it was issued. -/
theorem counted_of_deferred {p : Point τ} (h : p.deferred = true) (k : Counter) :
    k.counted p = k.counts p.request := by
  cases k with
  | tuples => rfl
  | queries =>
    cases henters : p.enters with
    | true => simp [Counter.counted, Counter.counts, henters, isRegister_of_enters henters]
    | false => simp [Counter.counted, Counter.counts, declines, henters, h]

end Point

theorem countP_counted (points : List (Point τ)) : points.countP Counter.queries.counted =
    points.countP Point.enters + points.countP Point.declines := by
  induction points with
  | nil => rfl
  | cons p points ih =>
    simp only [List.countP_cons, ih, Counter.counted]
    by_cases h : p.enters = true
    · simp [Point.declines, h]
      omega
    · simp [h]
      omega

open Engine in
theorem Counter.upheld_exact (k : Counter) (client : Client σ)
    (before : List (Point (σ × List Happening))) :
    Upheld client fun e _ points => e.Sound ∧ ((∀ p ∈ points, k.counted p = k.counts p.request) →
      k.Exact e.front (before ++ points)) := by
  refine .of_sound (fun h hs hall => (h hall).keeps (keeps_alike hs.front))
    fun {e log points r} hsound h s deferred hall => ?_
  obtain ⟨hall, hlast⟩ := List.forall_mem_append.1 hall
  rw [← List.append_assoc]
  exact exact_apply (e := e) hsound.consistent (h hall) s deferred (hlast _ List.mem_cons_self)

namespace Engine

variable {e e₀ : Engine} {c : Command} {r : Request} {t : σ × List Happening}

theorem deferred_drainPoints (client : Client τ) (fuel : Nat) (e : Engine) (s : τ) :
    ∀ p ∈ drainPoints client fuel e s, p.deferred = true := by
  fun_induction drainPoints client fuel e s with
  | case1 => simp
  | case2 => simp
  | case3 e s r queue hq fuel e' a ih =>
    refine List.forall_mem_cons.2 ⟨rfl, ?_⟩
    split
    · simp
    · exact ih

/-- In a call that registers nothing itself, every request has been counted as it was issued. -/
theorem counted_points (hout : e.outset c = some (r, e₀)) (hr : r.isRegister = false)
    (client : Client τ) (fuel : Nat) (s : τ) (k : Counter) :
    ∀ p ∈ e.points client fuel s c, k.counted p = k.counts p.request := by
  unfold points runPoints
  rw [hout]
  refine List.forall_mem_cons.2 ⟨?_, ?_⟩
  · cases k with
    | tuples => rfl
    | queries => cases r <;> first | rfl | cases hr
  · split
    · simp
    · exact fun p hp => Point.counted_of_deferred (deferred_drainPoints _ _ _ _ p hp) k

theorem drain_of_empty (client : Client τ) (h : e.front.queue = []) (fuel : Nat) (s : τ) :
    drain client fuel e s = (.done (), e, s) ∧ drainPoints client fuel e s = [] := by
  unfold drain drainPoints
  cases fuel <;> simp [h]

theorem register_frame (client : Client τ) (e : Engine) (s : τ) (r : Registration) :
    (apply client e s (.register r)).failed = false ∧
      (apply client e s (.register r)).engine.front = e.front := by
  rcases apply_register client e s r with ⟨y, -, happlied⟩ | ⟨_, -, happlied⟩ <;>
    rw [happlied] <;> exact ⟨rfl, rfl⟩

/-- A call counts the query that it registers if it enters the index. -/
theorem tally_register (client : Client τ) (e : Engine) (s : τ) (r : Registration) (query : Query)
    (ttl : Nat) : tally (.register query ttl) (.done (apply client e s (.register r)).answer) =
      (⟨e, s, .register r, false⟩ : Point τ).enters.toNat := by
  unfold Point.enters Point.now
  rcases apply_register client e s r with ⟨y, hy, happlied⟩ | ⟨reason, hy, happlied⟩ <;>
    simp [happlied, hy, tally, Except.isOk, Except.toBool]

/-- A registration is applied alone if nothing waits. -/
theorem run_register (client : Client τ) (h : e.front.queue = []) (fuel : Nat) (s : τ)
    (r : Registration) :
    let p : Point τ := ⟨e, s, .register r, false⟩
    let o := run client fuel e s (.register r)
    runPoints client fuel e s (.register r) = [p] ∧ o.2.1.front.queue = [] ∧
      o.2.1.front.queriesSince = e.front.queriesSince ∧
      ∀ query ttl, tally (.register query ttl) o.1 = p.enters.toNat := by
  obtain ⟨hfine, hfront⟩ := register_frame client e s r
  obtain ⟨hdrain, hpoints⟩ := drain_of_empty client (hfront ▸ h) fuel
    (apply client e s (.register r)).state
  unfold run runPoints
  simp only [hfine, hdrain, hpoints, Bool.false_eq_true, if_false]
  refine ⟨trivial, ?_, ?_, tally_register client e s r⟩
  · show (apply client e s (.register r)).engine.front.queue = []
    rw [hfront, h]
  · show (apply client e s (.register r)).engine.front.queriesSince = _
    rw [hfront]

end Engine

namespace Course
open Engine

theorem exact_tuples_run (client : Client σ) (config : Config) (clock : Clock) (s : σ)
    (moves : List (Move σ)) : let x := run client config clock s moves
    Counter.tuples.Exact x.engine.front x.points :=
  ((Counter.tuples.upheld_exact client []).run_course
    (fun _ _ _ _ h => ⟨h.1.counted _, h.2⟩)
    (fun h hout => ⟨h.1.issued hout, fun hall => (h.2 hall).keeps (keeps_outset hout fun _ => rfl)⟩)
    (fun _ _ h => h) config clock ⟨sound_new config clock, fun _ => rfl⟩ s moves).2 fun _ _ => rfl

/-- A query that is registered at once is counted if it enters the index. -/
theorem exact_register {x : Course σ} (hqueue : x.engine.front.queue = [])
    (hexact : Counter.queries.Exact x.engine.front x.points) {query : Query} {ttl : Nat}
    {r : Registration} {e₀ : Engine}
    (hout : x.engine.outset (.register query ttl) = some (.register r, e₀)) (fuel : Nat) :
    let y := x.next client (.call (.register query ttl) fuel)
    Counter.queries.Exact y.engine.front y.points := by
  obtain ⟨-, -, hsame, hissues⟩ := issues_outset hout
  have hempty : e₀.front.queue = [] := hsame.trans hqueue
  obtain ⟨hpoints, hrun, hcount, htally⟩ :=
    run_register client.noted hempty fuel (x.state, x.log) r
  have hfront := (finishes_execute hout client fuel (x.state, x.log)).stands.front
  have hvalue := hfront.queriesSince.trans (congrArg₂ (· + ·) (hcount.trans hissues.queriesSince)
    (htally query ttl))
  have hwaiting := hfront.queue.trans hrun
  unfold next
  dsimp only
  rw [Engine.points, hout]
  dsimp only
  rw [hpoints]
  refine hexact.concat rfl ?_
  simp only [Counter.waiting, hwaiting, hqueue]
  simpa [Counter.value, Counter.counted, Point.declines] using hvalue

theorem exact_queries_call {x : Course σ} (hsound : x.engine.Sound) (hqueue : x.engine.front.queue = [])
    (hexact : Counter.queries.Exact x.engine.front x.points) (c : Command) (fuel : Nat) :
    let y := x.next client (.call c fuel)
    Counter.queries.Exact y.engine.front y.points := by
  cases hout : x.engine.outset c with
  | none =>
    obtain ⟨_, -, hstands, -⟩ := execute_idle hout client fuel (x.state, x.log)
    unfold next
    dsimp only
    rw [Engine.points, hout, List.append_nil]
    exact hexact.keeps (Counter.keeps_alike hstands.front)
  | some issued =>
    obtain ⟨_, e₀⟩ := issued
    rcases outset_cases hout with ⟨query, ttl, r, front, rfl, -, rfl, -⟩ | ⟨hregister, htally, -⟩
    · exact exact_register hqueue hexact hout fuel
    · refine ((Counter.queries.upheld_exact client x.points).execute_of_outset []
        (fun o _ _ _ h => ?_) hout fuel x.state ⟨hsound.issued hout, fun _ => ?_⟩).2
        (counted_points hout hregister _ _ _ _)
      · rw [htally]
        exact h
      · rw [List.append_nil]
        exact hexact.keeps (keeps_outset hout fun h => absurd h (by simp [Counter.counts, hregister]))

theorem exact_queries_run (client : Client σ) (config : Config) (clock : Clock) (s : σ)
    (moves : List (Move σ)) :
    let x := run client config clock s moves
    x.Unbroken → x.Settled client ∧ Counter.queries.Exact x.engine.front x.points :=
  unbroken_induct client config clock s (I := fun x => Counter.queries.Exact x.engine.front x.points)
    rfl (fun _ _ h => h) (fun _ h => h)
    (fun _ c fuel hsound hsettled h _ => exact_queries_call hsound hsettled.queue h c fuel) moves

end Course

/-- Whenever no call is under way, the rule for cleanups is told of as many tuples as have been added
since the last eviction was applied, but for those that waited at that moment: they have been
counted too early. (Those that wait still, since a subscriber has broken off their call, are counted
already.) If all calls have returned the same goes for queries, where one that waits counts even if
it is refused in the end. -/
theorem counted_unless_overlooked (client : Client σ) (config : Config) (clock : Clock) (s : σ)
    (moves : List (Move σ)) :
    let x := Course.run client config clock s moves
    let front := x.engine.front
    front.tuplesSince + (overlooked x.points).countP Request.isAdd =
        (recent x.points).countP (fun p => p.request.isAdd) + front.queue.countP Request.isAdd ∧
      (x.Unbroken → front.queue = [] ∧
        front.queriesSince + (overlooked x.points).countP Request.isRegister =
          (recent x.points).countP Point.enters + (recent x.points).countP Point.declines) := by
  refine ⟨Course.exact_tuples_run client config clock s moves, fun hreturned => ?_⟩
  obtain ⟨hsettled, hexact⟩ := Course.exact_queries_run client config clock s moves hreturned
  refine ⟨hsettled.queue, hexact.trans ?_⟩
  rw [Counter.waiting, hsettled.queue]
  exact countP_counted _

/-- With its first solution it evicts and adds a loop. -/
def sweeper : Client Bool where
  respond _ := .get fun served =>
    if served then .done ()
    else .set true <| .issue .removeExpired fun _ => .issue (.add QueryIndex.loop 0) fun _ => .done ()
  cleanupDue _ _ _ _ s := (false, s)

def sweeping : List (Move Bool) :=
  [.call (.register ⟨QueryIndex.twoEdges, {}⟩ 0) 0, .call (.add QueryIndex.loop 0) 2]

/-- A tuple has been added since the last eviction, and none is counted. -/
theorem counted_unless_overlooked_sweeping :
    let x := Course.run sweeper {} ⟨0⟩ false sweeping
    (recent x.points).countP (fun p => p.request.isAdd) = 1 ∧ x.engine.front.tuplesSince = 0 ∧
      x.engine.front.queriesSince = 0 := by
  have hreturned : (Course.run sweeper {} ⟨0⟩ false sweeping).Unbroken := by decide +kernel
  have hadded : (recent (Course.run sweeper {} ⟨0⟩ false sweeping).points).countP
      (fun p => p.request.isAdd) = 1 := by decide +kernel
  have hwaited : (overlooked (Course.run sweeper {} ⟨0⟩ false sweeping).points).countP
      Request.isAdd = 1 := by decide +kernel
  have hqueries : (recent (Course.run sweeper {} ⟨0⟩ false sweeping).points).countP Point.enters +
      (recent (Course.run sweeper {} ⟨0⟩ false sweeping).points).countP Point.declines = 0 := by
    decide +kernel
  obtain ⟨htuples, hcounted⟩ := counted_unless_overlooked sweeper {} ⟨0⟩ false sweeping
  obtain ⟨hqueue, hcounted⟩ := hcounted hreturned
  rw [hqueue, hadded, hwaited, List.countP_nil] at htuples
  exact ⟨hadded, by omega, by omega⟩

end StandingQuery
