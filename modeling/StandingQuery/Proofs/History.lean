import Mathlib.Data.List.DropRight
import StandingQuery.Proofs.Operations

/-! Histories.

A run is a list of *events*: operations with their answers. `History` builds it up one
event at a time, and what every operation keeps holds at the end. A query that is
registered has been registered by some event, and by none since
(`exists_registration`). From there on it is hit by the tuples that are added, and
while it is active it is followed with these hits (`serving_history`). If the tuples
never expire, nothing depends on the times (`serving_history_never`). -/
namespace StandingQuery
open Std

namespace QueryIndex
open JoinState GraphPattern

/-- An operation that was performed, and what it answered and delivered. -/
structure Event where
  now : Nat
  op : Operation
  result : Result
  log : List Solution

namespace Event

def arrival? (e : Event) : Option Arrival := e.op.arrival? e.now

theorem now_of_arrival? {e : Event} {a : Arrival} (h : e.arrival? = some a) : a.now = e.now := by
  unfold arrival? Operation.arrival? at h
  split at h
  · cases h
    rfl
  · cases h

/-- What the event has registered under an id. -/
def asked? (e : Event) (id : QueryId) : Option Query := e.op.asked? e.result id

end Event

/-- The tuples added in the course of the events. -/
def arrivals (es : List Event) : List Arrival := es.filterMap Event.arrival?

/-- What the events have delivered to a query. -/
def deliveries (id : QueryId) (es : List Event) : List Solution := es.flatMap fun e => sentTo id e.log

/-- The events since the last registration of an id. -/
def since (id : QueryId) (es : List Event) : List Event := es.rtakeWhile fun e => (e.asked? id).isNone

variable {x y : QueryIndex} {τ : Life} {id : QueryId} {query : Query} {now : Nat} {op : Operation}
variable {hits : List Hit} {sent : List Solution} {q : Registered} {es es' : List Event} {e : Event}

theorem arrivals_append : arrivals (es ++ es') = arrivals es ++ arrivals es' :=
  List.filterMap_append ..

theorem arrivals_singleton : arrivals [e] = e.arrival?.toList := by
  unfold arrivals
  rw [List.filterMap_cons]
  cases e.arrival? <;> rfl

theorem deliveries_append :
    deliveries id (es ++ es') = deliveries id es ++ deliveries id es' := List.flatMap_append

theorem deliveries_singleton : deliveries id [e] = sentTo id e.log := List.flatMap_singleton ..

theorem since_concat_of_none (h : e.asked? id = none) : since id (es ++ [e]) = since id es ++ [e] :=
  List.rtakeWhile_concat_pos _ _ _ (by rw [h]; rfl)

theorem since_concat_of_some (h : e.asked? id = some query) : since id (es ++ [e]) = [] :=
  List.rtakeWhile_concat_neg _ _ _ (by rw [h]; simp)

theorem since_append_cons (h : e.asked? id = some query) (hnone : ∀ e ∈ es', e.asked? id = none) :
    since id (es ++ e :: es') = es' := by
  induction es' using List.reverseRecOn with
  | nil => exact since_concat_of_some h
  | append_singleton es' e' ih =>
    have hlast : es ++ e :: (es' ++ [e']) = es ++ e :: es' ++ [e'] := by simp
    rw [hlast, since_concat_of_none (hnone e' (List.mem_append_right _ List.mem_cons_self)),
      ih fun e he => hnone e (List.mem_append_left _ he)]

/-- What has been delivered since a registration has been delivered. -/
theorem deliveries_since_subset (id : QueryId) (es : List Event) :
    deliveries id (since id es) ⊆ deliveries id es := by
  obtain ⟨before, hbefore⟩ := List.rtakeWhile_suffix (fun e : Event => (e.asked? id).isNone) es
  intro s hs
  rw [← hbefore, deliveries_append]
  exact List.mem_append_right _ hs

/-- The tuples come in the order of the events. -/
theorem sorted_arrivals (h : (es.map Event.now).Pairwise (· ≤ ·)) :
    ((arrivals es).map Arrival.now).Pairwise (· ≤ ·) := by
  rw [List.pairwise_map] at h ⊢
  unfold arrivals
  rw [List.pairwise_filterMap]
  refine h.imp fun {e e'} hle a ha a' ha' => ?_
  rw [Event.now_of_arrival? ha, Event.now_of_arrival? ha']
  exact hle

/-! ### Runs, event by event -/

namespace Watched

/-- What performing an operation comes to. -/
def event (w : Watched) (now : Nat) (op : Operation) : Event :=
  ⟨now, op, (w.perform now op).1, (w.perform now op).2.1⟩

/-- The operations of a run with their answers. -/
def events (w : Watched) (ops : List (Nat × Operation)) : List Event :=
  List.zipWith (fun o a => ⟨o.1, o.2, a.1, a.2⟩) ops (w.run ops).1

/-- The events that lead from one state to another. -/
inductive History (w : Watched) : List Event → Watched → Prop where
  | nil : History w [] w
  | concat {es w'} : History w es w' → (now : Nat) → (op : Operation) →
      History w (es ++ [w'.event now op]) (w'.next now op)

variable {w w' : Watched}

theorem events_cons (w : Watched) (o : Nat × Operation) (ops : List (Nat × Operation)) :
    w.events (o :: ops) = w.event o.1 o.2 :: (w.next o.1 o.2).events ops := rfl

/-- A run continues a history. -/
theorem History.run (h : History w es w') (ops : List (Nat × Operation)) :
    History w (es ++ w'.events ops) (w'.run ops).2 := by
  induction ops generalizing es w' with
  | nil =>
    rw [show w'.events [] = [] from rfl, List.append_nil]
    exact h
  | cons o ops ih =>
    rw [events_cons, List.append_cons]
    exact ih (h.concat o.1 o.2)

theorem history_run (w : Watched) (ops : List (Nat × Operation)) :
    History w (w.events ops) (w.run ops).2 := History.nil.run ops

theorem run_concat (w : Watched) (ops : List (Nat × Operation)) (o : Nat × Operation) :
    (w.run (ops ++ [o])).2 = (w.run ops).2.next o.1 o.2 := by
  induction ops generalizing w with
  | nil => rfl
  | cons o' ops ih => exact ih (w.next o'.1 o'.2)

theorem events_concat (w : Watched) (ops : List (Nat × Operation)) (o : Nat × Operation) :
    w.events (ops ++ [o]) = w.events ops ++ [(w.run ops).2.event o.1 o.2] := by
  induction ops generalizing w with
  | nil => rfl
  | cons o' ops ih =>
    rw [List.cons_append, events_cons, ih, events_cons]
    rfl

theorem map_now_events (w : Watched) (ops : List (Nat × Operation)) :
    (w.events ops).map Event.now = ops.map Prod.fst := by
  induction ops generalizing w with
  | nil => rfl
  | cons o ops ih =>
    rw [events_cons, List.map_cons, List.map_cons, ih]
    rfl

theorem arrivals_events (w : Watched) (ops : List (Nat × Operation)) :
    arrivals (w.events ops) = ops.filterMap fun o => o.2.arrival? o.1 := by
  induction ops generalizing w with
  | nil => rfl
  | cons o ops ih =>
    rw [events_cons, List.filterMap_cons, ← ih (w.next o.1 o.2)]
    rfl

theorem forall_events {P : Operation → Prop} {ops : List (Nat × Operation)}
    (h : ∀ o ∈ ops, P o.2) (w : Watched) : ∀ e ∈ w.events ops, P e.op := by
  induction ops generalizing w with
  | nil => exact fun _ he => absurd he List.not_mem_nil
  | cons o ops ih =>
    intro e he
    rw [events_cons] at he
    rcases List.mem_cons.1 he with he | he
    · rw [he]
      exact h o List.mem_cons_self
    · exact ih (fun o ho => h o (List.mem_cons_of_mem _ ho)) _ e he

theorem History.consistent (h : History w es w') (hc : w.index.Consistent []) :
    w'.index.Consistent [] := by
  induction h with
  | nil => exact hc
  | concat _ now op ih => exact consistent_next ih now op

theorem History.settings (h : History w es w') (hc : w.index.Consistent []) :
    w'.index.settings = w.index.settings := by
  induction h with
  | nil => rfl
  | concat h now op ih => exact (settings_next (h.consistent hc) now op).trans ih

theorem History.strategy {c : Config} (h : History (Watched.new c) es w') :
    w'.index.joins.strategy = c.joinStrategy :=
  congrArg Settings.strategy ((h.settings (consistent_new c)).trans (settings_new c))

/-! ### Where a query comes from -/

/-- A query that is registered after an operation was before, or the operation has registered it. -/
theorem asked?_next (hc : w.index.Consistent []) (h : (w.next now op).index.asked? id = some query) :
    (w.event now op).asked? id = some query ∨
      (w.event now op).asked? id = none ∧ w.index.asked? id = some query := by
  cases op with
  | register i query' ttl quota =>
    unfold next at h
    unfold event Event.asked?
    rcases perform_register w now i query' ttl quota with ⟨e, hp⟩ | ⟨analysis, index, hv, hr, hp⟩
    · rw [hp] at h ⊢
      exact .inr ⟨rfl, h⟩
    · rw [hp] at h ⊢
      dsimp only [Operation.asked?]
      by_cases hi : i = id
      · have hget := get?_register hr id
        rw [if_pos hi] at hget
        rw [if_pos hi]
        have hasked : index.asked? id = some query := h
        rw [QueryIndex.asked?, hget, Option.map_some] at hasked
        exact .inl hasked
      · rw [if_neg hi]
        exact .inr ⟨rfl, (unmoved_register hr hi).asked ▸ h⟩
  | deactivate i =>
    refine .inr ⟨rfl, ?_⟩
    unfold next at h
    rcases perform_deactivate w now i with hp | hp
    · rw [hp] at h
      exact h
    · rw [hp] at h
      exact h
  | unregister i => exact .inr ⟨rfl, asked?_of_unregister h⟩
  | renew i ttl => exact .inr ⟨rfl, (unmoved_renew hc i ttl now id).asked ▸ h⟩
  | add t ttl => exact .inr ⟨rfl, asked?_of_add hc h⟩
  | removeExpired => exact .inr ⟨rfl, asked?_of_removeExpired hc h⟩
  | clear => cases h

/-- A query that is registered has been registered by some event, and by none since. -/
theorem exists_registration (h : History w es w') (hc : w.index.Consistent [])
    (hempty : w.index.asked? id = none) (hasked : w'.index.asked? id = some query) :
    ∃ before w₁ now op after, es = before ++ w₁.event now op :: after ∧ History w before w₁ ∧
      (w₁.event now op).asked? id = some query ∧ History (w₁.next now op) after w' ∧
      ∀ e ∈ after, e.asked? id = none := by
  induction h with
  | nil =>
    rw [hempty] at hasked
    cases hasked
  | @concat es w' h now op ih =>
    rcases asked?_next (h.consistent hc) hasked with hnew | ⟨hnone, hold⟩
    · exact ⟨es, w', now, op, [], rfl, h, hnew, .nil, by simp⟩
    · obtain ⟨before, w₁, now₁, op₁, after, rfl, hbefore, hnew, hafter, hnever⟩ := ih hold
      refine ⟨before, w₁, now₁, op₁, after ++ [w'.event now op], by simp, hbefore, hnew,
        hafter.concat now op, fun e he => ?_⟩
      rcases List.mem_append.1 he with he | he
      · exact hnever e he
      · rw [List.mem_singleton.1 he]
        exact hnone

/-- What an event has registered is in the index, with nothing stored for it yet. -/
theorem serving_of_asked? (hc : w.index.Consistent [])
    (h : (w.event now op).asked? id = some query) :
    (w.next now op).index.Serving ⊥ id query [] [] := by
  unfold event Event.asked? Operation.asked? at h
  dsimp only at h
  split at h
  · next i query' ttl quota hdone =>
    unfold next
    rcases perform_register w now i query' ttl quota with ⟨e, hp⟩ | ⟨analysis, index, hv, hr, hp⟩
    · rw [hp] at hdone
      cases hdone
    · split at h
      · next hi =>
        cases h
        subst hi
        rw [hp]
        exact serving_register hc hr
      · cases h
  · cases h

/-- A registration delivers nothing. -/
theorem sentTo_of_asked? {w : Watched} (h : (w.event now op).asked? id = some query) :
    sentTo id (w.event now op).log = [] := by
  unfold event Event.asked? Operation.asked? at h
  dsimp only at h
  split at h
  · exact congrArg (sentTo id) (log_eq_nil rfl)
  · cases h

theorem serving_of_done {ttl : Nat} {quota : Option Nat} (hc : w.index.Consistent [])
    (hdone : (w.perform now (.register id query ttl quota)).1 = .done) :
    (w.next now (.register id query ttl quota)).index.Serving ⊥ id query [] [] := by
  refine serving_of_asked? hc ?_
  unfold event Event.asked? Operation.asked?
  dsimp only
  rw [hdone]
  exact if_pos rfl

/-! ### From a registration on -/

/-- As long as the id is not registered again, a query is hit by what is added and is sent
what the hits are served. -/
theorem serving_history (h : History w es w') (hc : w.index.Consistent [])
    (hstart : w.index.Serving ⊥ id query [] []) (hnone : ∀ e ∈ es, e.asked? id = none)
    (hsorted : (es.map Event.now).Pairwise (· ≤ ·)) (hnow : ∀ e ∈ es, e.now ≤ now) :
    w'.index.Serving (.upTo now) id query ((arrivals es).flatMap (hitsOf id query.pattern))
      (deliveries id es) := by
  induction h generalizing now with
  | nil => exact hstart.mono bot_le
  | @concat es w' h t op ih =>
    rw [List.map_append, List.pairwise_append] at hsorted
    obtain ⟨hsorted, -, hlast⟩ := hsorted
    have hearlier : ∀ e ∈ es, e.now ≤ t := fun e he =>
      hlast e.now (List.mem_map_of_mem he) t (by simp [event])
    have ih := ih (fun e he => hnone e (List.mem_append_left _ he)) hsorted hearlier
    have hother := hnone (w'.event t op) (List.mem_append_right _ List.mem_cons_self)
    have hnext := serving_next (h.consistent hc) ih le_rfl hother
    have ht : t ≤ now := hnow (w'.event t op) (List.mem_append_right _ List.mem_cons_self)
    rw [arrivals_append, List.flatMap_append, deliveries_append, arrivals_singleton,
      deliveries_singleton]
    exact hnext.mono (Life.upTo_mono ht)

/-- A query that is registered after a run has been hit by what was added since its registration,
and has been sent what these hits are served. -/
theorem serving_run {c : Config} {ops : List (Nat × Operation)}
    (hsorted : (ops.map Prod.fst).Pairwise (· ≤ ·)) (hnow : ∀ o ∈ ops, o.1 ≤ now)
    (hasked : ((Watched.new c).run ops).2.index.asked? id = some query) :
    ((Watched.new c).run ops).2.index.Serving (.upTo now) id query
      ((arrivals (since id ((Watched.new c).events ops))).flatMap (hitsOf id query.pattern))
      (deliveries id (since id ((Watched.new c).events ops))) := by
  have hrun := history_run (Watched.new c) ops
  have hmap := map_now_events (Watched.new c) ops
  generalize (Watched.new c).events ops = es at hrun hmap ⊢
  obtain ⟨before, w₁, t, op, after, rfl, hbefore, hregistered, hafter, hnone⟩ :=
    exists_registration hrun (consistent_new c) rfl hasked
  rw [since_append_cons hregistered hnone]
  rw [← hmap, List.map_append, List.map_cons] at hsorted
  have hsorted := (List.pairwise_cons.1 (List.pairwise_append.1 hsorted).2.1).2
  have hlater : ∀ e ∈ after, e.now ≤ now := by
    intro e he
    have hmem : e.now ∈ ops.map Prod.fst := by
      rw [← hmap]
      exact List.mem_map_of_mem (List.mem_append_right _ (List.mem_cons_of_mem _ he))
    obtain ⟨o, ho, heq⟩ := List.mem_map.1 hmem
    exact heq ▸ hnow o ho
  have hearlier := hbefore.consistent (consistent_new c)
  exact serving_history hafter (consistent_next hearlier t op)
    (serving_of_asked? hearlier hregistered) hnone hsorted hlater

/-- If what is added never expires, a query is followed exactly, whatever the times. -/
theorem serving_history_never (h : History w es w') (hc : w.index.Consistent [])
    (hstart : w.index.Serving ⊥ id query [] []) (hnone : ∀ e ∈ es, e.asked? id = none)
    (hnever : ∀ a ∈ arrivals es, a.expiration = .never) :
    w'.index.Serving ⊥ id query ((arrivals es).flatMap (hitsOf id query.pattern))
      (deliveries id es) := by
  induction h with
  | nil => exact hstart
  | @concat es w' h t op ih =>
    rw [arrivals_append] at hnever ⊢
    have ih := ih (fun e he => hnone e (List.mem_append_left _ he)) fun a ha =>
      hnever a (List.mem_append_left _ ha)
    have hother := hnone (w'.event t op) (List.mem_append_right _ List.mem_cons_self)
    have hnext := serving_next (h.consistent hc) ih bot_le hother
    rw [List.flatMap_append, deliveries_append, arrivals_singleton, deliveries_singleton]
    refine hnext.timeless (WithBot.coe_lt_coe.2 Expiration.instant_lt_never) fun hit hhit => ?_
    rw [← List.flatMap_append, List.mem_flatMap] at hhit
    obtain ⟨a, ha, hhit⟩ := hhit
    rw [(mem_hitsOf.1 hhit).2.2]
    exact hnever a (arrivals_singleton (e := w'.event t op) ▸ ha)

end Watched

/-! ### A sample -/

/-- Two edges in a row. -/
def twoEdges : GraphPattern :=
  [⟨[.var ⟨"a"⟩, .const ⟨"p"⟩, .var ⟨"b"⟩]⟩, ⟨[.var ⟨"b"⟩, .const ⟨"p"⟩, .var ⟨"c"⟩]⟩]

/-- An edge from a node to itself, which matches both. -/
def loop : Tuple := ⟨[⟨"x"⟩, ⟨"p"⟩, ⟨"x"⟩]⟩

/-- What a loop binds on two edges in a row. -/
def allAtX : Binding :=
  ((({} : Binding).insert ⟨"a"⟩ ⟨"x"⟩).insert ⟨"b"⟩ ⟨"x"⟩).insert ⟨"c"⟩ ⟨"x"⟩

/-- A query is registered for ever, and a loop comes twice. -/
def looping (ttl ttl' : Nat) : List (Nat × Operation) :=
  [(0, .register 1 ⟨twoEdges, {}⟩ 0), (0, .add loop ttl), (0, .add loop ttl')]

end QueryIndex

end StandingQuery
