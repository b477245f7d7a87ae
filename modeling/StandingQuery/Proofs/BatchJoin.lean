import StandingQuery.Proofs.Lasting

/-! Continuous evaluation is batch evaluation.

If tuples never expire, a query that takes all its solutions is sent each of them
once, and all together they are the join of what has been added: one match for each
pattern, any two of them compatible (`delivers_join`). When the tuples came, in which
order, how often, and which other queries were there makes no difference. -/
namespace StandingQuery

namespace GraphPattern

/-- A row of the naive join: a match of one of the tuples for each pattern, all merged. -/
def Joins (g : GraphPattern) (tuples : List Tuple) (b : Binding) : Prop :=
  ∃ ms : Nat → Binding, (∀ i < g.length, ∃ t ∈ tuples, g.matchAt i t = some (ms i)) ∧
    Merges (List.range g.length) ms b

variable {g : GraphPattern} {a : Analysis} {b : Binding}

/-- The rows of the naive join are the bindings of the query whose matches have all been given. -/
theorem joins_iff (ha : g.analyse = .ok a) {tuples : List Tuple} : g.Joins tuples b ↔
    g.Fits (.full g.length) b ∧ ∀ i ∈ PatternSet.full g.length,
      ∃ t ∈ tuples, g.matchAt i t = some (g.portion b i) := by
  obtain ⟨hpos, hcapacity, -⟩ := analyse_eq_ok_iff.1 ha
  have hfull : ∀ i, i ∈ PatternSet.full g.length ↔ i < g.length := fun i => by
    rw [PatternSet.mem_full, Nat.min_eq_left hcapacity]
  have hrange : ∀ i, i ∈ List.range g.length ↔ i ∈ PatternSet.full g.length := fun i => by
    rw [List.mem_range, hfull]
  constructor
  · intro ⟨ms, hmatch, hms⟩
    have hdom : ∀ i ∈ List.range g.length, ∀ v, v ∈ ms i ↔ v ∈ g.varsAt i := by
      intro i hi
      obtain ⟨t, -, hm⟩ := hmatch i (List.mem_range.1 hi)
      obtain ⟨p, hp, hpm⟩ := Option.bind_eq_some_iff.1 hm
      exact (fits_single_iff.1 (fits_of_match? hp hpm)).2
    have hconnected := connected_full (onePiece_of_analyse ha) hpos hcapacity
    refine ⟨hms.fits hdom hconnected hrange, fun i hi => ?_⟩
    rw [hms.portion hdom ((hrange i).2 hi)]
    exact hmatch i ((hfull i).1 hi)
  · intro ⟨hb, hmatch⟩
    exact ⟨g.portion b, fun i hi => hmatch i ((hfull i).2 hi), hb.merges hrange⟩

end GraphPattern

namespace QueryIndex
open Watched GraphPattern

/-- The tuples that operations add. -/
def added (ops : List (Nat × Operation)) : List Tuple :=
  (ops.filterMap fun o => o.2.arrival? o.1).map Arrival.tuple

/-- The operations let a query be, and what they add never expires. -/
def Sustain (id : QueryId) (ops : List (Nat × Operation)) : Prop :=
  ∀ o ∈ ops, o.2.Spares id ∧ ∀ t ttl, o.2 = .add t ttl → ttl = 0

variable {w : Watched} {id : QueryId} {g : GraphPattern} {a : Analysis}
variable {ops : List (Nat × Operation)}

theorem Sustain.never (h : Sustain id ops) (w : Watched) :
    ∀ a ∈ arrivals (w.events ops), a.expiration = .never := by
  intro a ha
  rw [arrivals_events, List.mem_filterMap] at ha
  obtain ⟨o, ho, harrival⟩ := ha
  unfold Operation.arrival? at harrival
  split at harrival
  · next t ttl hop =>
    cases harrival
    exact if_pos ((h o ho).2 t ttl hop)
  · cases harrival

/-- From a state in which nothing is stored for it yet, a query is sent the join of what is added. -/
theorem join_of_lasting (hc : w.index.Consistent []) (hstart : w.index.Serving ⊥ id ⟨g, {}⟩ [] [])
    (hlasting : w.Lasting id) (ha : g.analyse = .ok a) (hops : Sustain id ops) :
    ∃ bs : List Binding,
      deliveries id (w.events ops) = bs.map (fun b => ⟨id, .bindings b, .never⟩) ∧
        bs.Nodup ∧ ∀ b, b ∈ bs ↔ g.Joins (added ops) b := by
  have hrun := history_run w ops
  have harrivals := hops.never w
  obtain ⟨hlasting', hnone⟩ := lasting_history_never hrun hc hstart Modifiers.plain_default hlasting
    (forall_events (fun o ho => (hops o ho).1) w) harrivals
  have hserving := serving_history_never hrun hc hstart hnone harrivals
  obtain ⟨earlier, served, hserved, -, hall⟩ := hserving.sent Modifiers.plain_default
  obtain ⟨rfl, hsent⟩ := hall hlasting'.active
  have hhits : ∀ h ∈ (arrivals (w.events ops)).flatMap (hitsOf id g), h.expiration = .never := by
    intro h hh
    obtain ⟨arrival, harrival, hh⟩ := List.mem_flatMap.1 hh
    rw [(mem_hitsOf.1 hh).2.2]
    exact harrivals arrival harrival
  obtain ⟨hnodup, hnever, hmem⟩ := hserved.never hhits
  refine ⟨served.map Candidate.binding, ?_, ?_, fun b => ?_⟩
  · rw [hsent, Modifiers.sent_default, List.map_map]
    refine List.map_congr_left fun c hc => ?_
    rw [hnever c hc]
    rfl
  · exact List.pairwise_map.2 hnodup
  · have hserves : b ∈ served.map Candidate.binding ↔ ⟨b, .never⟩ ∈ served := by
      rw [List.mem_map]
      constructor
      · intro ⟨c, hc, hb⟩
        rw [← hb, ← hnever c hc]
        exact hc
      · intro hb
        exact ⟨_, hb, rfl⟩
    rw [hserves, hmem, lifeAfter, ofHits_flatMap, joins_iff ha]
    refine and_congr_right fun _ => ?_
    rw [joinLife, Finset.inf_eq_top_iff]
    refine forall_congr' fun i => ?_
    rw [PatternSet.mem_members, show (⊤ : Life) = (Expiration.never : Life) from rfl,
      latest_eq_coe_iff harrivals, arrivals_events]
    rfl

/-- A query that is registered for ever with default modifiers, next to whatever has happened
before, is sent each row of the join of the tuples that are added from then on, once, and
nothing else, provided that the tuples do not expire and nobody ends the query. What is
sent depends on which tuples are added only. -/
theorem delivers_join {c : Config} {before : List (Nat × Operation)} {now : Nat}
    (hdone : (((Watched.new c).run before).2.perform now (.register id ⟨g, {}⟩ 0)).1 = .done) :
    let w := ((Watched.new c).run before).2.next now (.register id ⟨g, {}⟩ 0)
    ∀ ops, Sustain id ops →
      (∃ bs : List Binding,
        deliveries id (w.events ops) = bs.map (fun b => ⟨id, .bindings b, .never⟩) ∧
          bs.Nodup ∧ ∀ b, b ∈ bs ↔ g.Joins (added ops) b) ∧
      ∀ ops', Sustain id ops' → (∀ t, t ∈ added ops' ↔ t ∈ added ops) →
        ∀ s, s ∈ deliveries id (w.events ops') ↔ s ∈ deliveries id (w.events ops) := by
  intro w ops hops
  have hc := (history_run (Watched.new c) before).consistent (consistent_new c)
  have hconsistent : w.index.Consistent [] := consistent_next hc now (.register id ⟨g, {}⟩ 0)
  have hstart : w.index.Serving ⊥ id ⟨g, {}⟩ [] [] := serving_of_done hc hdone
  obtain ⟨hlasting, a, ha⟩ := lasting_register hdone
  refine ⟨join_of_lasting hconsistent hstart hlasting ha hops, fun ops' hops' hsame s => ?_⟩
  obtain ⟨bs, hbs, -, hmem⟩ := join_of_lasting hconsistent hstart hlasting ha hops
  obtain ⟨bs', hbs', -, hmem'⟩ := join_of_lasting hconsistent hstart hlasting ha hops'
  have hjoins : ∀ b, b ∈ bs' ↔ b ∈ bs := by
    intro b
    rw [hmem, hmem']
    unfold Joins
    simp only [hsame]
  rw [hbs, hbs', List.mem_map, List.mem_map]
  simp only [hjoins]

/-- Two edges in a row have one row on a loop, however often it is added. -/
theorem delivers_join_loop : {b | twoEdges.Joins [loop, loop] b} = {allAtX} := by
  have hdone : (((Watched.new {}).run []).2.perform 0 (.register 1 ⟨twoEdges, {}⟩ 0)).1 = .done := by
    decide +kernel
  have hsustain : Sustain 1 [(0, .add loop 0), (1, .add loop 0)] := by
    intro o ho
    have hadd : ∃ now, o = (now, .add loop 0) := by
      simp only [List.mem_cons, List.not_mem_nil, or_false] at ho
      exact ho.elim (fun h => ⟨0, h⟩) fun h => ⟨1, h⟩
    obtain ⟨now, rfl⟩ := hadd
    exact ⟨trivial, fun t ttl h => by cases h; rfl⟩
  obtain ⟨⟨bs, hbs, -, hmem⟩, -⟩ := delivers_join hdone _ hsustain
  have hone : deliveries 1 ((((Watched.new {}).run []).2.next 0
      (.register 1 ⟨twoEdges, {}⟩ 0)).events [(0, .add loop 0), (1, .add loop 0)]) =
      [⟨1, .bindings allAtX, .never⟩] := by decide +kernel
  rw [hone] at hbs
  ext b
  refine (hmem b).symm.trans ?_
  match bs, hbs with
  | [b'], hbs =>
    have hb' : allAtX = b' := by simpa using hbs
    rw [List.mem_singleton, hb', Set.mem_singleton_iff]

end QueryIndex

end StandingQuery
