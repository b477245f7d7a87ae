import StandingQuery.Proofs.CheckedAnalysis
import StandingQuery.Proofs.Reachability

/-! Indices in range: tuples on their way through the index.

The numbers of patterns come out of the pattern index, go into sets, into the store and out of it
again, and are looked up in the analysis of their query, all without a check. The functions with a
question mark make every check, as for validation. What is stored for a query are bindings of
connected parts of it, and what is filed for it are its own patterns, so no check ever fails: whatever
has been done to an index, adding a tuple with every check made comes to the same as without
(`indices_inRange`). -/
namespace StandingQuery
open Std

/-! ### The symmetric join -/

namespace SolutionStore
open PartialSolution PartialStore

def partnersOver? (s : SolutionStore) (p : PartialSolution PatternSet) (a : Analysis) (now : Nat)
    (part : PatternSet) : Option (List (PartialSolution PatternSet)) := do
  if part.disjoint p.part && (← a.adjacent? p.part part) then
    match ← a.sharedVariable? p.part part with
    | none => return []
    | some v =>
      match p.binding[v]? with
      | none => return []
      | some t =>
        return (s.probe ⟨p.query, part, v, t⟩).filter fun q =>
          !q.expiration.expiredAt now && Binding.compatible q.binding p.binding
  else return []

def partners? (s : SolutionStore) (p : PartialSolution PatternSet) (a : Analysis) (now : Nat) :
    Option (List (PartialSolution PatternSet)) := do
  return (← (s.partsOf p.query).keys.mapM (partnersOver? s p a now)).flatten

/-- Joins partial solutions of a query with `n` patterns. -/
def join? (n : Nat) (p q : PartialSolution PatternSet) : Option (PartialSolution PatternSet) := do
  return { p.join q with part := ← PatternSet.union? n p.part q.part }

/-- What is stored under a set of patterns is stored under a set of patterns of the query. -/
def absorb? (a : Analysis) (now : Nat) (s : Progress) (p : PartialSolution PatternSet) :
    Option (Progress × List (PartialSolution PatternSet)) := do
  let part ← PatternSet.within? a.size p.part
  let (outcome, store) := s.store.insert { p with part }
  match outcome.id? with
  | none => return (s, [])
  | some id =>
    let s := { s with
      store
      expirations := s.expirations.track (.solution id) p.expiration
      changed := true }
    if p.part = (← a.full?) then return ({ s with complete := s.complete ++ [p] }, [])
    else return (s, ← (← partners? store p a now).mapM (join? a.size p))

def round? (a : Analysis) (now : Nat) : Progress → List (PartialSolution PatternSet) →
    Option (Progress × List (PartialSolution PatternSet))
  | s, [] => some (s, [])
  | s, p :: work => do
    let (s, joined) ← absorb? a now s p
    let (s, more) ← round? a now s work
    return (s, joined ++ more)

def rounds? (a : Analysis) (now : Nat) :
    Nat → Progress → List (PartialSolution PatternSet) → Option Progress
  | 0, s, _ => some s
  | _ + 1, s, [] => some s
  | n + 1, s, p :: work => do
    let (s, next) ← round? a now s (p :: work)
    rounds? a now n s next

def propagate? (s : SolutionStore) (expirations : Expirations) (seed : PartialSolution PatternSet)
    (a : Analysis) (now : Nat) : Option Progress :=
  rounds? a now (a.size + 1) { store := s, expirations } [seed]

section Partners

variable {s : SolutionStore} {g : GraphPattern} {now : Nat} {p : PartialSolution PatternSet}
variable (hcap : g.length ≤ PatternSet.capacity) (hp : ∀ i ∈ p.part, i < g.length)
include hcap hp

theorem partnersOver?_eq {part : PatternSet} (hpart : ∀ i ∈ part, i < g.length) :
    partnersOver? s p (.ofPattern g) now part =
      some (partnersOver s p (.ofPattern g) now part) := by
  unfold partnersOver? partnersOver
  refine bind_eq (Analysis.adjacent?_eq hcap hp part) ?_
  split
  · refine bind_eq (Analysis.sharedVariable?_eq hcap hp hpart) ?_
    cases (Analysis.ofPattern g).sharedVariable p.part part with
    | none => rfl
    | some v =>
      dsimp only
      cases p.binding[v]? <;> rfl
  · rfl

theorem partners?_eq (h : s.Sound) (hfit : s.Fitting p.query g) :
    partners? s p (.ofPattern g) now = some (partners s p (.ofPattern g) now) := by
  refine bind_eq (mapM_eq_some fun part hpart => partnersOver?_eq hcap hp ?_) ?_
  · obtain ⟨n, q, hn, hq, rfl⟩ := (mem_keys_partsOf h).1 hpart
    exact (hfit n q hn hq).connected.inRange
  · rw [partners, List.flatMap_def]
    rfl

end Partners

theorem join?_eq {p q : PartialSolution PatternSet} {n : Nat} (hp : ∀ i ∈ p.part, i < n)
    (hq : ∀ i ∈ q.part, i < n) : join? n p q = some (p.join q) :=
  bind_eq (PatternSet.union?_eq hp hq) rfl

section Joining

variable {g : GraphPattern} {query : QueryId} {now : Nat} {start s : Progress}
variable {p : PartialSolution PatternSet} {work rest : List (PartialSolution PatternSet)}
variable (hcap : g.length ≤ PatternSet.capacity)
include hcap

theorem Working.absorb?_eq (h : Working g query start s (p :: rest)) :
    absorb? (.ofPattern g) now s p = some (SolutionStore.absorb (.ofPattern g) now s p) := by
  obtain ⟨hq, hfits⟩ := h.ours p List.mem_cons_self
  have hp : ∀ i ∈ p.part, i < g.length := hfits.connected.inRange
  have hfit : Fitting (s.store.insert p).2 p.query g := hq ▸ fitting_insert h.sound h.fitting hfits
  have hsound := sound_insert h.sound p
  have hsize : (Analysis.ofPattern g).size = g.length := Analysis.size_ofPattern
  refine bind_eq (PatternSet.within?_eq (hsize.symm ▸ hp)) ?_
  unfold SolutionStore.absorb
  dsimp only
  cases (s.store.insert p).1.id? with
  | none => rfl
  | some n =>
    refine bind_eq (PatternSet.full?_eq _) ?_
    dsimp only
    unfold Analysis.full
    split
    · rfl
    · refine bind_eq (partners?_eq hcap hp hsound hfit) <| bind_eq (mapM_eq_some fun r hr => ?_) rfl
      obtain ⟨⟨m, hm⟩, hquery, -⟩ := of_mem_partners hsound hr
      exact join?_eq (hsize.symm ▸ hp) (hsize.symm ▸ (hfit m r hm hquery).connected.inRange)

theorem Working.round?_eq (h : Working g query start s (work ++ rest)) :
    round? (.ofPattern g) now s work = some (round (.ofPattern g) now s work) := by
  induction work generalizing s rest with
  | nil => rfl
  | cons p work ih =>
    have hnext : Working g query start (SolutionStore.absorb (.ofPattern g) now s p).1
        (work ++ rest ++ (SolutionStore.absorb (.ofPattern g) now s p).2) := h.absorb
    rw [List.append_assoc] at hnext
    exact bind_eq (h.absorb?_eq hcap) <| bind_eq (ih hnext) rfl

theorem Working.rounds?_eq (h : Working g query start s work) (now n : Nat) :
    rounds? (.ofPattern g) now n s work = some (rounds (.ofPattern g) now n s work) := by
  induction n generalizing s work with
  | zero => rfl
  | succ n ih =>
    cases work with
    | nil => rfl
    | cons p work =>
      rw [← List.append_nil (p :: work)] at h
      obtain ⟨hnext, -⟩ := round_induct (fun _ _ _ h => h.absorb) (fun _ _ _ h => h.grows)
        (p :: work) s [] h (k := 0) fun _ _ => Nat.zero_le _
      exact bind_eq (h.round?_eq hcap) (ih hnext)

end Joining

end SolutionStore

/-! ### The caching join -/

namespace MatchCache
open PartialStore

def candidates? (c : MatchCache) (a : Analysis) (query : QueryId) (now : Nat) (i : Nat)
    (b : Binding) : Option (List (PartialSolution Nat)) := do
  match (← a.vars[i]?).findSome? fun v => b[v]?.map (v, ·) with
  | none => return []
  | some (v, t) =>
    return (c.probe ⟨query, i, v, t⟩).filter fun m =>
      !m.expiration.expiredAt now && Binding.compatible m.binding b

def extend? (c : MatchCache) (a : Analysis) (query : QueryId) (now : Nat) :
    List Nat → Binding → Expiration → Option (List Candidate)
  | [], b, e => some [⟨b, e⟩]
  | i :: rest, b, e => do
    let found ← candidates? c a query now i b
    return (← found.mapM fun m =>
      extend? c a query now rest (Binding.merge b m.binding) (min e m.expiration)).flatten

def addMatch? (c : MatchCache) (expirations : Expirations) (m : PartialSolution Nat) (a : Analysis)
    (now : Nat) : Option (Option (List Candidate) × MatchCache × Expirations) := do
  let (outcome, c') := c.insert m
  match outcome.id? with
  | none => return (none, c, expirations)
  | some id =>
    let found ← extend? c' a m.query now (← a.joinOrders[m.part]?) m.binding m.expiration
    return (some found, c', expirations.track (.solution id) m.expiration)

variable {c : MatchCache} {g : GraphPattern} {query : QueryId} {now i : Nat} {b : Binding}
variable {e : Expiration}

theorem candidates?_eq (hi : i < g.length) : candidates? c (.ofPattern g) query now i b =
    some (candidates c (.ofPattern g) query now i b) := by
  refine bind_eq (Analysis.vars_getElem? hi) ?_
  unfold candidates probeTerm?
  cases ((Analysis.ofPattern g).varsOf i).findSome? fun v => b[v]?.map (v, ·) <;> rfl

theorem extend?_eq {order : List Nat} (horder : ∀ i ∈ order, i < g.length) (b : Binding)
    (e : Expiration) : extend? c (.ofPattern g) query now order b e =
      some (extend c (.ofPattern g) query now order b e) := by
  induction order generalizing b e with
  | nil => rfl
  | cons i rest ih =>
    have hrest := ih fun j hj => horder j (List.mem_cons_of_mem _ hj)
    refine bind_eq (candidates?_eq (horder i List.mem_cons_self)) <|
      bind_eq (mapM_eq_some fun m _ => hrest _ _) ?_
    rw [extend, List.flatMap_def]
    rfl

theorem addMatch?_eq (c : MatchCache) (x : Expirations) {m : PartialSolution Nat}
    (hm : m.part < g.length) (now : Nat) :
    addMatch? c x m (.ofPattern g) now = some (addMatch c x m (.ofPattern g) now) := by
  unfold addMatch? addMatch
  dsimp only
  cases (c.insert m).1.id? with
  | none => rfl
  | some n =>
    exact bind_eq (Analysis.joinOrders_getElem? hm) <|
      bind_eq (extend?_eq (Analysis.joinOrder_inRange hm) _ _) rfl

end MatchCache

/-! ### The index -/

namespace JoinState

def advance? (j : JoinState) (expirations : Expirations) (q : Registered) (pattern : Nat)
    (m : Candidate) (now : Nat) : Option Advance :=
  match j with
  | symmetric s => do
    let part ← PatternSet.single? q.analysis.size pattern
    let p ← SolutionStore.propagate? s expirations ⟨q.id, part, m.binding, m.expiration⟩ q.analysis now
    return {
      changed := p.changed
      candidates := p.complete.map fun c => ⟨c.binding, c.expiration⟩
      joins := symmetric p.store
      expirations := p.expirations }
  | caching c => do
    let (found, c, expirations) ←
      MatchCache.addMatch? c expirations ⟨q.id, pattern, m.binding, m.expiration⟩ q.analysis now
    return { changed := found.isSome, candidates := found.getD [], joins := caching c, expirations }

theorem advance?_eq {j : JoinState} {x : Expirations} {q : Registered} {i now : Nat} {m : Candidate}
    (h : Takes j x q i m) : j.advance? x q i m now = some (j.advance x q i m now) := by
  have hi : i < q.pattern.length := h.fits.connected.inRange i (PatternSet.mem_single.2 rfl)
  cases j with
  | symmetric s =>
    have hpropagate := h.working.rounds?_eq h.capacity now (q.analysis.size + 1)
    rw [← h.analysis] at hpropagate
    refine bind_eq (PatternSet.single?_eq ?_ ?_) <| bind_eq hpropagate rfl
    · rw [h.analysis, Analysis.size_ofPattern]
      exact h.capacity
    · rw [h.analysis, Analysis.size_ofPattern]
      exact hi
  | caching c =>
    have hadded := MatchCache.addMatch?_eq c x (m := ⟨q.id, i, m.binding, m.expiration⟩) hi now
    rw [← h.analysis] at hadded
    exact bind_eq hadded rfl

end JoinState

namespace QueryIndex

variable {σ : Type}

def visit? (receive : Subscriber σ) (t : Tuple) (expiration : Expiration) (now : Nat)
    (w : Addition σ) (ref : PatternRef) : Option (Addition σ) :=
  if w.failed then some w
  else
    match w.index.registry.get? ref.query with
    | none => some w
    | some q =>
      if !w.index.active.contains ref.query then some w
      else do
        match (← q.pattern[ref.pattern]?).match? t with
        | none => return w
        | some binding =>
          let a ← w.index.joins.advance? w.index.expirations q ref.pattern ⟨binding, expiration⟩ now
          let d := q.deliver receive now w.index.active w.state a.candidates
          return {
            index := { w.index with
              registry := w.index.registry.update d.query
              active := d.active
              joins := a.joins
              expirations := a.expirations }
            state := d.state
            changed := w.changed || a.changed
            satisfied := if d.satisfied then w.satisfied ++ [d.query.id] else w.satisfied
            failed := d.failed }

def add? (receive : Subscriber σ) (x : QueryIndex) (t : Tuple) (ttl now : Nat) (state : σ) :
    Option (Addition σ) := do
  if t.arity ≠ x.arity then return { index := x, state }
  else
    let w ← (x.patterns.lookup t).foldlM (visit? receive t (.ofTtl now ttl) now) { index := x, state }
    if w.failed then return w
    else return { w with index := w.satisfied.foldl (fun x id => (x.unregister id).2) w.index }

variable {x : QueryIndex} {c : Config} {struck : List Mortal} {ref : PatternRef} {q : Registered}
variable {receive : Subscriber σ} {t : Tuple} {expiration : Expiration} {now : Nat} {w : Addition σ}

/-- What is found for a query is one of its patterns. -/
theorem Consistent.inRange (h : x.Consistent struck) (href : ref ∈ x.patterns.lookup t)
    (hq : x.registry.get? ref.query = some q) : ref.pattern < q.pattern.length := by
  obtain ⟨l, hl, hfiled⟩ := h.patterns
  obtain ⟨f, hf, rfl, -⟩ := (PatternIndex.mem_lookup hl).1 href
  have hmine : f ∈ x.filed f.ref.query :=
    hfiled f.ref.query ▸ List.mem_filter.2 ⟨hf, decide_eq_true rfl⟩
  rw [filed_of_get? hq] at hmine
  obtain ⟨-, p, hp, -⟩ := mem_filings.1 hmine
  exact (List.getElem?_eq_some_iff.1 hp).1

theorem visit?_eq [expiration.Timely] (h : w.index.Consistent []) (href : ref ∈ w.index.patterns.lookup t) :
    visit? receive t expiration now w ref = some (visit receive t expiration now w ref) := by
  unfold visit? visit
  split
  · rfl
  · cases hq : w.index.registry.get? ref.query with
    | none => rfl
    | some q =>
      dsimp only
      split
      · rfl
      · obtain ⟨pattern, hget⟩ : ∃ p, q.pattern[ref.pattern]? = some p :=
          ⟨_, List.getElem?_eq_getElem (h.inRange href hq)⟩
        refine bind_eq hget ?_
        rw [hget, Option.bind_some]
        cases hm : pattern.match? t with
        | none => rfl
        | some b =>
          have hb : q.pattern[ref.pattern]?.bind (·.match? t) = some b := by
            rw [hget, Option.bind_some, hm]
          exact bind_eq (JoinState.advance?_eq (h.takes hq hb expiration)) rfl

theorem foldlM_visit?_eq [expiration.Timely] (refs : List PatternRef)
    (h : w.index.Consistent [])
    (hrefs : ∀ ref ∈ refs, ref ∈ w.index.patterns.lookup t) :
    refs.foldlM (visit? receive t expiration now) w =
      some (refs.foldl (visit receive t expiration now) w) := by
  induction refs generalizing w with
  | nil => rfl
  | cons ref refs ih =>
    rw [List.foldlM_cons, List.foldl_cons]
    refine bind_eq (visit?_eq h (hrefs ref List.mem_cons_self)) <|
      ih (consistent_visit h receive t expiration now ref) fun ref' href' => ?_
    rw [patterns_visit]
    exact hrefs ref' (List.mem_cons_of_mem _ href')

theorem add?_eq (h : x.Consistent []) (receive : Subscriber σ) (t : Tuple) (ttl now : Nat)
    (state : σ) : x.add? receive t ttl now state = some (x.add receive t ttl now state) := by
  unfold add? add
  split
  · rfl
  · refine bind_eq (foldlM_visit?_eq _ h fun _ href => href) ?_
    dsimp only
    split <;> rfl

/-- Whatever has been done to an index, validating a query and adding a tuple never use an index that
is out of place, whatever the subscribers do. What is stored is for connected parts of
queries that a word has enough bits for, and a set of the patterns of a query is the one that counts as
the whole query exactly if it has all of them. -/
theorem indices_inRange (h : Reachable c x) :
    (∀ q : Query, q.validate? x.arity = some (q.validate x.arity)) ∧
      (∀ (σ : Type) (receive : Subscriber σ) (t : Tuple) (ttl now : Nat) (state : σ),
        x.add? receive t ttl now state = some (x.add receive t ttl now state)) ∧
      (∀ n p, x.joins.held n = some p → ∃ q, x.registry.get? p.query = some q ∧
        q.pattern.Connected p.part) ∧
      ∀ id q, x.registry.get? id = some q → q.pattern.length ≤ PatternSet.capacity ∧
        q.analysis.size = q.pattern.length ∧
        ∀ P : PatternSet, (∀ i ∈ P, i < q.pattern.length) →
          (P = q.analysis.full ↔ ∀ i < q.pattern.length, i ∈ P) := by
  have hc := h.consistent
  refine ⟨fun q => q.validate?_eq x.arity, fun _ => add?_eq hc, fun n p hp => ?_, fun id q hq => ?_⟩
  · obtain ⟨q, hq, hfits⟩ := hc.held n p hp
    exact ⟨q, hq, hfits.connected⟩
  · obtain ⟨-, hcap, ha, -⟩ := GraphPattern.analyse_eq_ok_iff.1 (hc.accepted id q hq).analysed
    have hsize : q.analysis.size = q.pattern.length := by rw [ha, Analysis.size_ofPattern]
    have hmem : ∀ i, i ∈ q.analysis.full ↔ i < q.pattern.length := fun i => by
      rw [Analysis.full, hsize, PatternSet.mem_full, Nat.min_eq_left hcap]
    refine ⟨hcap, hsize, fun P hP => ⟨?_, fun hall => PatternSet.ext_mem fun i => ?_⟩⟩
    · rintro rfl i hi
      exact (hmem i).2 hi
    · rw [hmem]
      exact ⟨hP i, hall i⟩

/-- As many edges from one vertex to another as a query can have patterns. -/
def widest : GraphPattern := (List.range PatternSet.capacity).map fun i =>
  ⟨[.var ⟨"a"⟩, .const ⟨toString i⟩, .var ⟨"b"⟩]⟩

/-- All patterns together take all bits of a word, and a match of the last one takes the last bit. -/
theorem indices_inRange_widest :
    let x := ((Watched.new {}).run
      [(0, .register 1 ⟨widest, {}⟩ 5), (0, .add ⟨[⟨"x"⟩, ⟨"63"⟩, ⟨"y"⟩]⟩ 1)]).2.index
    let t : Tuple := ⟨[⟨"x"⟩, ⟨"0"⟩, ⟨"y"⟩]⟩
    (∃ p q, x.joins.held 0 = some p ∧ p.part.bits = 1 <<< 63 ∧ x.registry.get? p.query = some q ∧
      q.analysis.full.bits = UInt64.size - 1 ∧ q.pattern.Connected p.part) ∧
      x.add? Subscriber.recorder t 1 0 [] = some (x.add Subscriber.recorder t 1 0 []) := by
  intro x t
  have hstored : (x.joins.held 0).map (fun p => (p.query, p.part.bits)) = some (1, 1 <<< 63) := by
    decide +kernel
  have hfull : (x.registry.get? 1).map (·.analysis.full.bits) = some (UInt64.size - 1) := by
    decide +kernel
  obtain ⟨p, hp, hp'⟩ := Option.map_eq_some_iff.1 hstored
  obtain ⟨hquery, hpart⟩ := Prod.mk.inj hp'
  obtain ⟨-, hadd, hheld, -⟩ := indices_inRange (Watched.reachable_run {} _ : Reachable {} x)
  obtain ⟨q, hq, hconnected⟩ := hheld 0 p hp
  have hbits : q.analysis.full.bits = UInt64.size - 1 := by
    rw [hquery] at hq
    rw [hq] at hfull
    exact Option.some.inj hfull
  exact ⟨⟨p, q, hp, hpart, hq, hbits, hconnected⟩, hadd _ _ t 1 0 []⟩

end QueryIndex

end StandingQuery
