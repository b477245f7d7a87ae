import StandingQuery.Proofs.Handovers
import StandingQuery.Proofs.Independence

/-! The modifiers at work on a stream.

`Watched.batches` lists what a run completes for a query, one batch for each pattern of the
query that matches an added tuple. Of the candidates that the query is handed it is sent those
that its modifiers choose, each in the form that it asks for; the candidate with which they are
sated deactivates it and is the last of them; and when the addition in which this happens has
returned, nothing is left of the query (`Watched.pipeline`). -/
namespace StandingQuery
open Std

namespace QueryIndex
open Watched Batch

/-! ### Visits -/

section Visits

variable {σ : Type}

/-- The batch that a visit completes for its query, if it finds a match and the query is active. -/
def batch? (t : Tuple) (expiration : Expiration) (now : Nat) (w : Addition σ) (ref : PatternRef) :
    Option (Batch σ) :=
  if w.failed || !w.index.active.contains ref.query then none
  else
    match w.index.registry.get? ref.query with
    | none => none
    | some q =>
      (q.pattern[ref.pattern]?.bind (·.match? t)).map fun b =>
        ⟨q, now, w.index.active, w.state,
          (w.index.joins.advance w.index.expirations q ref.pattern ⟨b, expiration⟩ now).candidates⟩

/-- The batches that visits complete for one query. -/
def batchesFor (id : QueryId) (receive : Subscriber σ) (t : Tuple) (expiration : Expiration)
    (now : Nat) : Addition σ → List PatternRef → List (Batch σ)
  | _, [] => []
  | w, ref :: refs =>
    (if ref.query = id then (batch? t expiration now w ref).toList else []) ++
      batchesFor id receive t expiration now (visit receive t expiration now w ref) refs

/-- The batches that an addition completes for one query. -/
def addBatches (id : QueryId) (receive : Subscriber σ) (x : QueryIndex) (t : Tuple)
    (ttl now : Nat) (state : σ) : List (Batch σ) :=
  if t.arity ≠ x.arity then []
  else batchesFor id receive t (.ofTtl now ttl) now { index := x, state } (x.patterns.lookup t)

variable {t : Tuple} {e : Expiration} {now : Nat} {w : Addition σ}
variable {ref : PatternRef} {q : Registered} {b : Binding}

theorem batch?_idle (h : w.index.registry.get? ref.query = none ∨ ref.query ∉ w.index.active) :
    batch? t e now w ref = none := by
  unfold batch?
  split
  · rfl
  · next hvisited =>
    rcases h with h | h
    · rw [h]
    · simp [contains_eq_false h] at hvisited

theorem batch?_no_match (hq : w.index.registry.get? ref.query = some q)
    (hb : q.pattern[ref.pattern]?.bind (·.match? t) = none) : batch? t e now w ref = none := by
  unfold batch?
  split
  · rfl
  · simp only [hq, hb, Option.map_none]

theorem batch?_match (hfailed : w.failed = false)
    (hq : w.index.registry.get? ref.query = some q) (hactive : ref.query ∈ w.index.active)
    (hb : q.pattern[ref.pattern]?.bind (·.match? t) = some b) :
    batch? t e now w ref = some ⟨q, now, w.index.active, w.state,
      (w.index.joins.advance w.index.expirations q ref.pattern ⟨b, e⟩ now).candidates⟩ := by
  unfold batch?
  rw [if_neg (by simpa [hfailed] using hactive)]
  simp only [hq, hb, Option.map_some]

end Visits

/-- What an addition under way has of a query that has been handed these candidates, and had been
sent something earlier. -/
structure Slice.Reflects (s : Slice) (id : QueryId) (m : Modifiers) (capacity : Nat)
    (earlier : List Solution) (cs : List Candidate) : Prop where
  record : ∃ q, s.share.record = some q ∧ q.Reflects m capacity cs
  active : s.share.active = !m.sated capacity cs
  quota : s.quota = none
  sent : m.answers capacity id cs = earlier ++ s.sent
  ended : s.ended = m.sated capacity cs

variable {id : QueryId} {m : Modifiers} {capacity : Nat} {cs : List Candidate}
variable {earlier : List Solution} {w : Addition Inbox} {ref : PatternRef} {t : Tuple}
variable {e : Expiration} {now ttl : Nat} {x : QueryIndex} {quotas : ExtTreeMap QueryId Nat}

/-- Where a query stands when its delivery begins. -/
theorem Slice.Reflects.delivery {q : Registered} (hid : q.id = id)
    (hq : w.index.registry.get? id = some q) (hactive : id ∈ w.index.active)
    (h : (w.slice id).Reflects id m capacity earlier cs) :
    Delivery.Reflects ⟨q, w.index.active, w.state, false, false⟩ m capacity earlier cs := by
  subst hid
  have hsated : true = !m.sated capacity cs :=
    (ExtTreeSet.mem_iff_contains.1 hactive).symm.trans h.active
  have hmore : m.sated capacity cs = false := by simpa using hsated.symm
  obtain ⟨q', hq', hreflects⟩ := h.record
  obtain rfl : q' = q := Option.some.inj (hq'.symm.trans hq)
  exact ⟨hreflects, iff_of_true hactive hmore, h.quota, h.sent, hmore.symm, rfl⟩

/-- What there is of a query after the visit of a match. -/
theorem slice_visit_match (ho : Orderly w) {q : Registered} {b : Binding}
    (hq : w.index.registry.get? ref.query = some q) (hactive : ref.query ∈ w.index.active)
    (hb : q.pattern[ref.pattern]?.bind (·.match? t) = some b) (e : Expiration) (now : Nat) :
    let d := q.deliver receive now w.index.active w.state
      (w.index.joins.advance w.index.expirations q ref.pattern ⟨b, e⟩ now).candidates
    d.query.id = ref.query ∧ ∃ stored, (visit receive t e now w ref).slice ref.query =
      ⟨⟨some d.query, d.active.contains ref.query, stored⟩, d.state.1[ref.query]?,
        sentTo ref.query d.state.2, w.satisfied.contains ref.query || d.satisfied⟩ := by
  rw [visit_match ho.failed hq hactive hb]
  dsimp only
  have hid : (q.deliver receive now w.index.active w.state (w.index.joins.advance
      w.index.expirations q ref.pattern ⟨b, e⟩ now).candidates).query.id = ref.query :=
    (Registered.id_deliver ..).trans (ho.consistent.accepted _ q hq).id
  generalize q.deliver receive now w.index.active w.state (w.index.joins.advance
    w.index.expirations q ref.pattern ⟨b, e⟩ now).candidates = d at hid ⊢
  refine ⟨hid, (w.index.joins.advance w.index.expirations q ref.pattern ⟨b, e⟩ now).joins.contentsOf
    ref.query, ?_⟩
  unfold Addition.slice QueryIndex.share
  dsimp only
  rw [Registry.get?_update, if_pos hid, hid]
  cases d.satisfied <;> simp

/-- What a visit hands to its query comes to the same as so many candidates more in the list. -/
theorem Slice.Reflects.visit (ho : Orderly w)
    (h : (w.slice ref.query).Reflects ref.query m capacity earlier cs) (t : Tuple) (e : Expiration)
    (now : Nat) :
    let bs := (batch? t e now w ref).toList
    ((visit receive t e now w ref).slice ref.query).Reflects ref.query m capacity earlier
        (cs ++ handed bs) ∧
      Handed ref.query m capacity cs bs := by
  have hnothing : (w.slice ref.query).Reflects ref.query m capacity earlier (cs ++ handed []) ∧
      Handed ref.query m capacity cs [] := by
    refine ⟨?_, Handed.nil⟩
    rw [handed_nil, List.append_nil]
    exact h
  obtain ⟨q, hq, -⟩ := h.record
  by_cases hactive : ref.query ∈ w.index.active
  · cases hb : q.pattern[ref.pattern]?.bind (·.match? t) with
    | none =>
      rw [visit_no_match hq hb, batch?_no_match hq hb]
      exact hnothing
    | some b =>
      have hid := (ho.consistent.accepted _ q hq).id
      have hstart := h.delivery hid hq hactive
      obtain ⟨hsame, stored, hslice⟩ := slice_visit_match ho hq hactive hb e now
      have hended : w.satisfied.contains ref.query = false := h.ended.trans hstart.satisfied.symm
      dsimp only at hsame hslice ⊢
      rw [hslice, batch?_match ho.failed hq hactive hb, Option.toList_some]
      generalize (w.index.joins.advance w.index.expirations q ref.pattern ⟨b, e⟩ now).candidates =
        candidates at hsame ⊢
      obtain ⟨hd, -⟩ := hstart.deliver now candidates
      have hhanded : handed [⟨q, now, w.index.active, w.state, candidates⟩] =
          (q.handovers receive now w.index.active w.state candidates).map Handover.candidate := by
        rw [handed, List.flatMap_singleton]
        rfl
      rw [hhanded]
      refine ⟨⟨⟨_, rfl, hd.query⟩, ?_, ?_, ?_, ?_⟩, ?_⟩
      · dsimp only
        rw [← hsame, Bool.eq_iff_iff, ← ExtTreeSet.mem_iff_contains, hd.active, Bool.not_eq_true']
      · exact hsame ▸ hd.quota
      · exact hsame ▸ hd.sent
      · dsimp only
        rw [hended, Bool.false_or]
        exact hd.satisfied
      · rw [← hid]
        exact Handed.single ⟨q, now, w.index.active, w.state, candidates⟩ hstart
  · rw [visit_idle (.inr hactive), batch?_idle (.inr hactive)]
    exact hnothing

/-- Of the visits of a tuple those of the query count. -/
theorem Slice.Reflects.foldl_visit (refs : List PatternRef) (ho : Orderly w)
    (h : (w.slice id).Reflects id m capacity earlier cs) (t : Tuple) (e : Expiration) [e.Timely]
    (now : Nat) :
    let bs := batchesFor id receive t e now w refs
    ((refs.foldl (QueryIndex.visit receive t e now) w).slice id).Reflects id m capacity earlier
        (cs ++ handed bs) ∧
      Handed id m capacity cs bs := by
  induction refs generalizing w cs with
  | nil =>
    refine ⟨?_, Handed.nil⟩
    rw [batchesFor, handed_nil, List.append_nil]
    exact h
  | cons ref refs ih =>
    have ho' := orderly_visit ho t e now ref
    rw [batchesFor, List.foldl_cons]
    dsimp only
    by_cases hid : ref.query = id
    · subst hid
      rw [if_pos rfl, handed_append, ← List.append_assoc]
      obtain ⟨hfirst, hhanded⟩ := h.visit ho t e now
      obtain ⟨hrest, hhanded'⟩ := ih ho' hfirst
      exact ⟨hrest, hhanded.append hhanded'⟩
    · rw [if_neg hid, List.nil_append]
      exact ih ho' (slice_visit_of_ne ho.consistent hid t e now ▸ h)

/-- Nothing is completed for a query that is not registered, and it stays as it is. -/
theorem batchesFor_none (refs : List PatternRef) (ho : Orderly w)
    (hnone : w.index.registry.get? id = none) (t : Tuple) (e : Expiration) [e.Timely] (now : Nat) :
    batchesFor id receive t e now w refs = [] ∧
      (refs.foldl (visit receive t e now) w).slice id = w.slice id := by
  induction refs generalizing w with
  | nil => exact ⟨rfl, rfl⟩
  | cons ref refs ih =>
    have hslice : (visit receive t e now w ref).slice id = w.slice id := by
      by_cases hid : ref.query = id
      · rw [visit_idle (.inl (hid ▸ hnone))]
      · exact slice_visit_of_ne ho.consistent hid t e now
    have hrecord : (visit receive t e now w ref).index.registry.get? id =
        w.index.registry.get? id := congrArg (fun s => s.share.record) hslice
    obtain ⟨hrest, hslices⟩ := ih (orderly_visit ho t e now ref) (hrecord.trans hnone)
    refine ⟨?_, hslices.trans hslice⟩
    rw [batchesFor, hrest, List.append_nil]
    split
    · next hid => rw [batch?_idle (.inl (hid ▸ hnone)), Option.toList_none]
    · rfl

/-! ### Additions -/

/-- What an index has of a query that has been handed these candidates: nothing, if no more are
wanted. -/
def Share.Reflects (s : Share) (m : Modifiers) (capacity : Nat) (cs : List Candidate) : Prop :=
  if m.sated capacity cs = true then s.record = none ∧ s.active = false
  else s.active = true ∧ ∃ q, s.record = some q ∧ q.Reflects m capacity cs

/-- A query of which something is wanted still, when an addition begins. -/
theorem Share.Reflects.slice (h : (x.share id).Reflects m capacity cs) (hquota : quotas[id]? = none)
    (hmore : m.sated capacity cs = false) :
    (Addition.slice { index := x, state := ((quotas, []) : Inbox) } id).Reflects id m capacity
      (m.answers capacity id cs) cs := by
  rw [Share.Reflects, if_neg (by simp [hmore])] at h
  exact ⟨h.2, by rw [hmore]; exact h.1, hquota, (List.append_nil _).symm, hmore.symm⟩

/-- What an addition leaves of a query when it takes out those that are over. -/
theorem Slice.Reflects.share {s : Slice} (h : s.Reflects id m capacity earlier cs) :
    (if s.ended = true then s.share.drop else s.share).Reflects m capacity cs := by
  obtain ⟨q, hq, hreflects⟩ := h.record
  rw [h.ended, Share.Reflects]
  split
  · rw [Share.drop, hq]
    exact ⟨rfl, rfl⟩
  · next hmore =>
    rw [Bool.not_eq_true] at hmore
    exact ⟨by rw [h.active, hmore]; rfl, q, hq, hreflects⟩

/-- An addition is its visits, and takes out the queries that are over. -/
theorem share_add (hc : x.Consistent []) (quotas : ExtTreeMap QueryId Nat)
    (harity : t.arity = x.arity) (ttl now : Nat) (id : QueryId) :
    let a := x.add receive t ttl now (quotas, [])
    let v := ((x.patterns.lookup t).foldl (visit receive t (.ofTtl now ttl) now)
      { index := x, state := (quotas, []) }).slice id
    a.index.share id = (if v.ended = true then v.share.drop else v.share) ∧
      a.state.1[id]? = v.quota ∧ sentTo id a.state.2 = v.sent := by
  have ho : Orderly { index := x, state := ((quotas, []) : Inbox) } := ⟨rfl, hc, by simp⟩
  have hvisited := orderly_foldl_visit (x.patterns.lookup t) ho t (.ofTtl now ttl) now
  unfold QueryIndex.add
  rw [if_neg (not_not_intro harity)]
  dsimp only
  rw [hvisited.failed, if_neg Bool.false_ne_true]
  dsimp only
  rw [share_foldl_unregister _ hvisited.consistent]
  refine ⟨?_, rfl, rfl⟩
  simp [Addition.slice]

/-- What an addition hands to a query comes to the same as so many candidates more in the list. -/
theorem Share.Reflects.add (hc : x.Consistent []) (h : (x.share id).Reflects m capacity cs)
    (hquota : quotas[id]? = none) (t : Tuple) (ttl now : Nat) :
    let bs := addBatches id receive x t ttl now (quotas, [])
    let a := x.add receive t ttl now (quotas, [])
    (a.index.share id).Reflects m capacity (cs ++ handed bs) ∧
      a.state.1[id]? = none ∧
      m.answers capacity id (cs ++ handed bs) =
        m.answers capacity id cs ++ sentTo id a.state.2 ∧
      Handed id m capacity cs bs := by
  unfold addBatches
  by_cases harity : t.arity = x.arity
  · have ho : Orderly { index := x, state := ((quotas, []) : Inbox) } := ⟨rfl, hc, by simp⟩
    obtain ⟨hshare, hquota', hsent⟩ := share_add hc quotas harity ttl now id
    rw [if_neg (not_not_intro harity)]
    dsimp only at hshare hquota' hsent ⊢
    rw [hshare, hquota', hsent]
    by_cases hsated : m.sated capacity cs = true
    · rw [Share.Reflects, if_pos hsated] at h
      obtain ⟨hnone, hslice⟩ := batchesFor_none (x.patterns.lookup t) ho h.1 t (.ofTtl now ttl) now
      rw [hnone, hslice, handed_nil, List.append_nil]
      refine ⟨?_, hquota, (List.append_nil _).symm, Handed.nil⟩
      rw [Share.Reflects, if_pos hsated]
      exact h
    · rw [Bool.not_eq_true] at hsated
      obtain ⟨hvisited, hhanded⟩ := (h.slice hquota hsated).foldl_visit (x.patterns.lookup t) ho t
        (.ofTtl now ttl) now
      exact ⟨hvisited.share, hvisited.quota, hvisited.sent, hhanded⟩
  · rw [if_pos harity, add_of_arity harity]
    dsimp only
    rw [handed_nil, List.append_nil]
    exact ⟨h, hquota, (List.append_nil _).symm, Handed.nil⟩

/-! ### Runs -/

namespace Watched

/-- The batches that an operation completes for a query. -/
def batchesOf (w : Watched) (id : QueryId) (now : Nat) : Operation → List (Batch Inbox)
  | .add t ttl => addBatches id receive w.index t ttl now (w.quotas, [])
  | _ => []

/-- The batches that a run completes for a query. -/
def batches (w : Watched) (id : QueryId) : List (Nat × Operation) → List (Batch Inbox)
  | [] => []
  | (now, op) :: rest => w.batchesOf id now op ++ (w.next now op).batches id rest

/-- Where an index stands with a query that has been handed these candidates. -/
structure Reflects (w : Watched) (id : QueryId) (m : Modifiers) (capacity : Nat)
    (cs : List Candidate) : Prop where
  consistent : w.index.Consistent []
  quota : w.quotas[id]? = none
  share : (w.index.share id).Reflects m capacity cs

variable {w : Watched} {op : Operation} {query : Query}

/-- A query that has just been registered has not been handed anything. -/
theorem reflects_register (hc : w.index.Consistent [])
    (hdone : (w.perform now (.register id query ttl)).1 = .done) :
    (w.next now (.register id query ttl)).Reflects id query.modifiers w.index.reducedCapacity
      [] := by
  have hconsistent := consistent_next hc now (.register id query ttl)
  rcases perform_register w now id query ttl none with ⟨e, hp⟩ | ⟨analysis, index, -, hr, hp⟩
  · rw [hp] at hdone
    cases hdone
  · have hshare := share_register hc hr id
    rw [if_pos rfl] at hshare
    unfold next at hconsistent ⊢
    rw [hp] at hconsistent ⊢
    refine ⟨hconsistent, ?_, ?_⟩
    · rw [ExtTreeMap.getElem?_alter_self]
    · dsimp only
      rw [hshare, Share.Reflects, if_neg (by simp)]
      exact ⟨rfl, _, rfl, Registered.reflects_new ..⟩

/-- What an operation hands to a query comes to the same as so many candidates more in the list. -/
theorem Reflects.next (h : w.Reflects id m capacity cs)
    (hop : (∃ t ttl, op = .add t ttl) ∨ op.concerns id = false) (now : Nat) :
    let bs := w.batchesOf id now op
    (w.next now op).Reflects id m capacity (cs ++ handed bs) ∧
      m.answers capacity id (cs ++ handed bs) =
        m.answers capacity id cs ++ sentTo id (w.event now op).log ∧
      Handed id m capacity cs bs := by
  have hconsistent := consistent_next h.consistent now op
  rcases hop with ⟨t, ttl, rfl⟩ | hother
  · obtain ⟨hshare, hquota, hanswers, hhanded⟩ := h.share.add h.consistent h.quota t ttl now
    exact ⟨⟨hconsistent, hquota, hshare⟩, hanswers, hhanded⟩
  · obtain ⟨hview, hlog⟩ := view_next_of_other h.consistent hother now
    obtain ⟨hshare, hquota, -⟩ := View.mk.inj hview
    have hnothing : w.batchesOf id now op = [] := by
      cases op with
      | add t ttl => cases hother
      | _ => rfl
    rw [hnothing, hlog]
    dsimp only
    rw [handed_nil, List.append_nil]
    exact ⟨⟨hconsistent, hquota.trans h.quota, hshare ▸ h.share⟩, (List.append_nil _).symm,
      Handed.nil⟩

/-- What a run hands to a query comes to the same as so many candidates more in the list. -/
theorem Reflects.run {ops : List (Nat × Operation)} (h : w.Reflects id m capacity cs)
    (hops : ∀ o ∈ ops, (∃ t ttl, o.2 = .add t ttl) ∨ o.2.concerns id = false) :
    let bs := w.batches id ops
    (w.run ops).2.Reflects id m capacity (cs ++ handed bs) ∧
      m.answers capacity id (cs ++ handed bs) =
        m.answers capacity id cs ++ deliveries id (w.events ops) ∧
      Handed id m capacity cs bs := by
  induction ops generalizing w cs with
  | nil =>
    dsimp only
    rw [batches, handed_nil, List.append_nil]
    exact ⟨h, (List.append_nil _).symm, Handed.nil⟩
  | cons o ops ih =>
    obtain ⟨hfirst, hanswers, hhanded⟩ := h.next (hops o List.mem_cons_self) o.1
    obtain ⟨hrest, hanswers', hhanded'⟩ :=
      ih hfirst fun o' ho' => hops o' (List.mem_cons_of_mem _ ho')
    have hcons : deliveries id (w.events (o :: ops)) =
        sentTo id (w.event o.1 o.2).log ++ deliveries id ((w.next o.1 o.2).events ops) :=
      List.flatMap_cons
    dsimp only at hfirst hanswers hrest hanswers' ⊢
    rw [List.append_assoc, ← handed_append] at hrest hanswers'
    refine ⟨hrest, ?_, hhanded.append hhanded'⟩
    rw [hcons, ← List.append_assoc, ← hanswers]
    exact hanswers'

/-- From its registration on, whatever is added and whatever comes and goes besides, a query whose
subscriber is inert is told of the candidates that its modifiers choose from those it is handed, one
by one and of nothing else. What it is handed are all candidates that are completed for it and have
not expired, or, if the modifiers are sated before, the beginning of them. The candidate with which
they are sated deactivates the query and is the last one; and when the addition has returned, nothing
is left of the query. Before that it stays. -/
theorem pipeline (c : Config) (before : List (Nat × Operation)) {id : QueryId} {query : Query}
    {ttl now : Nat} {ops : List (Nat × Operation)}
    (hdone : (((Watched.new c).run before).2.perform now (.register id query ttl)).1 = .done)
    (hops : ∀ o ∈ ops, (∃ t ttl, o.2 = .add t ttl) ∨ o.2.concerns id = false) :
    let w := ((Watched.new c).run before).2.next now (.register id query ttl)
    let x := (w.run ops).2.index
    let bs := w.batches id ops
    let sated := query.modifiers.sated c.reducedCapacity
    List.Forall₂ (query.modifiers.Tells id) (query.modifiers.chosen c.reducedCapacity (handed bs))
        (deliveries id (w.events ops)) ∧
      handed bs <+: completed bs ∧
      (∀ earlier h later, bs.flatMap Batch.handovers = earlier ++ h :: later →
        (id ∈ h.outcome.active ↔ sated ((earlier ++ [h]).map Handover.candidate) = false) ∧
        (id ∉ h.outcome.active → later = [])) ∧
      (sated (handed bs) = false →
        handed bs = completed bs ∧ x.contains id = true ∧ id ∈ x.active) ∧
      (sated (handed bs) = true → x.Forgotten id) := by
  have hmade := madeWith_run c before
  have hstart := reflects_register hmade.consistent hdone
  rw [hmade.capacity] at hstart
  obtain ⟨hx, hanswers, hhanded⟩ := hstart.run hops
  dsimp only at hx hanswers ⊢
  generalize ((Watched.new c).run before).2.next now (.register id query ttl) = w at *
  rw [List.nil_append] at hx hanswers
  refine ⟨?_, hhanded.begins, fun earlier h later hsplit => ?_, fun hmore => ?_, fun hover => ?_⟩
  · have hsent : deliveries id (w.events ops) =
        query.modifiers.answers c.reducedCapacity id (handed (w.batches id ops)) := by
      rw [hanswers, Modifiers.answers_nil, List.nil_append]
    rw [hsent]
    exact Modifiers.tells_answers id
  · have hchain := hhanded.chain
    rw [hsplit] at hchain
    exact hchain.split
  · have hshare := hx.share
    rw [Share.Reflects, if_neg (by simp [hmore])] at hshare
    obtain ⟨hactive, q, hq, -⟩ := hshare
    exact ⟨hhanded.all hmore, Registry.contains_iff.2 ⟨q, hq⟩,
      ExtTreeSet.mem_iff_contains.2 hactive⟩
  · have hshare := hx.share
    rw [Share.Reflects, if_pos hover] at hshare
    refine hx.consistent.forgotten ?_ fun hin => ?_
    · rw [QueryIndex.contains, Registry.contains_eq]
      exact congrArg Option.isSome hshare.1
    · exact Bool.false_ne_true (hshare.2.symm.trans (ExtTreeSet.mem_iff_contains.1 hin))

/-- An edge between two nodes. -/
def edge (source target : String) : Tuple := ⟨[⟨source⟩, ⟨"p"⟩, ⟨target⟩]⟩

/-- Four edges lead to a node, which a fifth one leaves. -/
def meeting : List (Nat × Operation) :=
  [(0, .add (edge "i" "m") 5), (1, .add (edge "j" "m") 5), (2, .add (edge "k" "m") 5),
    (3, .add (edge "l" "m") 5), (4, .add (edge "m" "n") 5)]

/-- What the way from a node to the last one binds on two edges in a row. -/
def fromNode (node : String) : Binding :=
  ((({} : Binding).insert ⟨"a"⟩ ⟨node⟩).insert ⟨"b"⟩ ⟨"m"⟩).insert ⟨"c"⟩ ⟨"n"⟩

/-- Where the second one begins, those from the first node apart, whatever has been seen. -/
def second : Query :=
  ⟨twoEdges,
    { projection := .only [⟨"a"⟩]
      distinctness := .reduced
      limit := some 1
      offset := some 1
      filters := [Comparison.holds ⟨.var ⟨"a"⟩, .notEqual, .const ⟨"i"⟩⟩] }⟩

/-- A shortcut for the first one through each node. -/
def shortcut : Query :=
  ⟨twoEdges,
    { projection := .only [⟨"b"⟩]
      distinctness := .distinct
      construct := some (Template.ofPatterns [⟨[.var ⟨"a"⟩, .const ⟨"r"⟩, .var ⟨"c"⟩]⟩]) }⟩

/-- Whether there is another one. -/
def another : Query := ⟨twoEdges, { offset := some 1, ask := true }⟩

/-- The last edge completes four solutions for each of the queries. Of those that pass the filter
the first falls to the offset, and with the second the limit is reached, so that the fourth is not
handed over any more. The shortcuts after the first look the same through the projection, which the
template does not see. And the question is answered by the second solution. -/
theorem pipeline_meeting :
    let w := fun query => ((Watched.new {}).run []).2.next 0 (.register 1 query 0)
    let found := fun node time => (⟨fromNode node, .instant time⟩ : Candidate)
    (handed ((w second).batches 1 meeting) = [found "i" 5000, found "j" 5001, found "k" 5002] ∧
        List.Forall₂ (second.modifiers.Tells 1) [found "k" 5002]
          (deliveries 1 ((w second).events meeting)) ∧
        deliveries 1 ((w second).events meeting) =
          [⟨1, .bindings (({} : Binding).insert ⟨"a"⟩ ⟨"k"⟩), .instant 5002⟩] ∧
        ((w second).run meeting).2.index.Forgotten 1) ∧
      (handed ((w shortcut).batches 1 meeting) =
          [found "i" 5000, found "j" 5001, found "k" 5002, found "l" 5003] ∧
        List.Forall₂ (shortcut.modifiers.Tells 1) [found "i" 5000]
          (deliveries 1 ((w shortcut).events meeting)) ∧
        deliveries 1 ((w shortcut).events meeting) =
          [⟨1, .constructed [⟨[⟨"i"⟩, ⟨"r"⟩, ⟨"n"⟩]⟩], .instant 5000⟩] ∧
        1 ∈ ((w shortcut).run meeting).2.index.active) ∧
      handed ((w another).batches 1 meeting) = [found "i" 5000, found "j" 5001] ∧
        List.Forall₂ (another.modifiers.Tells 1) [found "j" 5001]
          (deliveries 1 ((w another).events meeting)) ∧
        deliveries 1 ((w another).events meeting) = [⟨1, .ask true, .instant 5001⟩] ∧
        ((w another).run meeting).2.index.Forgotten 1 := by
  dsimp only
  have hops : ∀ o ∈ meeting, (∃ t ttl, o.2 = .add t ttl) ∨ o.2.concerns 1 = false := by
    intro o ho
    simp only [meeting, List.mem_cons, List.not_mem_nil, or_false] at ho
    rcases ho with rfl | rfl | rfl | rfl | rfl <;> exact .inl ⟨_, _, rfl⟩
  have hsecond : (((Watched.new {}).run []).2.perform 0 (.register 1 second 0)).1 = .done := by
    decide +kernel
  have hshortcut : (((Watched.new {}).run []).2.perform 0 (.register 1 shortcut 0)).1 = .done := by
    decide +kernel
  have hanother : (((Watched.new {}).run []).2.perform 0 (.register 1 another 0)).1 = .done := by
    decide +kernel
  refine ⟨?_, ?_, ?_⟩
  · obtain ⟨hsent, -, -, -, hover⟩ := pipeline {} [] hsecond hops
    have hhanded : handed ((((Watched.new {}).run []).2.next 0 (.register 1 second 0)).batches 1
        meeting) = [⟨fromNode "i", .instant 5000⟩, ⟨fromNode "j", .instant 5001⟩,
          ⟨fromNode "k", .instant 5002⟩] := by decide +kernel
    dsimp only at hsent hover
    rw [hhanded] at hsent hover
    exact ⟨hhanded, hsent, by decide +kernel, hover (by decide +kernel)⟩
  · obtain ⟨hsent, -, -, hmore, -⟩ := pipeline {} [] hshortcut hops
    have hhanded : handed ((((Watched.new {}).run []).2.next 0 (.register 1 shortcut 0)).batches 1
        meeting) = [⟨fromNode "i", .instant 5000⟩, ⟨fromNode "j", .instant 5001⟩,
          ⟨fromNode "k", .instant 5002⟩, ⟨fromNode "l", .instant 5003⟩] := by decide +kernel
    dsimp only at hsent hmore
    rw [hhanded] at hsent hmore
    exact ⟨hhanded, hsent, by decide +kernel, (hmore (by decide +kernel)).2.2⟩
  · obtain ⟨hsent, -, -, -, hover⟩ := pipeline {} [] hanother hops
    have hhanded : handed ((((Watched.new {}).run []).2.next 0 (.register 1 another 0)).batches 1
        meeting) = [⟨fromNode "i", .instant 5000⟩, ⟨fromNode "j", .instant 5001⟩] := by
      decide +kernel
    dsimp only at hsent hover
    rw [hhanded] at hsent hover
    exact ⟨hhanded, hsent, by decide +kernel, hover (by decide +kernel)⟩

end Watched

end QueryIndex

end StandingQuery
