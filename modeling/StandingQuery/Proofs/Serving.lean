import StandingQuery.Proofs.Eviction
import StandingQuery.Proofs.Following

/-! What a query is sent.

`Serving` is what holds of a query from its registration on: while it is active, it is
followed with its hits, and if it takes solutions as they come, it has been sent what
its hits are served; once it is not active any more, it has been sent the beginning of
that. Visits, additions (`serving_add`) and the removal of queries
(`serving_unregister`) keep it. -/
namespace StandingQuery
open Std

theorem Modifiers.sent_append (m : Modifiers) (id : QueryId) (cs cs' : List Candidate) :
    m.sent id (cs ++ cs') = m.sent id cs ++ m.sent id cs' := by
  unfold sent
  rw [List.filter_append, List.map_append]

theorem Modifiers.mem_sent {m : Modifiers} {id : QueryId} {cs : List Candidate} {s : Solution} :
    s ∈ m.sent id cs ↔
      ∃ c ∈ cs, m.keeps c = true ∧ s = ⟨id, m.output c.binding, c.expiration⟩ := by
  unfold sent
  rw [List.mem_map]
  constructor
  · intro ⟨c, hc, hs⟩
    obtain ⟨hc, hkeeps⟩ := List.mem_filter.1 hc
    exact ⟨c, hc, hkeeps, hs.symm⟩
  · intro ⟨c, hc, hkeeps, hs⟩
    exact ⟨c, List.mem_filter.2 ⟨hc, hkeeps⟩, hs.symm⟩

/-- Solutions as they are, all of them. -/
theorem Modifiers.plain_default : Modifiers.Plain {} := ⟨rfl, rfl, rfl, rfl⟩

theorem Modifiers.sent_default (id : QueryId) (cs : List Candidate) :
    Modifiers.sent {} id cs = cs.map fun c => ⟨id, .bindings c.binding, c.expiration⟩ := by
  have hall : cs.filter (Modifiers.keeps {}) = cs := List.filter_eq_self.2 fun _ _ => rfl
  unfold sent
  rw [hall]
  rfl

namespace QueryIndex
open JoinState Watched GraphPattern

/-- What holds of a query that has been hit and been sent solutions since its registration. -/
structure Serving (x : QueryIndex) (τ : Life) (id : QueryId) (query : Query) (hits : List Hit)
    (sent : List Solution) : Prop where
  follows : id ∈ x.active → x.Follows τ id query (.ofHits hits)
  sent : query.modifiers.Plain → ∃ earlier served,
    Served x.joins.strategy query.pattern earlier served ∧
      sent <+: query.modifiers.sent id served ∧
      (id ∈ x.active → earlier = hits ∧ sent = query.modifiers.sent id served)

variable {x y : QueryIndex} {τ τ' : Life} {id i : QueryId} {query : Query} {L : Book} {now : Nat}
variable {hits hits' : List Hit} {sent : List Solution} {struck : List Mortal}
variable {w : Addition Inbox} {ref : PatternRef} {a : Arrival} {t : Tuple} {e : Expiration}

theorem Serving.mono (h : x.Serving τ id query hits sent) (hle : τ ≤ τ') :
    x.Serving τ' id query hits sent where
  follows hactive := (h.follows hactive).mono hle
  sent := h.sent

/-- Once the query is not active, only what it has been sent matters. -/
theorem Serving.inactive (h : x.Serving τ id query hits sent) (hy : id ∉ y.active)
    (hstrategy : y.joins.strategy = x.joins.strategy) : y.Serving τ' id query hits' sent where
  follows hactive := absurd hactive hy
  sent hplain := by
    obtain ⟨earlier, served, hserved, hbegins, -⟩ := h.sent hplain
    rw [hstrategy]
    exact ⟨earlier, served, hserved, hbegins, fun hactive => absurd hactive hy⟩

/-- Once the query is not active, its hits do not matter any more. -/
theorem Serving.rehit (h : x.Serving τ id query hits sent) (hits' : List Hit)
    (hhits : id ∈ x.active → hits' = hits) : x.Serving τ id query hits' sent := by
  by_cases hactive : id ∈ x.active
  · rw [hhits hactive]
    exact h
  · exact h.inactive hactive rfl

theorem Serving.unmoved (h : x.Serving τ id query hits sent) (hu : Unmoved id x y) :
    y.Serving τ id query hits sent where
  follows hactive := (h.follows (hu.active.1 hactive)).unmoved hu
  sent hplain := by
    rw [hu.strategy, hu.active]
    exact h.sent hplain

/-- If no hit expires, nothing that is stored does, and the times do not matter. -/
theorem Serving.timeless (h : x.Serving τ id query hits sent) (hτ : τ < ⊤)
    (hnever : ∀ h ∈ hits, h.expiration = .never) : x.Serving ⊥ id query hits sent where
  follows hactive := by
    have hfollows := h.follows hactive
    refine ⟨hfollows.asked, hfollows.active, fun P b hb hkeeps => ?_, hfollows.grounded⟩
    have hfaithful := hfollows.faithful P b hb hkeeps
    obtain ⟨i, hi⟩ := hb.connected.nonempty
    obtain ⟨j, -, hj⟩ := exists_joinLife_eq (g := query.pattern) (L := .ofHits hits) (b := b) hi
    rcases ofHits_never hnever j (query.pattern.portion b j) with hbot | htop
    · have hle := hfollows.grounded P b hb hkeeps
      rw [hj, hbot] at hle ⊢
      rw [le_bot_iff.1 hle]
    · rw [hj, htop] at hfaithful ⊢
      rw [top_sup_eq] at hfaithful
      have hlife : x.joins.life ⟨id, P, b⟩ = ⊤ := by
        rcases le_total (x.joins.life ⟨id, P, b⟩) τ with hle | hle
        · rw [sup_eq_right.2 hle] at hfaithful
          exact absurd hfaithful hτ.ne
        · rwa [sup_eq_left.2 hle] at hfaithful
      rw [hlife]
  sent := h.sent

/-! ### Unregistering -/

theorem asked?_unregister (x : QueryIndex) (i id : QueryId) :
    (x.unregister i).2.asked? id = if i = id then none else x.asked? id := by
  unfold asked?
  rw [get?_unregister, apply_ite (Option.map Registered.asked)]
  rfl

theorem unmoved_unregister (hc : x.Consistent struck) (hne : i ≠ id) :
    Unmoved id x (x.unregister i).2 where
  asked := (asked?_unregister x i id).trans (if_neg hne)
  active := mem_active_unregister hne.symm
  strategy := congrArg Settings.strategy (settings_unregister x i)
  life P b := by
    refine life_congr hc.joins (consistent_unregister hc i).joins fun p hp => exists_congr fun n => ?_
    rw [held_unregister hc, and_iff_left]
    intro hi
    exact hne (hi.symm.trans (congrArg PartialSolution.Key.query hp))

theorem serving_unregister (hc : x.Consistent struck) (h : x.Serving τ id query hits sent)
    (i : QueryId) : (x.unregister i).2.Serving τ id query hits sent := by
  by_cases hi : i = id
  · subst hi
    cases hq : x.registry.get? i with
    | none =>
      rw [unregister_none hq]
      exact h
    | some q =>
      exact h.inactive (not_mem_active_unregister hq)
        (congrArg Settings.strategy (settings_unregister x i))
  · exact h.unmoved (unmoved_unregister hc hi)

theorem serving_foldl_unregister (ids : List QueryId) (hc : x.Consistent [])
    (h : x.Serving τ id query hits sent) :
    (ids.foldl (fun x i => (x.unregister i).2) x).Serving τ id query hits sent := by
  induction ids generalizing x with
  | nil => exact h
  | cons i ids ih => exact ih (consistent_unregister hc i) (serving_unregister hc h i)

/-! ### Visits -/

/-- No subscriber has failed, the parts of the index agree, and the queries that are over
are not active any more. -/
structure Orderly (w : Addition Inbox) : Prop where
  failed : w.failed = false
  consistent : w.index.Consistent []
  satisfied : ∀ i ∈ w.satisfied, i ∉ w.index.active

theorem orderly_visit (h : Orderly w) (t : Tuple) (e : Expiration) [e.Timely] (now : Nat) (ref : PatternRef) :
    Orderly (visit receive t e now w ref) := by
  rcases visit_cases receive t e now w ref with hsame | ⟨q, b, hfailed, hq, hactive, hb⟩
  · rw [hsame]
    exact h
  · have hid := (h.consistent.accepted _ q hq).id
    refine ⟨?_, consistent_visit h.consistent receive t e now ref, fun i hi => ?_⟩
    · rw [visit_match hfailed hq hactive hb]
      exact deliver_failed q now _ _ _
    · rw [visit_match hfailed hq hactive hb] at hi ⊢
      dsimp only at hi ⊢
      have hold : i ∈ w.satisfied → i ∉ (q.deliver receive now w.index.active w.state
          (w.index.joins.advance w.index.expirations q ref.pattern ⟨b, e⟩ now).candidates).active :=
        fun hi hmem => h.satisfied i hi ((concerns_deliver q now _ _ _).shrinks i hmem)
      split at hi
      · next hover =>
        rcases List.mem_append.1 hi with hi | hi
        · exact hold hi
        · rw [List.mem_singleton.1 hi, Registered.id_deliver]
          exact not_active_of_satisfied q now _ _ _ rfl hover
      · exact hold hi

theorem orderly_foldl_visit (refs : List PatternRef) (h : Orderly w) (t : Tuple) (e : Expiration) [e.Timely]
    (now : Nat) : Orderly (refs.foldl (visit receive t e now) w) := by
  induction refs generalizing w with
  | nil => exact h
  | cons ref refs ih => exact ih (orderly_visit h t e now ref)

/-- No visit activates a query. -/
theorem mem_active_of_foldl_visit (refs : List PatternRef)
    (h : id ∈ (refs.foldl (visit receive t e now) w).index.active) : id ∈ w.index.active := by
  induction refs generalizing w with
  | nil => exact h
  | cons ref refs ih =>
    have h := ih h
    rcases visit_cases receive t e now w ref with hsame | ⟨q, b, hfailed, hq, hactive, hb⟩
    · rwa [hsame] at h
    · rw [visit_match hfailed hq hactive hb] at h
      exact (concerns_deliver q now _ _ _).shrinks id h

theorem serving_visit (ho : Orderly w)
    (h : w.index.Serving (.upTo a.now) id query hits (sent ++ sentTo id w.state.2))
    (ref : PatternRef) :
    (visit receive a.tuple a.expiration a.now w ref).index.Serving (.upTo a.now) id query
      (hits ++ hitFor id query.pattern a ref)
      (sent ++ sentTo id (visit receive a.tuple a.expiration a.now w ref).state.2) := by
  by_cases hactive : id ∈ w.index.active
  · rcases visit_split ho.consistent ho.failed (h.follows hactive) ref with
      ⟨hnone, hsame, hlog⟩ | ⟨hid, q, b, hmeets, hone⟩
    · rw [hnone, List.append_nil, hlog]
      exact h.unmoved hsame
    · subst hid
      rw [hone]
      obtain ⟨fresh, hnodup, hfresh, hsends⟩ := hmeets.exists_fresh
      constructor
      · intro hactive'
        rw [Book.ofHits_concat]
        exact hmeets.follows_visit hactive'
      · intro hplain
        obtain ⟨earlier, served, hserved, -, hall⟩ := h.sent hplain
        obtain ⟨rfl, hsent⟩ := hall hactive
        obtain ⟨new, hlog, hbegins, hnew⟩ := hsends hplain
        rw [hlog, ← List.append_assoc, hsent, hmeets.strategy]
        refine ⟨_, served ++ fresh, hserved.concat hnodup hfresh, ?_, fun hactive' => ⟨rfl, ?_⟩⟩
        · rw [Modifiers.sent_append]
          exact List.prefix_append_right_inj _ |>.2 hbegins
        · rw [Modifiers.sent_append, hnew hactive']
  · obtain ⟨hsame, hlog⟩ := idle_visit ho.consistent a.tuple a.expiration a.now ref
      (.inr (.inl hactive))
    rw [hlog]
    exact h.inactive (mt hsame.active.1 hactive) hsame.strategy

theorem serving_foldl_visit (refs : List PatternRef) (ho : Orderly w)
    (h : w.index.Serving (.upTo a.now) id query hits (sent ++ sentTo id w.state.2)) :
    (refs.foldl (visit receive a.tuple a.expiration a.now) w).index.Serving (.upTo a.now) id query
      (hits ++ refs.flatMap (hitFor id query.pattern a))
      (sent ++ sentTo id (refs.foldl (visit receive a.tuple a.expiration a.now) w).state.2) := by
  induction refs generalizing w hits with
  | nil =>
    rw [List.flatMap_nil, List.append_nil]
    exact h
  | cons ref refs ih =>
    rw [List.flatMap_cons, ← List.append_assoc]
    exact ih (orderly_visit ho _ _ _ ref) (serving_visit ho h ref)

/-! ### Additions -/

theorem flatMap_hitFor (id : QueryId) (g : GraphPattern) (a : Arrival) (refs : List PatternRef) :
    refs.flatMap (hitFor id g a) = (refs.filter (·.query = id)).filterMap (g.hitAt a) := by
  induction refs with
  | nil => rfl
  | cons ref refs ih =>
    rw [List.flatMap_cons, ih, List.filter_cons]
    unfold hitFor
    by_cases hid : ref.query = id
    · rw [if_pos hid, if_pos (decide_eq_true hid), List.filterMap_cons]
      cases g.hitAt a ref <;> rfl
    · rw [if_neg hid, if_neg (by simpa using hid), List.nil_append]

/-- The visits of a tuple to a query are those that the query alone decides on. -/
theorem filter_lookup_eq (hc : x.Consistent []) (id : QueryId) (t : Tuple) :
    (x.patterns.lookup t).filter (·.query = id) =
      ((x.registry.get? id).map fun q => visitsOf id q.pattern t).getD [] := by
  obtain ⟨l, hl, hfiled⟩ := hc.patterns
  have halone : ∀ y : PatternIndex, y.Lists (x.filed id) →
      (x.patterns.lookup t).filter (·.query = id) = y.lookup t := by
    intro y hy
    rw [← hfiled] at hy
    exact PatternIndex.filter_lookup hl hy
  cases hq : x.registry.get? id with
  | none =>
    rw [filed_of_none hq] at halone
    rw [halone _ PatternIndex.lists_empty]
    simp [PatternIndex.lookup, PatternIndex.masksOf]
  | some q =>
    rw [filed_of_get? hq] at halone
    exact halone _ (PatternIndex.lists_insertQuery PatternIndex.lists_empty id q.pattern)

theorem lookup_hits (hc : x.Consistent []) (hasked : x.asked? id = some query) (a : Arrival) :
    (x.patterns.lookup a.tuple).flatMap (hitFor id query.pattern a) =
      hitsOf id query.pattern a := by
  obtain ⟨q, hq, rfl⟩ := asked?_eq_some.1 hasked
  rw [flatMap_hitFor, filter_lookup_eq hc, hq]
  rfl

/-- A tuple that a registered query matches has the arity of the index. -/
theorem Consistent.arity_of_matchAt {q : Registered} {i : Nat} {m : Binding} (hc : x.Consistent [])
    (hq : x.registry.get? id = some q) (hm : q.pattern.matchAt i t = some m) :
    t.arity = x.arity := by
  obtain ⟨p, hp, hpt⟩ := Option.bind_eq_some_iff.1 hm
  have harity := (hc.accepted id q hq).arity p (List.mem_of_getElem? hp)
  have hsame := congrArg Signature.arity (Signature.ofTuple_eq_ofPattern hpt)
  exact hsame.trans harity

/-- A tuple of the wrong arity hits nothing. -/
theorem hitsOf_of_arity (hc : x.Consistent []) (hasked : x.asked? id = some query)
    (ha : a.tuple.arity ≠ x.arity) : hitsOf id query.pattern a = [] := by
  obtain ⟨q, hq, rfl⟩ := asked?_eq_some.1 hasked
  rw [List.eq_nil_iff_forall_not_mem]
  intro h hh
  exact ha (hc.arity_of_matchAt hq (mem_hitsOf.1 hh).1)

/-- An addition hits a query that is active, and sends it what the hits are served. -/
theorem serving_add (hc : x.Consistent []) (h : x.Serving τ id query hits sent)
    (hle : τ ≤ .upTo now) (quotas : ExtTreeMap QueryId Nat) (t : Tuple) (ttl : Nat) :
    (x.add receive t ttl now (quotas, [])).index.Serving (.upTo now) id query
      (hits ++ hitsOf id query.pattern ⟨now, t, .ofTtl now ttl⟩)
      (sent ++ sentTo id (x.add receive t ttl now (quotas, [])).state.2) := by
  unfold add
  split
  · next harity =>
    dsimp only
    rw [sentTo_nil, List.append_nil]
    by_cases hactive : id ∈ x.active
    · rw [hitsOf_of_arity hc (h.follows hactive).asked harity, List.append_nil]
      exact h.mono hle
    · exact h.inactive hactive rfl
  · have ho : Orderly { index := x, state := ((quotas, []) : Inbox) } := ⟨rfl, hc, by simp⟩
    have hstart : x.Serving (.upTo now) id query hits (sent ++ sentTo id []) := by
      rw [sentTo_nil, List.append_nil]
      exact h.mono hle
    have hvisited := serving_foldl_visit (a := ⟨now, t, .ofTtl now ttl⟩) (x.patterns.lookup t) ho
      hstart
    have horderly := orderly_foldl_visit (x.patterns.lookup t) ho t (.ofTtl now ttl) now
    have hhits := hvisited.rehit (hits ++ hitsOf id query.pattern ⟨now, t, .ofTtl now ttl⟩)
      fun hactive => by
        have hactive := mem_active_of_foldl_visit (x.patterns.lookup t) hactive
        rw [← lookup_hits hc (h.follows hactive).asked]
    dsimp only
    rw [if_neg (by rw [horderly.failed]; simp)]
    exact serving_foldl_unregister _ horderly.consistent hhits

end QueryIndex

end StandingQuery
