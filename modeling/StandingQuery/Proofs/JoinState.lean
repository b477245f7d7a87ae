import StandingQuery.Proofs.Caching
import StandingQuery.Proofs.Propagation
import StandingQuery.Proofs.Served
import StandingQuery.QueryIndex

/-! The two joins side by side.

What a join state holds is seen the same way for both strategies: partial solutions
under numbers, and a life for every key. The symmetric join keeps the bindings of all
connected parts, the caching join those of single patterns. A state is `Faithful` to
a book when everything it keeps has the life of its matches, as far as it is still
valid. Taking in a match keeps a state faithful to the book with the match recorded
(`faithful_advance`), and the candidates that are valid are the solutions that the
match completes (`mem_advance`). -/
namespace StandingQuery
open Std

namespace PatternSet

theorem indices_single (i : Nat) : (single i).indices = [i] := by
  refine List.perm_singleton.1 ((List.perm_ext_iff_of_nodup nodup_indices (List.nodup_singleton i)).2 ?_)
  intro j
  rw [mem_indices, mem_single, List.mem_singleton]

theorem eq_single_of_indices {s : PatternSet} {i : Nat} (h : s.indices = [i]) : s = single i :=
  ext_mem fun j => by rw [← mem_indices, h, List.mem_singleton, mem_single]

theorem single_injective {i j : Nat} (h : single i = single j) : i = j :=
  mem_single.1 (h ▸ mem_single.2 rfl)

end PatternSet

namespace JoinState
open PartialSolution PartialStore GraphPattern

/-- A cached match as a partial solution. -/
def ofMatch (m : PartialSolution Nat) : PartialSolution PatternSet :=
  .ofPattern m.query m.part m.binding m.expiration

/-- What is stored under a number. -/
def held : JoinState → SolutionId → Option (PartialSolution PatternSet)
  | symmetric s, n => s.get? n
  | caching c, n => (c.get? n).map ofMatch

/-- How long the partial solution with a key lives. -/
def life : JoinState → Key PatternSet → Life
  | symmetric s, k => s.life k
  | caching c, k =>
    match k.part.indices with
    | [i] => c.life ⟨k.query, i, k.binding⟩
    | _ => ⊥

def strategy : JoinState → JoinStrategy
  | symmetric _ => .symmetric
  | caching _ => .caching

def Sound : JoinState → Prop
  | symmetric s => s.Sound
  | caching c => c.Sound

/-- The bindings of the part are among what is stored. -/
def Keeps (j : JoinState) (P : PatternSet) : Prop :=
  j.strategy = .caching → ∃ i, P = .single i

/-- What is stored for a query are bindings of parts of it. -/
def Fitting (j : JoinState) (query : QueryId) (g : GraphPattern) : Prop :=
  ∀ n p, j.held n = some p → p.query = query → g.Fits p.part p.binding

/-- The book has written down when everything that is stored expires, if it does. -/
def TrackedBy (j : JoinState) (x : Expirations) : Prop :=
  ∀ n, x.find? (.solution n) = (j.held n).bind (·.expiration.millis?)

/-- What is kept for a query lives as long as its matches, up to an instant that has passed. -/
def Faithful (j : JoinState) (query : QueryId) (g : GraphPattern) (τ : Life) (L : Book) : Prop :=
  ∀ P b, g.Fits P b → j.Keeps P → j.life ⟨query, P, b⟩ ⊔ τ = g.joinLife L P b ⊔ τ

variable {j j' : JoinState} {p q : PartialSolution PatternSet} {k : Key PatternSet}
variable {n m : SolutionId} {query : QueryId} {g : GraphPattern} {e : Expiration}

/-! ### What is held -/

theorem life_caching (c : MatchCache) (query : QueryId) (i : Nat) (b : Binding) :
    (caching c).life ⟨query, .single i, b⟩ = c.life ⟨query, i, b⟩ := by
  unfold life
  simp only [PatternSet.indices_single]

theorem life_eq_coe_iff (h : j.Sound) :
    j.life k = e ↔ ∃ n p, j.held n = some p ∧ p.key = k ∧ p.expiration = e := by
  cases j with
  | symmetric s => exact PartialStore.life_eq_coe_iff h.toSound
  | caching c =>
    constructor
    · intro he
      simp only [life] at he
      split at he
      · next i hi =>
        obtain ⟨n, m, hm, hkey, hexp⟩ := (PartialStore.life_eq_coe_iff h.toSound).1 he
        refine ⟨n, ofMatch m, ?_, ?_, hexp⟩
        · show (c.get? n).map ofMatch = _
          rw [hm, Option.map_some]
        · have hq : m.query = k.query := congrArg Key.query hkey
          have hpart : m.part = i := congrArg Key.part hkey
          have hbinding : m.binding = k.binding := congrArg Key.binding hkey
          show (⟨m.query, .single m.part, m.binding⟩ : Key PatternSet) = k
          rw [hq, hpart, hbinding, ← PatternSet.eq_single_of_indices hi]
      · cases he
    · intro ⟨n, p, hp, hkey, hexp⟩
      obtain ⟨m, hm, rfl⟩ := Option.map_eq_some_iff.1 hp
      rw [← hkey, ← hexp]
      exact (life_caching c m.query m.part m.binding).trans (life_eq_of_get? h.toSound hm)

theorem exists_held_iff (h : j.Sound) : (∃ n, j.held n = some p) ↔ j.life p.key = p.expiration := by
  rw [life_eq_coe_iff h]
  constructor
  · intro ⟨n, hp⟩
    exact ⟨n, p, hp, rfl, rfl⟩
  · intro ⟨n, q, hq, hk, he⟩
    refine ⟨n, ?_⟩
    cases p
    cases q
    simp only [key, Key.mk.injEq] at hk he
    obtain ⟨rfl, rfl, rfl⟩ := hk
    rw [hq, he]

/-- States that hold the same under a key give it the same life. -/
theorem life_congr (h : j.Sound) (h' : j'.Sound)
    (hsame : ∀ p, p.key = k → ((∃ n, j'.held n = some p) ↔ ∃ n, j.held n = some p)) :
    j'.life k = j.life k := by
  have hiff : ∀ e : Expiration, j'.life k = e ↔ j.life k = e := by
    intro e
    rw [life_eq_coe_iff h, life_eq_coe_iff h']
    constructor
    · intro ⟨n, p, hp, hk, he⟩
      obtain ⟨m, hm⟩ := (hsame p hk).1 ⟨n, hp⟩
      exact ⟨m, p, hm, hk, he⟩
    · intro ⟨n, p, hp, hk, he⟩
      obtain ⟨m, hm⟩ := (hsame p hk).2 ⟨n, hp⟩
      exact ⟨m, p, hm, hk, he⟩
  induction hl : j.life k using WithBot.recBotCoe with
  | coe e => exact (hiff e).2 hl
  | bot =>
    induction hl' : j'.life k using WithBot.recBotCoe with
    | coe e => exact absurd ((hiff e).1 hl') (by rw [hl]; exact WithBot.bot_ne_coe)
    | bot => rfl

theorem life_eq_bot_of_not_fits (h : j.Sound) (hfit : j.Fitting query g) {P : PatternSet}
    {b : Binding} (hb : ¬ g.Fits P b) : j.life ⟨query, P, b⟩ = ⊥ := by
  induction hl : j.life ⟨query, P, b⟩ using WithBot.recBotCoe with
  | bot => rfl
  | coe e =>
    obtain ⟨n, p, hp, hk, -⟩ := (life_eq_coe_iff h).1 hl
    have hpart : p.part = P := congrArg Key.part hk
    have hbinding : p.binding = b := congrArg Key.binding hk
    exact absurd (hpart ▸ hbinding ▸ hfit n p hp (congrArg Key.query hk)) hb

/-! ### Storing nothing, taking out -/

theorem sound_new (s : JoinStrategy) : (JoinState.new s).Sound := by
  cases s with
  | symmetric => exact SolutionStore.sound_empty 0
  | caching => exact MatchCache.sound_empty 0

theorem held_new (s : JoinStrategy) : (JoinState.new s).held n = none := by
  cases s <;> simp [JoinState.new, held, PartialStore.get?, SolutionStore.empty, MatchCache.empty]

theorem strategy_new (s : JoinStrategy) : (JoinState.new s).strategy = s := by
  cases s <;> rfl

/-- The caching join holds a match as a partial solution of one pattern. -/
theorem held_caching_single {c : MatchCache} {id : QueryId} {i : Nat} {m : Binding}
    {e : Expiration} :
    (caching c).held n = some ⟨id, .single i, m, e⟩ ↔ c.get? n = some ⟨id, i, m, e⟩ := by
  show (c.get? n).map ofMatch = _ ↔ _
  cases c.get? n with
  | none => simp
  | some p =>
    obtain ⟨q, j, b, e'⟩ := p
    simp only [ofMatch, PartialSolution.ofPattern, Option.map_some, Option.some.injEq,
      PartialSolution.mk.injEq]
    exact and_congr_right fun _ => and_congr_left fun _ =>
      ⟨PatternSet.single_injective, congrArg _⟩

theorem exists_store (h : j.strategy = .symmetric) : ∃ s, j = symmetric s := by
  cases j with
  | symmetric s => exact ⟨s, rfl⟩
  | caching c => cases h

theorem exists_cache (h : j.strategy = .caching) : ∃ c, j = caching c := by
  cases j with
  | symmetric s => cases h
  | caching c => exact ⟨c, rfl⟩

theorem sound_clear : j.clear.Sound := by
  cases j with
  | symmetric s => exact SolutionStore.sound_empty _
  | caching c => exact MatchCache.sound_empty _

theorem held_clear : j.clear.held n = none := by
  cases j <;> simp [clear, held, PartialStore.get?, SolutionStore.clear, MatchCache.clear,
    PartialStore.clear]

theorem strategy_clear : j.clear.strategy = j.strategy := by
  cases j <;> rfl

theorem sound_remove (h : j.Sound) (n : SolutionId) : (j.remove n).2.Sound := by
  cases j with
  | symmetric s => exact SolutionStore.sound_remove h n
  | caching c => exact MatchCache.sound_remove h n

theorem held_remove : (j.remove n).2.held m = if n = m then none else j.held m := by
  cases j with
  | symmetric s => exact get?_remove
  | caching c =>
    show ((c.remove n).2.get? m).map ofMatch = _
    rw [MatchCache.toPartialStore_remove, get?_remove]
    split <;> rfl

/-- A removal tells whether there was something. -/
theorem remove_found : (j.remove n).1 = (j.held n).isSome := by
  cases j with
  | symmetric s => exact congrArg Option.isSome remove_eq_get?
  | caching c =>
    show (c.toPartialStore.remove n).1.isSome = ((c.get? n).map ofMatch).isSome
    rw [remove_eq_get?, Option.isSome_map]

theorem strategy_remove : (j.remove n).2.strategy = j.strategy := by
  cases j <;> rfl

theorem sound_removeQuery (h : j.Sound) (query : QueryId) : (j.removeQuery query).2.Sound := by
  cases j with
  | symmetric s => exact SolutionStore.sound_removeQuery h query
  | caching c => exact MatchCache.sound_removeQuery h query

theorem held_removeQuery (h : j.Sound) :
    (j.removeQuery query).2.held n = some p ↔ j.held n = some p ∧ p.query ≠ query := by
  cases j with
  | symmetric s => exact SolutionStore.get?_removeQuery h
  | caching c =>
    show ((c.removeQuery query).2.get? n).map ofMatch = some p ↔ _
    simp only [Option.map_eq_some_iff, MatchCache.get?_removeQuery h, held]
    constructor
    · intro ⟨m, ⟨hm, hne⟩, hp⟩
      exact ⟨⟨m, hm, hp⟩, hp ▸ hne⟩
    · intro ⟨⟨m, hm, hp⟩, hne⟩
      subst hp
      exact ⟨m, ⟨hm, hne⟩, rfl⟩

theorem mem_removeQuery (h : j.Sound) :
    n ∈ (j.removeQuery query).1 ↔ ∃ p, j.held n = some p ∧ p.query = query := by
  cases j with
  | symmetric s => exact SolutionStore.mem_idsOf h
  | caching c =>
    show n ∈ c.idsOf query ↔ _
    rw [MatchCache.mem_idsOf h]
    simp only [held, Option.map_eq_some_iff]
    constructor
    · intro ⟨m, hm, hq⟩
      exact ⟨ofMatch m, ⟨m, hm, rfl⟩, hq⟩
    · intro ⟨p, ⟨m, hm, hp⟩, hq⟩
      subst hp
      exact ⟨m, hm, hq⟩

theorem strategy_removeQuery : (j.removeQuery query).2.strategy = j.strategy := by
  cases j <;> rfl

/-! ### Taking in a match -/

variable {x : Expirations} {q : Registered} {i now : Nat} {m : Candidate} {L : Book}
variable {P : PatternSet} {b : Binding} {c : Candidate}

/-- A match of pattern `i` of an accepted query, and a state in order. -/
structure Takes (j : JoinState) (x : Expirations) (q : Registered) (i : Nat) (m : Candidate) :
    Prop where
  sound : j.Sound
  fitting : j.Fitting q.id q.pattern
  tracked : j.TrackedBy x
  expirations : x.Sound
  analysed : q.pattern.analyse = .ok q.analysis
  fits : q.pattern.Fits (.single i) m.binding
  timely : m.expiration.Timely

/-- A state in order in which nothing has changed but what belongs to a query. -/
structure Taken (j : JoinState) (x : Expirations) (q : Registered) (a : Advance) : Prop where
  sound : a.joins.Sound
  strategy : a.joins.strategy = j.strategy
  fitting : a.joins.Fitting q.id q.pattern
  tracked : a.joins.TrackedBy a.expirations
  expirations : a.expirations.Sound
  queries : ∀ id, a.expirations.find? (.query id) = x.find? (.query id)
  others : ∀ k, k.query ≠ q.id → a.joins.life k = j.life k

theorem fitting_caching_iff {c : MatchCache} :
    (caching c).Fitting query g ↔ MatchCache.Fitting c query g := by
  constructor
  · intro h n m hm hq
    exact h n (ofMatch m) (Option.map_eq_some_iff.2 ⟨m, hm, rfl⟩) hq
  · intro h n p hp hq
    obtain ⟨m, hm, rfl⟩ := Option.map_eq_some_iff.1 hp
    exact h n m hm hq

theorem trackedBy_caching_iff {c : MatchCache} :
    (caching c).TrackedBy x ↔ c.TrackedBy x := by
  refine forall_congr' fun n => ?_
  show x.find? (.solution n) = ((c.get? n).map ofMatch).bind _ ↔ _
  rw [Option.bind_map]
  rfl

/-- A match as the start of a chain of joins. -/
def joining (s : SolutionStore) (x : Expirations) (q : Registered) (i : Nat) (m : Candidate)
    (now : Nat) (L : Book) : SolutionStore.Joining :=
  { g := q.pattern, query := q.id, now, book := L, start := ⟨s, x, false, []⟩
    pattern := i, binding := m.binding, expiration := m.expiration }

theorem advance_symmetric {s : SolutionStore} (h : q.analysis = .ofPattern q.pattern) (L : Book) :
    (symmetric s).advance x q i m now =
      { changed := (joining s x q i m now L).final.changed
        candidates := (joining s x q i m now L).final.complete.map fun c => ⟨c.binding, c.expiration⟩
        joins := symmetric (joining s x q i m now L).final.store
        expirations := (joining s x q i m now L).final.expirations } := by
  unfold advance
  rw [h]
  rfl

theorem Takes.analysis (h : Takes j x q i m) : q.analysis = .ofPattern q.pattern :=
  (analyse_eq_ok_iff.1 h.analysed).2.2.1

theorem Takes.capacity (h : Takes j x q i m) : q.pattern.length ≤ PatternSet.capacity :=
  (analyse_eq_ok_iff.1 h.analysed).2.1

theorem Takes.inRange (h : Takes j x q i m) : i ∈ PatternSet.full q.pattern.length := by
  rw [PatternSet.mem_full, Nat.min_eq_left h.capacity]
  exact (fits_single_iff.1 h.fits).1

/-- In the symmetric join the match is the seed of a propagation. -/
theorem Takes.working {s : SolutionStore} (h : Takes (symmetric s) x q i m) :
    SolutionStore.Working q.pattern q.id ⟨s, x, false, []⟩ ⟨s, x, false, []⟩
      [.ofPattern q.id i m.binding m.expiration] where
  sound := h.sound
  fitting := h.fitting
  tracked := h.tracked
  expirations := h.expirations
  queries _ := rfl
  others _ _ := rfl
  ours p hp := by
    rw [List.mem_singleton.1 hp]
    exact ⟨rfl, h.fits⟩
  timely p hp := by
    rw [List.mem_singleton.1 hp]
    exact h.timely

theorem taken_symmetric {s : SolutionStore} (h : Takes (symmetric s) x q i m) :
    Taken (symmetric s) x q ((symmetric s).advance x q i m now) := by
  have hdone := SolutionStore.working_propagate now h.working
  rw [← h.analysis] at hdone
  exact {
    sound := hdone.sound
    strategy := rfl
    fitting := hdone.fitting
    tracked := hdone.tracked
    expirations := hdone.expirations
    queries := hdone.queries
    others := hdone.others }

theorem life_caching_congr {c c' : MatchCache} (k : Key PatternSet)
    (h : ∀ i, c'.life ⟨k.query, i, k.binding⟩ = c.life ⟨k.query, i, k.binding⟩) :
    (caching c').life k = (caching c).life k := by
  simp only [life]
  split
  · exact h _
  · rfl

theorem taken_caching {c : MatchCache} (h : Takes (caching c) x q i m) :
    Taken (caching c) x q ((caching c).advance x q i m now) := by
  have hsound : c.Sound := h.sound
  have hfit := fitting_caching_iff.1 h.fitting
  have htracked := trackedBy_caching_iff.1 h.tracked
  have hcache := MatchCache.addMatch_cache hsound x ⟨q.id, i, m.binding, m.expiration⟩ q.analysis now
  have htimely := h.timely
  have hothers : ∀ k : Key PatternSet, k.query ≠ q.id →
      (caching (c.insert ⟨q.id, i, m.binding, m.expiration⟩).2).life k = (caching c).life k :=
    fun k hk => life_caching_congr k fun i' =>
      life_insert_of_ne hsound.toSound fun e => hk (congrArg Key.query e)
  have hfitting := fitting_caching_iff.2
    (MatchCache.fitting_insert (m := ⟨q.id, i, m.binding, m.expiration⟩) hsound hfit h.fits)
  have hinsert := MatchCache.sound_insert hsound ⟨q.id, i, m.binding, m.expiration⟩
  unfold advance
  dsimp only
  rw [hcache]
  cases hn : (c.insert ⟨q.id, i, m.binding, m.expiration⟩).1.id? with
  | none =>
    have hsame := MatchCache.insert_none hsound hn
    rw [MatchCache.addMatch_none hn]
    exact {
      sound := hinsert
      strategy := rfl
      fitting := hfitting
      tracked := by
        rw [hsame]
        exact h.tracked
      expirations := h.expirations
      queries := fun _ => rfl
      others := hothers }
  | some n =>
    rw [MatchCache.addMatch_some hn]
    exact {
      sound := hinsert
      strategy := rfl
      fitting := hfitting
      tracked := trackedBy_caching_iff.2 (trackedBy_insert hsound.toSound htracked hn)
      expirations := Expirations.sound_track h.expirations _ _
      queries := fun id => by
        rw [Expirations.find?_track, if_neg (by simp)]
      others := hothers }

theorem taken_advance (h : Takes j x q i m) (now : Nat) : Taken j x q (j.advance x q i m now) := by
  cases j with
  | symmetric s => exact taken_symmetric h
  | caching c => exact taken_caching h

/-! ### Staying faithful -/

theorem ready_joining {s : SolutionStore} (h : Takes (symmetric s) x q i m)
    (hF : (symmetric s).Faithful q.id q.pattern (.upTo now) L) : (joining s x q i m now L).Ready where
  sound := h.sound
  fitting := h.fitting
  capacity := h.capacity
  fits := h.fits
  timely := h.timely
  exact P b hb := hF P b hb fun hs => by cases hs
  nothing := rfl

theorem invariant_joining {s : SolutionStore} (h : Takes (symmetric s) x q i m)
    (hF : (symmetric s).Faithful q.id q.pattern (.upTo now) L) :
    (joining s x q i m now L).Invariant (joining s x q i m now L).final [] :=
  SolutionStore.Joining.invariant_final (ready_joining h hF) h.tracked h.expirations

theorem life_advance_caching {c : MatchCache} (h : Takes (caching c) x q i m) :
    ((caching c).advance x q i m now).joins =
      caching (c.insert ⟨q.id, i, m.binding, m.expiration⟩).2 :=
  congrArg caching (MatchCache.addMatch_cache h.sound x _ _ now)

/-- A single match is stored with the later of its two expirations, other single matches stay. -/
theorem life_advance_single (h : Takes j x q i m)
    (hF : j.Faithful q.id q.pattern (.upTo now) L) {i' : Nat} {n : Binding}
    (hn : q.pattern.Fits (.single i') n) :
    (j.advance x q i m now).joins.life ⟨q.id, .single i', n⟩ =
      if i' = i ∧ n = m.binding then j.life ⟨q.id, .single i', n⟩ ⊔ m.expiration
      else j.life ⟨q.id, .single i', n⟩ := by
  cases j with
  | symmetric s =>
    have hinv := invariant_joining h hF
    rw [advance_symmetric h.analysis L]
    split
    · next heq =>
      rw [heq.1, heq.2]
      exact hinv.after_seed
    · next hne =>
      refine hinv.untouched _ _ fun hc => hne ?_
      have hi : i' = i := (PatternSet.mem_single.1 hc.1).symm
      subst hi
      exact ⟨rfl, hn.portion_single.symm.trans hc.2⟩
  | caching c =>
    have hsound : c.Sound := h.sound
    rw [life_advance_caching h, life_caching, life_caching]
    split
    · next heq =>
      rw [heq.1, heq.2]
      exact life_insert_self hsound.toSound ⟨q.id, i, m.binding, m.expiration⟩
    · next hne =>
      refine life_insert_of_ne hsound.toSound fun hk => hne ?_
      exact ⟨congrArg Key.part hk, congrArg Key.binding hk⟩

/-- A state that is faithful to a book is faithful to it with a match recorded, once it has
taken in the match. -/
theorem faithful_advance (h : Takes j x q i m) (hF : j.Faithful q.id q.pattern (.upTo now) L) :
    (j.advance x q i m now).joins.Faithful q.id q.pattern (.upTo now)
      (L.hit i m.binding m.expiration) := by
  intro P b hb hkeeps
  cases hj : j.strategy with
  | symmetric =>
    cases j with
    | caching c => cases hj
    | symmetric s =>
      rw [advance_symmetric h.analysis L]
      exact (invariant_joining h hF).exact (ready_joining h hF) hb
  | caching =>
    have hstrategy := (taken_advance h now).strategy
    obtain ⟨i', rfl⟩ := hkeeps (hstrategy.trans hj)
    have hold := hF (.single i') b hb fun _ => ⟨i', rfl⟩
    rw [life_advance_single h hF hb, hb.joinLife_single]
    rw [hb.joinLife_single] at hold
    unfold Book.hit
    split
    · rw [sup_right_comm, hold, sup_right_comm]
    · exact hold

/-- Nothing is stored with a life that its matches do not give it. -/
theorem life_advance_le (h : Takes j x q i m) (hF : j.Faithful q.id q.pattern (.upTo now) L)
    (hb : q.pattern.Fits P b) (hkeeps : j.Keeps P) :
    (j.advance x q i m now).joins.life ⟨q.id, P, b⟩ ≤
      j.life ⟨q.id, P, b⟩ ⊔ q.pattern.joinLife (L.hit i m.binding m.expiration) P b := by
  cases hj : j.strategy with
  | symmetric =>
    cases j with
    | caching c => cases hj
    | symmetric s =>
      have hinv := invariant_joining h hF
      rw [advance_symmetric h.analysis L]
      rcases hinv.touched P b with he | he
      · exact he.le.trans le_sup_left
      · by_cases hcontains : (joining s x q i m now L).Contains P b
        · refine he.le.trans (sup_le_sup_left ?_ _)
          exact freshLife_le_joinLife_hit hcontains.1 hcontains.2
        · exact (hinv.untouched P b hcontains).le.trans le_sup_left
  | caching =>
    obtain ⟨i', rfl⟩ := hkeeps hj
    rw [life_advance_single h hF hb, hb.joinLife_single]
    split
    · next heq =>
      rw [heq.1, heq.2, Book.hit_self]
      exact sup_le_sup_left le_sup_right _
    · exact le_sup_left

/-! ### Candidates -/

/-- The cached matches of the other patterns live as long as the book says. -/
theorem portionLife_insert {c : MatchCache} (h : Takes (caching c) x q i m)
    (hF : (caching c).Faithful q.id q.pattern (.upTo now) L)
    (hb : q.pattern.Fits (.full q.pattern.length) b) {i' : Nat}
    (hi : i' ∈ (PatternSet.full q.pattern.length).members.erase i) :
    MatchCache.portionLife (c.insert ⟨q.id, i, m.binding, m.expiration⟩).2 q.pattern q.id b i' ⊔
      .upTo now = L i' (q.pattern.portion b i') ⊔ .upTo now := by
  have hsound : c.Sound := h.sound
  obtain ⟨hne, hi⟩ := Finset.mem_erase.1 hi
  have hfits := hb.portion (PatternSet.mem_members.1 hi)
  have hold := hF (.single i') _ hfits fun _ => ⟨i', rfl⟩
  rw [life_caching, hfits.joinLife_single] at hold
  rw [MatchCache.portionLife, MatchCache.toPartialStore_insert,
    life_insert_of_ne hsound.toSound fun hk => hne (congrArg Key.part hk)]
  exact hold

/-- The candidates of a caching join for a match that has come to live longer. -/
theorem mem_advance_caching {c : MatchCache} (h : Takes (caching c) x q i m)
    (hF : (caching c).Faithful q.id q.pattern (.upTo now) L) {d : Candidate}
    (halive : .instant now < d.expiration) :
    d ∈ MatchCache.extend (c.insert ⟨q.id, i, m.binding, m.expiration⟩).2 q.analysis q.id now
        (q.analysis.joinOrder i) m.binding m.expiration ↔
      q.pattern.Fits (.full q.pattern.length) d.binding ∧
        q.pattern.portion d.binding i = m.binding ∧
        (d.expiration : Life) =
          q.pattern.freshLife L (.full q.pattern.length) i m.expiration d.binding := by
  have hsound : c.Sound := h.sound
  have hfit := fitting_caching_iff.1 h.fitting
  have hfitting := MatchCache.fitting_insert (m := ⟨q.id, i, m.binding, m.expiration⟩) hsound hfit
    h.fits
  have hlong : Life.upTo now < (d.expiration : Life) := WithBot.coe_lt_coe.2 halive
  have htop : Life.upTo now < ⊤ := hlong.trans_le le_top
  rw [h.analysis, MatchCache.mem_extend_joinOrder (MatchCache.sound_insert hsound _) hfitting
    (onePiece_of_analyse h.analysed) h.capacity h.fits]
  constructor
  · intro ⟨hb, hm, hlives, hexp⟩
    refine ⟨hb, hm, hexp.trans (congrArg _ (Finset.inf_congr rfl fun i' hi => ?_))⟩
    exact (Life.eq_of_sup_eq (portionLife_insert h hF hb hi).symm (hlives i' hi)).symm
  · intro ⟨hb, hm, hexp⟩
    have hrest : .upTo now < q.pattern.restLife L (.full q.pattern.length) i d.binding := by
      rw [hexp] at hlong
      exact (lt_inf_iff.1 hlong).2
    have hlives : ∀ i' ∈ (PatternSet.full q.pattern.length).members.erase i,
        MatchCache.portionLife (c.insert ⟨q.id, i, m.binding, m.expiration⟩).2 q.pattern q.id
          d.binding i' = L i' (q.pattern.portion d.binding i') := fun i' hi =>
      Life.eq_of_sup_eq (portionLife_insert h hF hb hi) ((Finset.lt_inf_iff htop).1 hrest i' hi)
    refine ⟨hb, hm, fun i' hi => ?_, hexp.trans (congrArg _ (Finset.inf_congr rfl fun i' hi => ?_))⟩
    · rw [hlives i' hi]
      exact (Finset.lt_inf_iff htop).1 hrest i' hi
    · exact (hlives i' hi).symm

/-- By a match that has come to live longer, a solution lives as long as the rest allows. -/
theorem joinLife_hit_of_lt {g : GraphPattern} (hi : i ∈ P) (hm : g.portion b i = m.binding)
    (hlt : L i m.binding < m.expiration) :
    g.joinLife (L.hit i m.binding m.expiration) P b = g.freshLife L P i m.expiration b := by
  rw [joinLife_hit hi hm, joinLife_eq_inf_restLife hi, hm]
  exact sup_eq_right.2 (inf_le_inf_right _ hlt.le)

/-- The candidates that are valid are the solutions that the match completes. -/
theorem mem_advance (h : Takes j x q i m) (hF : j.Faithful q.id q.pattern (.upTo now) L)
    (halive : .instant now < c.expiration) :
    c ∈ (j.advance x q i m now).candidates ↔
      q.pattern.Completes j.strategy L ⟨now, i, m.binding, m.expiration⟩ c := by
  cases j with
  | symmetric s =>
    rw [advance_symmetric h.analysis L]
    have hmem := (invariant_joining h hF).mem_complete (ready_joining h hF) (b := c.binding) halive
    have hmap : c ∈ (joining s x q i m now L).final.complete.map
        (fun c => (⟨c.binding, c.expiration⟩ : Candidate)) ↔
        ∃ d ∈ (joining s x q i m now L).final.complete,
          d.binding = c.binding ∧ d.expiration = c.expiration := by
      rw [List.mem_map]
      refine exists_congr fun d => and_congr_right fun _ => ?_
      cases c
      simp
    rw [hmap, hmem]
    constructor
    · intro ⟨hb, hm, hexp, hlt⟩
      exact ⟨hb, h.inRange, hm, halive, hexp, hlt⟩
    · intro hc
      exact ⟨hc.fits, hc.contains, hc.expiration, hc.triggers⟩
  | caching c' =>
    have hsound : c'.Sound := h.sound
    have hchanges := MatchCache.insert_changes_iff hsound ⟨q.id, i, m.binding, m.expiration⟩
    have hmatch := hF (.single i) m.binding h.fits fun _ => ⟨i, rfl⟩
    rw [life_caching, h.fits.joinLife_single] at hmatch
    have hcandidates : ∀ d, d ∈ ((caching c').advance x q i m now).candidates ↔
        c'.life ⟨q.id, i, m.binding⟩ < m.expiration ∧
          d ∈ MatchCache.extend (c'.insert ⟨q.id, i, m.binding, m.expiration⟩).2 q.analysis q.id now
            (q.analysis.joinOrder i) m.binding m.expiration := by
      intro d
      unfold advance
      dsimp only
      cases hn : (c'.insert ⟨q.id, i, m.binding, m.expiration⟩).1.id? with
      | none =>
        rw [hn] at hchanges
        rw [MatchCache.addMatch_none hn]
        exact iff_of_false (by simp) fun hd => by simpa using hchanges.2 hd.1
      | some n =>
        rw [hn] at hchanges
        rw [MatchCache.addMatch_some hn]
        exact ⟨fun hd => ⟨hchanges.1 rfl, hd⟩, fun hd => hd.2⟩
    rw [hcandidates, mem_advance_caching h hF halive]
    constructor
    · intro ⟨hlt, hb, hm, hexp⟩
      have hlate : Life.upTo now < (m.expiration : Life) :=
        (WithBot.coe_lt_coe.2 halive).trans_le (hexp ▸ inf_le_left)
      have hlt : L i m.binding < m.expiration := (Life.lt_iff_of_sup_eq hmatch hlate).1 hlt
      refine ⟨hb, h.inRange, hm, halive, ?_, hlt⟩
      rw [hexp, Book.record, joinLife_hit_of_lt h.inRange hm hlt]
    · intro hc
      have hlt : L i m.binding < m.expiration := hc.triggers
      have hexp := hc.expiration
      rw [Book.record, joinLife_hit_of_lt h.inRange hc.contains hlt] at hexp
      have hlate : Life.upTo now < (m.expiration : Life) :=
        (WithBot.coe_lt_coe.2 halive).trans_le (hexp ▸ inf_le_left)
      exact ⟨(Life.lt_iff_of_sup_eq hmatch hlate).2 hlt, hc.fits, hc.contains, hexp⟩

/-- Taking in a match changes something exactly if what is stored of it comes to live longer. -/
theorem advance_changed_iff (h : j.Sound) : (j.advance x q i m now).changed = true ↔
    j.life ⟨q.id, .single i, m.binding⟩ < m.expiration := by
  cases j with
  | symmetric s =>
    have hchanges := SolutionStore.insert_changes_iff h (.ofPattern q.id i m.binding m.expiration)
    rw [← SolutionStore.changed_propagate s x _ q.analysis now] at hchanges
    exact hchanges
  | caching c =>
    have hchanges := MatchCache.insert_changes_iff h ⟨q.id, i, m.binding, m.expiration⟩
    rw [life_caching]
    refine Iff.trans ?_ hchanges
    unfold advance
    cases hn : (c.insert ⟨q.id, i, m.binding, m.expiration⟩).1.id? with
    | none => simp only [MatchCache.addMatch_none hn, Option.isSome_none]
    | some n => simp only [MatchCache.addMatch_some hn, Option.isSome_some]

/-- Something changes exactly if the match has come to live longer. -/
theorem changed_advance_iff (h : Takes j x q i m) (hF : j.Faithful q.id q.pattern (.upTo now) L)
    (halive : .instant now < m.expiration) :
    (j.advance x q i m now).changed = true ↔ L i m.binding < m.expiration := by
  have hlate : Life.upTo now < (m.expiration : Life) := WithBot.coe_lt_coe.2 halive
  have hmatch := hF (.single i) m.binding h.fits fun _ => ⟨i, rfl⟩
  rw [h.fits.joinLife_single] at hmatch
  exact (advance_changed_iff h.sound).trans (Life.lt_iff_of_sup_eq hmatch hlate)

/-- No binding is a candidate twice. -/
theorem pairwise_advance (h : Takes j x q i m) (hF : j.Faithful q.id q.pattern (.upTo now) L) :
    (j.advance x q i m now).candidates.Pairwise fun c d => c.binding ≠ d.binding := by
  cases j with
  | symmetric s =>
    rw [advance_symmetric h.analysis L, List.pairwise_map]
    exact List.pairwise_map.1 (invariant_joining h hF).nodup
  | caching c =>
    have hsound : c.Sound := h.sound
    have hfitting := MatchCache.fitting_insert (m := ⟨q.id, i, m.binding, m.expiration⟩) hsound
      (fitting_caching_iff.1 h.fitting) h.fits
    unfold advance
    dsimp only
    cases hn : (c.insert ⟨q.id, i, m.binding, m.expiration⟩).1.id? with
    | none =>
      rw [MatchCache.addMatch_none hn]
      exact .nil
    | some n =>
      rw [MatchCache.addMatch_some hn, h.analysis]
      exact MatchCache.nodup_extend (MatchCache.sound_insert hsound _) hfitting
        (Analysis.chained_joinOrder (fits_single_iff.1 h.fits).1) h.fits.domain

end JoinState

end StandingQuery
