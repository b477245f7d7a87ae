import Mathlib.Data.List.MinMax
import StandingQuery.Config
import StandingQuery.Proofs.Book

/-! What a query is served.

Seen from one query, a run is a list of *hits*: matches of its patterns, each at an
instant and with an expiration. The hits make up its book, and each hit completes
solutions: the bindings of the whole query that contain the match and are valid. The
two joins differ in when a solution is served again. The symmetric join serves one
that has come to live longer, the caching join every one whose match has.

So what is served never gets shorter-lived (`Served.le`), all that is valid has been
served with the life it has (`Served.mem_of_alive`), and as sets the two joins serve
the same (`Served.mem_iff`). -/
namespace StandingQuery

/-- A match of one pattern of a query. -/
structure Hit where
  now : Nat
  pattern : Nat
  binding : Binding
  expiration : Expiration

namespace Book

/-- For each pattern and binding, the latest expiration of a hit. -/
def ofHits (hits : List Hit) : Book := fun i m =>
  ((hits.filter fun h => h.pattern = i ∧ h.binding = m).map Hit.expiration).maximum

/-- The book after one more hit. -/
def record (L : Book) (h : Hit) : Book := L.hit h.pattern h.binding h.expiration

theorem ofHits_concat (hits : List Hit) (h : Hit) :
    ofHits (hits ++ [h]) = (ofHits hits).record h := by
  funext i m
  unfold record hit ofHits
  rw [List.filter_append, List.map_append]
  by_cases heq : h.pattern = i ∧ h.binding = m
  · rw [if_pos ⟨heq.1.symm, heq.2.symm⟩]
    simp only [heq, and_self, decide_true, List.filter_cons_of_pos, List.filter_nil,
      List.map_cons, List.map_nil, List.maximum_concat]
  · rw [if_neg fun he => heq ⟨he.1.symm, he.2.symm⟩]
    simp [heq]

end Book

namespace GraphPattern

/-- When a join serves a solution: if it has come to live longer, or if its match has. -/
def Triggers (strategy : JoinStrategy) (g : GraphPattern) (L : Book) (h : Hit) (c : Candidate) : Prop :=
  match strategy with
  | .symmetric => g.joinLife L (.full g.length) c.binding < c.expiration
  | .caching => L h.pattern h.binding < h.expiration

/-- A solution that a hit completes: a binding of the whole query with the match in it,
which is valid and lives as long as its matches. -/
structure Completes (strategy : JoinStrategy) (g : GraphPattern) (L : Book) (h : Hit)
    (c : Candidate) : Prop where
  fits : g.Fits (.full g.length) c.binding
  inRange : h.pattern ∈ PatternSet.full g.length
  contains : g.portion c.binding h.pattern = h.binding
  alive : .instant h.now < c.expiration
  expiration : (c.expiration : Life) = g.joinLife (L.record h) (.full g.length) c.binding
  triggers : g.Triggers strategy L h c

/-- What the hits of a query are served, each hit the solutions that it completes, once. -/
inductive Served (strategy : JoinStrategy) (g : GraphPattern) : List Hit → List Candidate → Prop where
  | nil : Served strategy g [] []
  | concat {hits served h fresh} : Served strategy g hits served →
      fresh.Pairwise (fun c d : Candidate => c.binding ≠ d.binding) →
      (∀ c, c ∈ fresh ↔ g.Completes strategy (.ofHits hits) h c) →
      Served strategy g (hits ++ [h]) (served ++ fresh)

variable {strategy : JoinStrategy} {g : GraphPattern} {L : Book} {h : Hit} {hits : List Hit}
variable {served : List Candidate} {b : Binding} {c d : Candidate} {e : Expiration}

/-- How long a solution lives after the hits. -/
abbrev lifeAfter (g : GraphPattern) (hits : List Hit) (b : Binding) : Life :=
  g.joinLife (.ofHits hits) (.full g.length) b

theorem lifeAfter_le_concat : g.lifeAfter hits b ≤ g.lifeAfter (hits ++ [h]) b := by
  unfold lifeAfter
  rw [Book.ofHits_concat]
  exact joinLife_le_hit

/-! ### Serving again -/

/-- A hit that makes a solution live longer is a match of it. -/
theorem contains_of_longer (hlt : g.joinLife L (.full g.length) b <
    g.joinLife (L.record h) (.full g.length) b) :
    h.pattern ∈ PatternSet.full g.length ∧ g.portion b h.pattern = h.binding := by
  by_contra hne
  rw [Book.record, joinLife_hit_of_not hne] at hlt
  exact lt_irrefl _ hlt

/-- A hit that makes a solution live longer makes its match live longer. -/
theorem match_longer (hlt : g.joinLife L (.full g.length) b <
    g.joinLife (L.record h) (.full g.length) b) : L h.pattern h.binding < h.expiration := by
  by_contra hle
  have hsame : L.record h = L := by
    funext i m
    unfold Book.record Book.hit
    split
    · next heq =>
      rw [heq.1, heq.2]
      exact sup_eq_left.2 (not_lt.1 hle)
    · rfl
  rw [hsame] at hlt
  exact lt_irrefl _ hlt

/-- Either join serves a solution that has come to live longer. -/
theorem completes_of_longer (hb : g.Fits (.full g.length) b)
    (halive : .instant h.now < e) (he : (e : Life) = g.joinLife (L.record h) (.full g.length) b)
    (hlt : g.joinLife L (.full g.length) b < e) : g.Completes strategy L h ⟨b, e⟩ where
  fits := hb
  inRange := (contains_of_longer (he ▸ hlt)).1
  contains := (contains_of_longer (he ▸ hlt)).2
  alive := halive
  expiration := he
  triggers := by
    cases strategy with
    | symmetric => exact hlt
    | caching => exact match_longer (he ▸ hlt)

/-- With the symmetric join, or with one pattern only, what is served has come to live longer. -/
theorem Completes.longer (hc : g.Completes strategy L h c)
    (hs : strategy = .symmetric ∨ g.length = 1) :
    g.joinLife L (.full g.length) c.binding < c.expiration := by
  rcases hs with rfl | hone
  · exact hc.triggers
  · cases strategy with
    | symmetric => exact hc.triggers
    | caching =>
      -- The one match is all of the solution.
      have hfull : PatternSet.full g.length = .single 0 := by
        rw [hone]
        rfl
      have hzero : h.pattern = 0 := PatternSet.mem_single.1 (hfull ▸ hc.inRange)
      have htriggers : L h.pattern h.binding < h.expiration := hc.triggers
      have hcontains := hc.contains
      have hexp := hc.expiration
      rw [hzero] at hcontains htriggers
      rw [hfull, joinLife_single, hcontains] at hexp ⊢
      rw [Book.record, hzero, Book.hit_self, sup_eq_right.2 htriggers.le] at hexp
      rwa [hexp]

theorem Served.concat_inv (hs : Served strategy g (hits ++ [h]) served) :
    ∃ earlier fresh, served = earlier ++ fresh ∧ Served strategy g hits earlier ∧
      fresh.Pairwise (fun c d : Candidate => c.binding ≠ d.binding) ∧
      ∀ c, c ∈ fresh ↔ g.Completes strategy (.ofHits hits) h c := by
  generalize hall : hits ++ [h] = all at hs
  cases hs with
  | nil => simp at hall
  | @concat hits' earlier h' fresh hserved hnodup hfresh =>
    obtain ⟨rfl, hh⟩ := List.append_inj' hall rfl
    cases hh
    exact ⟨earlier, fresh, rfl, hserved, hnodup, hfresh⟩

/-- A solution that was served lives at least that long ever after. -/
theorem Served.le_lifeAfter (hs : Served strategy g hits served) :
    ∀ c ∈ served, g.Fits (.full g.length) c.binding ∧
      (c.expiration : Life) ≤ g.lifeAfter hits c.binding := by
  induction hs with
  | nil => simp
  | @concat hits served h fresh _ _ hfresh ih =>
    intro c hc
    rcases List.mem_append.1 hc with hc | hc
    · exact ⟨(ih c hc).1, (ih c hc).2.trans lifeAfter_le_concat⟩
    · have hcompletes := (hfresh c).1 hc
      refine ⟨hcompletes.fits, ?_⟩
      rw [lifeAfter, Book.ofHits_concat]
      exact hcompletes.expiration.le

/-- A solution that is served again expires no earlier. -/
theorem Served.le (hs : Served strategy g hits served) :
    served.Pairwise fun c d => c.binding = d.binding → c.expiration ≤ d.expiration := by
  induction hs with
  | nil => exact .nil
  | @concat hits served h fresh hserved hnodup hfresh ih =>
    refine List.pairwise_append.2 ⟨ih, hnodup.imp fun hne heq => absurd heq hne, ?_⟩
    intro c hc d hd heq
    have hexp := ((hfresh d).1 hd).expiration
    rw [← Book.ofHits_concat] at hexp
    have hle := (hserved.le_lifeAfter c hc).2
    rw [heq] at hle
    exact WithBot.coe_le_coe.1 ((hle.trans lifeAfter_le_concat).trans hexp.ge)

/-- With the symmetric join, or with one pattern only, it expires later. -/
theorem Served.lt (hs : Served strategy g hits served)
    (hlonger : strategy = .symmetric ∨ g.length = 1) :
    served.Pairwise fun c d => c.binding = d.binding → c.expiration < d.expiration := by
  induction hs with
  | nil => exact .nil
  | @concat hits served h fresh hserved hnodup hfresh ih =>
    refine List.pairwise_append.2 ⟨ih, hnodup.imp fun hne heq => absurd heq hne, ?_⟩
    intro c hc d hd heq
    have hlt := ((hfresh d).1 hd).longer hlonger
    have hle := (hserved.le_lifeAfter c hc).2
    rw [heq] at hle
    exact WithBot.coe_lt_coe.1 (hle.trans_lt hlt)

/-! ### Serving what is valid -/

/-- A solution that is valid has been served with the life it has. -/
theorem Served.mem_of_alive (hs : Served strategy g hits served) (hb : g.Fits (.full g.length) b)
    (he : (e : Life) = g.lifeAfter hits b) (halive : ∀ h ∈ hits, .instant h.now < e) :
    ⟨b, e⟩ ∈ served := by
  induction hs with
  | nil =>
    obtain ⟨i, hi⟩ := hb.connected.nonempty
    have hbot : g.lifeAfter [] b = ⊥ := le_bot_iff.1 (joinLife_le hi)
    rw [hbot] at he
    cases he
  | @concat hits served h fresh hserved hnodup hfresh ih =>
    have hle : g.lifeAfter hits b ≤ g.lifeAfter (hits ++ [h]) b := lifeAfter_le_concat
    rcases hle.lt_or_eq with hlt | heq
    · refine List.mem_append_right _ ((hfresh _).2 ?_)
      rw [← he] at hlt
      rw [lifeAfter, Book.ofHits_concat] at he
      exact completes_of_longer hb (halive h (List.mem_append_right _ List.mem_cons_self)) he hlt
    · refine List.mem_append_left _ (ih (he.trans heq.symm) fun h' hh => ?_)
      exact halive h' (List.mem_append_left _ hh)

/-- As sets, the two joins serve the same. -/
theorem Served.mem_iff {served' : List Candidate} (hs : Served .symmetric g hits served)
    (hs' : Served .caching g hits served') (hsorted : hits.Pairwise fun h h' => h.now ≤ h'.now) :
    c ∈ served ↔ c ∈ served' := by
  induction hs generalizing served' with
  | nil =>
    generalize hall : ([] : List Hit) = all at hs'
    cases hs' with
    | nil => rfl
    | concat => simp at hall
  | @concat hits served h fresh hserved hnodup hfresh ih =>
    obtain ⟨earlier, fresh', rfl, hserved', -, hfresh'⟩ := hs'.concat_inv
    obtain ⟨hsorted, -, hlast⟩ := List.pairwise_append.1 hsorted
    rw [List.mem_append, List.mem_append, ih hserved' hsorted, hfresh, hfresh']
    constructor
    · intro hc
      rcases hc with hc | hc
      · exact .inl hc
      · exact .inr (completes_of_longer hc.fits hc.alive hc.expiration hc.triggers)
    · intro hc
      rcases hc with hc | hc
      · exact .inl hc
      · rcases lt_or_ge (g.lifeAfter hits c.binding) c.expiration with hlt | hle
        · exact .inr (completes_of_longer hc.fits hc.alive hc.expiration hlt)
        · -- The solution lives no longer than before, so it has been served.
          left
          rw [← ih hserved' hsorted]
          refine hserved.mem_of_alive hc.fits (le_antisymm hle ?_) fun h' hh => ?_
          · rw [hc.expiration, ← Book.ofHits_concat]
            exact lifeAfter_le_concat
          · have hnow := hlast h' hh h List.mem_cons_self
            exact (Expiration.instant_le_instant.2 hnow).trans_lt hc.alive

/-! ### Hits that never expire -/

theorem ofHits_never (hnever : ∀ h ∈ hits, h.expiration = .never) (i : Nat) (m : Binding) :
    Book.ofHits hits i m = ⊥ ∨ Book.ofHits hits i m = ⊤ := by
  induction hits using List.reverseRecOn with
  | nil => exact .inl rfl
  | append_singleton hits h ih =>
    have ih := ih fun h' hh => hnever h' (List.mem_append_left _ hh)
    rw [Book.ofHits_concat, Book.record, Book.hit]
    split
    · right
      rw [hnever h (List.mem_append_right _ List.mem_cons_self)]
      exact sup_top_eq _
    · exact ih

theorem lifeAfter_never (hnever : ∀ h ∈ hits, h.expiration = .never)
    (hb : g.Fits (.full g.length) b) : g.lifeAfter hits b = ⊥ ∨ g.lifeAfter hits b = ⊤ := by
  obtain ⟨i, hi⟩ := hb.connected.nonempty
  obtain ⟨j, -, hj⟩ := exists_joinLife_eq (g := g) (L := .ofHits hits) (b := b) hi
  unfold lifeAfter
  rw [hj]
  exact ofHits_never hnever _ _

/-- If no hit expires, every solution is served once and never expires, and the solutions
served are those whose matches have all been hit. -/
theorem Served.never (hs : Served strategy g hits served)
    (hnever : ∀ h ∈ hits, h.expiration = .never) :
    served.Pairwise (fun c d => c.binding ≠ d.binding) ∧ (∀ c ∈ served, c.expiration = .never) ∧
      ∀ b, ⟨b, .never⟩ ∈ served ↔ g.Fits (.full g.length) b ∧ g.lifeAfter hits b = ⊤ := by
  have hall : ∀ c ∈ served, c.expiration = .never := by
    induction hs with
    | nil => simp
    | @concat hits served h fresh hserved hnodup hfresh ih =>
      intro c hc
      rcases List.mem_append.1 hc with hc | hc
      · exact ih (fun h' hh => hnever h' (List.mem_append_left _ hh)) c hc
      · have hcompletes := (hfresh c).1 hc
        have hexp := hcompletes.expiration
        rw [← Book.ofHits_concat] at hexp
        rcases lifeAfter_never hnever hcompletes.fits with hbot | htop
        · rw [lifeAfter] at hbot
          rw [hbot] at hexp
          cases hexp
        · rw [lifeAfter] at htop
          rw [htop] at hexp
          exact WithBot.coe_inj.1 hexp
  refine ⟨?_, hall, fun b => ⟨fun hb => ?_, fun ⟨hb, htop⟩ => ?_⟩⟩
  · induction hs with
    | nil => exact .nil
    | @concat hits served h fresh hserved hnodup hfresh ih =>
      have hnever' : ∀ h' ∈ hits, h'.expiration = .never :=
        fun h' hh => hnever h' (List.mem_append_left _ hh)
      refine List.pairwise_append.2
        ⟨ih hnever' fun c hc => hall c (List.mem_append_left _ hc), hnodup, ?_⟩
      intro c hc d hd heq
      -- What was served lives for ever, so no hit can make it or its match live longer.
      have htop : g.lifeAfter hits d.binding = ⊤ := by
        have hle := (hserved.le_lifeAfter c hc).2
        rw [hall c (List.mem_append_left _ hc), heq] at hle
        exact top_le_iff.1 hle
      have hcompletes := (hfresh d).1 hd
      cases strategy with
      | symmetric =>
        have hlt : g.lifeAfter hits d.binding < d.expiration := hcompletes.triggers
        rw [htop] at hlt
        exact not_top_lt hlt
      | caching =>
        have hlt : Book.ofHits hits h.pattern h.binding < h.expiration := hcompletes.triggers
        have hmatch : Book.ofHits hits h.pattern h.binding = ⊤ := by
          rw [← hcompletes.contains]
          exact top_le_iff.1 (htop ▸ joinLife_le hcompletes.inRange)
        rw [hmatch] at hlt
        exact not_top_lt hlt
  · obtain ⟨hfits, hle⟩ := hs.le_lifeAfter _ hb
    exact ⟨hfits, top_le_iff.1 hle⟩
  · exact hs.mem_of_alive hb htop.symm fun h _ => Expiration.instant_lt_never

end GraphPattern

end StandingQuery
