import StandingQuery.Proofs.Symmetric

/-! What the symmetric join stores and finds.

A new match starts a chain of joins. Every partial solution on the way contains the
match, and what it is joined with does not, so the way by which a binding was
reached leaves no trace: it lives as long as its matches do. Each binding is
therefore stored once, and since a connected set grows from any of its patterns one
link at a time, none that lives on is missed. After the joins the store gives every
binding the life of its matches (`Invariant.exact`), and the solutions found are the
bindings of the whole query that live longer than before (`Invariant.mem_complete`). -/
namespace StandingQuery
open Std

namespace SolutionStore
open PartialSolution PartialStore GraphPattern

/-- A match of one pattern of a query, on its way into a store. -/
structure Joining where
  g : GraphPattern
  query : QueryId
  now : Nat
  /-- How long the matches live that came before. -/
  book : Book
  start : Progress
  pattern : Nat
  binding : Binding
  expiration : Expiration

namespace Joining

section Definitions

variable (x : Joining)

/-- The partial solution that the match is stored as. -/
def seed : PartialSolution PatternSet := .ofPattern x.query x.pattern x.binding x.expiration

/-- A binding of the part `P` that has the match for its portion of the pattern. -/
def Contains (P : PatternSet) (b : Binding) : Prop :=
  x.pattern ∈ P ∧ x.g.portion b x.pattern = x.binding

/-- How long a binding that contains the match lives by it. -/
def fresh (P : PatternSet) (b : Binding) : Life :=
  x.g.freshLife x.book P x.pattern x.expiration b

/-- How long the matches live from now on. -/
def later : Book := x.book.hit x.pattern x.binding x.expiration

/-- How long a binding lives before the match. -/
def before (P : PatternSet) (b : Binding) : Life := x.start.store.life ⟨x.query, P, b⟩

/-- How long a binding lives when joining has got to `s`. -/
def after (s : Progress) (P : PatternSet) (b : Binding) : Life := s.store.life ⟨x.query, P, b⟩

/-- The binding has been stored with the life that the match gives it, or will be. -/
def Settled (s : Progress) (work : List (PartialSolution PatternSet)) (P : PatternSet)
    (b : Binding) : Prop :=
  x.fresh P b ≤ x.after s P b ∨ ∃ p ∈ work, p.part = P ∧ p.binding = b

/-- The store agrees with the book on what is still valid, and the match is one of the pattern. -/
structure Ready : Prop where
  sound : x.start.store.Sound
  fitting : x.start.store.Fitting x.query x.g
  capacity : x.g.length ≤ PatternSet.capacity
  fits : x.g.Fits (.single x.pattern) x.binding
  timely : x.expiration.Timely
  exact : ∀ P b, x.g.Fits P b →
    x.before P b ⊔ .upTo x.now = x.g.joinLife x.book P b ⊔ .upTo x.now
  nothing : x.start.complete = []

/-- A partial solution of the whole query that the match has made live longer. -/
structure Completed (c : PartialSolution PatternSet) : Prop where
  query : c.query = x.query
  part : c.part = .full x.g.length
  fits : x.g.Fits c.part c.binding
  contains : x.Contains c.part c.binding
  expiration : (c.expiration : Life) = x.fresh c.part c.binding
  longer : x.before c.part c.binding < c.expiration

/-- Everything found so far contains the match and lives as long as its matches do, was
stored once, and leaves nothing to join that is not among the work. -/
structure Invariant (s : Progress) (work : List (PartialSolution PatternSet)) : Prop
    extends Working x.g x.query x.start s work where
  items : ∀ p ∈ work, x.Contains p.part p.binding ∧ (p.expiration : Life) = x.fresh p.part p.binding
  untouched : ∀ P b, ¬ x.Contains P b → x.after s P b = x.before P b
  touched : ∀ P b, x.after s P b = x.before P b ∨ x.after s P b = x.before P b ⊔ x.fresh P b
  seeded : x.Settled s work (.single x.pattern) x.binding
  closed : ∀ P b Q c, x.g.Fits P b → x.Contains P b → x.before P b < x.after s P b →
    P ≠ .full x.g.length → x.g.Fits Q c → .upTo x.now < x.g.joinLife x.book Q c →
    (∀ i ∈ Q, i ∉ P) → (∃ i ∈ P, ∃ j ∈ Q, x.g.Linked i j) → b.compatible c = true →
    x.Settled s work (P ∪ Q) (b.merge c)
  complete : ∀ c ∈ s.complete, x.Completed c ∧ (c.expiration : Life) ≤ x.after s c.part c.binding
  found : ∀ b, x.before (.full x.g.length) b < x.after s (.full x.g.length) b →
    ∃ c ∈ s.complete, c.binding = b
  nodup : (s.complete.map PartialSolution.binding).Nodup

end Definitions

variable {x : Joining} {s : Progress} {p q : PartialSolution PatternSet}
variable {work rest : List (PartialSolution PatternSet)} {P Q : PatternSet} {b c : Binding}

theorem joinLife_later (h : x.Contains P b) :
    x.g.joinLife x.later P b = x.g.joinLife x.book P b ⊔ x.fresh P b :=
  joinLife_hit h.1 h.2

theorem contains_merge (hb : x.g.Fits P b) (h : x.Contains P b) : x.Contains (P ∪ Q) (b.merge c) :=
  ⟨PatternSet.mem_union.2 (.inl h.1), (hb.portion_merge_left h.1).trans h.2⟩

/-! ### What one absorption does to lives -/

theorem after_absorb_self (h : s.store.Sound) (hq : p.query = x.query) (now : Nat) (a : Analysis) :
    x.after (absorb a now s p).1 p.part p.binding = x.after s p.part p.binding ⊔ p.expiration := by
  unfold after
  rw [absorb_store h, ← hq]
  exact life_insert_self h.toSound p

theorem after_absorb_of_ne (h : s.store.Sound) (hne : ¬ (P = p.part ∧ b = p.binding)) (now : Nat)
    (a : Analysis) : x.after (absorb a now s p).1 P b = x.after s P b := by
  unfold after
  rw [absorb_store h]
  refine life_insert_of_ne h.toSound fun hk => hne ?_
  exact ⟨congrArg Key.part hk, congrArg Key.binding hk⟩

theorem le_after_absorb (h : s.store.Sound) (now : Nat) (a : Analysis) :
    x.after s P b ≤ x.after (absorb a now s p).1 P b := by
  unfold after
  rw [absorb_store h]
  exact le_life_insert h.toSound p _

theorem Settled.absorb (h : x.Settled s (p :: rest) P b) (hs : s.store.Sound)
    (hq : p.query = x.query) (hp : (p.expiration : Life) = x.fresh p.part p.binding) (now : Nat)
    (a : Analysis) :
    x.Settled (absorb a now s p).1 (rest ++ (absorb a now s p).2) P b := by
  rcases h with h | ⟨q, hmem, hpart, hbinding⟩
  · exact .inl (h.trans (le_after_absorb hs now a))
  · rcases List.mem_cons.1 hmem with hqp | hmem
    · left
      rw [← hpart, ← hbinding, hqp, after_absorb_self hs hq, hp]
      exact le_sup_right
    · exact .inr ⟨q, List.mem_append_left _ hmem, hpart, hbinding⟩

/-- What a partial solution with the match is joined with does not have it, so its
stored life is that of its matches. -/
theorem partner_expiration (hx : x.Ready) (h : x.Invariant s work) {r : PartialSolution PatternSet}
    (hr : x.g.Fits r.part r.binding) (hnot : x.pattern ∉ r.part)
    (hlife : x.after s r.part r.binding = r.expiration) (halive : .instant x.now < r.expiration) :
    (r.expiration : Life) = x.g.joinLife x.book r.part r.binding := by
  rw [h.untouched r.part r.binding fun hc => hnot hc.1] at hlife
  have hexact := hx.exact r.part r.binding hr
  rw [hlife] at hexact
  exact (Life.eq_of_sup_eq hexact.symm (WithBot.coe_lt_coe.2 halive)).symm

/-- A stored partial solution that covers other patterns than `p` was there before `p`. -/
theorem after_partner (h : s.store.Sound) {r : PartialSolution PatternSet}
    (hi : x.pattern ∈ p.part) (hnot : x.pattern ∉ r.part) (hq : r.query = x.query)
    (hr : ∃ n, (s.store.insert p).2.get? n = some r) : x.after s r.part r.binding = r.expiration := by
  obtain ⟨n, hn⟩ := hr
  have hlife := life_eq_of_get? (sound_insert h p).toSound hn
  rw [toPartialStore_insert, life_insert_of_ne h.toSound fun hk => ?_] at hlife
  · rw [after, ← hq]
    exact hlife
  · have hpart : r.part = p.part := congrArg Key.part hk
    exact hnot (hpart ▸ hi)

/-- A join of work is work of the same kind. -/
theorem items_absorb (hx : x.Ready) (h : x.Invariant s (p :: rest)) :
    ∀ q ∈ (absorb (.ofPattern x.g) x.now s p).2,
      x.Contains q.part q.binding ∧ (q.expiration : Life) = x.fresh q.part q.binding := by
  obtain ⟨hq, hp⟩ := h.ours p List.mem_cons_self
  obtain ⟨hcontains, hexp⟩ := h.items p List.mem_cons_self
  intro q hmem
  obtain ⟨r, hpr, hheld, hr, rfl⟩ := h.partner q hmem
  refine ⟨contains_merge hp hcontains, ?_⟩
  have hnot : x.pattern ∉ r.part := fun hi => hpr.disjoint _ hi hcontains.1
  have hlife := after_partner h.sound hcontains.1 hnot (hpr.query.trans hq) hheld
  have hr' := partner_expiration hx h hr hnot hlife hpr.alive
  show ((min p.expiration r.expiration : Expiration) : Life) =
    x.g.freshLife x.book (p.part ∪ r.part) x.pattern x.expiration (p.binding.merge r.binding)
  rw [WithBot.coe_min, hexp, hr', freshLife_merge hp hr hpr.compatible hcontains.1 hpr.disjoint]
  rfl

/-- A partial solution that is new or lives longer is joined with all of its partners. -/
theorem settled_join (hx : x.Ready) (h : x.Invariant s (p :: rest)) {n : SolutionId}
    (hn : (s.store.insert p).1.id? = some n) (hfull : p.part ≠ .full x.g.length)
    (hc : x.g.Fits Q c) (hlong : .upTo x.now < x.g.joinLife x.book Q c)
    (hdisjoint : ∀ i ∈ Q, i ∉ p.part) (hlinked : ∃ i ∈ p.part, ∃ j ∈ Q, x.g.Linked i j)
    (hcompatible : p.binding.compatible c = true) :
    x.Settled (absorb (.ofPattern x.g) x.now s p).1
      (rest ++ (absorb (.ofPattern x.g) x.now s p).2) (p.part ∪ Q) (p.binding.merge c) := by
  obtain ⟨hq, hp⟩ := h.ours p List.mem_cons_self
  obtain ⟨hcontains, -⟩ := h.items p List.mem_cons_self
  have hnot : ¬ x.Contains Q c := fun hQ => hdisjoint _ hQ.1 hcontains.1
  have hne : ¬ (Q = p.part ∧ c = p.binding) := fun e => hdisjoint _ (e.1 ▸ hcontains.1) hcontains.1
  obtain ⟨e, he⟩ := WithBot.ne_bot_iff_exists.1 (bot_lt_of_lt hlong).ne'
  have hlife : (s.store.insert p).2.life ⟨x.query, Q, c⟩ = e := by
    have := after_absorb_of_ne (x := x) h.sound hne x.now (.ofPattern x.g)
    rw [h.untouched Q c hnot, Life.eq_of_sup_eq (hx.exact Q c hc) hlong, ← he, after,
      absorb_store h.sound] at this
    exact this
  obtain ⟨m, r, hm, hkey, hexp⟩ := (life_eq_coe_iff (sound_insert h.sound p).toSound).1 hlife
  have hrq : r.query = x.query := congrArg Key.query hkey
  have hrpart : r.part = Q := congrArg Key.part hkey
  have hrbinding : r.binding = c := congrArg Key.binding hkey
  subst hrpart hrbinding hexp
  rw [← he] at hlong
  have hpr : Partner x.g x.now p r :=
    ⟨hrq.trans hq.symm, hdisjoint, hlinked, hcompatible, WithBot.coe_lt_coe.1 hlong⟩
  have hmem := (mem_partners (sound_insert h.sound p)
    (hq ▸ (fitting_insert h.sound h.fitting hp).covering) hp.domain).2 ⟨⟨m, hm⟩, hpr⟩
  refine .inr ⟨p.join r, List.mem_append_right _ ?_, rfl, rfl⟩
  rw [absorb_some hn]
  dsimp only
  rw [Analysis.full, Analysis.size_ofPattern, if_neg hfull]
  exact List.mem_map_of_mem hmem

/-! ### The invariant -/

theorem complete_absorb (h : x.Invariant s (p :: rest)) :
    ∀ c ∈ (absorb (.ofPattern x.g) x.now s p).1.complete, x.Completed c ∧
      (c.expiration : Life) ≤ x.after (absorb (.ofPattern x.g) x.now s p).1 c.part c.binding := by
  obtain ⟨hq, hp⟩ := h.ours p List.mem_cons_self
  obtain ⟨hcontains, hexp⟩ := h.items p List.mem_cons_self
  have hold : ∀ c ∈ s.complete, x.Completed c ∧ (c.expiration : Life) ≤
      x.after (absorb (.ofPattern x.g) x.now s p).1 c.part c.binding := fun c hc =>
    ⟨(h.complete c hc).1, (h.complete c hc).2.trans (le_after_absorb h.sound _ _)⟩
  intro c hc
  cases hn : (s.store.insert p).1.id? with
  | none =>
    rw [absorb_none hn] at hc
    exact hold c hc
  | some n =>
    have hmem : c ∈ s.complete ∨ p.part = .full x.g.length ∧ c = p := by
      rw [absorb_some hn] at hc
      dsimp only at hc
      rw [Analysis.full, Analysis.size_ofPattern] at hc
      split at hc
      · next hfull => simpa [hfull] using hc
      · exact .inl hc
    rcases hmem with hmem | ⟨hfull, rfl⟩
    · exact hold c hmem
    · have hlt : x.after s c.part c.binding < c.expiration := by
        rw [after, ← hq]
        exact (insert_changes_iff h.sound c).1 (by rw [hn]; rfl)
      have hle : x.before c.part c.binding ≤ x.after s c.part c.binding := by
        rcases h.touched c.part c.binding with he | he
        · exact he.ge
        · exact he ▸ le_sup_left
      refine ⟨⟨hq, hfull, hp, hcontains, hexp, hle.trans_lt hlt⟩, ?_⟩
      rw [after_absorb_self h.sound hq]
      exact le_sup_right

theorem found_absorb (h : x.Invariant s (p :: rest))
    (hb : x.before (.full x.g.length) b <
      x.after (absorb (.ofPattern x.g) x.now s p).1 (.full x.g.length) b) :
    ∃ c ∈ (absorb (.ofPattern x.g) x.now s p).1.complete, c.binding = b := by
  cases hn : (s.store.insert p).1.id? with
  | none =>
    rw [absorb_none hn] at hb ⊢
    exact h.found b hb
  | some n =>
    by_cases hpb : .full x.g.length = p.part ∧ b = p.binding
    · refine ⟨p, ?_, hpb.2.symm⟩
      rw [absorb_some hn]
      dsimp only
      rw [Analysis.full, Analysis.size_ofPattern, if_pos hpb.1.symm]
      exact List.mem_append_right _ List.mem_cons_self
    · rw [after_absorb_of_ne h.sound hpb] at hb
      obtain ⟨c, hc, hcb⟩ := h.found b hb
      refine ⟨c, ?_, hcb⟩
      rw [absorb_some hn]
      dsimp only
      split
      · exact List.mem_append_left _ hc
      · exact hc

/-- A solution is not found again: it is stored as long-lived as it can be. -/
theorem nodup_absorb (h : x.Invariant s (p :: rest)) :
    ((absorb (.ofPattern x.g) x.now s p).1.complete.map PartialSolution.binding).Nodup := by
  obtain ⟨hq, -⟩ := h.ours p List.mem_cons_self
  obtain ⟨-, hexp⟩ := h.items p List.mem_cons_self
  cases hn : (s.store.insert p).1.id? with
  | none =>
    rw [absorb_none hn]
    exact h.nodup
  | some n =>
    rw [absorb_some hn]
    dsimp only
    split
    · next hfull =>
      rw [Analysis.full, Analysis.size_ofPattern] at hfull
      rw [List.map_append, List.map_singleton, List.nodup_append]
      refine ⟨h.nodup, List.nodup_singleton _, fun b hb b' hb' hbb => ?_⟩
      obtain ⟨c, hc, rfl⟩ := List.mem_map.1 hb
      have hcp : c.binding = p.binding := hbb.trans (List.mem_singleton.1 hb')
      obtain ⟨hcomplete, hstored⟩ := h.complete c hc
      have hlt : x.after s p.part p.binding < p.expiration := by
        rw [after, ← hq]
        exact (insert_changes_iff h.sound p).1 (by rw [hn]; rfl)
      have hsame : (c.expiration : Life) = p.expiration := by
        rw [hcomplete.expiration, hexp, hcomplete.part, hfull, hcp]
      rw [hcomplete.part, hcp, ← hfull, hsame] at hstored
      exact absurd hlt hstored.not_gt
    · exact h.nodup

theorem Invariant.absorb (hx : x.Ready) (h : x.Invariant s (p :: rest)) :
    x.Invariant (SolutionStore.absorb (.ofPattern x.g) x.now s p).1
      (rest ++ (SolutionStore.absorb (.ofPattern x.g) x.now s p).2) := by
  obtain ⟨hq, hp⟩ := h.ours p List.mem_cons_self
  obtain ⟨hcontains, hexp⟩ := h.items p List.mem_cons_self
  exact {
    toWorking := h.toWorking.absorb
    items := fun q hmem => by
      rcases List.mem_append.1 hmem with hmem | hmem
      · exact h.items q (List.mem_cons_of_mem _ hmem)
      · exact items_absorb hx h q hmem
    untouched := fun P b hnot => by
      have hne : ¬ (P = p.part ∧ b = p.binding) := fun e => hnot (by rw [e.1, e.2]; exact hcontains)
      rw [after_absorb_of_ne h.sound hne]
      exact h.untouched P b hnot
    touched := fun P b => by
      by_cases hpb : P = p.part ∧ b = p.binding
      · obtain ⟨rfl, rfl⟩ := hpb
        right
        rw [after_absorb_self h.sound hq, hexp]
        rcases h.touched p.part p.binding with he | he
        · rw [he]
        · rw [he, sup_assoc, sup_idem]
      · rw [after_absorb_of_ne h.sound hpb]
        exact h.touched P b
    seeded := h.seeded.absorb h.sound hq hexp _ _
    closed := fun P b Q c hb hcb hlt hfull hc hlong hdisjoint hlinked hcompatible => by
      by_cases hpb : P = p.part ∧ b = p.binding
      · obtain ⟨rfl, rfl⟩ := hpb
        cases hn : (s.store.insert p).1.id? with
        | some n => exact settled_join hx h hn hfull hc hlong hdisjoint hlinked hcompatible
        | none =>
          refine Settled.absorb ?_ h.sound hq hexp _ _
          rw [absorb_none hn] at hlt
          exact h.closed _ _ Q c hb hcb hlt hfull hc hlong hdisjoint hlinked hcompatible
      · rw [after_absorb_of_ne h.sound hpb] at hlt
        have hold := h.closed P b Q c hb hcb hlt hfull hc hlong hdisjoint hlinked hcompatible
        exact hold.absorb h.sound hq hexp _ _
    complete := complete_absorb h
    found := fun b => found_absorb h
    nodup := nodup_absorb h }

/-! ### When joining is over -/

/-- Where joining ends. -/
def final (x : Joining) : Progress :=
  rounds (.ofPattern x.g) x.now ((Analysis.ofPattern x.g).size + 1) x.start [x.seed]

theorem invariant_start (hx : x.Ready) (htracked : x.start.store.TrackedBy x.start.expirations)
    (hexpirations : x.start.expirations.Sound) : x.Invariant x.start [x.seed] where
  sound := hx.sound
  fitting := hx.fitting
  tracked := htracked
  expirations := hexpirations
  queries _ := rfl
  others _ _ := rfl
  ours p hp := by
    rw [List.mem_singleton.1 hp]
    exact ⟨rfl, hx.fits⟩
  timely p hp := by
    rw [List.mem_singleton.1 hp]
    exact hx.timely
  items p hp := by
    rw [List.mem_singleton.1 hp]
    refine ⟨⟨?_, hx.fits.portion_single⟩, ?_⟩
    · exact PatternSet.mem_single.2 rfl
    · exact freshLife_single.symm
  untouched _ _ _ := rfl
  touched _ _ := .inl rfl
  seeded := .inr ⟨x.seed, List.mem_cons_self, rfl, rfl⟩
  closed P b _ _ _ _ hlt := absurd hlt (lt_irrefl _)
  complete c hc := by
    rw [hx.nothing] at hc
    cases hc
  found b hlt := absurd hlt (lt_irrefl _)
  nodup := by
    rw [hx.nothing]
    exact List.nodup_nil

theorem invariant_final (hx : x.Ready) (htracked : x.start.store.TrackedBy x.start.expirations)
    (hexpirations : x.start.expirations.Sound) : x.Invariant x.final [] := by
  refine rounds_induct x.g.length (fun s p rest h => h.absorb hx)
    (fun s p rest h => h.grows) (fun s work h => h.bound) _ 0 _ _
    (invariant_start hx htracked hexpirations) (fun p _ => Nat.zero_le _) ?_
  rw [Analysis.size_ofPattern]
  omega

theorem Settled.le (h : x.Settled s [] P b) : x.fresh P b ≤ x.after s P b := by
  rcases h with h | ⟨p, hp, -⟩
  · exact h
  · cases hp

theorem Invariant.before_le (h : x.Invariant s work) (P : PatternSet) (b : Binding) :
    x.before P b ≤ x.after s P b := by
  rcases h.touched P b with he | he
  · exact he.ge
  · exact he ▸ le_sup_left

/-- One more pattern is joined to a binding with the match, or need not be. -/
theorem fresh_le_of_grown (hx : x.Ready) (h : x.Invariant s []) {j k : Nat} (hb : x.g.Fits P b)
    (hcontains : x.Contains P b) (hj : j ∉ P) (hk : k ∈ P) (hkj : x.g.Linked k j)
    (hc : x.g.Fits (.single j) c) (hcompatible : b.compatible c = true)
    (ih : x.fresh P b ≤ x.after s P b ⊔ .upTo x.now) :
    x.fresh (P ∪ .single j) (b.merge c) ≤ x.after s (P ∪ .single j) (b.merge c) ⊔ .upTo x.now := by
  have hdisjoint : ∀ i ∈ PatternSet.single j, i ∉ P := fun i hi =>
    PatternSet.mem_single.1 hi ▸ hj
  have hfresh : x.fresh (P ∪ .single j) (b.merge c) =
      x.fresh P b ⊓ x.g.joinLife x.book (.single j) c :=
    freshLife_merge hb hc hcompatible hcontains.1 hdisjoint
  rcases le_or_gt (x.fresh (P ∪ .single j) (b.merge c)) (.upTo x.now) with hshort | hlong
  · exact hshort.trans le_sup_right
  · have hlong' := hlong
    rw [hfresh, lt_inf_iff] at hlong'
    have hstored : x.fresh P b ≤ x.after s P b := (le_sup_iff.1 ih).resolve_right hlong'.1.not_ge
    rcases (h.before_le P b).lt_or_eq with hlt | heq
    · have hne : P ≠ .full x.g.length := by
        intro hP
        rw [hP, PatternSet.mem_full, Nat.min_eq_left hx.capacity] at hj
        exact hj hkj.lt_right
      have hsettled := h.closed P b (.single j) c hb hcontains hlt hne hc hlong'.2 hdisjoint
        ⟨k, hk, j, PatternSet.mem_single.2 rfl, hkj⟩ hcompatible
      exact hsettled.le.trans le_sup_left
    · -- The smaller binding lived long enough before the match, so the larger one did too.
      have hold : x.fresh P b ≤ x.g.joinLife x.book P b := by
        have hexact := hx.exact P b hb
        rw [heq] at hexact
        exact (le_sup_iff.1 ((hstored.trans le_sup_left).trans hexact.le)).resolve_right
          hlong'.1.not_ge
      have hfits := hb.merge hc hk (PatternSet.mem_single.2 rfl) hkj
      have hjoin : x.fresh (P ∪ .single j) (b.merge c) ≤
          x.g.joinLife x.book (P ∪ .single j) (b.merge c) := by
        rw [hfresh, joinLife_merge hb hc hcompatible]
        exact inf_le_inf_right _ hold
      calc x.fresh (P ∪ .single j) (b.merge c)
          ≤ x.g.joinLife x.book (P ∪ .single j) (b.merge c) ⊔ .upTo x.now := hjoin.trans le_sup_left
        _ = x.before (P ∪ .single j) (b.merge c) ⊔ .upTo x.now := (hx.exact _ _ hfits).symm
        _ ≤ x.after s (P ∪ .single j) (b.merge c) ⊔ .upTo x.now :=
            sup_le_sup_right (h.before_le _ _) _

/-- No binding that lives on by the match is missed. -/
theorem fresh_le (hx : x.Ready) (h : x.Invariant s []) (hb : x.g.Fits P b)
    (hcontains : x.Contains P b) : x.fresh P b ≤ x.after s P b ⊔ .upTo x.now := by
  have hgrown := grown_of_connected hb.connected hcontains.1
  have hi := (fits_single_iff.1 hx.fits).1
  induction hgrown generalizing b with
  | seed =>
    have hbinding : b = x.binding := hb.portion_single.symm.trans hcontains.2
    rw [hbinding]
    exact h.seeded.le.trans le_sup_left
  | @grow P j hP hj hlinked ih =>
    obtain ⟨k, hk, hkj⟩ := hlinked
    have hb₁ := hb.project (hP.connected hi)
    have hc := hb.portion (i := j) (PatternSet.mem_union.2 (.inr (PatternSet.mem_single.2 rfl)))
    have hcontains₁ : x.Contains P (b.project (x.g.varsIn P)) :=
      ⟨hP.mem_seed, (portion_project hP.mem_seed).trans hcontains.2⟩
    have hmerge := fresh_le_of_grown hx h hb₁ hcontains₁ hj hk hkj hc
      (Binding.compatible_project b _ _) (ih hb₁ hcontains₁)
    rw [hb.merge_portion] at hmerge
    exact hmerge

/-- Every binding has got the life of its matches, as far as it is still valid. -/
theorem Invariant.exact (hx : x.Ready) (h : x.Invariant s []) (hb : x.g.Fits P b) :
    x.after s P b ⊔ .upTo x.now = x.g.joinLife x.later P b ⊔ .upTo x.now := by
  by_cases hcontains : x.Contains P b
  · rw [joinLife_later hcontains, sup_right_comm, ← hx.exact P b hb, sup_right_comm]
    have hle := fresh_le hx h hb hcontains
    rcases h.touched P b with he | he
    · rw [he] at hle ⊢
      rw [sup_right_comm, sup_eq_left.2 hle]
    · rw [he]
  · rw [h.untouched P b hcontains, later, joinLife_hit_of_not hcontains]
    exact hx.exact P b hb

/-- The solutions found are the bindings of the whole query that contain the match, are
still valid and live longer than before. -/
theorem Invariant.mem_complete (hx : x.Ready) (h : x.Invariant s []) {e : Expiration}
    (he : .instant x.now < e) :
    (∃ c ∈ s.complete, c.binding = b ∧ c.expiration = e) ↔
      x.g.Fits (.full x.g.length) b ∧ x.g.portion b x.pattern = x.binding ∧
        (e : Life) = x.g.joinLife x.later (.full x.g.length) b ∧
        x.g.joinLife x.book (.full x.g.length) b < e := by
  have hlong : Life.upTo x.now < (e : Life) := WithBot.coe_lt_coe.2 he
  have hpattern : x.pattern ∈ PatternSet.full x.g.length := by
    rw [PatternSet.mem_full, Nat.min_eq_left hx.capacity]
    exact (fits_single_iff.1 hx.fits).1
  constructor
  · intro ⟨c, hc, hbinding, hexp⟩
    subst hbinding hexp
    obtain ⟨hcomplete, -⟩ := h.complete c hc
    have hfits := hcomplete.fits
    have hcontains := hcomplete.contains
    have hlt := hcomplete.longer
    have hexp := hcomplete.expiration
    rw [hcomplete.part] at hfits hcontains hlt hexp
    rw [Life.lt_iff_of_sup_eq (hx.exact _ _ hfits) hlong] at hlt
    refine ⟨hfits, hcontains.2, ?_, hlt⟩
    rw [joinLife_later hcontains, hexp, eq_comm, sup_eq_right]
    exact hlt.le.trans hexp.le
  · intro ⟨hfits, hm, hexp, hlt⟩
    have hcontains : x.Contains (.full x.g.length) b := ⟨hpattern, hm⟩
    rw [joinLife_later hcontains] at hexp
    have hfresh : (e : Life) = x.fresh (.full x.g.length) b := by
      rcases le_total (x.fresh (.full x.g.length) b)
        (x.g.joinLife x.book (.full x.g.length) b) with hle | hle
      · rw [sup_eq_left.2 hle] at hexp
        exact absurd hexp hlt.ne'
      · rw [hexp]
        exact sup_eq_right.2 hle
    have hafter := fresh_le hx h hfits hcontains
    rw [← hfresh] at hafter
    have hstored := (le_sup_iff.1 hafter).resolve_right hlong.not_ge
    have hbefore := (Life.lt_iff_of_sup_eq (hx.exact _ _ hfits) hlong).2 hlt
    obtain ⟨c, hc, hcb⟩ := h.found b (hbefore.trans_le hstored)
    obtain ⟨hcomplete, -⟩ := h.complete c hc
    refine ⟨c, hc, hcb, WithBot.coe_inj.1 ?_⟩
    rw [hcomplete.expiration, hfresh, hcomplete.part, hcb]

/-- A single match is stored with the later of its two expirations. -/
theorem Invariant.after_seed (h : x.Invariant s []) :
    x.after s (.single x.pattern) x.binding =
      x.before (.single x.pattern) x.binding ⊔ x.expiration := by
  have hfresh : x.fresh (.single x.pattern) x.binding = x.expiration := freshLife_single
  have hle := h.seeded.le
  rcases h.touched (.single x.pattern) x.binding with he | he
  · rw [he, hfresh] at hle
    rw [he, sup_eq_left.2 hle]
  · rw [he, hfresh]

end Joining

end SolutionStore

end StandingQuery
