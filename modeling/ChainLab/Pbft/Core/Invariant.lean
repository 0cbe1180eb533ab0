import ChainLab.Pbft.Core.Machine

/-!
# Invariants of the abstract machine

How the votes of one replica lie with respect to each other and to its state, and that everything
prepared, committed or reported has the votes of a quorum behind it.
-/

namespace ChainLab.Pbft.Core

open Function (update_self update_of_ne)

variable {R H : Type} {K : Committee R} {careful : Prop} {m m' : Machine R H}

/-! ## Quorums -/

lemma Supported.mono {votes votes' : Set (Vote R H)} {view height : Nat} {block : H}
    (h : Supported K votes view height block) (hsub : votes ⊆ votes') :
    Supported K votes' view height block := by
  obtain ⟨S, hS, hcard, hvotes⟩ := h
  exact ⟨S, hS, hcard, fun r hr hcorr => hsub (hvotes r hr hcorr)⟩

section Common

variable [DecidableEq R] {votes votes' : Set (Vote R H)} {view view' height height' : Nat}
  {block block' : H}

lemma Supported.common (h : Supported K votes view height block)
    (h' : Supported K votes' view' height' block') :
    ∃ r, ⟨r, view, height, block⟩ ∈ votes ∧ ⟨r, view', height', block'⟩ ∈ votes' := by
  obtain ⟨S, hS, hcard, hvotes⟩ := h
  obtain ⟨T, hT, hcard', hvotes'⟩ := h'
  have hmany : K.replicas.card + K.faulty.card < S.card + T.card := by
    have := K.intersecting
    omega
  obtain ⟨r, hrS, hrT, hcorr⟩ := Quorum.exists_common_correct hS hT hmany
  exact ⟨r, hvotes r hrS hcorr, hvotes' r hrT hcorr⟩

lemma Supported.of_insert {vote : Vote R H}
    (h : Supported K (insert vote votes) view height block) :
    Supported K votes view height block ∨
      vote = ⟨vote.replica, view, height, block⟩ ∧ vote.replica ∉ K.faulty := by
  obtain ⟨S, hS, hcard, hvotes⟩ := h
  by_cases hused : ∃ r ∈ S, r ∉ K.faulty ∧ (⟨r, view, height, block⟩ : Vote R H) = vote
  · obtain ⟨r, -, hcorr, rfl⟩ := hused
    exact .inr ⟨rfl, hcorr⟩
  · refine .inl ⟨S, hS, hcard, fun r hr hcorr => ?_⟩
    rcases hvotes r hr hcorr with heq | hmem
    · exact absurd ⟨r, hr, hcorr, heq⟩ hused
    · exact hmem

end Common

/-! ## The votes of one replica -/

/-- How the votes of a replica lie with respect to its view, its durable height and each other. -/
structure Voting (m : Machine R H) (votes : Set (Vote R H)) : Prop where
  view_le : ∀ x ∈ votes, x.view ≤ m.view x.replica
  height_le : ∀ x ∈ votes, x.height ≤ m.durable x.replica + 1
  ordered : ∀ x ∈ votes, ∀ y ∈ votes, x.replica = y.replica → x.view < y.view → x.height ≤ y.height
  locked : ∀ x ∈ votes, x.view = m.view x.replica → x.height = m.durable x.replica + 1 →
    m.lock x.replica x.height = some x.block
  unique : ∀ x ∈ votes, ∀ y ∈ votes, x.replica = y.replica → x.view = y.view →
    x.height = y.height → x.block = y.block
  durableIn_le : ∀ r, ∀ k ≤ m.durable r, m.durableIn r k ≤ m.view r
  /-- A height that is durable is not voted for in a later view. -/
  above_durable : ∀ x ∈ votes, ∀ k ≤ m.durable x.replica, m.durableIn x.replica k < x.view →
    k < x.height
  /-- The heights below a vote were durable by then. -/
  below_durable : ∀ x ∈ votes, ∀ k < x.height, m.durableIn x.replica k ≤ x.view

namespace Voting

variable {votes : Set (Vote R H)}

lemma start : Voting (Machine.start : Machine R H) ∅ := by
  constructor <;> simp [Machine.start]

lemma cast (h : Voting m votes) {r : R} {block : H}
    (hlock : m.lock r (m.durable r + 1) = some block) :
    Voting m (insert ⟨r, m.view r, m.durable r + 1, block⟩ votes) := by
  constructor
  · rintro x (rfl | hx)
    · exact le_rfl
    · exact h.view_le x hx
  · rintro x (rfl | hx)
    · exact le_rfl
    · exact h.height_le x hx
  · rintro x (rfl | hx) y (rfl | hy) hr hview
    · exact le_rfl
    · -- no vote is ahead of the current view
      have := h.view_le y hy
      simp only at hr hview
      rw [hr] at hview
      omega
    · have hx' := h.height_le x hx
      rwa [hr] at hx'
    · exact h.ordered x hx y hy hr hview
  · rintro x (rfl | hx) hview hht
    · exact hlock
    · exact h.locked x hx hview hht
  · rintro x (rfl | hx) y (rfl | hy) hr hview hht
    · rfl
    · subst hr
      have := h.locked y hy hview.symm hht.symm
      rw [← hht, hlock] at this
      exact Option.some.inj this
    · subst hr
      have := h.locked x hx hview hht
      rw [hht, hlock] at this
      exact (Option.some.inj this).symm
    · exact h.unique x hx y hy hr hview hht
  · exact h.durableIn_le
  · rintro x (rfl | hx) k hk hlt
    · exact Nat.lt_succ_of_le hk
    · exact h.above_durable x hx k hk hlt
  · rintro x (rfl | hx) k hk
    · exact h.durableIn_le r k (Nat.le_of_lt_succ hk)
    · exact h.below_durable x hx k hk

variable [DecidableEq R]

lemma advance (h : Voting m votes) (r : R) : Voting (m.advance r) votes := by
  have hdur : ∀ r', m.durable r' ≤ (m.advance r).durable r' := by
    intro r'
    by_cases hr : r' = r
    · subst hr
      simp [Machine.advance]
    · simp [Machine.advance, hr]
  constructor
  · exact h.view_le
  · intro x hx
    exact (h.height_le x hx).trans (Nat.succ_le_succ (hdur _))
  · exact h.ordered
  · intro x hx hview hht
    by_cases hr : x.replica = r
    · -- nothing has been voted for at the height after the new durable one
      have hle := h.height_le x hx
      rw [hr] at hle
      simp only [Machine.advance, hr, update_self] at hht
      omega
    · simp only [Machine.advance, ne_eq, hr, not_false_eq_true, update_of_ne] at hht ⊢
      exact h.locked x hx hview hht
  · exact h.unique
  · intro r' k hk
    by_cases hr : r' = r
    · subst hr
      by_cases hlast : k = m.durable r' + 1
      · subst hlast
        simp [Machine.advance]
      · simp only [Machine.advance, update_self, ne_eq, hlast, not_false_eq_true, update_of_ne]
          at hk ⊢
        exact h.durableIn_le r' k (by omega)
    · simp only [Machine.advance, ne_eq, hr, not_false_eq_true, update_of_ne] at hk ⊢
      exact h.durableIn_le r' k hk
  · intro x hx k hk hlt
    by_cases hr : x.replica = r
    · have hview := h.view_le x hx
      simp only [Machine.advance, hr, update_self] at hk hlt
      by_cases hlast : k = m.durable r + 1
      · rw [hlast, update_self] at hlt
        rw [hr] at hview
        omega
      · rw [update_of_ne hlast] at hlt
        exact h.above_durable x hx k (by rw [hr]; omega) (by rwa [hr])
    · simp only [Machine.advance, ne_eq, hr, not_false_eq_true, update_of_ne] at hk hlt
      exact h.above_durable x hx k hk hlt
  · intro x hx k hk
    by_cases hr : x.replica = r
    · have hle := h.height_le x hx
      have hlast : k ≠ m.durable r + 1 := by
        rw [hr] at hle
        omega
      have := h.below_durable x hx k hk
      simpa [Machine.advance, hr, update_of_ne hlast] using this
    · simpa [Machine.advance, hr] using h.below_durable x hx k hk

lemma install (h : Voting m votes) {r : R} {target : Nat} {selected : Option (Report H)}
    (hview : m.view r < target) : Voting (m.install r target selected) votes := by
  have hle : ∀ r', m.view r' ≤ (m.install r target selected).view r' := by
    intro r'
    by_cases hr : r' = r
    · subst hr
      simpa [Machine.install] using hview.le
    · simp [Machine.install, hr]
  constructor
  · intro x hx
    exact (h.view_le x hx).trans (hle _)
  · exact h.height_le
  · exact h.ordered
  · intro x hx hcur hht
    by_cases hr : x.replica = r
    · -- no vote has been cast in the new view
      have := h.view_le x hx
      rw [hr] at this
      simp only [Machine.install, hr, update_self] at hcur
      omega
    · simp only [Machine.install, ne_eq, hr, not_false_eq_true, update_of_ne] at hcur ⊢
      exact h.locked x hx hcur hht
  · exact h.unique
  · intro r' k hk
    exact (h.durableIn_le r' k hk).trans (hle r')
  · exact h.above_durable
  · exact h.below_durable

end Voting

/-! ## Growth -/

structure Grows (m m' : Machine R H) : Prop where
  prepares : m.prepares ⊆ m'.prepares
  commits : m.commits ⊆ m'.commits
  changes : m.changes ⊆ m'.changes
  view : ∀ r, m.view r ≤ m'.view r
  durable : ∀ r, m.durable r ≤ m'.durable r
  durableIn : ∀ r, ∀ k ≤ m.durable r, m'.durableIn r k = m.durableIn r k

namespace Grows

lemma refl (m : Machine R H) : Grows m m :=
  ⟨subset_rfl, subset_rfl, subset_rfl, fun _ => le_rfl, fun _ => le_rfl, fun _ _ _ => rfl⟩

lemma trans {m'' : Machine R H} (h : Grows m m') (h' : Grows m' m'') : Grows m m'' where
  prepares := h.prepares.trans h'.prepares
  commits := h.commits.trans h'.commits
  changes := h.changes.trans h'.changes
  view r := (h.view r).trans (h'.view r)
  durable r := (h.durable r).trans (h'.durable r)
  durableIn r k hk := (h'.durableIn r k (hk.trans (h.durable r))).trans (h.durableIn r k hk)

end Grows

section Runs

variable [DecidableEq R]

section

variable (h : Step K careful m m')
include h

lemma Step.grows : Grows m m' := by
  cases h with
  | lockBlock r height block => exact { Grows.refl m with }
  | castPrepare r block =>
    exact { Grows.refl m with prepares := Set.subset_insert _ _ }
  | certify r height block => exact { Grows.refl m with }
  | castCommit r block =>
    exact { Grows.refl m with commits := Set.subset_insert _ _ }
  | advance r =>
    refine ⟨subset_rfl, subset_rfl, subset_rfl, fun _ => le_rfl, fun r' => ?_, fun r' k hk => ?_⟩
    · by_cases hr : r' = r
      · subst hr
        simp [Machine.advance]
      · simp [Machine.advance, hr]
    · by_cases hr : r' = r
      · subst hr
        have hlast : k ≠ m.durable r' + 1 := by omega
        simp [Machine.advance, hlast]
      · simp [Machine.advance, hr]
  | forget r lock prepared => exact { Grows.refl m with }
  | announce r target report =>
    exact { Grows.refl m with changes := Set.subset_insert _ _ }
  | install r target selected _ _ hview =>
    refine { Grows.refl m with view := fun r' => ?_ }
    by_cases hr : r' = r
    · subst hr
      simpa [Machine.install] using hview.le
    · simp [Machine.install, hr]

lemma Step.prepared_cases {r : R} {k u : Nat} {b : H} (hp : m'.prepared r k = some (u, b)) :
    m.prepared r k = some (u, b) ∨ u = m.view r ∧ Supported K m.prepares u k b ∨
      ∃ target selected, m.Justified K target selected ∧ selected = some ⟨u, k, b⟩ ∧
        m'.view r = target := by
  cases h with
  | lockBlock | castPrepare | castCommit | announce => exact .inl hp
  | certify r₀ k₀ b₀ hlock hquor =>
    by_cases hr : r = r₀
    · subst hr
      by_cases hk : k = k₀
      · subst hk
        simp only [Machine.certify, update_self, Option.some.injEq, Prod.mk.injEq] at hp
        obtain ⟨rfl, rfl⟩ := hp
        exact .inr (.inl ⟨rfl, hquor⟩)
      · exact .inl (by simpa [Machine.certify, hk] using hp)
    · exact .inl (by simpa [Machine.certify, hr] using hp)
  | advance => exact .inl hp
  | forget r₀ lock prepared hlock hprepared =>
    by_cases hr : r = r₀
    · subst hr
      simp only [Machine.forget, update_self] at hp
      rcases hprepared k with hkeep | ⟨-, hnone⟩
      · exact .inl (hkeep ▸ hp)
      · rw [hnone] at hp
        cases hp
    · exact .inl (by simpa [Machine.forget, hr] using hp)
  | install r₀ target selected _ _ hview hjust =>
    by_cases hr : r = r₀
    · subst hr
      simp only [Machine.install, update_self, Option.bind_eq_some_iff] at hp
      obtain ⟨c, hc, hif⟩ := hp
      split at hif
      · rename_i hk
        cases hif
        exact .inr (.inr ⟨target, selected, hjust, by simp [hc, ← hk], by
          simp [Machine.install]⟩)
      · cases hif
    · exact .inl (by simpa [Machine.install, hr] using hp)

lemma Step.mem_commits {x : Vote R H} (hx : x ∈ m'.commits) :
    x ∈ m.commits ∨ m.Settled x.replica ∧ x.view = m.view x.replica ∧
      Supported K m.prepares x.view x.height x.block := by
  cases h with
  | castCommit r block hsett hlock hquor =>
    rcases hx with rfl | hx
    · exact .inr ⟨hsett, rfl, hquor⟩
    · exact .inl hx
  | lockBlock | castPrepare | certify | advance | forget | announce | install => exact .inl hx

lemma Step.mem_changes {c : Change R H} (hc : c ∈ m'.changes) :
    c ∈ m.changes ∨ m.view c.replica < c.target ∧ m'.commits = m.commits ∧
      IsHighest (m.reports c.replica) c.report ∧
      (careful → ∀ r ∈ K.replicas, r ∉ K.faulty → m.durable c.replica ≤ m.durable r) := by
  cases h with
  | announce r target report hview hbest hbehind =>
    rcases hc with rfl | hc
    · exact .inr ⟨hview, rfl, hbest, hbehind⟩
    · exact .inl hc
  | lockBlock | castPrepare | castCommit | certify | advance | forget | install => exact .inl hc

end

lemma grows_of_run (h : Relation.ReflTransGen (Step K careful) m m') : Grows m m' := by
  induction h with
  | refl => exact .refl m
  | tail _ hstep ih => exact ih.trans hstep.grows

/-- Where a prepared block comes from: it was there before, a quorum prepares it in the current
view, or it was selected for the new view. -/
lemma mem_commits_of_changes (h : Relation.ReflTransGen (Step K careful) m m') {c : Change R H}
    (hc : c ∈ m.changes) {x : Vote R H} (hx : x ∈ m'.commits) (hr : c.replica = x.replica)
    (hview : x.view < c.target) : x ∈ m.commits := by
  induction h with
  | refl => exact hx
  | @tail m₁ m₂ hrun hstep ih =>
    rcases hstep.mem_commits hx with hold | ⟨hsett, hcur, -⟩
    · exact ih hold
    -- the vote would be cast in a view that was announced to be left
    have := hsett c ((grows_of_run hrun).changes hc) hr
    omega

end Runs

/-! ## Everything reported has a quorum behind it -/

lemma Machine.Justified.supported {target : Nat} {selected : Option (Report H)}
    (hjust : m.Justified K target selected) {c : Report H} (hc : selected = some c) :
    Supported K m.prepares c.view c.height c.block := by
  obtain ⟨V, report, -, -, -, hsupp, hbest⟩ := hjust
  obtain ⟨r, hr, hrep⟩ := (hbest.2 c hc).1
  exact hsupp r hr c hrep

/-- What a replica has prepared, committed or reported. -/
structure Backed (K : Committee R) (m : Machine R H) : Prop where
  commit : ∀ x ∈ m.commits, Supported K m.prepares x.view x.height x.block
  prepared : ∀ r k u b, m.prepared r k = some (u, b) → Supported K m.prepares u k b
  report : ∀ c ∈ m.changes, ∀ e, c.report = some e → Supported K m.prepares e.view e.height e.block

structure Inv (K : Committee R) (m : Machine R H) : Prop where
  voting : Voting m m.votes
  backed : Backed K m
  /-- A commit for the next height is backed by the replica's own prepared block. -/
  commit_prepared : ∀ x ∈ m.commits, x.view = m.view x.replica →
    x.height = m.durable x.replica + 1 →
    ∃ u, x.view ≤ u ∧ m.prepared x.replica x.height = some (u, x.block)

lemma inv_start : Inv K (Machine.start : Machine R H) where
  voting := by simpa [Machine.votes, Machine.start] using Voting.start (R := R) (H := H)
  backed := by constructor <;> simp [Machine.start]
  commit_prepared := by simp [Machine.start]

section Steps

variable [DecidableEq R]

lemma backed_step (h : Backed K m) (hstep : Step K careful m m') : Backed K m' := by
  have hsub := hstep.grows.prepares
  refine ⟨?_, ?_, ?_⟩
  · intro x hx
    rcases hstep.mem_commits hx with hold | ⟨-, -, hquor⟩
    · exact (h.commit x hold).mono hsub
    · exact hquor.mono hsub
  · intro r k u b hp
    rcases hstep.prepared_cases hp with hold | ⟨-, hquor⟩ | ⟨_, _, hjust, hsel, -⟩
    · exact (h.prepared r k u b hold).mono hsub
    · exact hquor.mono hsub
    · exact (hjust.supported hsel).mono hsub
  · intro c hc e he
    rcases hstep.mem_changes hc with hold | ⟨-, -, hbest, -⟩
    · exact (h.report c hold e he).mono hsub
    · exact (h.prepared c.replica e.height e.view e.block (hbest.2 e he).1.1).mono hsub

lemma voting_step (h : Voting m m.votes) (hstep : Step K careful m m') : Voting m' m'.votes := by
  cases hstep with
  | lockBlock r k b hlock =>
    refine { h with locked := ?_ }
    intro x hx hview hht
    have hold := h.locked x hx hview hht
    by_cases hr : x.replica = r
    · subst hr
      by_cases hk : x.height = k
      · rw [hk] at hold
        simp [Machine.lockBlock, hk, hlock _ hold]
      · simpa [Machine.lockBlock, hk] using hold
    · simpa [Machine.lockBlock, hr] using hold
  | castPrepare r b hsett hlock =>
    have hcast := h.cast hlock
    rw [Machine.votes, ← Set.insert_union] at hcast
    exact { hcast with }
  | castCommit r b hsett hlock =>
    have hcast := h.cast hlock
    rw [Machine.votes, ← Set.union_insert] at hcast
    exact { hcast with }
  | certify => exact { h with }
  | advance r => exact { h.advance r with }
  | forget r lock prepared hlock =>
    refine { h with locked := ?_ }
    intro x hx hview hht
    have hold := h.locked x hx hview hht
    by_cases hr : x.replica = r
    · subst hr
      have habove : m.durable x.replica < x.height := by
        have : x.height = m.durable x.replica + 1 := hht
        omega
      simpa [Machine.forget, hlock _ habove] using hold
    · simpa [Machine.forget, hr] using hold
  | announce => exact { h with }
  | install r target selected _ _ hview => exact { h.install hview with }

lemma commit_prepared_step (h : Inv K m) (hstep : Step K careful m m') :
    ∀ x ∈ m'.commits, x.view = m'.view x.replica → x.height = m'.durable x.replica + 1 →
      ∃ u, x.view ≤ u ∧ m'.prepared x.replica x.height = some (u, x.block) := by
  intro x hx hview hht
  cases hstep with
  | lockBlock | castPrepare | announce => exact h.commit_prepared x hx hview hht
  | castCommit r b hsett hlock hquor hprepared =>
    rcases hx with rfl | hx
    · exact hprepared
    · exact h.commit_prepared x hx hview hht
  | certify r k b hlock hquor =>
    obtain ⟨u, hu, hprep⟩ := h.commit_prepared x hx hview hht
    by_cases hr : x.replica = r
    · subst hr
      by_cases hk : x.height = k
      · -- the block certified is the locked one, which is the one committed to
        have hlck := h.voting.locked x (.inr hx) hview hht
        rw [hk, hlock] at hlck
        refine ⟨m.view x.replica, hview.le, ?_⟩
        simp [Machine.certify, hk, Option.some.inj hlck]
      · exact ⟨u, hu, by simpa [Machine.certify, hk] using hprep⟩
    · exact ⟨u, hu, by simpa [Machine.certify, hr] using hprep⟩
  | advance r =>
    by_cases hr : x.replica = r
    · -- there are no votes at the height after the new durable one
      have hle := h.voting.height_le x (.inr hx)
      simp only [Machine.advance, hr, update_self] at hht
      rw [hr] at hle
      omega
    · have hht' : x.height = m.durable x.replica + 1 := by
        simpa [Machine.advance, hr] using hht
      simpa [Machine.advance, hr] using h.commit_prepared x hx hview hht'
  | forget r lock prepared hlock hprepared =>
    obtain ⟨u, hu, hprep⟩ := h.commit_prepared x hx hview hht
    refine ⟨u, hu, ?_⟩
    by_cases hr : x.replica = r
    · subst hr
      have hht' : x.height = m.durable x.replica + 1 := hht
      rcases hprepared x.height with hkeep | ⟨hle, -⟩
      · simpa [Machine.forget, hkeep] using hprep
      · omega
    · simpa [Machine.forget, hr] using hprep
  | install r target selected _ _ hlt =>
    by_cases hr : x.replica = r
    · have hle := h.voting.view_le x (.inr hx)
      simp only [Machine.install, hr, update_self] at hview
      rw [hr] at hle
      omega
    · have hview' : x.view = m.view x.replica := by
        simpa [Machine.install, hr] using hview
      simpa [Machine.install, hr] using h.commit_prepared x hx hview' hht

lemma inv_step (h : Inv K m) (hstep : Step K careful m m') : Inv K m' :=
  ⟨voting_step h.voting hstep, backed_step h.backed hstep, commit_prepared_step h hstep⟩

lemma inv_of_reachable (h : Reachable K careful m) : Inv K m := by
  induction h with
  | refl => exact inv_start
  | tail _ hstep ih => exact inv_step ih hstep

end Steps

end ChainLab.Pbft.Core
