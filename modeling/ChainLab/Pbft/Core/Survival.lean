import ChainLab.Pbft.Core.Carry

/-!
# Committed blocks survive view changes

With faulty replicas the argument that locks a height out is not available: a faulty replica can
vote for a height it has long passed.  If replicas take care not to leave a view while another
correct replica is behind, and not to follow a selection that is ahead of them, every new view that
matters to a replica below the committed height selects the block.
-/

namespace ChainLab.Pbft.Core

variable {R H : Type} [DecidableEq R] {K : Committee R} {m m' final : Machine R H}
  {view height : Nat} {block : H}

/-- The members of the commit quorum report the block, unless all correct replicas have its height
behind them. -/
structure Surviving (K : Committee R) (final : Machine R H) (view height : Nat) (block : H)
    (m : Machine R H) : Prop where
  carried : Carried K view height block (fun _ => False) m
  left : ∀ c ∈ m.changes, ⟨c.replica, view, height, block⟩ ∈ final.commits → view < c.target →
    (∃ e, c.report = some e ∧ Names view height block e) ∨
      ∀ r ∈ K.replicas, r ∉ K.faulty → height ≤ m.durable r

section Surviving

variable (hdec : Supported K final.commits view height block) (hfinal : Inv K final)
include hdec hfinal

/-- As long as a correct replica is below the height, a new view selects the block or something
above it. -/
lemma Surviving.selected (h : Surviving K final view height block m) (hgrows : Grows m final)
    {target : Nat} {selected : Option (Report H)} (hview : view < target)
    (hjust : m.Justified K target selected) {r : R} (hr : r ∈ K.replicas) (hcorr : r ∉ K.faulty)
    (hbelow : m.durable r < height) :
    ∃ c, selected = some c ∧ (height < c.height ∨ Names view height block c) := by
  obtain ⟨V, report, hV, hVcard, hchg, hsupp, hbest⟩ := hjust
  obtain ⟨T, hT, hTcard, hcomm⟩ := hdec
  have hmany : K.replicas.card + K.faulty.card < V.card + T.card := by
    have := K.intersecting
    omega
  obtain ⟨s, hsV, hsT, hs⟩ := Quorum.exists_common_correct hV hT hmany
  rcases h.left _ (hchg s hsV hs) (hcomm s hsT hs) hview with ⟨e, he, hnames⟩ | hall
  · exact selection_names ⟨T, hT, hTcard, hcomm⟩ hfinal hgrows h.carried
      ⟨V, report, hV, hVcard, hchg, hsupp, hbest⟩ hbest hsV he hnames
  · have := hall r hr hcorr
    omega

lemma surviving_step (h : Surviving K final view height block m) (hinv : Inv K m)
    (hstep : Step K True m m') (hrun : Relation.ReflTransGen (Step K True) m' final) :
    Surviving K final view height block m' := by
  have hgrows' := grows_of_run hrun
  have hgrows := hstep.grows.trans hgrows'
  refine ⟨?_, ?_⟩
  · refine carried_step hdec hfinal (fun _ _ hout => hout.elim) h.carried hstep hgrows' ?_
    intro r hr hcorr target selected hview hbelow hjust hahead
    rcases h.selected hdec hfinal hgrows hview hjust hr hcorr hbelow with ⟨c, hc, habove | hc'⟩
    · -- a selection above the height would be ahead of this replica
      have := hahead trivial c hc
      omega
    · exact .inl ⟨c, hc, hc'⟩
  · intro c hc hcom hview
    have hpassed : (∀ r ∈ K.replicas, r ∉ K.faulty → height ≤ m.durable r) →
        ∀ r ∈ K.replicas, r ∉ K.faulty → height ≤ m'.durable r :=
      fun hall r hr hcorr => (hall r hr hcorr).trans (hstep.grows.durable r)
    rcases hstep.mem_changes hc with hold | ⟨-, hsame, hbest, hbehind⟩
    · exact (h.left c hold hcom hview).imp_right hpassed
    have hcom' := mem_commits_of_changes hrun hc hcom rfl hview
    rw [hsame] at hcom'
    by_cases hdur : m.durable c.replica < height
    · rcases report_names hdec hfinal hgrows h.carried hinv hcom' hdur hbest with
        hnames | hout
      · exact .inl hnames
      · exact hout.elim
    · refine .inr (hpassed fun r hr hcorr => ?_)
      exact (Nat.le_of_not_lt hdur).trans (hbehind trivial r hr hcorr)

lemma surviving_of_run (hm : Reachable K True m)
    (hrun : Relation.ReflTransGen (Step K True) m final) :
    Surviving K final view height block m := by
  induction hm with
  | refl => exact ⟨carried_start, by simp [Machine.start]⟩
  | tail hprev hstep ih =>
    exact surviving_step hdec hfinal (ih (.head hstep hrun)) (inv_of_reachable hprev) hstep hrun

end Surviving

/-- A new view above the view of a commit quorum, justified while a correct replica is below the
height, selects the block or something above it. -/
lemma survival (hm : Reachable K True m) (hdec : Supported K m.commits view height block)
    {target : Nat} {selected : Option (Report H)} (hview : view < target)
    (hjust : m.Justified K target selected) {r : R} (hr : r ∈ K.replicas) (hcorr : r ∉ K.faulty)
    (hbelow : m.durable r < height) :
    ∃ c, selected = some c ∧ (height < c.height ∨ Names view height block c) :=
  (surviving_of_run hdec (inv_of_reachable hm) hm .refl).selected hdec (inv_of_reachable hm)
    (.refl m) hview hjust hr hcorr hbelow

lemma agreement_of_careful (hm : Reachable K True m) {view' : Nat} {block' : H}
    (hdec : Supported K m.commits view height block)
    (hdec' : Supported K m.commits view' height block') (hle : view ≤ view') : block' = block := by
  have hinv := inv_of_reachable hm
  -- the later quorum has prepared what it commits
  obtain ⟨r, hcom, -⟩ := hdec'.common hdec'
  exact (surviving_of_run hdec hinv hm .refl).carried.prepares view' block' hle
    (hinv.backed.commit _ hcom)

end ChainLab.Pbft.Core
