import ChainLab.Pbft.Core.Carry

/-!
# Agreement without faulty replicas

Replicas may be at different heights, so the members of a quorum may leave a view after they have
forgotten what they knew about a durable height.  Then enough of them have the height behind them
for no later quorum to prepare anything there, and the height is locked out of the new view.
-/

namespace ChainLab.Pbft.Core

variable {R H : Type} {K : Committee R} {careful : Prop} {m m' final : Machine R H}
  {view height : Nat} {block : H}

/-! ## Reports come from earlier views -/

structure Timely (m : Machine R H) : Prop where
  prepared_le : ∀ r k u b, m.prepared r k = some (u, b) → u ≤ m.view r
  report_lt : ∀ c ∈ m.changes, ∀ e, c.report = some e → e.view < c.target

lemma timely_start : Timely (Machine.start : Machine R H) := by
  constructor <;> simp [Machine.start]

lemma Timely.selected_lt (h : Timely m) (hcorrect : K.faulty = ∅) {target : Nat}
    {selected : Option (Report H)} (hjust : m.Justified K target selected) {c : Report H}
    (hc : selected = some c) : c.view < target := by
  obtain ⟨V, report, -, -, hchg, -, hbest⟩ := hjust
  obtain ⟨r, hr, hrep⟩ := (hbest.2 c hc).1
  have hmem := hchg r hr (by simp [hcorrect])
  exact h.report_lt _ hmem c hrep

section Timely

variable [DecidableEq R]

lemma timely_step (h : Timely m) (hcorrect : K.faulty = ∅) (hstep : Step K careful m m') :
    Timely m' := by
  have hview := hstep.grows.view
  refine ⟨?_, ?_⟩
  · intro r k u b hp
    rcases hstep.prepared_cases hp with hold | ⟨rfl, -⟩ | ⟨target, _, hjust, hsel, htarget⟩
    · exact (h.prepared_le r k u b hold).trans (hview r)
    · exact hview r
    · exact htarget ▸ (h.selected_lt hcorrect hjust hsel).le
  · intro c hc e he
    rcases hstep.mem_changes hc with hold | ⟨hlt, -, hbest, -⟩
    · exact h.report_lt c hold e he
    · exact lt_of_le_of_lt (h.prepared_le _ _ _ _ (hbest.2 e he).1.1) hlt

lemma timely_of_reachable (hcorrect : K.faulty = ∅) (h : Reachable K careful m) : Timely m := by
  induction h with
  | refl => exact timely_start
  | tail _ hstep ih => exact timely_step ih hcorrect hstep

end Timely

/-! ## Heights that are locked out -/

/-- All but fewer than a quorum had the height durable before the view `target`. -/
def LockedOut (K : Committee R) (final : Machine R H) (height target : Nat) : Prop :=
  ∃ L ⊆ K.replicas, K.replicas.card < K.quorum + L.card ∧
    ∀ r ∈ L, height ≤ final.durable r ∧ final.durableIn r height < target

lemma LockedOut.mono {target target' : Nat} (h : LockedOut K final height target)
    (hle : target ≤ target') : LockedOut K final height target' := by
  obtain ⟨L, hL, hcard, hall⟩ := h
  exact ⟨L, hL, hcard, fun r hr => ⟨(hall r hr).1, lt_of_lt_of_le (hall r hr).2 hle⟩⟩

lemma lockedOut_of_prepared_above (hcorrect : K.faulty = ∅) (hinv : Inv K final) {c : Report H}
    (hsupp : Supported K final.prepares c.view c.height c.block) (habove : height < c.height)
    {target : Nat} (hlt : c.view < target) : LockedOut K final height target := by
  obtain ⟨S, hS, hcard, hvotes⟩ := hsupp
  refine ⟨S, hS, ?_, ?_⟩
  · have := K.intersecting
    omega
  · intro r hr
    have hvote := hvotes r hr (by simp [hcorrect])
    have hht : c.height ≤ final.durable r + 1 := hinv.voting.height_le _ (.inl hvote)
    have hbef : final.durableIn r height ≤ c.view :=
      hinv.voting.below_durable _ (.inl hvote) height habove
    exact ⟨by omega, lt_of_le_of_lt hbef hlt⟩

variable [DecidableEq R]

lemma LockedOut.not_supported (hcorrect : K.faulty = ∅) (hinv : Inv K final) {target : Nat}
    {other : H} (h : LockedOut K final height target) :
    ¬ Supported K final.prepares target height other := by
  rintro ⟨S, hS, hcard, hvotes⟩
  obtain ⟨L, hL, hmany, hall⟩ := h
  have hcount := Quorum.card_add_card_le hS hL
  have hpos : 0 < (S ∩ L).card := by omega
  obtain ⟨r, hr⟩ := Finset.card_pos.1 hpos
  obtain ⟨hdur, hbef⟩ := hall r (Finset.mem_of_mem_inter_right hr)
  have hvote := hvotes r (Finset.mem_of_mem_inter_left hr) (by simp [hcorrect])
  exact lt_irrefl height (hinv.voting.above_durable _ (.inl hvote) height hdur hbef)

/-! ## Agreement -/

/-- The reports of the members of the commit quorum: they name the block, or the height is locked
out of the view they leave for, or the member itself has it behind it. -/
structure Along (K : Committee R) (final : Machine R H) (view height : Nat) (block : H)
    (m : Machine R H) : Prop where
  carried : Carried K view height block (LockedOut K final height) m
  left : ∀ c ∈ m.changes, ⟨c.replica, view, height, block⟩ ∈ final.commits → view < c.target →
    (∃ e, c.report = some e ∧ Names view height block e) ∨ LockedOut K final height c.target ∨
      height ≤ final.durable c.replica ∧ final.durableIn c.replica height < c.target

section Along

variable (hcorrect : K.faulty = ∅) (hdec : Supported K final.commits view height block)
  (hfinal : Inv K final)
include hcorrect hdec hfinal

lemma Along.selected (h : Along K final view height block m) (hgrows : Grows m final)
    (htimely : Timely m) {target : Nat} {selected : Option (Report H)} (hview : view < target)
    (hjust : m.Justified K target selected) :
    (∃ c, selected = some c ∧ Names view height block c) ∨ LockedOut K final height target := by
  obtain ⟨V, report, hV, hVcard, hchg, hsupp, hbest⟩ := hjust
  obtain ⟨T, hT, hTcard, hcomm⟩ := hdec
  by_cases hpassed : ∀ s ∈ V ∩ T, height ≤ final.durable s ∧ final.durableIn s height < target
  · -- all common members have the height behind them, and they are many
    refine .inr ⟨V ∩ T, Finset.inter_subset_left.trans hV, ?_, hpassed⟩
    have hcount := Quorum.card_add_card_le hV hT
    have := K.two_thirds
    omega
  · push Not at hpassed
    obtain ⟨s, hs, hnot⟩ := hpassed
    have hsV := Finset.mem_of_mem_inter_left hs
    have hcom := hcomm s (Finset.mem_of_mem_inter_right hs) (by simp [hcorrect])
    have hchange := hchg s hsV (by simp [hcorrect])
    rcases h.left _ hchange hcom hview with ⟨e, he, hnames⟩ | hout | ⟨hdur, hbef⟩
    · have hjust' : m.Justified K target selected := ⟨V, report, hV, hVcard, hchg, hsupp, hbest⟩
      rcases selection_names ⟨T, hT, hTcard, hcomm⟩ hfinal hgrows h.carried hjust' hbest hsV he
        hnames with ⟨c, hc, habove | hc'⟩
      · refine .inr (lockedOut_of_prepared_above hcorrect hfinal ?_ habove
          (htimely.selected_lt hcorrect hjust' hc))
        exact (hjust'.supported hc).mono hgrows.prepares
      · exact .inl ⟨c, hc, hc'⟩
    · exact .inr hout
    · exact absurd hbef (Nat.not_lt.2 (hnot hdur))

lemma along_step (h : Along K final view height block m) (hinv : Inv K m) (htimely : Timely m)
    (hstep : Step K careful m m') (hrun : Relation.ReflTransGen (Step K careful) m' final) :
    Along K final view height block m' := by
  have hgrows' := grows_of_run hrun
  have hgrows := hstep.grows.trans hgrows'
  refine ⟨?_, ?_⟩
  · refine carried_step hdec hfinal (fun _ _ hout => hout.not_supported hcorrect hfinal) h.carried
      hstep hgrows' ?_
    intro r _ _ target selected hview _ hjust _
    exact h.selected hcorrect hdec hfinal hgrows htimely hview hjust
  · intro c hc hcom hview
    rcases hstep.mem_changes hc with hold | ⟨hlt, hsame, hbest, -⟩
    · exact h.left c hold hcom hview
    have hcom' := mem_commits_of_changes hrun hc hcom rfl hview
    rw [hsame] at hcom'
    by_cases hdur : m.durable c.replica < height
    · rcases report_names hdec hfinal hgrows h.carried hinv hcom' hdur hbest with
        hnames | hout
      · exact .inl hnames
      · exact .inr (.inl (hout.mono hlt.le))
    · -- the height was made durable in a view at or below the one it leaves
      have hle : height ≤ m.durable c.replica := Nat.le_of_not_lt hdur
      have hin := hinv.voting.durableIn_le c.replica height hle
      rw [← hgrows.durableIn c.replica height hle] at hin
      exact .inr (.inr ⟨hle.trans (hgrows.durable _), lt_of_le_of_lt hin hlt⟩)

lemma along_of_run (hm : Reachable K careful m)
    (hrun : Relation.ReflTransGen (Step K careful) m final) :
    Along K final view height block m := by
  induction hm with
  | refl => exact ⟨carried_start, by simp [Machine.start]⟩
  | tail hprev hstep ih =>
    exact along_step hcorrect hdec hfinal (ih (.head hstep hrun)) (inv_of_reachable hprev)
      (timely_of_reachable hcorrect hprev) hstep hrun

end Along

lemma agreement (hcorrect : K.faulty = ∅) (hm : Reachable K careful m) {view' : Nat}
    {block' : H} (hdec : Supported K m.commits view height block)
    (hdec' : Supported K m.commits view' height block') (hle : view ≤ view') : block' = block := by
  have hinv := inv_of_reachable hm
  have halong := along_of_run hcorrect hdec hinv hm .refl
  obtain ⟨r, hcom, -⟩ := hdec'.common hdec'
  exact halong.carried.prepares view' block' hle (hinv.backed.commit _ hcom)

end ChainLab.Pbft.Core
