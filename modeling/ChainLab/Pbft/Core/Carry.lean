import ChainLab.Pbft.Core.Invariant

/-!
# What a committed block forces on later views

A quorum has committed a block in some view.  Every later view has to take the block over: each
member of the quorum reports it when it leaves its view, so each new view selects it.  This module
holds the part of the argument that does not depend on how replicas at different heights are kept
apart.  That part is left open as a property `closed` of views, in which no quorum can prepare
anything at the height any more.
-/

namespace ChainLab.Pbft.Core

open Machine

variable {R H : Type} [DecidableEq R] {K : Committee R} {careful : Prop} {m m' final : Machine R H}
  {view height : Nat} {block : H} {closed : Nat → Prop}

/-! ## Below and beside the committed block -/

variable {other : H}

lemma prepares_unique (hdec : Supported K final.commits view height block) (hinv : Inv K final)
    (hother : Supported K final.prepares view height other) : other = block := by
  obtain ⟨r, hprepare, hcom⟩ := hother.common hdec
  exact hinv.voting.unique _ (.inl hprepare) _ (.inr hcom) rfl rfl rfl

variable {k : Nat}

lemma height_le_of_prepares (hdec : Supported K final.commits view height block)
    (hinv : Inv K final) {u : Nat} (hview : view < u)
    (hother : Supported K final.prepares u k other) : height ≤ k := by
  obtain ⟨r, hprepare, hcom⟩ := hother.common hdec
  exact hinv.voting.ordered _ (.inr hcom) _ (.inl hprepare) rfl hview

/-! ## The block is carried along -/

def Names (view height : Nat) (block : H) (c : Report H) : Prop :=
  view ≤ c.view ∧ c.height = height ∧ c.block = block

/-- A quorum prepares nothing but the committed block at its height, and the replicas that have
moved on hold on to it unless their view is closed to the height. -/
structure Carried (K : Committee R) (view height : Nat) (block : H) (closed : Nat → Prop)
    (m : Machine R H) : Prop where
  prepares : ∀ u other, view ≤ u → Supported K m.prepares u height other → other = block
  later : ∀ r, view < m.view r → m.durable r < height →
    (∃ u, view ≤ u ∧ m.prepared r height = some (u, block)) ∧ m.lock r height = some block ∨
      closed (m.view r)

lemma carried_start : Carried K view height block closed (start : Machine R H) := by
  constructor
  · rintro u other - ⟨S, hS, hcard, hvotes⟩
    -- a quorum has a correct member, and no vote has been cast
    have hself : K.replicas.card + K.faulty.card < S.card + S.card := by
      have := K.intersecting
      omega
    obtain ⟨r, hr, -, hcorr⟩ := Quorum.exists_common_correct hS hS hself
    exact absurd (hvotes r hr hcorr) (Set.notMem_empty _)
  · intro r hview
    exact absurd hview (Nat.not_lt_zero _)

section Reports

variable (hdec : Supported K final.commits view height block) (hfinal : Inv K final)
  (hgrows : Grows m final) (hcarried : Carried K view height block closed m)
include hdec hfinal hgrows hcarried

lemma selection_names {target : Nat} {selected : Option (Report H)}
    (hjust : m.Justified K target selected) {V : Finset R} {report : R → Option (Report H)}
    (hbest : IsHighest {c | ∃ r ∈ V, report r = some c} selected) {s : R} (hs : s ∈ V)
    {e : Report H} (he : report s = some e) (hnames : Names view height block e) :
    ∃ c, selected = some c ∧ (height < c.height ∨ Names view height block c) := by
  have hmem : e ∈ {c | ∃ r ∈ V, report r = some c} := ⟨s, hs, he⟩
  cases selected with
  | none =>
    have hemp := hbest.1 rfl
    exact absurd (hemp ▸ hmem) (Set.notMem_empty _)
  | some c =>
    refine ⟨c, rfl, ?_⟩
    have hsupp := hjust.supported rfl
    obtain ⟨hview, hht, -⟩ := hnames
    have hle := (hbest.2 c rfl).2 e hmem
    have hcview : view ≤ c.view := by
      rcases hle with hlt | ⟨heq, -⟩
      · exact hview.trans hlt.le
      · exact hview.trans heq.le
    have hcheight : height ≤ c.height := by
      rcases hle with hlt | ⟨-, hlt | ⟨heq, -⟩⟩
      · exact height_le_of_prepares hdec hfinal (lt_of_le_of_lt hview hlt)
          (hsupp.mono hgrows.prepares)
      · omega
      · omega
    rcases Nat.eq_or_lt_of_le hcheight with heq | hlt
    · rw [← heq] at hsupp
      exact .inr ⟨hcview, heq.symm, hcarried.prepares c.view c.block hcview hsupp⟩
    · exact .inl hlt

variable (hinv : Inv K m)
include hinv

lemma report_names {s : R} (hcom : ⟨s, view, height, block⟩ ∈ m.commits)
    (hdur : m.durable s < height) {report : Option (Report H)}
    (hbest : IsHighest (m.reports s) report) :
    (∃ c, report = some c ∧ Names view height block c) ∨ closed (m.view s) := by
  have hnext : height = m.durable s + 1 := by
    have hle : height ≤ m.durable s + 1 := hinv.voting.height_le _ (.inr hcom)
    omega
  have hview : view ≤ m.view s := hinv.voting.view_le _ (.inr hcom)
  -- whether it has changed views since or not, it holds the block as prepared
  have hholds : (∃ u, view ≤ u ∧ m.prepared s height = some (u, block)) ∨ closed (m.view s) := by
    rcases Nat.eq_or_lt_of_le hview with heq | hlt
    · exact .inl (hinv.commit_prepared _ hcom heq hnext)
    rcases hcarried.later s hlt hdur with ⟨hprep, -⟩ | hclosed
    · exact .inl hprep
    · exact .inr hclosed
  refine hholds.imp ?_ id
  rintro ⟨u, hu, hprep⟩
  have hmem : (⟨u, height, block⟩ : Report H) ∈ m.reports s := ⟨hprep, hnext.le⟩
  cases report with
  | none =>
    have hemp := hbest.1 rfl
    exact absurd (hemp ▸ hmem) (Set.notMem_empty _)
  | some c =>
    obtain ⟨⟨hcprep, hcheight⟩, hle⟩ := hbest.2 c rfl
    have hsupp := (hinv.backed.prepared _ _ _ _ hcprep).mono hgrows.prepares
    have hht : c.height = height := by
      rcases hle _ hmem with hlt | ⟨-, hlt | ⟨heq, -⟩⟩
      · have := height_le_of_prepares hdec hfinal (lt_of_le_of_lt hu hlt) hsupp
        omega
      · simp only at hlt
        omega
      · exact heq.symm
    rw [hht, hprep] at hcprep
    cases hcprep
    exact ⟨c, rfl, hu, hht, rfl⟩

end Reports

/-! ## One step -/

omit [DecidableEq R] in
/-- Any operation on the own locks and prepared blocks keeps the block, if it does so for replicas
that are in a later view and not yet durable. -/
lemma carried_of_later (hcarried : Carried K view height block closed m)
    (hprepares : m'.prepares = m.prepares)
    (hview : ∀ r, m'.view r = m.view r) (hdur : ∀ r, m.durable r ≤ m'.durable r)
    (hkeep : ∀ r, view < m.view r → m'.durable r < height →
      (∃ u, view ≤ u ∧ m.prepared r height = some (u, block)) ∧ m.lock r height = some block →
      (∃ u, view ≤ u ∧ m'.prepared r height = some (u, block)) ∧ m'.lock r height = some block) :
    Carried K view height block closed m' := by
  constructor
  · rw [hprepares]
    exact hcarried.prepares
  · intro r hlater hht
    rw [hview] at hlater ⊢
    exact (hcarried.later r hlater (lt_of_le_of_lt (hdur r) hht)).imp_left (hkeep r hlater hht)

section Steps

variable (hdec : Supported K final.commits view height block) (hfinal : Inv K final)
  (hclosed : ∀ u other, closed u → ¬ Supported K final.prepares u height other)
  (hcarried : Carried K view height block closed m) {r : R}

include hdec hfinal hclosed hcarried in
lemma carried_castPrepare (hlock : m.lock r (m.durable r + 1) = some other)
    (hgrows : Grows (m.castPrepare r (m.durable r + 1) other) final) :
    Carried K view height block closed (m.castPrepare r (m.durable r + 1) other) := by
  refine ⟨?_, hcarried.later⟩
  intro u b hu hsupp
  have hfinalSupported := hsupp.mono hgrows.prepares
  rcases hsupp.of_insert with hold | ⟨hvote, -⟩
  · exact hcarried.prepares u b hu hold
  -- the new vote completes the quorum
  injection hvote with _ hview hht hblk
  subst hview hblk
  rcases Nat.eq_or_lt_of_le hu with heq | hlt
  · exact prepares_unique hdec hfinal (heq ▸ hfinalSupported)
  have hdur : m.durable r < height := by omega
  rcases hcarried.later r hlt hdur with ⟨-, hold⟩ | hcl
  · rw [← hht, hlock] at hold
    exact Option.some.inj hold
  · exact absurd hfinalSupported (hclosed _ _ hcl)

include hcarried in
lemma carried_lockBlock (hlock : ∀ b, m.lock r k = some b → b = other) :
    Carried K view height block closed (m.lockBlock r k other) := by
  refine carried_of_later hcarried rfl (fun _ => rfl) (fun _ => le_rfl) ?_
  rintro r' - - ⟨hprep, hold⟩
  refine ⟨hprep, ?_⟩
  by_cases hr : r' = r
  · subst hr
    by_cases hk : height = k
    · subst hk
      simp [lockBlock, hlock _ hold]
    · simpa [lockBlock, hk] using hold
  · simpa [lockBlock, hr] using hold

include hcarried in
lemma carried_certify (hlock : m.lock r k = some other)
    (hquor : Supported K m.prepares (m.view r) k other) :
    Carried K view height block closed (m.certify r k other) := by
  refine carried_of_later hcarried rfl (fun _ => rfl) (fun _ => le_rfl) ?_
  rintro r' hlater - ⟨⟨u, hu, hprep⟩, hold⟩
  refine ⟨?_, hold⟩
  by_cases hr : r' = r
  · subst hr
    by_cases hk : height = k
    · subst hk
      have hother := hcarried.prepares _ _ hlater.le hquor
      exact ⟨m.view r', hlater.le, by simp [certify, hother]⟩
    · exact ⟨u, hu, by simpa [certify, hk] using hprep⟩
  · exact ⟨u, hu, by simpa [certify, hr] using hprep⟩

include hcarried in
lemma carried_advance (r : R) : Carried K view height block closed (m.advance r) :=
  carried_of_later hcarried rfl (fun _ => rfl)
    (Step.advance r : Step K False m (m.advance r)).grows.durable fun _ _ _ => id

include hcarried in
lemma carried_forget {lock : Nat → Option H} {prepared : Nat → Option (Nat × H)}
    (hlock : ∀ k, m.durable r < k → lock k = m.lock r k)
    (hprepared : ∀ k, prepared k = m.prepared r k ∨ k ≤ m.durable r ∧ prepared k = none) :
    Carried K view height block closed (m.forget r lock prepared) := by
  refine carried_of_later hcarried rfl (fun _ => rfl) (fun _ => le_rfl) ?_
  rintro r' - hbelow ⟨⟨u, hu, hprep⟩, hold⟩
  by_cases hr : r' = r
  · subst hr
    have habove : m.durable r' < height := hbelow
    rcases hprepared height with hkeep | ⟨hle, -⟩
    · exact ⟨⟨u,
        hu, by simpa [forget, hkeep] using hprep⟩, by simpa [forget, hlock _ habove] using hold⟩
    · omega
  · exact ⟨⟨u, hu, by simpa [forget, hr] using hprep⟩, by simpa [forget, hr] using hold⟩

include hcarried in
lemma carried_install {target : Nat} {selected : Option (Report H)}
    (hselect : view < target → m.durable r < height →
      (∃ c, selected = some c ∧ Names view height block c) ∨ closed target) :
    Carried K view height block closed (m.install r target selected) := by
  refine ⟨hcarried.prepares, ?_⟩
  intro r' hlater hbelow
  by_cases hr : r' = r
  · subst hr
    simp only [install, Function.update_self] at hlater hbelow ⊢
    refine (hselect hlater hbelow).imp_left ?_
    rintro ⟨c, rfl, hview, rfl, rfl⟩
    exact ⟨⟨c.view, hview, by simp⟩, by simp⟩
  · simp only [install, ne_eq, hr, not_false_eq_true, Function.update_of_ne] at hlater hbelow ⊢
    exact hcarried.later r' hlater hbelow

include hdec hfinal hclosed hcarried in
lemma carried_step (hstep : Step K careful m m') (hgrows : Grows m' final)
    (hselect : ∀ r ∈ K.replicas, r ∉ K.faulty → ∀ target selected, view < target →
      m.durable r < height → m.Justified K target selected →
      (careful → ∀ c, selected = some c → c.height ≤ m.durable r + 1) →
      (∃ c, selected = some c ∧ Names view height block c) ∨ closed target) :
    Carried K view height block closed m' := by
  cases hstep with
  | lockBlock r k other hlock => exact carried_lockBlock hcarried hlock
  | castPrepare r other hsett hlock =>
    exact carried_castPrepare hdec hfinal hclosed hcarried hlock hgrows
  | certify r k other hlock hquor => exact carried_certify hcarried hlock hquor
  | castCommit r other => exact ⟨hcarried.prepares, hcarried.later⟩
  | advance r => exact carried_advance hcarried r
  | forget r lock prepared hlock hprepared => exact carried_forget hcarried hlock hprepared
  | announce r target report => exact ⟨hcarried.prepares, hcarried.later⟩
  | install r target selected hr hcorr hview hjust hahead =>
    exact carried_install hcarried fun hlater hbelow =>
      hselect r hr hcorr target selected hlater hbelow hjust hahead

end Steps

end ChainLab.Pbft.Core
