import ChainLab.Home.Materialize

/-!
# Visibility of method-preserving versions

The versions of a key that a home node shows before they are applied.  Every receipt of a
method-preserving delta passes once over the queue, in the order of consensus, and moves the visible
version along the deltas that start where it stands.
-/

namespace ChainLab.Home

open List GoMap
open State (Sha DB)
open VersionChain
open Home.Runtime
open StateDeltaApplyRequest

namespace Runtime

def visible (r : Runtime) (key : String) : Nat :=
  r.methodPreservingHomeVisibleVersion.get key

end Runtime

structure Shown (key : String) (item : StateDeltaApplyRequest) : Prop where
  origin : item.applyOrigin = methodPreservingVersionedRemoteHomeOrigin
  versioned : item.versioned
  of_key : item.key = key
  nonempty : key ≠ ""

variable {key : String} {start : Runtime}

lemma shown_iff {item : StateDeltaApplyRequest} :
    Shown key item ↔ item.applyOrigin = methodPreservingVersionedRemoteHomeOrigin ∧ item.versioned ∧
      item.key = key ∧ key ≠ "" :=
  ⟨fun h => ⟨h.origin, h.versioned, h.of_key, h.nonempty⟩, fun h => ⟨h.1, h.2.1, h.2.2.1, h.2.2.2⟩⟩

instance (key : String) (item : StateDeltaApplyRequest) : Decidable (Shown key item) :=
  decidable_of_iff _ shown_iff.symm

/-! ## One item of the pass -/

section

variable {key : String} {r : Runtime} {item : StateDeltaApplyRequest}

lemma published_publishStateVersion (r : Runtime) (k : String) (version : Nat) (value : String)
    (key : String) (v : Nat) :
    (r.publishStateVersion k version value).published key v =
      if version ≠ 0 ∧ k ≠ "" ∧ key = k ∧ v = version ∧ r.published k version = none then some value
      else r.published key v := by
  unfold publishStateVersion
  split
  · rename_i hskip
    rw [if_neg]
    rintro ⟨hvers, hkey, -⟩
    exact hskip.elim hvers hkey
  · rename_i hgo
    rw [not_or] at hgo
    split
    · rename_i hconf
      rw [if_neg]
      rintro ⟨-, -, -, -, hnone⟩
      simp [hnone] at hconf
    · rename_i hfree
      rw [published, get_putIn]
      by_cases hkey : key = k
      · rw [if_pos hkey, find_put]
        by_cases hv : v = version
        · rw [if_pos hv]
          cases hold : r.published k version with
          | none => rw [if_pos ⟨hgo.1, hgo.2, hkey, hv, rfl⟩]
          | some old =>
            -- The value that is there is the same one.
            rw [hold] at hfree
            have hsame : old = value := by simpa using hfree
            rw [if_neg (fun h => by cases h.2.2.2.2), hkey, hv, hold, hsame]
        · rw [if_neg hv, if_neg fun h => hv h.2.2.2.1, hkey]
          rfl
      · rw [if_neg hkey, if_neg fun h => hkey h.2.2.1]
        rfl

lemma visible_publishStateVersion (r : Runtime) (k : String) (version : Nat) (value key : String) :
    (r.publishStateVersion k version value).visible key = r.visible key := by
  unfold publishStateVersion
  split
  · rfl
  · split <;> rfl

/-- Nothing changes in what is shown of the key. -/
abbrev ShowsSame (key : String) (r r' : Runtime) : Prop :=
  r'.visible key = r.visible key ∧ ∀ v, r'.published key v = r.published key v

lemma catchUp_of_le (h : r.stateVersionMaterialized.get key ≤ r.visible key) :
    r.catchUp key = r := by
  exact if_neg (Nat.not_lt.2 h)

lemma catchUp_other {k : String} (hne : key ≠ k) : ShowsSame key r (r.catchUp k) := by
  unfold catchUp
  split
  · refine ⟨?_, fun v => rfl⟩
    rw [visible, get_put, if_neg hne]
    rfl
  · exact ⟨rfl, fun v => rfl⟩

lemma showNext_other (hne : key ≠ item.key) : ShowsSame key r (r.showNext item) := by
  unfold showNext
  simp only
  split
  · exact ⟨rfl, fun v => rfl⟩
  split
  · exact ⟨rfl, fun v => rfl⟩
  split
  · exact ⟨rfl, fun v => rfl⟩
  refine ⟨?_, fun v => ?_⟩
  · rw [visible, get_put, if_neg hne]
    exact visible_publishStateVersion r _ _ _ key
  · have hpub := published_publishStateVersion r item.key item.producedVersion item.value key v
    rw [if_neg fun h => hne h.2.2.1] at hpub
    exact hpub

/-- The pass moves along an item that starts at the visible version, unless another value is
published for its version. -/
def Extends (r : Runtime) (item : StateDeltaApplyRequest) : Prop :=
  item.previousVersion = r.visible item.key ∧ r.visible item.key < item.producedVersion ∧
    ∀ value, r.published item.key item.producedVersion = some value → value = item.value

lemma showNext_of_extends (h : Extends r item) (hvers : item.producedVersion ≠ 0)
    (hkey : item.key ≠ "") :
    (r.showNext item).visible item.key = item.producedVersion ∧
      ∀ v, (r.showNext item).published item.key v =
        if v = item.producedVersion then some item.value else r.published item.key v := by
  obtain ⟨hprev, hlt, hval⟩ := h
  have hprev' : item.previousVersion = r.methodPreservingHomeVisibleVersion.get item.key := hprev
  have hlt' : r.methodPreservingHomeVisibleVersion.get item.key < item.producedVersion := hlt
  have hfree : (r.published item.key item.producedVersion).any (· != item.value) = false := by
    cases hold : r.published item.key item.producedVersion with
    | none => rfl
    | some old => simp [hval old hold]
  have hnext : r.showNext item =
      let r := r.publishStateVersion item.key item.producedVersion item.value
      { r with
        methodPreservingHomeVisibleVersion :=
          r.methodPreservingHomeVisibleVersion.put item.key item.producedVersion } := by
    rw [showNext, if_neg (Nat.not_le.2 hlt'), if_neg, hfree]
    · rfl
    · rw [hprev']
      simp [Nat.not_le.2 hlt']
  rw [hnext]
  refine ⟨?_, fun v => ?_⟩
  · rw [visible, get_put, if_pos rfl]
  · have hpub := published_publishStateVersion r item.key item.producedVersion item.value item.key v
    refine Eq.trans hpub ?_
    by_cases hv : v = item.producedVersion
    · rw [if_pos hv]
      cases hold : r.published item.key item.producedVersion with
      | none => rw [if_pos ⟨hvers, hkey, rfl, hv, rfl⟩]
      | some old =>
        rw [if_neg (fun h => by simp at h), hv, hold, hval old hold]
    · rw [if_neg hv, if_neg fun h => hv h.2.2.2.1]

lemma showNext_of_not_extends (h : ¬ Extends r item) : r.showNext item = r := by
  unfold showNext
  simp only
  split
  · rfl
  rename_i hnew
  split
  · rfl
  rename_i hlink
  rw [not_or, Decidable.not_not] at hlink
  split
  · rfl
  rename_i hfree
  refine absurd ⟨hlink.2, Nat.lt_of_not_le hnew, ?_⟩ h
  intro value hval
  rw [hval] at hfree
  simpa using hfree

lemma publishReady_cases (item : StateDeltaApplyRequest)
    (hmat : r.stateVersionMaterialized.get key ≤ r.visible key) :
    (Shown key item ∧ Extends r item ∧ (r.publishReady item).visible key = item.producedVersion ∧
        ∀ v, (r.publishReady item).published key v =
          if v = item.producedVersion then some item.value else r.published key v) ∨
      (¬ (Shown key item ∧ Extends r item) ∧ ShowsSame key r (r.publishReady item)) := by
  by_cases hlooked : item.applyOrigin = methodPreservingVersionedRemoteHomeOrigin ∧ item.versioned ∧
      item.key ≠ ""
  · have hready : r.publishReady item = (r.catchUp item.key).showNext item := by
      rw [publishReady, if_neg]
      rintro (h | h | h)
      · exact h hlooked.1
      · exact h hlooked.2.1
      · exact hlooked.2.2 h
    rw [hready]
    by_cases hsame : item.key = key
    · subst hsame
      rw [catchUp_of_le hmat]
      by_cases hext : Extends r item
      · left
        exact ⟨⟨hlooked.1, hlooked.2.1, rfl, hlooked.2.2⟩, hext,
          showNext_of_extends hext (Nat.pos_iff_ne_zero.1 hlooked.2.1.1) hlooked.2.2⟩
      · right
        rw [showNext_of_not_extends hext]
        exact ⟨fun h => hext h.2, rfl, fun v => rfl⟩
    · right
      obtain ⟨hvis, hpub⟩ := catchUp_other (r := r) (Ne.symm hsame)
      obtain ⟨hvis', hpub'⟩ := showNext_other (r := r.catchUp item.key) (Ne.symm hsame)
      exact ⟨fun h => hsame h.1.of_key, hvis'.trans hvis, fun v => (hpub' v).trans (hpub v)⟩
  · right
    have hready : r.publishReady item = r := by
      rw [publishReady, if_pos]
      by_contra hgo
      simp only [not_or, Decidable.not_not] at hgo
      exact hlooked hgo
    rw [hready]
    exact ⟨fun h => hlooked ⟨h.1.origin, h.1.versioned, h.1.of_key ▸ h.1.nonempty⟩, rfl,
      fun v => rfl⟩

end

/-! ## A pass over the queue -/

/-- A pass over items moves the visible version of a key along a path and publishes its values. -/
structure Moves (key : String) (items : List StateDeltaApplyRequest) (r r' : Runtime)
    (path : List (Entry String)) : Prop where
  linked : Linked (r.visible key) path (r'.visible key)
  origin : ∀ d ∈ path, ∃ item ∈ items, Shown key item ∧ item.entry = d
  kept : ∀ v x, r.published key v = some x → r'.published key v = some x
  shown : ∀ d ∈ path, r'.published key d.produced = some d.value
  only : ∀ v x, r'.published key v = some x →
    r.published key v = some x ∨ ∃ d ∈ path, d.produced = v ∧ d.value = x

section Pass

variable {key : String}

lemma unpublished_of_only {r r' : Runtime} {path : List (Entry String)}
    (hlinked : Linked (r.visible key) path (r'.visible key))
    (honly : ∀ v x, r'.published key v = some x →
      r.published key v = some x ∨ ∃ d ∈ path, d.produced = v ∧ d.value = x)
    (hclean : ∀ v, r.visible key < v → r.published key v = none) :
    ∀ v, r'.visible key < v → r'.published key v = none := by
  intro v hv
  cases hx : r'.published key v with
  | none => rfl
  | some x =>
    rcases honly v x hx with hx | ⟨d, hd, hprod, -⟩
    · rw [hclean v (lt_of_le_of_lt hlinked.le hv)] at hx
      cases hx
    · obtain ⟨-, -, hle⟩ := hlinked.bounds hd
      omega

lemma Moves.trans {items items' : List StateDeltaApplyRequest} {r r' r'' : Runtime}
    {path path' : List (Entry String)} (h : Moves key items r r' path)
    (h' : Moves key items' r' r'' path') : Moves key (items ++ items') r r'' (path ++ path') where
  linked := h.linked.append h'.linked
  origin d hd := by
    rcases mem_append.1 hd with hd | hd
    · obtain ⟨item, hitem, hspec⟩ := h.origin d hd
      exact ⟨item, mem_append_left _ hitem, hspec⟩
    · obtain ⟨item, hitem, hspec⟩ := h'.origin d hd
      exact ⟨item, mem_append_right _ hitem, hspec⟩
  kept v x hx := h'.kept v x (h.kept v x hx)
  shown d hd := by
    rcases mem_append.1 hd with hd | hd
    · exact h'.kept _ _ (h.shown d hd)
    · exact h'.shown d hd
  only v x hx := by
    rcases h'.only v x hx with hx | ⟨d, hd, hspec⟩
    · rcases h.only v x hx with hx | ⟨d, hd, hspec⟩
      · exact .inl hx
      · exact .inr ⟨d, mem_append_left _ hd, hspec⟩
    · exact .inr ⟨d, mem_append_right _ hd, hspec⟩

variable (r : Runtime) (hmat : r.stateVersionMaterialized.get key ≤ r.visible key)
  (hclean : ∀ v, r.visible key < v → r.published key v = none)
include hmat

lemma publishReady_moves (item : StateDeltaApplyRequest) :
    ∃ path, Moves key [item] r (r.publishReady item) path := by
  rcases publishReady_cases item hmat with ⟨hshown, ⟨hprev, hlt, hval⟩, hvis, hpub⟩ | ⟨-,
      hvis, hpub⟩
  · rw [hshown.of_key] at hprev hlt hval
    refine ⟨[item.entry], ?_, ?_, ?_, ?_, ?_⟩
    · rw [hvis]
      exact .cons hprev hlt (.nil _)
    · exact fun d hd => ⟨item, mem_singleton_self item, hshown, (mem_singleton.1 hd).symm⟩
    · intro v x hx
      rw [hpub]
      split
      · rename_i hv
        rw [hv] at hx
        rw [hval x hx]
      · exact hx
    · intro d hd
      rw [mem_singleton.1 hd, hpub]
      exact if_pos rfl
    · intro v x hx
      rw [hpub] at hx
      split at hx
      · rename_i hv
        exact .inr ⟨item.entry, mem_singleton_self _, hv.symm, Option.some.inj hx⟩
      · exact .inl hx
  · refine ⟨[], ?_, ?_, ?_, ?_, ?_⟩
    · rw [hvis]
      exact .nil _
    · exact fun d hd => absurd hd not_mem_nil
    · exact fun v x hx => (hpub v).trans hx
    · exact fun d hd => absurd hd not_mem_nil
    · exact fun v x hx => .inl ((hpub v).symm.trans hx)

lemma publishReady_le_visible (item : StateDeltaApplyRequest) :
    (r.publishReady item).stateVersionMaterialized.get key ≤ (r.publishReady item).visible key := by
  obtain ⟨path, hmoves⟩ := publishReady_moves r hmat item
  rw [(publishReady_only r item).materialized]
  exact hmat.trans hmoves.linked.le

lemma foldl_publishReady_moves (items : List StateDeltaApplyRequest) :
    ∃ path, Moves key items r (items.foldl publishReady r) path := by
  induction items generalizing r with
  | nil =>
    exact ⟨[], .nil _, fun d hd => absurd hd not_mem_nil, fun v x hx => hx,
      fun d hd => absurd hd not_mem_nil, fun v x hx => .inl hx⟩
  | cons item items ih =>
    obtain ⟨path, hmoves⟩ := publishReady_moves r hmat item
    obtain ⟨path', hmoves'⟩ := ih (r.publishReady item) (publishReady_le_visible r hmat item)
    exact ⟨path ++ path', hmoves.trans hmoves'⟩

include hclean

lemma foldl_publishReady_visible (items : List StateDeltaApplyRequest) :
    (items.foldl publishReady r).visible key =
      drain (r.visible key) ((items.filter (Shown key ·)).map entry) := by
  induction items generalizing r with
  | nil => rfl
  | cons item items ih =>
    have hmat' := publishReady_le_visible r hmat item
    obtain ⟨path, hmoves⟩ := publishReady_moves r hmat item
    have hclean' := unpublished_of_only hmoves.linked hmoves.only hclean
    rw [foldl_cons, ih _ hmat' hclean']
    rcases publishReady_cases item hmat with ⟨hshown, ⟨hprev, hlt, -⟩, hvis, -⟩ | ⟨hstay, hvis, -⟩
    · rw [hshown.of_key] at hprev hlt
      rw [hvis, filter_cons_of_pos (by simpa using hshown), map_cons, drain, if_pos ⟨hprev, hlt⟩]
      rfl
    · rw [hvis]
      by_cases hshown : Shown key item
      · rw [filter_cons_of_pos (by simpa using hshown), map_cons, drain, if_neg]
        rintro ⟨hprev, hlt⟩
        -- Nothing is published beyond the visible version, so no other value is in the way.
        apply hstay
        refine ⟨hshown, ?_⟩
        rw [Extends, hshown.of_key]
        refine ⟨hprev, hlt, fun value hval => ?_⟩
        rw [hclean item.producedVersion hlt] at hval
        cases hval
      · rw [filter_cons_of_neg (by simpa using hshown)]

lemma publishReadyMethodPreservingHomeVersions_closed : ∀ item ∈ r.pendingStateDeltas,
    Shown key item →
      item.previousVersion = r.publishReadyMethodPreservingHomeVersions.visible key →
      item.producedVersion ≤ r.publishReadyMethodPreservingHomeVersions.visible key := by
  intro item hitem hshown hprev
  have hsort : (((ordered r.pendingStateDeltas).filter (Shown key ·)).map
      entry).Pairwise fun d e => d.produced ≤ e.produced := by
    rw [pairwise_map]
    refine List.Pairwise.imp_of_mem ?_ ((ordered_pairwise r.pendingStateDeltas).filter _)
    intro a b ha hb horder
    have hshown_a : Shown key a := by simpa using (mem_filter.1 ha).2
    have hshown_b : Shown key b := by simpa using (mem_filter.1 hb).2
    exact producedVersion_le_of_order hshown_a.versioned hshown_b.versioned
      (hshown_a.of_key.trans hshown_b.of_key.symm) horder
  rw [publishReadyMethodPreservingHomeVersions, foldl_publishReady_visible r hmat hclean] at hprev ⊢
  refine drain_closed hsort _ item.entry ?_ hprev
  exact mem_map_of_mem (mem_filter.2 ⟨mem_ordered.2 hitem, by simpa using hshown⟩)

end Pass

/-! ## Receipts -/

variable (sha : Sha)

def Runtime.received (start : Runtime) (arrivals : List StateDeltaApplyRequest) : Runtime :=
  arrivals.foldl (fun r request => (r.handleStateDeltaApplyRequest sha request).1) start

lemma Runtime.received_concat (start : Runtime) (arrivals : List StateDeltaApplyRequest)
    (request : StateDeltaApplyRequest) :
    start.received sha (arrivals ++ [request]) =
      ((start.received sha arrivals).handleStateDeltaApplyRequest sha request).1 := by
  rw [received, foldl_append]
  rfl

structure Opening (start : Runtime) (key : String) : Prop where
  idle : start.pendingStateDeltas = []
  unqueued : ∀ k, start.pendingStateDeltaKeys.get k = false
  materialized : start.stateVersionMaterialized.get key ≤ start.visible key

/-- The queue of a home node, and what it shows of a key, after some receipts. -/
structure Showing (start : Runtime) (key : String) (arrivals : List StateDeltaApplyRequest)
    (r : Runtime) (path : List (Entry String)) : Prop where
  partition : r.stateAccessPartitionID = start.stateAccessPartitionID
  materialized : r.stateVersionMaterialized = start.stateVersionMaterialized
  applied : r.appliedStateDeltaKeys = start.appliedStateDeltaKeys
  pending : ∀ item ∈ r.pendingStateDeltas, item ∈ arrivals
  pendingKeys : ∀ k, r.pendingStateDeltaKeys.get k = true ↔
    ∃ item ∈ r.pendingStateDeltas, stateDeltaApplyKey sha item = k
  distinct : (r.pendingStateDeltas.map (stateDeltaApplyKey sha)).Nodup
  queued : ∀ item ∈ arrivals, ¬ start.wrongHomeShard item.homeShard →
    start.appliedStateDeltaKeys.get (stateDeltaApplyKey sha item) = false →
    ∃ item' ∈ r.pendingStateDeltas, stateDeltaApplyKey sha item' = stateDeltaApplyKey sha item
  linked : Linked (start.visible key) path (r.visible key)
  origin : ∀ d ∈ path, ∃ item ∈ r.pendingStateDeltas, Shown key item ∧ item.entry = d
  shown : ∀ d ∈ path, r.published key d.produced = some d.value
  only : (∀ item ∈ arrivals, item.key = key →
      item.applyOrigin = methodPreservingVersionedRemoteHomeOrigin) →
    ∀ v x, r.published key v = some x →
      start.published key v = some x ∨ ∃ d ∈ path, d.produced = v ∧ d.value = x

lemma Opening.showing (h : Opening start key) : Showing sha start key [] start [] where
  partition := rfl
  materialized := rfl
  applied := rfl
  pending item hitem := absurd hitem (h.idle ▸ not_mem_nil)
  pendingKeys k := by simp [h.idle, h.unqueued]
  distinct := by simp [h.idle]
  queued item hitem := absurd hitem not_mem_nil
  linked := .nil _
  origin d hd := absurd hd not_mem_nil
  shown d hd := absurd hd not_mem_nil
  only _ v x hx := .inl hx

namespace Runtime

def publishAtOnce (r : Runtime) (request : StateDeltaApplyRequest) : Runtime :=
  if request.versioned ∧ ¬ Chained request.applyOrigin then
    r.publishStateVersion request.key request.producedVersion request.value
  else r

variable (r : Runtime)

lemma publishAtOnce_only (request : StateDeltaApplyRequest) :
    OnlyPublishes r (r.publishAtOnce request) := by
  unfold publishAtOnce
  split
  · exact publishStateVersion_only r _ _ _
  · exact .refl r

lemma publishAtOnce_visible (request : StateDeltaApplyRequest) (key : String) :
    (r.publishAtOnce request).visible key = r.visible key := by
  unfold publishAtOnce
  split
  · exact visible_publishStateVersion r _ _ _ key
  · rfl

variable {key : String} {request : StateDeltaApplyRequest}

lemma publishAtOnce_kept (request : StateDeltaApplyRequest) {v : Nat} {x : String}
    (hx : r.published key v = some x) : (r.publishAtOnce request).published key v = some x := by
  unfold publishAtOnce
  split
  · rw [published_publishStateVersion, if_neg]
    · exact hx
    rintro ⟨-, -, rfl, rfl, hnone⟩
    rw [hx] at hnone
    cases hnone
  · exact hx

lemma publishAtOnce_of_chained (h : Chained request.applyOrigin) : r.publishAtOnce request = r :=
  if_neg fun hgo => hgo.2 h

lemma publishAtOnce_other (hne : request.key ≠ key) (v : Nat) :
    (r.publishAtOnce request).published key v = r.published key v := by
  unfold publishAtOnce
  split
  · rw [published_publishStateVersion, if_neg]
    rintro ⟨-, -, rfl, -⟩
    exact hne rfl
  · rfl

lemma enqueue_shown (request : StateDeltaApplyRequest) (key : String) :
    ShowsSame key r (r.enqueue sha request) := by
  unfold enqueue
  simp only
  split <;> exact ⟨rfl, fun v => rfl⟩

lemma handleStateDeltaApplyRequest_eq {r : Runtime} (h : ¬ r.wrongHomeShard request.homeShard) :
    (r.handleStateDeltaApplyRequest sha request).1 =
      if request.applyOrigin = methodPreservingVersionedRemoteHomeOrigin ∧ request.versioned then
        ((r.publishAtOnce request).enqueue sha request).publishReadyMethodPreservingHomeVersions
      else (r.publishAtOnce request).enqueue sha request := by
  simp only [handleStateDeltaApplyRequest, h, if_false]
  rfl

end Runtime

lemma enqueue_queue (r : Runtime) (request : StateDeltaApplyRequest)
    (hkeys : ∀ k, r.pendingStateDeltaKeys.get k = true ↔
      ∃ item ∈ r.pendingStateDeltas, stateDeltaApplyKey sha item = k)
    (hdist : (r.pendingStateDeltas.map (stateDeltaApplyKey sha)).Nodup) :
    (∀ k, (r.enqueue sha request).pendingStateDeltaKeys.get k = true ↔
      ∃ item ∈ (r.enqueue sha request).pendingStateDeltas, stateDeltaApplyKey sha item = k) ∧
    ((r.enqueue sha request).pendingStateDeltas.map (stateDeltaApplyKey sha)).Nodup ∧
    (∀ item ∈ r.pendingStateDeltas, item ∈ (r.enqueue sha request).pendingStateDeltas) ∧
    (r.appliedStateDeltaKeys.get (stateDeltaApplyKey sha request) = false →
      ∃ item ∈ (r.enqueue sha request).pendingStateDeltas,
        stateDeltaApplyKey sha item = stateDeltaApplyKey sha request) ∧
    (r.enqueue sha request).appliedStateDeltaKeys = r.appliedStateDeltaKeys := by
  unfold enqueue
  simp only
  split
  · rename_i hnew
    have hfresh :
        stateDeltaApplyKey sha request ∉ r.pendingStateDeltas.map (stateDeltaApplyKey sha) := by
      intro hmem
      obtain ⟨item, hitem, hkey⟩ := mem_map.1 hmem
      have hqueued := (hkeys _).2 ⟨item, hitem, hkey⟩
      rw [hnew.1] at hqueued
      cases hqueued
    refine ⟨?_, ?_, ?_, ?_, rfl⟩
    · intro k
      rw [get_put]
      by_cases hk : k = stateDeltaApplyKey sha request
      · simp [hk]
      · rw [if_neg hk, hkeys k]
        simp [Ne.symm hk]
    · rw [map_append, nodup_append]
      refine ⟨hdist, nodup_singleton _, ?_⟩
      intro k hk k' hk' heq
      rw [map_singleton, mem_singleton] at hk'
      exact hfresh (hk' ▸ heq ▸ hk)
    · exact fun item hitem => mem_append_left _ hitem
    · exact fun _ => ⟨request, by simp, rfl⟩
  · rename_i hold
    refine ⟨hkeys, hdist, fun item hitem => hitem, fun happ => ?_, rfl⟩
    have hqueued : r.pendingStateDeltaKeys.get (stateDeltaApplyKey sha request) = true := by
      cases hget : r.pendingStateDeltaKeys.get (stateDeltaApplyKey sha request) with
      | true => rfl
      | false => exact absurd ⟨hget, happ⟩ hold
    exact (hkeys _).1 hqueued

namespace Showing

variable {sha} {start r : Runtime} {key : String} {arrivals : List StateDeltaApplyRequest}
  {path : List (Entry String)}

section

variable (h : Showing sha start key arrivals r path)

include h

lemma le_visible (hopen : Opening start key) :
    r.stateVersionMaterialized.get key ≤ r.visible key := by
  rw [h.materialized]
  exact hopen.materialized.trans h.linked.le

/-- Publication at once and the queue show nothing new of the chain. -/
lemma enqueued (request : StateDeltaApplyRequest) :
    Showing sha start key (arrivals ++ [request]) ((r.publishAtOnce request).enqueue sha request)
      path := by
  have honce := r.publishAtOnce_only request
  obtain ⟨hkeys, hdist, hkept, hqueued, happ⟩ := enqueue_queue sha (r.publishAtOnce request) request
      (by rw [honce.pendingKeys, honce.pending]; exact h.pendingKeys)
      (by rw [honce.pending]; exact h.distinct)
  obtain ⟨-, hpart, hmat⟩ := (r.publishAtOnce request).enqueue_fields sha request
  obtain ⟨hvis, hpub⟩ := (r.publishAtOnce request).enqueue_shown sha request key
  exact
    { partition := by rw [hpart, honce.partition, h.partition]
      materialized := by rw [hmat, honce.materialized, h.materialized]
      applied := by rw [happ, honce.appliedKeys, h.applied]
      pending := by
        intro item hitem
        rcases mem_enqueue sha hitem with hitem | rfl
        · rw [honce.pending] at hitem
          exact mem_append_left _ (h.pending item hitem)
        · exact mem_append_right _ (mem_singleton_self _)
      pendingKeys := hkeys
      distinct := hdist
      queued := by
        intro item hitem hright hunapplied
        rcases mem_append.1 hitem with hitem | hitem
        · obtain ⟨item', hitem', hsame⟩ := h.queued item hitem hright hunapplied
          exact ⟨item', hkept item' (honce.pending ▸ hitem'), hsame⟩
        · rw [mem_singleton.1 hitem] at hunapplied ⊢
          apply hqueued
          rw [honce.appliedKeys, h.applied]
          exact hunapplied
      linked := by
        rw [hvis, r.publishAtOnce_visible]
        exact h.linked
      origin := by
        intro d hd
        obtain ⟨item, hitem, hspec⟩ := h.origin d hd
        exact ⟨item, hkept item (honce.pending ▸ hitem), hspec⟩
      shown := fun d hd => (hpub _).trans (r.publishAtOnce_kept request (h.shown d hd))
      only := by
        intro hmethod v x hx
        -- A request of the key follows the chain, so nothing of the key is published at once.
        have hsame : (r.publishAtOnce request).published key v = r.published key v := by
          by_cases hkey : request.key = key
          · rw [r.publishAtOnce_of_chained
              (.inl (hmethod request (mem_append_right _ (mem_singleton_self _)) hkey))]
          · exact r.publishAtOnce_other hkey v
        rw [hpub, hsame] at hx
        exact h.only (fun item hitem => hmethod item (mem_append_left _ hitem)) v x hx }

lemma moved {r' : Runtime} {moves : List (Entry String)}
    (honly : OnlyPublishes r r') (hmoves : Moves key r.pendingStateDeltas r r' moves) :
    Showing sha start key arrivals r' (path ++ moves) where
  partition := honly.partition.trans h.partition
  materialized := honly.materialized.trans h.materialized
  applied := honly.appliedKeys.trans h.applied
  pending := honly.pending ▸ h.pending
  pendingKeys := by
    rw [honly.pendingKeys, honly.pending]
    exact h.pendingKeys
  distinct := honly.pending ▸ h.distinct
  queued := honly.pending ▸ h.queued
  linked := h.linked.append hmoves.linked
  origin := by
    intro d hd
    rw [honly.pending]
    rcases mem_append.1 hd with hd | hd
    · exact h.origin d hd
    · exact hmoves.origin d hd
  shown := by
    intro d hd
    rcases mem_append.1 hd with hd | hd
    · exact hmoves.kept _ _ (h.shown d hd)
    · exact hmoves.shown d hd
  only := by
    intro hmethod v x hx
    rcases hmoves.only v x hx with hx | ⟨d, hd, hspec⟩
    · rcases h.only hmethod v x hx with hx | ⟨d, hd, hspec⟩
      · exact .inl hx
      · exact .inr ⟨d, mem_append_left _ hd, hspec⟩
    · exact .inr ⟨d, mem_append_right _ hd, hspec⟩

/-- A receipt moves the visible version along queued deltas. -/
lemma receive (hopen : Opening start key) (request : StateDeltaApplyRequest) :
    ∃ moves, Showing sha start key (arrivals ++ [request])
    (r.handleStateDeltaApplyRequest sha request).1
        (path ++ moves) ∧
      Linked (r.visible key) moves
        ((r.handleStateDeltaApplyRequest sha request).1.visible key) := by
  by_cases hwrong : r.wrongHomeShard request.homeShard
  · -- A request of another home shard is not queued.
    have hsame : (r.handleStateDeltaApplyRequest sha request).1 = r := by
      simp [handleStateDeltaApplyRequest, hwrong]
    rw [hsame]
    refine ⟨[], ?_, .nil _⟩
    rw [append_nil]
    exact
      { h with
        pending := fun item hitem => mem_append_left _ (h.pending item hitem)
        queued := by
          intro item hitem hright
          rcases mem_append.1 hitem with hitem | hitem
          · exact h.queued item hitem hright
          rw [wrongHomeShard, h.partition] at hwrong
          rw [mem_singleton.1 hitem] at hright
          exact absurd hwrong hright
        only := fun hmethod => h.only fun item hitem => hmethod item (mem_append_left _ hitem) }
  · -- Publication at once and the queue come first; then there may be a pass.
    have hnext := h.enqueued request
    obtain ⟨hvis, -⟩ := (r.publishAtOnce request).enqueue_shown sha request key
    rw [r.publishAtOnce_visible] at hvis
    rw [handleStateDeltaApplyRequest_eq sha hwrong]
    set r' := (r.publishAtOnce request).enqueue sha request
    split
    · obtain ⟨moves, hmoves⟩ :=
        foldl_publishReady_moves r' (hnext.le_visible hopen) (ordered r'.pendingStateDeltas)
      refine ⟨moves, hnext.moved (publishReadyMethodPreservingHomeVersions_only r') ?_,
        hvis ▸ hmoves.linked⟩
      exact
        { hmoves with
          origin := fun d hd => by
            obtain ⟨item, hitem, hspec⟩ := hmoves.origin d hd
            exact ⟨item, mem_ordered.1 hitem, hspec⟩ }
    · refine ⟨[], ?_, hvis ▸ .nil _⟩
      rwa [append_nil]

end

end Showing

lemma Opening.received (h : Opening start key) (arrivals : List StateDeltaApplyRequest) :
    ∃ path, Showing sha start key arrivals (start.received sha arrivals) path := by
  induction arrivals using List.reverseRecOn with
  | nil => exact ⟨[], h.showing sha⟩
  | append_singleton arrivals request ih =>
    obtain ⟨path, hshow⟩ := ih
    obtain ⟨moves, hnext, -⟩ := hshow.receive h request
    rw [received_concat]
    exact ⟨path ++ moves, hnext⟩

/-! ## All deltas of a chain -/

/-- The arrivals are the deltas of one chain that starts at the visible version: in any order, each
of them at least once. -/
structure ChainArrived (start : Runtime) (key : String)
    (chain arrivals : List StateDeltaApplyRequest) :
    Prop where
  nonempty : chain ≠ []
  method : ∀ d ∈ chain, d.applyOrigin = methodPreservingVersionedRemoteHomeOrigin
  versioned : ∀ d ∈ chain, d.versioned
  of_key : ∀ d ∈ chain, d.key = key
  home : ∀ d ∈ chain, ¬ start.wrongHomeShard d.homeShard
  linked : ∃ last, Linked (start.visible key) (chain.map StateDeltaApplyRequest.entry) last
  unapplied : ∀ d ∈ chain, start.appliedStateDeltaKeys.get (stateDeltaApplyKey sha d) = false
  unpublished : ∀ v, start.visible key < v → start.published key v = none
  complete : ∀ d ∈ chain, d ∈ arrivals
  only : ∀ item ∈ arrivals, item ∈ chain

def ShowsLast (r : Runtime) (key : String) (chain : List StateDeltaApplyRequest) : Prop :=
  ∃ d, chain.getLast? = some d ∧ r.visible key = d.producedVersion ∧
    r.published key d.producedVersion = some d.value

def Identified (chain : List StateDeltaApplyRequest) : Prop :=
  ∀ a ∈ chain, ∀ b ∈ chain, stateDeltaApplyKey sha a = stateDeltaApplyKey sha b → a = b

namespace ChainArrived

variable {sha} {start r : Runtime} {key : String} {chain arrivals : List StateDeltaApplyRequest}
  {path : List (Entry String)}

section

variable (h : ChainArrived sha start key chain arrivals)

include h

lemma eq_of_entry {a b : StateDeltaApplyRequest} (ha : a ∈ chain) (hb : b ∈ chain)
    (heq : a.entry = b.entry) : a = b := by
  obtain ⟨last, hlink⟩ := h.linked
  have hnd : (chain.map entry).Nodup := by
    refine hlink.pairwise.imp ?_
    rintro d _ hlt rfl
    exact Nat.lt_irrefl _ hlt
  exact inj_on_of_nodup_map hnd ha hb heq

lemma shown_of_mem (hkey : key ≠ "") {d : StateDeltaApplyRequest} (hd : d ∈ chain) : Shown key d :=
  ⟨h.method d hd, h.versioned d hd, h.of_key d hd, hkey⟩

lemma eq_append (hshow : Showing sha start key arrivals r path) {last : Nat}
    (hlink : Linked (start.visible key) (chain.map entry) last) :
    ∃ rest, chain.map entry = path ++ rest ∧ Linked (r.visible key) rest last := by
  refine hlink.eq_append hshow.linked ?_
  intro d hd
  obtain ⟨item, hitem, -, rfl⟩ := hshow.origin d hd
  exact mem_map_of_mem (h.only item (hshow.pending item hitem))

lemma identified_of_showsLast (hshow : Showing sha start key arrivals r path)
    (hlast : ShowsLast r key chain) : key ≠ "" ∧ Identified sha chain := by
  obtain ⟨last, hlink⟩ := h.linked
  obtain ⟨d, hd, hvis, -⟩ := hlast
  obtain ⟨rest, happend, hrest⟩ := h.eq_append hshow hlink
  obtain ⟨init, rfl⟩ := getLast?_eq_some_iff.1 hd
  have hend : d.producedVersion = last := by
    rw [map_append] at hlink
    exact hlink.eq_end
  -- Nothing is left of the chain beyond the path.
  have hnil : rest = [] := by
    cases rest with
    | nil => rfl
    | cons e rest =>
      obtain ⟨-, -, hle⟩ := hrest.bounds mem_cons_self
      cases hrest with
      | cons _ hlt _ => omega
  rw [hnil, append_nil] at happend
  have hqueued : ∀ a ∈ init ++ [d], Shown key a ∧ a ∈ r.pendingStateDeltas := by
    intro a ha
    have hmem : a.entry ∈ path := happend ▸ mem_map_of_mem ha
    obtain ⟨item, hitem, hshown, hent⟩ := hshow.origin a.entry hmem
    have hsame : item = a := h.eq_of_entry (h.only item (hshow.pending item hitem)) ha hent
    exact ⟨hsame ▸ hshown, hsame ▸ hitem⟩
  refine ⟨(hqueued d (by simp)).1.nonempty, ?_⟩
  intro a ha b hb heq
  exact inj_on_of_nodup_map hshow.distinct (hqueued a ha).2 (hqueued b hb).2 heq

lemma arrivals_ne : arrivals ≠ [] := by
  intro hnil
  obtain ⟨d, hd⟩ := exists_mem_of_ne_nil chain h.nonempty
  have hmem := h.complete d hd
  rw [hnil] at hmem
  cases hmem

end

lemma closed (hopen : Opening start key) (h : ChainArrived sha start key chain arrivals) :
    ∀ item ∈ (start.received sha arrivals).pendingStateDeltas, Shown key item →
      item.previousVersion = (start.received sha arrivals).visible key →
      item.producedVersion ≤ (start.received sha arrivals).visible key := by
  obtain ⟨before, request, rfl⟩ := eq_nil_or_concat' arrivals |>.resolve_left h.arrivals_ne
  obtain ⟨path, hshow⟩ := hopen.received sha before
  have hmem : request ∈ chain := h.only request (by simp)
  have hbef : ∀ item ∈ before, item ∈ chain := fun item hitem =>
    h.only item (mem_append_left _ hitem)
  have hclean := unpublished_of_only hshow.linked
    (hshow.only fun item hitem _ => h.method item (hbef item hitem)) h.unpublished
  have hright : ¬ (start.received sha before).wrongHomeShard request.homeShard := by
    rw [wrongHomeShard, hshow.partition]
    exact h.home request hmem
  rw [received_concat, handleStateDeltaApplyRequest_eq sha hright,
    if_pos ⟨h.method request hmem, h.versioned request hmem⟩,
    publishAtOnce_of_chained _ (.inl (h.method request hmem))]
  obtain ⟨-, -, hmat⟩ := (start.received sha before).enqueue_fields sha request
  obtain ⟨hvis, hpub⟩ := (start.received sha before).enqueue_shown sha request key
  rw [(publishReadyMethodPreservingHomeVersions_only _).pending]
  apply publishReadyMethodPreservingHomeVersions_closed
  · rw [hmat, hvis]
    exact hshow.le_visible hopen
  · intro v hv
    rw [hvis] at hv
    rw [hpub]
    exact hclean v hv

lemma showsLast (hopen : Opening start key) (h : ChainArrived sha start key chain arrivals)
    (hkey : key ≠ "") (hidentified : Identified sha chain) :
    ShowsLast (start.received sha arrivals) key chain := by
  obtain ⟨path, hshow⟩ := hopen.received sha arrivals
  obtain ⟨last, hlink⟩ := h.linked
  obtain ⟨rest, happend, hrest⟩ := h.eq_append hshow hlink
  have hqueued : ∀ d ∈ chain, d ∈ (start.received sha arrivals).pendingStateDeltas := by
    intro d hd
    obtain ⟨item, hitem, hsame⟩ := hshow.queued d (h.complete d hd) (h.home d hd) (h.unapplied d hd)
    have heq : item = d := hidentified item (h.only item (hshow.pending item hitem)) d hd hsame
    exact heq ▸ hitem
  have hnil : rest = [] := by
    cases rest with
    | nil => rfl
    | cons e rest =>
      -- The next delta of the chain is queued, and the pass has not moved along it.
      have hmem : e ∈ chain.map entry := by simp [happend]
      obtain ⟨d, hd, rfl⟩ := mem_map.1 hmem
      cases hrest with
      | cons hprev hlt _ =>
        have hle := h.closed hopen d (hqueued d hd) (h.shown_of_mem hkey hd) hprev
        exact absurd hle (Nat.not_le.2 hlt)
  rw [hnil, append_nil] at happend
  obtain ⟨init, d, rfl⟩ := eq_nil_or_concat' chain |>.resolve_left h.nonempty
  have hend : d.producedVersion = last := by
    rw [map_append] at hlink
    exact hlink.eq_end
  have hvis : (start.received sha arrivals).visible key = last := by
    rw [hnil] at hrest
    cases hrest
    rfl
  refine ⟨d, by simp, hvis.trans hend.symm, ?_⟩
  exact hshow.shown d.entry (happend ▸ mem_map_of_mem (by simp))

end ChainArrived

/-! ## Visibility -/

/-- Every receipt moves the visible version along deltas that start where it stands. -/
def MovesAlong (start : Runtime) (key : String) (arrivals : List StateDeltaApplyRequest) : Prop :=
  ∀ before request after, arrivals = before ++ request :: after → ∃ moves,
    Linked ((start.received sha before).visible key) moves
      ((start.received sha (before ++ [request])).visible key) ∧
    ∀ d ∈ moves, ∃ item ∈ before ++ [request], Shown key item ∧ item.entry = d

/-- The versions shown are a chain from the start to the visible one, each with its value; where all
deltas of the key are method-preserving, no other version is published. -/
def ShownInOrder (start : Runtime) (key : String) (arrivals : List StateDeltaApplyRequest) : Prop :=
  ∃ path, Linked (start.visible key) path ((start.received sha arrivals).visible key) ∧
    (∀ d ∈ path, (∃ item ∈ arrivals, Shown key item ∧ item.entry = d) ∧
      (start.received sha arrivals).published key d.produced = some d.value) ∧
    ((∀ item ∈ arrivals, item.key = key →
      item.applyOrigin = methodPreservingVersionedRemoteHomeOrigin) →
      ∀ v x, (start.received sha arrivals).published key v = some x →
        start.published key v = some x ∨ ∃ d ∈ path, d.produced = v ∧ d.value = x)

theorem visibility_follows_chain {start : Runtime} {key : String} (hopening : Opening start key)
    (arrivals : List StateDeltaApplyRequest) :
    MovesAlong sha start key arrivals ∧ ShownInOrder sha start key arrivals ∧
      ∀ chain, ChainArrived sha start key chain arrivals →
        (ShowsLast (start.received sha arrivals) key chain ↔ key ≠ "" ∧ Identified sha chain) := by
  refine ⟨?_, ?_, ?_⟩
  · intro before request after _
    obtain ⟨path, hshowing⟩ := hopening.received sha before
    obtain ⟨moves, hnext, hlinked⟩ := hshowing.receive hopening request
    rw [Runtime.received_concat]
    refine ⟨moves, hlinked, fun d hd => ?_⟩
    obtain ⟨item, hitem, hspec⟩ := hnext.origin d (mem_append_right _ hd)
    exact ⟨item, hnext.pending item hitem, hspec⟩
  · obtain ⟨path, hshowing⟩ := hopening.received sha arrivals
    refine ⟨path, hshowing.linked, fun d hd => ⟨?_, hshowing.shown d hd⟩, hshowing.only⟩
    obtain ⟨item, hitem, hspec⟩ := hshowing.origin d hd
    exact ⟨item, hshowing.pending item hitem, hspec⟩
  · intro chain hchain
    obtain ⟨path, hshowing⟩ := hopening.received sha arrivals
    constructor
    · exact hchain.identified_of_showsLast hshowing
    · exact fun h => hchain.showsLast hopening h.1 h.2

/-! ## Two deltas of one identity -/

def methodDelta (previous produced : Nat) (hproduced : produced ≤ Text.maxUint64)
    (value kind : String) (executionShard : String) : StateDeltaApplyRequest :=
  { key := "k", value := value, homeShard := "s0", executionShard :=
    executionShard, deltaKind := kind,
    applyOrigin := methodPreservingVersionedRemoteHomeOrigin, previousVersion := previous,
    producedVersion := produced, producedVersion_le := hproduced }

/-- The fields of two deltas join to the same text, so the second one is taken for a repetition. -/
theorem visibility_stuck :
    let first := methodDelta 0 1 (by decide) "A" "x" "y|false|0|1|2|false|s0|"
    let second := methodDelta 1 2 (by decide) "B" "x|false|0|0|1|false|s0|y" ""
    ChainArrived State.plainSha emptyHome "k" [first, second] [first, second] ∧
      (emptyHome.received State.plainSha [first, second]).visible "k" = 1 ∧
      ¬ ShowsLast (emptyHome.received State.plainSha [first, second]) "k" [first, second] := by
  refine ⟨?_, by decide +kernel, ?_⟩
  · exact
      { nonempty := by simp
        method := by decide
        versioned := by decide
        of_key := by decide
        home := by decide
        linked := ⟨2, .cons rfl (by decide) (.cons rfl (by decide) (.nil 2))⟩
        unapplied := fun d _ => rfl
        unpublished := fun v _ => rfl
        complete := fun d hd => hd
        only := fun d hd => hd }
  · rintro ⟨d, hd, hvisible, -⟩
    obtain rfl := Option.some.inj hd.symm
    revert hvisible
    decide +kernel

theorem visibility_out_of_order : ShowsLast (emptyHome.received State.plainSha
      [methodDelta 1 2 (by decide) "B" "x" "s1", methodDelta 0 1 (by decide) "A" "x" "s1",
        methodDelta 1 2 (by decide) "B" "x" "s1"]) "k"
      [methodDelta 0 1 (by decide) "A" "x" "s1", methodDelta 1 2 (by decide) "B" "x" "s1"] := by
  have hopening : Opening emptyHome "k" := ⟨rfl, fun k => rfl, by decide⟩
  refine ((visibility_follows_chain State.plainSha hopening _).2.2 _ ?_).2 ⟨by decide, ?_⟩
  · exact
      { nonempty := by simp
        method := by decide
        versioned := by decide
        of_key := by decide
        home := by decide
        linked := ⟨2, .cons rfl (by decide) (.cons rfl (by decide) (.nil 2))⟩
        unapplied := fun d _ => rfl
        unpublished := fun v _ => rfl
        complete := by decide
        only := by decide }
  · unfold Identified
    decide +kernel

end ChainLab.Home
