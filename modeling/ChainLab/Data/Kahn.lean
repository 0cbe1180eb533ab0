import Mathlib
import ChainLab.Data.GoMap

/-!
# Topological orders by counting arcs

Kahn's algorithm orders the vertices of a graph: a vertex is ready when no arc into it comes from a
vertex that is still to be ordered.  The algorithm keeps the number of these arcs for each vertex,
orders a ready vertex (`Inv.pop`) and then takes its arcs off the counts one by one (`Inv.relax`).
Arcs may be parallel.  `Inv` holds between any two of these steps, so it serves every way to choose
among the ready vertices; `loop` is the usual one, with the choice as a parameter, and `layers`
orders all ready vertices at once.
-/

namespace ChainLab.Kahn

open List GoMap Relation

variable {α : Type} [DecidableEq α]

/-- The number of arcs into `v` from vertices that are not ordered. -/
def pending (vertices : List α) (succ : α → List α) (ordered : List α) (v : α) : Nat :=
  ((vertices.filter (· ∉ ordered)).map fun u => (succ u).count v).sum

structure Topological (vertices : List α) (succ : α → List α) (ordered : List α) : Prop where
  closed : ∀ u ∈ vertices, ∀ v ∈ succ u, v ∈ ordered → u ∈ ordered
  pairwise : ordered.Pairwise fun i j => i ∉ succ j

/-- The state between two steps: `todo` are the arcs of ordered vertices that are still counted. -/
structure Inv (vertices : List α) (succ : α → List α) (degree : α → Nat)
    (todo ready ordered : List α) : Prop where
  mem : ∀ v ∈ ordered ++ ready, v ∈ vertices
  distinct : (ordered ++ ready).Nodup
  fresh : ∀ v ∈ todo, v ∈ vertices ∧ v ∉ ordered
  degree_eq : ∀ v ∈ vertices, v ∉ ordered →
    degree v = pending vertices succ ordered v + todo.count v
  ready_iff : ∀ v ∈ vertices, v ∉ ordered → (v ∈ ready ↔ degree v = 0)
  topological : Topological vertices succ ordered

/-! ## Counting -/

section

variable {vertices : List α} {succ : α → List α} {ordered : List α} {u v : α}

lemma pending_nil : pending vertices succ [] v = (vertices.map fun u => (succ u).count v).sum := by
  simp [pending]

lemma mem_ordered_of_pending (h : pending vertices succ ordered v = 0) (hu : u ∈ vertices)
    (hv : v ∈ succ u) : u ∈ ordered := by
  by_contra hnot
  have hcount : (succ u).count v = 0 := by
    refine List.sum_eq_zero_iff_forall_eq_nat.1 h _ ?_
    exact mem_map.2 ⟨u, mem_filter.2 ⟨hu, by simpa using hnot⟩, rfl⟩
  exact count_eq_zero.1 hcount hv

lemma pending_append (hnd : vertices.Nodup) (hu : u ∈ vertices) (hnot : u ∉ ordered) (v : α) :
    pending vertices succ ordered v = (succ u).count v +
      pending vertices succ (ordered ++ [u]) v := by
  have hperm :
      (vertices.filter (· ∉ ordered)).Perm (u :: vertices.filter (· ∉ ordered ++ [u])) := by
    refine (perm_ext_iff_of_nodup (hnd.filter _) ?_).2 fun w => ?_
    · refine nodup_cons.2 ⟨?_, hnd.filter _⟩
      simp
    · by_cases hwu : w = u
      · simp [hwu, hu, hnot]
      · simp [hwu]
  have hsum := (hperm.map fun u => (succ u).count v).sum_nat
  simpa [pending] using hsum

end

/-! ## Steps -/

section

variable {vertices : List α} {succ : α → List α} {degree : α → Nat}
    {todo ready rest ordered : List α}
  {v : α}

lemma Inv.mem_of_ready (h : Inv vertices succ degree todo ready ordered) (hv : v ∈ ready) {u : α}
    (hu : u ∈ vertices) (harc : v ∈ succ u) : u ∈ ordered := by
  have hdisjoint := nodup_append.1 h.distinct
  have hmem : v ∈ vertices := h.mem v (mem_append_right _ hv)
  have hnot : v ∉ ordered := fun hin => hdisjoint.2.2 v hin v hv rfl
  have hzero := (h.ready_iff v hmem hnot).1 hv
  rw [h.degree_eq v hmem hnot] at hzero
  exact mem_ordered_of_pending (Nat.add_eq_zero_iff.1 hzero).1 hu harc

variable {ready' : List α}

lemma Inv.of_ready_perm (h : Inv vertices succ degree todo ready ordered)
    (hperm : ready.Perm ready') : Inv vertices succ degree todo ready' ordered where
  mem := fun v hv => h.mem v ((hperm.append_left ordered).mem_iff.2 hv)
  distinct := (hperm.append_left ordered).nodup_iff.1 h.distinct
  __ := h
  ready_iff := fun v hv hnot => hperm.mem_iff.symm.trans (h.ready_iff v hv hnot)

lemma Inv.pop (hnd : vertices.Nodup) (hsucc : ∀ u ∈ vertices, ∀ c ∈ succ u, c ∈ vertices)
    (h : Inv vertices succ degree todo ready ordered) (hpop : ready.Perm (v :: rest)) :
    Inv vertices succ degree (todo ++ succ v) rest (ordered ++ [v]) := by
  have hv : v ∈ ready := hpop.symm.subset mem_cons_self
  have hmem : v ∈ vertices := h.mem v (mem_append_right _ hv)
  have hdist : (ordered ++ (v :: rest)).Nodup := (hpop.append_left ordered).nodup_iff.1 h.distinct
  have hnot : v ∉ ordered := by
    intro hin
    exact (nodup_append.1 hdist).2.2 v hin v mem_cons_self rfl
  have hpred : ∀ u ∈ vertices, v ∈ succ u → u ∈ ordered := fun u => h.mem_of_ready hv
  have hzero : degree v = 0 := (h.ready_iff v hmem hnot).1 hv
  have htodo : v ∉ todo := by
    rw [h.degree_eq v hmem hnot] at hzero
    exact count_eq_zero.1 (Nat.add_eq_zero_iff.1 hzero).2
  refine ⟨?_, by simpa using hdist, ?_, ?_, ?_, ?_, ?_⟩
  · intro u hu
    refine h.mem u ?_
    have hu' : u ∈ ordered ++ (v :: rest) := by simpa using hu
    exact (hpop.append_left ordered).symm.subset hu'
  · intro c hc
    rcases mem_append.1 hc with hc | hc
    · refine ⟨(h.fresh c hc).1, ?_⟩
      intro hin
      rcases mem_append.1 hin with hin | hin
      · exact (h.fresh c hc).2 hin
      · exact htodo (mem_singleton.1 hin ▸ hc)
    · refine ⟨hsucc v hmem c hc, ?_⟩
      intro hin
      rcases mem_append.1 hin with hin | hin
      · exact hnot (h.topological.closed v hmem c hc hin)
      · have hcv : c = v := mem_singleton.1 hin
        exact hnot (hpred v hmem (hcv ▸ hc))
  · intro u hu hout
    have hout' : u ∉ ordered := fun hin => hout (mem_append_left _ hin)
    rw [h.degree_eq u hu hout', pending_append hnd hmem hnot, count_append]
    omega
  · intro u hu hout
    have hne : u ≠ v := fun he => hout (he ▸ by simp)
    rw [← h.ready_iff u hu fun hin => hout (mem_append_left _ hin), hpop.mem_iff]
    simp [hne]
  · intro u hu c hc hin
    rcases mem_append.1 hin with hin | hin
    · exact mem_append_left _ (h.topological.closed u hu c hc hin)
    · have hcv : c = v := mem_singleton.1 hin
      exact mem_append_left _ (hpred u hu (hcv ▸ hc))
  · refine pairwise_append.2 ⟨h.topological.pairwise, pairwise_singleton _ _, ?_⟩
    intro i hi j hj hij
    have hjv : j = v := mem_singleton.1 hj
    exact hnot (h.topological.closed v hmem i (hjv ▸ hij) hi)

lemma Inv.relax {degree' : α → Nat} (h : Inv vertices succ degree (v :: todo) ready ordered)
    (hself : degree' v = degree v - 1) (hother : ∀ u, u ≠ v → degree' u = degree u)
    (hready : ready'.Perm (if degree v - 1 = 0 then v :: ready else ready)) :
    Inv vertices succ degree' todo ready' ordered := by
  obtain ⟨hmem, hnot⟩ := h.fresh v mem_cons_self
  have hdegree : degree v = pending vertices succ ordered v + todo.count v + 1 := by
    rw [h.degree_eq v hmem hnot, count_cons_self]
    omega
  have hunready : v ∉ ready := by
    intro hin
    have hzero := (h.ready_iff v hmem hnot).1 hin
    omega
  refine ⟨?_, ?_, fun c hc => h.fresh c (mem_cons_of_mem v hc), ?_, ?_, h.topological⟩
  · intro u hu
    rcases mem_append.1 hu with hu | hu
    · exact h.mem u (mem_append_left _ hu)
    have hu' := hready.subset hu
    split at hu'
    · rcases mem_cons.1 hu' with rfl | hu'
      · exact hmem
      · exact h.mem u (mem_append_right _ hu')
    · exact h.mem u (mem_append_right _ hu')
  · rw [(hready.append_left ordered).nodup_iff]
    split
    · rw [nodup_middle]
      refine nodup_cons.2 ⟨?_, h.distinct⟩
      simp [hnot, hunready]
    · exact h.distinct
  · intro u hu hout
    by_cases huv : u = v
    · subst huv
      omega
    · rw [hother u huv, h.degree_eq u hu hout, count_cons_of_ne (Ne.symm huv)]
  · intro u hu hout
    rw [hready.mem_iff]
    by_cases huv : u = v
    · subst huv
      rw [hself]
      by_cases hz : degree u - 1 = 0
      · simp [hz]
      · simp [hz, hunready]
    · rw [hother u huv, ← h.ready_iff u hu hout]
      split
      · simp [huv]
      · exact Iff.rfl

lemma Inv.perm_of_length (h : Inv vertices succ degree todo ready ordered)
    (hlength : ordered.length = vertices.length) : ordered.Perm vertices := by
  have hdist : ordered.Nodup := (nodup_append.1 h.distinct).1
  refine (subperm_of_subset hdist ?_).perm_of_length_le hlength.ge
  exact fun v hv => h.mem v (mem_append_left _ hv)

lemma Inv.length_le (h : Inv vertices succ degree todo ready ordered) :
    ordered.length + ready.length ≤ vertices.length := by
  rw [← length_append]
  exact (subperm_of_subset h.distinct fun v hv => h.mem v hv).length_le

end

/-! ## The algorithm -/

section

/-- One more arc into `c`. -/
def countArc (degree : GoMap α Nat) (c : α) : GoMap α Nat :=
  degree.put c (degree.get c + 1)

def indegrees (vertices : List α) (succ : α → List α) : GoMap α Nat :=
  vertices.foldl (fun degree u => (succ u).foldl countArc degree) ∅

lemma get_foldl_countArc (l : List α) (degree : GoMap α Nat) (v : α) :
    (l.foldl countArc degree).get v = degree.get v + l.count v := by
  induction l generalizing degree with
  | nil => rfl
  | cons c l ih =>
    rw [foldl_cons, ih, countArc, get_put]
    by_cases hvc : v = c
    · subst hvc
      simp [Nat.add_assoc, Nat.add_comm]
    · rw [if_neg hvc, count_cons_of_ne (Ne.symm hvc)]

lemma get_indegrees (vertices : List α) (succ : α → List α) (v : α) :
    (indegrees vertices succ).get v = (vertices.map fun u => (succ u).count v).sum := by
  suffices h : ∀ (l : List α) (degree : GoMap α Nat),
      (l.foldl (fun degree u => (succ u).foldl countArc degree) degree).get v =
        degree.get v + (l.map fun u => (succ u).count v).sum by
    have hall := h vertices ∅
    simpa [indegrees] using hall
  intro l
  induction l with
  | nil => simp
  | cons u l ih =>
    intro degree
    rw [foldl_cons, ih, get_foldl_countArc, map_cons, sum_cons]
    omega

variable {ordered ready todo : List α} {degree : GoMap α Nat}

lemma Inv.start {vertices : List α} {succ : α → List α} {degree : α → Nat}
    (hdegree : ∀ v ∈ vertices, degree v = (vertices.map fun u => (succ u).count v).sum)
    (hnd : ready.Nodup) (hready : ∀ v, v ∈ ready ↔ v ∈ vertices ∧ degree v = 0) :
    Inv vertices succ degree [] ready [] where
  mem := fun v hv => ((hready v).1 hv).1
  distinct := hnd
  fresh := by simp
  degree_eq := by
    intro v hv _
    rw [hdegree v hv, pending_nil, count_nil, Nat.add_zero]
  ready_iff := fun v hv _ => by simp [hready v, hv]
  topological := ⟨by simp, List.Pairwise.nil⟩

variable (pop : List α → Option (α × List α)) (push : α → List α → List α) (succ : α → List α)

def relax (s : GoMap α Nat × List α) (c : α) : GoMap α Nat × List α :=
  let degree := s.1.put c (s.1.get c - 1)
  (degree, if degree.get c = 0 then push c s.2 else s.2)

/-- Order ready vertices as long as there are any.  Each round orders a vertex, so as many rounds as
there are vertices suffice. -/
def loop : Nat → GoMap α Nat → List α → List α → List α
  | 0, _, _, ordered => ordered
  | rounds + 1, degree, ready, ordered =>
    match pop ready with
    | none => ordered
    | some (v, rest) =>
      let s := (succ v).foldl (relax push) (degree, rest)
      loop rounds s.1 s.2 (ordered ++ [v])

variable {pop push succ} {vertices : List α}

lemma inv_relax (hpush : ∀ c ready, (push c ready).Perm (c :: ready)) {c : α}
    (h : Inv vertices succ degree.get (c :: todo) ready ordered) :
    Inv vertices succ (relax push (degree, ready) c).1.get todo (relax push (degree, ready) c).2
      ordered := by
  refine h.relax ?_ ?_ ?_
  · simp [Kahn.relax, get_put]
  · intro u hu
    simp [Kahn.relax, get_put, hu]
  · simp only [Kahn.relax, get_put, if_true]
    split
    · exact hpush c ready
    · exact List.Perm.refl _

lemma inv_foldl_relax (hpush : ∀ c ready, (push c ready).Perm (c :: ready))
    {s : GoMap α Nat × List α} (h : Inv vertices succ s.1.get todo s.2 ordered) :
    Inv vertices succ (todo.foldl (relax push) s).1.get []
    (todo.foldl (relax push) s).2 ordered := by
  induction todo generalizing s with
  | nil => exact h
  | cons c todo ih => exact ih (inv_relax hpush h)

lemma loop_inv (hnd : vertices.Nodup) (hsucc : ∀ u ∈ vertices, ∀ c ∈ succ u, c ∈ vertices)
    (hpop : ∀ ready v rest, pop ready = some (v, rest) → ready.Perm (v :: rest))
    (hnone : ∀ ready, pop ready = none → ready = [])
    (hpush : ∀ c ready, (push c ready).Perm (c :: ready)) {rounds : Nat}
    (h : Inv vertices succ degree.get [] ready ordered)
    (hrounds : vertices.length ≤ ordered.length + rounds) :
    ∃ degree' : α → Nat, Inv vertices succ degree' [] []
    (loop pop push succ rounds degree ready ordered) := by
  induction rounds generalizing degree ready ordered with
  | zero =>
    have hlen := h.length_le
    have hready : ready = [] := eq_nil_of_length_eq_zero (by omega)
    exact ⟨degree.get, by simpa [loop, hready] using h⟩
  | succ rounds ih =>
    cases hp : pop ready with
    | none =>
      simp only [loop, hp]
      exact ⟨degree.get, hnone ready hp ▸ h⟩
    | some entry =>
      obtain ⟨v, rest⟩ := entry
      have hnext :=
        inv_foldl_relax (s := (degree, rest)) hpush (h.pop hnd hsucc (hpop ready v rest hp))
      simp only [loop, hp]
      refine ih hnext ?_
      simp only [length_append, length_singleton]
      omega

end

/-! ## Layers -/

section

variable {vertices : List α} {succ : α → List α} {degree : α → Nat} {todo ready ordered : List α}

lemma Inv.popAll (hnd : vertices.Nodup) (hsucc : ∀ u ∈ vertices, ∀ c ∈ succ u, c ∈ vertices)
    (h : Inv vertices succ degree todo ready ordered) :
    Inv vertices succ degree (todo ++ ready.flatMap succ) [] (ordered ++ ready) := by
  induction ready generalizing todo ordered with
  | nil => simpa using h
  | cons v rest ih =>
    have hrest := ih (h.pop hnd hsucc (List.Perm.refl _))
    simpa [append_assoc] using hrest

def lower (ordered : List α) (degree : GoMap α Nat) (c : α) : GoMap α Nat :=
  if c ∈ ordered then degree else degree.put c (degree.get c - 1)

lemma Inv.foldl_lower {degree : GoMap α Nat} (h : Inv vertices succ degree.get todo ready ordered) :
    ∃ ready', Inv vertices succ (todo.foldl (lower ordered) degree).get [] ready' ordered := by
  induction todo generalizing degree ready with
  | nil => exact ⟨ready, h⟩
  | cons c todo ih =>
    have hnot : c ∉ ordered := (h.fresh c mem_cons_self).2
    have hlower : lower ordered degree c = degree.put c (degree.get c - 1) := if_neg hnot
    rw [foldl_cons, hlower]
    refine ih (h.relax ?_ ?_ (List.Perm.refl _))
    · simp [get_put]
    · intro u hu
      simp [get_put, hu]

/-- Order all ready vertices, layer after layer; no result if there are vertices left and none of
them is ready.  Each round orders a vertex, so as many rounds as there are vertices suffice. -/
def layers (vertices : List α) (succ : α → List α) : Nat → GoMap α Nat → List α →
    Option (List (List α))
  | 0, _, done => if done.length < vertices.length then none else some []
  | rounds + 1, degree, done =>
    if done.length < vertices.length then
      let ready := vertices.filter fun v => v ∉ done ∧ degree.get v = 0
      if ready = [] then none
      else
        (layers vertices succ rounds
          ((ready.flatMap succ).foldl (lower (done ++ ready)) degree) (done ++ ready)).map
            (ready :: ·)
    else some []

/-- Layers of all vertices, with the arcs from earlier to later layers. -/
structure Layered (vertices : List α) (succ : α → List α) (ordered : List α)
    (found : List (List α)) :
    Prop where
  perm : (ordered ++ found.flatten).Perm vertices
  topological : Topological vertices succ (ordered ++ found.flatten)
  apart : ∀ layer ∈ found, ∀ i ∈ layer, ∀ j ∈ layer, j ∉ succ i

lemma layers_spec (hnd : vertices.Nodup) (hsucc : ∀ u ∈ vertices, ∀ c ∈ succ u, c ∈ vertices)
    {rounds : Nat} {degree : GoMap α Nat} {found : List (List α)}
    (h : Inv vertices succ degree.get [] ready ordered)
    (hfound : layers vertices succ rounds degree ordered = some found) :
    Layered vertices succ ordered found := by
  have hdone : ordered.length ≥ vertices.length → Layered vertices succ ordered [] := by
    intro hlength
    have hle := h.length_le
    refine ⟨?_, by simpa using h.topological, by simp⟩
    simpa using h.perm_of_length (by omega)
  induction rounds generalizing degree ordered ready found with
  | zero =>
    simp only [layers] at hfound
    split at hfound
    next => cases hfound
    next hlength =>
      cases hfound
      exact hdone (by omega)
  | succ rounds ih =>
    simp only [layers] at hfound
    split at hfound
    next =>
      split at hfound
      next => cases hfound
      next =>
        obtain ⟨rest, hrest, rfl⟩ := Option.map_eq_some_iff.1 hfound
        -- the ready vertices of the invariant are those that the round finds
        have hperm : ready.Perm (vertices.filter fun v => v ∉ ordered ∧ degree.get v = 0) := by
          have hdist := nodup_append.1 h.distinct
          refine (perm_ext_iff_of_nodup hdist.2.1 (hnd.filter _)).2 fun v => ?_
          simp only [mem_filter, decide_eq_true_eq]
          constructor
          · intro hv
            have hmem := h.mem v (mem_append_right _ hv)
            have hnot : v ∉ ordered := fun hin => hdist.2.2 v hin v hv rfl
            exact ⟨hmem, hnot, (h.ready_iff v hmem hnot).1 hv⟩
          · rintro ⟨hmem, hnot, hzero⟩
            exact (h.ready_iff v hmem hnot).2 hzero
        have hround := h.of_ready_perm hperm
        have hpopped := hround.popAll hnd hsucc
        obtain ⟨ready', hnext⟩ := hpopped.foldl_lower
        have hlayered := ih hnext hrest fun hlength => by
          have hle := hnext.length_le
          refine ⟨?_, by simpa using hnext.topological, by simp⟩
          simpa using hnext.perm_of_length (by omega)
        refine ⟨by simpa using hlayered.perm, by simpa using hlayered.topological, ?_⟩
        refine forall_mem_cons.2 ⟨?_, hlayered.apart⟩
        intro i hi j hj harc
        -- a ready vertex has no predecessor that is ready as well
        have hin := hround.mem_of_ready hj (hround.mem i (mem_append_right _ hi)) harc
        exact (nodup_append.1 hround.distinct).2.2 i hin i hi rfl
    next hlength =>
      cases hfound
      exact hdone (by omega)

end

/-! ## Cycles -/

end ChainLab.Kahn
