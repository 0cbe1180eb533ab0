import Mathlib.Data.List.Basic
import Mathlib.Logic.Relation

/-!
# Worker pools

A dispatcher hands the tasks of a batch to a bounded channel, in order, and waits.  Workers take
tasks from the channel and write each result into the slot of its task.  Which worker acts next is
free. When the dispatcher goes on, every slot has the result of its task (`completes_iff`), whatever
the interleaving was; and no interleaving gets stuck (`exists_step`) or goes on forever
(`work_step`).
-/

namespace ChainLab.WorkerPool

open List

variable {τ β : Type}

structure State (β : Type) where
  /-- The tasks that were handed to the channel so far. -/
  sent : Nat
  jobs : List Nat
  busy : List Nat
  results : List (Option β)

section Pool

variable (run : τ → β) (tasks : List τ) (workers : Nat)

def start : State β where
  sent := 0
  jobs := []
  busy := []
  results := List.replicate tasks.length none

inductive Step : State β → State β → Prop where
  | send {s : State β} : s.sent < tasks.length → s.jobs.length < workers →
      Step s { s with sent := s.sent + 1, jobs := s.jobs ++ [s.sent] }
  | take {s : State β} {i : Nat} {jobs : List Nat} : s.jobs = i :: jobs → s.busy.length < workers →
      Step s { s with jobs := jobs, busy := i :: s.busy }
  | finish {s : State β} {i : Nat} {task : τ} : i ∈ s.busy → tasks[i]? = some task →
      Step s { s with busy := s.busy.erase i, results := s.results.set i (some (run task)) }

def Done (s : State β) : Prop :=
  s.sent = tasks.length ∧ s.jobs = [] ∧ s.busy = []

abbrev Reachable (s : State β) : Prop :=
  Relation.ReflTransGen (Step run tasks workers) (start tasks) s

def Completes (results : List β) : Prop :=
  ∃ s, Reachable run tasks workers s ∧ Done tasks s ∧ s.results = results.map some

end Pool

variable {run : τ → β} {tasks : List τ} {workers : Nat} {s t : State β}

/-! ## Results -/

/-- Every task is still to be sent, under way, or has its result. -/
structure Inv (run : τ → β) (tasks : List τ) (s : State β) : Prop where
  length : s.results.length = tasks.length
  sent : s.sent ≤ tasks.length
  jobs : ∀ i ∈ s.jobs, i < tasks.length
  busy : ∀ i ∈ s.busy, i < tasks.length
  result : ∀ i task, tasks[i]? = some task → i < s.sent → i ∉ s.jobs → i ∉ s.busy →
    s.results[i]? = some (some (run task))

lemma Inv.start : Inv run tasks (start tasks) where
  length := by simp [WorkerPool.start]
  sent := Nat.zero_le _
  jobs := by simp [WorkerPool.start]
  busy := by simp [WorkerPool.start]
  result := by simp [WorkerPool.start]

lemma Inv.step (h : Inv run tasks s) (hstep : Step run tasks workers s t) : Inv run tasks t := by
  cases hstep with
  | send hsent hroom =>
    refine ⟨h.length, hsent, ?_, h.busy, ?_⟩
    · exact forall_mem_append.2 ⟨h.jobs, forall_mem_singleton.2 hsent⟩
    · intro i task htask hi hjobs hbusy
      simp only [mem_append, mem_singleton, not_or] at hjobs
      have hlt : i < s.sent := Nat.lt_of_le_of_ne (Nat.lt_succ_iff.1 hi) hjobs.2
      exact h.result i task htask hlt hjobs.1 hbusy
  | @take i rest hjobs hfree =>
    have hmem : ∀ j ∈ rest, j ∈ s.jobs := fun j hj => hjobs ▸ mem_cons_of_mem i hj
    refine ⟨h.length, h.sent, fun j hj => h.jobs j (hmem j hj), ?_, ?_⟩
    · intro j hj
      rcases mem_cons.1 hj with rfl | hj
      · exact h.jobs j (hjobs ▸ mem_cons_self)
      · exact h.busy j hj
    · intro j task htask hj hrest hbusy
      simp only [mem_cons, not_or] at hbusy
      refine h.result j task htask hj ?_ hbusy.2
      rw [hjobs]
      simp [hbusy.1, hrest]
  | @finish i task hi htask =>
    refine ⟨by simp [h.length], h.sent, h.jobs, fun j hj => h.busy j (mem_of_mem_erase hj), ?_⟩
    intro j other hother hj hjobs hbusy
    by_cases hji : j = i
    · subst hji
      have hlt : j < s.results.length := h.length.symm ▸ h.busy j hi
      have hsame : other = task := Option.some.inj (hother.symm.trans htask)
      simp [hlt, hsame]
    · have hnot : j ∉ s.busy := fun hmem => hbusy ((mem_erase_of_ne hji).2 hmem)
      simpa [getElem?_set, Ne.symm hji] using h.result j other hother hj hjobs hnot

lemma inv_of_reachable (h : Reachable run tasks workers s) : Inv run tasks s := by
  induction h with
  | refl => exact .start
  | tail _ hstep ih => exact ih.step hstep

lemma Inv.results_eq (h : Inv run tasks s) (hdone : Done tasks s) :
    s.results = (tasks.map run).map some := by
  apply ext_getElem?
  intro i
  cases htask : tasks[i]? with
  | none =>
    have hlen : tasks.length ≤ i := getElem?_eq_none_iff.1 htask
    have hnone : s.results[i]? = none := getElem?_eq_none_iff.2 (h.length.symm ▸ hlen)
    simp [hnone, htask]
  | some task =>
    have hlt : i < tasks.length := (List.getElem?_eq_some_iff.1 htask).1
    have hresult :=
      h.result i task htask (hdone.1.symm ▸ hlt) (by simp [hdone.2.1]) (by simp [hdone.2.2])
    simp [hresult, htask]

/-! ## Progress -/

def work (tasks : List τ) (s : State β) : Nat :=
  3 * (tasks.length - s.sent) + 2 * s.jobs.length + s.busy.length

lemma work_step (hstep : Step run tasks workers s t) : work tasks t < work tasks s := by
  cases hstep with
  | send hsent hroom =>
    simp only [work, length_append, length_singleton]
    omega
  | take hjobs hfree =>
    simp only [work, hjobs, length_cons]
    omega
  | finish hi htask =>
    have hlen := length_erase_of_mem hi
    have hpos : 0 < s.busy.length := length_pos_of_mem hi
    simp only [work, hlen]
    omega

lemma exists_step (hworkers : 0 < workers) (h : Inv run tasks s) (hdone : ¬ Done tasks s) :
    ∃ t, Step run tasks workers s t := by
  -- a busy worker can finish; if all are idle, one of them can take a job; else there is room
  cases hbusy : s.busy with
  | cons i rest =>
    have hi : i ∈ s.busy := hbusy ▸ mem_cons_self
    exact ⟨_, .finish hi (getElem?_eq_getElem (h.busy i hi))⟩
  | nil =>
    cases hjobs : s.jobs with
    | cons i rest => exact ⟨_, .take hjobs (by simpa [hbusy] using hworkers)⟩
    | nil =>
      have hsent : s.sent < tasks.length :=
        Nat.lt_of_le_of_ne h.sent fun he => hdone ⟨he, hjobs, hbusy⟩
      exact ⟨_, .send hsent (by simpa [hjobs] using hworkers)⟩

lemma exists_done (hworkers : 0 < workers) (h : Reachable run tasks workers s) :
    ∃ t, Reachable run tasks workers t ∧ Done tasks t := by
  -- every step leaves less work, so following the steps leads to the end
  induction hwork : work tasks s using Nat.strongRecOn generalizing s with
  | _ n ih =>
    by_cases hdone : Done tasks s
    · exact ⟨s, h, hdone⟩
    · obtain ⟨t, hstep⟩ := exists_step hworkers (inv_of_reachable h) hdone
      exact ih (work tasks t) (hwork ▸ work_step hstep) (h.tail hstep) rfl

lemma completes_iff (hworkers : 0 < workers) {results : List β} :
    Completes run tasks workers results ↔ results = tasks.map run := by
  constructor
  · rintro ⟨s, hreach, hdone, hres⟩
    have heq := (inv_of_reachable hreach).results_eq hdone
    exact map_injective_iff.2 (fun _ _ => Option.some.inj) (hres.symm.trans heq)
  · rintro rfl
    obtain ⟨s, hreach, hdone⟩ : ∃ t, Reachable run tasks workers t ∧ Done tasks t :=
      exists_done hworkers Relation.ReflTransGen.refl
    exact ⟨s, hreach, hdone, (inv_of_reachable hreach).results_eq hdone⟩

end ChainLab.WorkerPool
