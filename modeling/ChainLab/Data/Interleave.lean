import ChainLab.Data.Run

/-!
# Threads that share a world

A thread makes calls and goes on with their results.  Threads run at places; a call is atomic, and
between two calls of one thread any number of calls of others may happen.  `Safe` is the rule for a
single thread, in the manner of rely and guarantee: before each call the world may have moved on by
what the thread relies on, and there it has to meet the precondition of the call.  If every call
keeps the invariant and what the others rely on, a pool of safe threads stays sound
(`sound_resume`).
-/

namespace ChainLab.Interleave

/-- A thread that is to return an `α`: it makes a call and goes on with the result. -/
inductive Thread (Op : Type) (Res : Op → Type) (α : Type) where
  | done (a : α)
  | call (op : Op) (next : Res op → Thread Op Res α)

namespace Thread

variable {Op : Type} {Res : Op → Type} {α β : Type}

def bind : Thread Op Res α → (α → Thread Op Res β) → Thread Op Res β
  | .done a, f => f a
  | .call op next, f => .call op fun res => (next res).bind f

instance : Monad (Thread Op Res) where
  pure := .done
  bind := bind

/-- A single call, as a thread that returns its result. -/
def make (op : Op) : Thread Op Res (Res op) := .call op .done

@[simp] lemma pure_eq (a : α) : (pure a : Thread Op Res α) = .done a := rfl

@[simp] lemma done_bind (a : α) (f : α → Thread Op Res β) : (Thread.done a >>= f) = f a := rfl

@[simp] lemma make_bind (op : Op) (f : Res op → Thread Op Res β) : (make op >>= f) = .call op f :=
    rfl

/-- The call that the thread makes next. -/
def op? : Thread Op Res α → Option Op
  | .done _ => none
  | .call op _ => some op

end Thread

/-- What the events start and what the calls do. -/
structure System (Place World Event Op : Type) (Res : Op → Type) where
  handler : Place → Event → Thread Op Res Unit
  exec : Place → (op : Op) → World → Res op × World

/-- The world and the threads at each place; a thread that has ended stays in its place. -/
structure Pool (Place World Op : Type) (Res : Op → Type) where
  world : World
  threads : Place → List (Thread Op Res Unit)

/-- Start a thread for an event, or let thread number `k` of a place make its next call. -/
inductive Act (Place Event : Type) where
  | start (p : Place) (e : Event)
  | resume (p : Place) (k : Nat)
deriving DecidableEq

variable {Place World Event Op : Type} {Res : Op → Type}

namespace Pool

/-- The call that thread number `k` of a place makes next. -/
def op? (pool : Pool Place World Op Res) (p : Place) (k : Nat) : Option Op :=
  (pool.threads p)[k]?.bind Thread.op?

section

variable {pool : Pool Place World Op Res} {p : Place} {k : Nat} {op : Op}

lemma op?_eq_some (h : pool.op? p k = some op) :
    ∃ next, (pool.threads p)[k]? = some (.call op next) := by
  obtain ⟨t, ht, hop⟩ := Option.bind_eq_some_iff.1 h
  cases t with
  | done => cases hop
  | call op' next =>
    cases hop
    exact ⟨next, ht⟩

lemma op?_of_call {next : Res op → Thread Op Res Unit}
    (h : (pool.threads p)[k]? = some (.call op next)) : pool.op? p k = some op := by
  simp [op?, h, Thread.op?]

end

variable [DecidableEq Place]

def step (sys : System Place World Event Op Res) (pool : Pool Place World Op Res) :
    Act Place Event → Pool Place World Op Res
  | .start p e =>
    { pool with
      threads := Function.update pool.threads p (pool.threads p ++ [sys.handler p e]) }
  | .resume p k =>
    match (pool.threads p)[k]? with
    | some (.call op next) =>
      let made := sys.exec p op pool.world
      { world := made.2
        threads := Function.update pool.threads p ((pool.threads p).set k (next made.1)) }
    | _ => pool

variable {sys : System Place World Event Op Res} {pool : Pool Place World Op Res} {p q : Place}
  {t : Thread Op Res Unit}

lemma mem_threads_start {e : Event} (ht : t ∈ (pool.step sys (.start p e)).threads q) :
    t ∈ pool.threads q ∨ q = p ∧ t = sys.handler p e := by
  by_cases hq : q = p
  · subst hq
    simpa [step] using ht
  · simp only [step, Function.update_of_ne hq] at ht
    exact .inl ht

section Resume

variable {k : Nat} {op : Op} {next : Res op → Thread Op Res Unit}
  (hk : (pool.threads p)[k]? = some (.call op next))

include hk

lemma world_resume : (pool.step sys (.resume p k)).world = (sys.exec p op pool.world).2 := by
  simp [step, hk]

/-- After a call, a thread is one that did not move or the one that made the call. -/
lemma mem_threads_resume (ht : t ∈ (pool.step sys (.resume p k)).threads q) :
    (∃ j, (q, j) ≠ (p, k) ∧ (pool.threads q)[j]? = some t) ∨
      q = p ∧ t = next (sys.exec p op pool.world).1 := by
  obtain ⟨j, hj⟩ := List.mem_iff_getElem?.1 ht
  by_cases hq : q = p
  · subst hq
    simp only [step, hk, Function.update_self] at hj
    by_cases hjk : j = k
    · subst hjk
      rw [List.getElem?_set_self (List.getElem?_eq_some_iff.1 hk).1] at hj
      exact .inr ⟨rfl, (Option.some.inj hj).symm⟩
    · rw [List.getElem?_set_ne (Ne.symm hjk)] at hj
      exact .inl ⟨j, by simp [hjk], hj⟩
  · simp only [step, hk, Function.update_of_ne hq] at hj
    exact .inl ⟨j, by simp [hq], hj⟩

end Resume

lemma step_resume_of_done {k : Nat} (hk : pool.op? p k = none) :
    pool.step sys (.resume p k) = pool := by
  simp only [step]
  split
  · rename_i hcall
    simp [op?, hcall, Thread.op?] at hk
  · rfl

end Pool

/-! ## Safe threads -/

/-- What the threads of a pool may count on and have to keep.  `cond` is what the calls of the run
at hand are known to meet, over and above their preconditions. -/
structure Discipline (Place World Op : Type) where
  rely : Place → World → World → Prop
  refl : ∀ p w, rely p w w
  trans : ∀ {p w₁ w₂ w₃}, rely p w₁ w₂ → rely p w₂ w₃ → rely p w₁ w₃
  inv : World → Prop
  pre : Place → World → Op → Prop
  cond : Place → World → Op → Prop

section Safe

variable (sys : System Place World Event Op Res) (D : Discipline Place World Op) (p : Place)

/-- Wherever others have taken the world, the thread meets the precondition of its next call and is
safe after it. -/
def Safe {α : Type} (Q : World → α → Prop) : World → Thread Op Res α → Prop
  | w, .done a => Q w a
  | w, .call op next => ∀ w', D.rely p w w' → D.inv w' → D.pre p w' op ∧
      (D.cond p w' op → D.inv (sys.exec p op w').2 →
        Safe Q (sys.exec p op w').2 (next (sys.exec p op w').1))

variable {sys D p} {α β : Type} {w w' : World}

lemma safe_bind {Q : World → α → Prop} {Q' : World → β → Prop} {t : Thread Op Res α}
    {f : α → Thread Op Res β} (h : Safe sys D p Q w t)
    (hf : ∀ w a, Q w a → Safe sys D p Q' w (f a)) : Safe sys D p Q' w (t >>= f) := by
  induction t generalizing w with
  | done a => exact hf w a h
  | call op next ih =>
    intro w' hrely hinv
    obtain ⟨hpre, hnext⟩ := h w' hrely hinv
    exact ⟨hpre, fun hcond hinv' => ih _ (hnext hcond hinv')⟩

/-- A thread that is still safe where the others have taken the world. -/
lemma Safe.mono {t : Thread Op Res Unit} (h : Safe sys D p (fun _ _ => True) w t)
    (hrely : D.rely p w w') : Safe sys D p (fun _ _ => True) w' t := by
  cases t with
  | done => trivial
  | call op next => exact fun w'' hrely' => h w'' (D.trans hrely hrely')

end Safe

/-! ## Pools of safe threads -/

section Pools

variable (sys : System Place World Event Op Res) (D : Discipline Place World Op)

/-- The invariant holds and every thread is safe. -/
structure Sound (pool : Pool Place World Op Res) : Prop where
  inv : D.inv pool.world
  safe : ∀ p, ∀ t ∈ pool.threads p, Safe sys D p (fun _ _ => True) pool.world t

variable {sys D} {pool : Pool Place World Op Res} {p : Place}

variable [DecidableEq Place]

lemma sound_start (h : Sound sys D pool) {e : Event}
    (hsafe : Safe sys D p (fun _ _ => True) pool.world (sys.handler p e)) :
    Sound sys D (pool.step sys (.start p e)) := by
  refine ⟨h.inv, fun q t ht => ?_⟩
  rcases Pool.mem_threads_start ht with hold | ⟨rfl, rfl⟩
  · exact h.safe q t hold
  · exact hsafe

/-- A call keeps a pool sound if it keeps the invariant and what the unfinished threads rely on. -/
lemma sound_resume (h : Sound sys D pool) {k : Nat}
    (hcall : ∀ op, pool.op? p k = some op → D.pre p pool.world op → D.cond p pool.world op ∧
      D.inv (sys.exec p op pool.world).2 ∧ ∀ q j, (q, j) ≠ (p, k) → pool.op? q j ≠ none →
        D.rely q pool.world (sys.exec p op pool.world).2) :
    Sound sys D (pool.step sys (.resume p k)) := by
  cases hop : pool.op? p k with
  | none => rwa [Pool.step_resume_of_done hop]
  | some op =>
    obtain ⟨next, hk⟩ := Pool.op?_eq_some hop
    obtain ⟨hpre, hnext⟩ := h.safe p _ (List.mem_of_getElem? hk) pool.world (D.refl p _) h.inv
    obtain ⟨hcond, hinv, hothers⟩ := hcall op hop hpre
    refine ⟨by rwa [Pool.world_resume hk], fun q t ht => ?_⟩
    rw [Pool.world_resume hk]
    rcases Pool.mem_threads_resume hk ht with ⟨j, hne, hj⟩ | ⟨rfl, rfl⟩
    · -- the threads that did not move rely on no more than the call keeps
      have hsafe := h.safe q t (List.mem_of_getElem? hj)
      cases t with
      | done => trivial
      | call op' next' => exact hsafe.mono (hothers q j hne (by simp [Pool.op?_of_call hj]))
    · exact hnext hcond hinv

end Pools

end ChainLab.Interleave
