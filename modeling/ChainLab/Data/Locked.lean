import ChainLab.Data.Keyed

/-!
# Concurrent calls under locks

Several calls change one store.  They wait in a queue, and each of a number of workers takes the
first one when it is free.  A call takes the locks of its keys one by one, applies its changes, puts
back what it has overwritten if one of them fails, and gives up its locks.  The steps of different
calls interleave freely.

The outcomes are those of the calls one by one, in an order in which no call is overtaken by more
calls than there are other workers.
-/

namespace ChainLab.Keyed

open Function (update_of_ne update_self)
open List Relation

inductive Phase (K V M E : Type) where
  | queued
  | acquiring (held todo : List K)
  | applying (backups : List (K × Option V)) (todo : List M)
  | restoring (backups : List (K × Option V)) (err : E)
  | releasing (held : List K) (failure : Option E)

variable {K V M E : Type} {n : Nat}

namespace Phase

def Holds (locks : List K) : Phase K V M E → K → Prop
  | .queued, _ => False
  | .acquiring held _, k => k ∈ held
  | .applying _ _, k => k ∈ locks
  | .restoring _ _, k => k ∈ locks
  | .releasing held _, k => k ∈ held

def Working : Phase K V M E → Prop
  | .applying _ _ | .restoring _ _ => True
  | .queued | .acquiring _ _ | .releasing _ _ => False

/-- A worker is busy with the call. -/
def Busy : Phase K V M E → Bool
  | .queued | .releasing [] _ => false
  | _ => true

end Phase

structure Machine (K V M E : Type) (n : Nat) where
  objects : Store K V
  phase : Fin n → Phase K V M E
  finished : List (Fin n)

/-! ## Steps -/

section

variable [DecidableEq K]

def restore (objects : Store K V) (k : K) : Option V → Store K V
  | some v => objects.insert k v
  | none => objects.erase k

def note (backups : List (K × Option V)) (k : K) (v : Option V) : List (K × Option V) :=
  if k ∈ backups.map Prod.fst then backups else (k, v) :: backups

namespace Machine

def busy (s : Machine K V M E n) : Finset (Fin n) :=
  Finset.univ.filter fun i => (s.phase i).Busy

omit [DecidableEq K] in
@[simp] lemma mem_busy {s : Machine K V M E n} {i : Fin n} : i ∈ s.busy ↔
    (s.phase i).Busy = true := by
  simp [busy]

def setPhase (s : Machine K V M E n) (i : Fin n) (p : Phase K V M E) : Machine K V M E n :=
  { s with phase := Function.update s.phase i p }

omit [DecidableEq K] in
@[simp] lemma setPhase_setPhase {s : Machine K V M E n} {i : Fin n} (p p' : Phase K V M E) :
    (s.setPhase i p).setPhase i p' = s.setPhase i p' := by
  simp [setPhase]

omit [DecidableEq K] in
@[simp] lemma setPhase_phase {s : Machine K V M E n} {i : Fin n} (p : Phase K V M E) :
    (s.setPhase i p).phase i = p := by
  simp [setPhase]

/-- Call `i` finishes. -/
def finish (s : Machine K V M E n) (i : Fin n) (locks : List K) (failure : Option E) :
    Machine K V M E n :=
  { s.setPhase i (.releasing locks failure) with finished := s.finished ++ [i] }

end Machine

variable (ops : Keyed K V M E) (locks : List M → List K) (calls : Fin n → List M) (workers : Nat)

def Free (s : Machine K V M E n) (k : K) : Prop :=
  ∀ j, ¬ (s.phase j).Holds (locks (calls j)) k

/-- A worker that is free takes the first call of the queue. -/
inductive Step : Machine K V M E n → Machine K V M E n → Prop where
  | take {s : Machine K V M E n} {i : Fin n} :
      s.phase i = .queued → (∀ j < i, s.phase j ≠ .queued) → s.busy.card < workers →
      Step s (s.setPhase i (.acquiring [] (locks (calls i))))
  | acquire {s : Machine K V M E n} {i : Fin n} {k : K} {held todo : List K} :
      s.phase i = .acquiring held (k :: todo) → Free locks calls s k →
      Step s (s.setPhase i (.acquiring (k :: held) todo))
  | start {s : Machine K V M E n} {i : Fin n} {held : List K} :
      s.phase i = .acquiring held [] → Step s (s.setPhase i (.applying [] (calls i)))
  | modify {s : Machine K V M E n} {i : Fin n} {backups : List (K × Option V)} {m : M}
      {todo : List M} {v : V} :
      s.phase i = .applying backups (m :: todo) →
      ops.step m (s.objects.lookup (ops.key m)) = .ok v →
      Step s { s.setPhase i
        (.applying (note backups (ops.key m) (s.objects.lookup (ops.key m))) todo) with
        objects := s.objects.insert (ops.key m) v }
  | conflict {s : Machine K V M E n} {i : Fin n} {backups : List (K × Option V)} {m : M}
      {todo : List M}
      {err : E} :
      s.phase i = .applying backups (m :: todo) →
      ops.step m (s.objects.lookup (ops.key m)) = .error err →
      Step s (s.setPhase i
        (.restoring (note backups (ops.key m) (s.objects.lookup (ops.key m))) err))
  | restore {s : Machine K V M E n} {i : Fin n} {k : K} {v : Option V}
      {backups : List (K × Option V)}
      {err : E} :
      s.phase i = .restoring ((k, v) :: backups) err →
      Step s { s.setPhase i (.restoring backups err) with objects := restore s.objects k v }
  | commit {s : Machine K V M E n} {i : Fin n} {backups : List (K × Option V)} :
      s.phase i = .applying backups [] → Step s (s.finish i (locks (calls i)) none)
  | giveUp {s : Machine K V M E n} {i : Fin n} {err : E} :
      s.phase i = .restoring [] err → Step s (s.finish i (locks (calls i)) (some err))
  | release {s : Machine K V M E n} {i : Fin n} {k : K} {held : List K} {failure : Option E} :
      s.phase i = .releasing (k :: held) failure →
      Step s (s.setPhase i (.releasing held failure))

def start (objects : Store K V) : Machine K V M E n where
  objects := objects
  phase := fun _ => .queued
  finished := []

/-- All calls are over, with the failures `failures`. -/
def Completed (objects last : Store K V) (failures : Fin n → Option E) : Prop :=
  ∃ s, ReflTransGen (Step ops locks calls workers) (start objects) s ∧
    (∀ i, s.phase i = .releasing [] (failures i)) ∧ s.objects = last

/-! ## The invariant -/

variable {ops locks calls workers}

def Saved (base : Store K V) (ks : List K) (backups : List (K × Option V)) : Prop :=
  ∀ e ∈ backups, e.1 ∈ ks ∧ e.2 = base.lookup e.1

variable (ops locks calls) in
/-- What is known of call `i` in each phase, when the finished calls leave `base` behind. -/
def Sound (origin objects : Store K V) (finished : List (Fin n)) (i : Fin n) : Phase K V M E → Prop
  | .queued => i ∉ finished
  | .acquiring held todo =>
    i ∉ finished ∧ ∀ k ∈ locks (calls i), k ∈ held ∨ k ∈ todo
  | .applying backups todo =>
    i ∉ finished ∧ Saved (ops.serial origin (finished.map calls)) (locks (calls i)) backups ∧
      ∃ front mid, calls i = front ++ todo ∧
        ops.call (ops.serial origin (finished.map calls)) front = .ok mid ∧
        (∀ k ∈ locks (calls i), objects.lookup k = mid.lookup k) ∧
        ∀ m ∈ front, ops.key m ∈ backups.map Prod.fst
  | .restoring backups err =>
    i ∉ finished ∧ Saved (ops.serial origin (finished.map calls)) (locks (calls i)) backups ∧
      ops.call (ops.serial origin (finished.map calls)) (calls i) = .error err ∧
      ∀ k ∈ locks (calls i), k ∈ backups.map Prod.fst ∨
        objects.lookup k = (ops.serial origin (finished.map calls)).lookup k
  | .releasing _ failure =>
    ∃ front back, finished = front ++ i :: back ∧
      failure = ops.failure (ops.serial origin (front.map calls)) (calls i)

variable (ops locks calls) in
structure Inv (origin : Store K V) (s : Machine K V M E n) : Prop where
  nodup : s.finished.Nodup
  sound : ∀ i, Sound ops locks calls origin s.objects s.finished i (s.phase i)
  exclusive : ∀ i j k, i ≠ j → (s.phase i).Holds (locks (calls i)) k →
    ¬ (s.phase j).Holds (locks (calls j)) k
  outside : ∀ k, (∀ i, (s.phase i).Working → k ∉ locks (calls i)) →
    s.objects.lookup k = (ops.serial origin (s.finished.map calls)).lookup k

variable {p : Phase K V M E} {ks : List K} {k : K}

omit [DecidableEq K] in
lemma Phase.Working.holds_iff (h : p.Working) : p.Holds ks k ↔ k ∈ ks := by
  cases p with
  | queued => exact absurd h id
  | acquiring held todo => exact absurd h id
  | applying backups todo => exact .rfl
  | restoring backups err => exact .rfl
  | releasing held failure => exact absurd h id

variable {objects : Store K V}

lemma Sound.frame {origin objects' : Store K V} {finished finished' : List (Fin n)} {j : Fin n}
    (hlocks : ∀ m ∈ calls j, ops.key m ∈ locks (calls j))
    (hfinished : finished' = finished ∨ ∃ i, i ≠ j ∧ finished' = finished ++ [i])
    (hobj : p.Working → ∀ k ∈ locks (calls j), objects'.lookup k = objects.lookup k)
    (hbase : p.Working → ∀ k ∈ locks (calls j), (ops.serial origin (finished'.map calls)).lookup k =
        (ops.serial origin (finished.map calls)).lookup k)
    (h : Sound ops locks calls origin objects finished j p) :
    Sound ops locks calls origin objects' finished' j p := by
  have hmem : j ∉ finished → j ∉ finished' := by
    intro hj
    rcases hfinished with rfl | ⟨i, hne, rfl⟩
    · exact hj
    · simp [hj, hne.symm]
  cases p with
  | queued => exact hmem h
  | acquiring held todo => exact ⟨hmem h.1, h.2⟩
  | applying backups todo =>
    obtain ⟨hj, hsaved, front, mid, hsplit, hmid, hlook, hnoted⟩ := h
    have hks : ∀ m ∈ front, ops.key m ∈ locks (calls j) := by
      intro m hm
      exact hlocks m (by rw [hsplit]; simp [hm])
    have hcongr := call_congr (fun k hk => (hbase trivial k hk).symm) hks
    obtain ⟨mid', hmid', hsame⟩ := hcongr.1 mid hmid
    refine ⟨hmem hj, ?_, front, mid', hsplit, hmid', ?_, hnoted⟩
    · intro e he
      exact ⟨(hsaved e he).1, (hsaved e he).2.trans (hbase trivial _ (hsaved e he).1).symm⟩
    · intro k hk
      rw [hobj trivial k hk, hlook k hk, hsame k hk]
  | restoring backups err =>
    obtain ⟨hj, hsaved, herr, hlook⟩ := h
    have hcongr := call_congr (fun k hk => (hbase trivial k hk).symm) hlocks
    refine ⟨hmem hj, ?_, hcongr.2 err herr, ?_⟩
    · intro e he
      exact ⟨(hsaved e he).1, (hsaved e he).2.trans (hbase trivial _ (hsaved e he).1).symm⟩
    · intro k hk
      rw [hobj trivial k hk, hbase trivial k hk]
      exact hlook k hk
  | releasing held failure =>
    obtain ⟨front, back, hsplit, hfail⟩ := h
    rcases hfinished with rfl | ⟨i, -, rfl⟩
    · exact ⟨front, back, hsplit, hfail⟩
    · exact ⟨front, back ++ [i], by simp [hsplit], hfail⟩

section Preservation

variable {origin : Store K V} {s : Machine K V M E n} {i : Fin n}

lemma Inv.update {finished : List (Fin n)}
    (hlocks : ∀ i, ∀ m ∈ calls i, ops.key m ∈ locks (calls i)) (h : Inv ops locks calls origin s)
    (hnd : finished.Nodup) (hfinished : finished = s.finished ∨ finished = s.finished ++ [i])
    (hsound : Sound ops locks calls origin objects finished i p)
    (hobj : ∀ j, j ≠ i → (s.phase j).Working → ∀ k ∈ locks (calls j),
      objects.lookup k = s.objects.lookup k)
    (hbase : ∀ j, j ≠ i → (s.phase j).Working → ∀ k ∈ locks (calls j),
      (ops.serial origin (finished.map calls)).lookup k =
        (ops.serial origin (s.finished.map calls)).lookup k)
    (hholds : ∀ k, p.Holds (locks (calls i)) k →
      (s.phase i).Holds (locks (calls i)) k ∨ Free locks calls s k)
    (houts : ∀ k, (p.Working → k ∉ locks (calls i)) →
      (∀ j, j ≠ i → (s.phase j).Working → k ∉ locks (calls j)) →
      objects.lookup k = (ops.serial origin (finished.map calls)).lookup k) :
    Inv ops locks calls origin ⟨objects, Function.update s.phase i p, finished⟩ := by
  -- the locks of call `i` are not those of another call
  have hapart : ∀ j k, j ≠ i → p.Holds (locks (calls i)) k →
      ¬ (s.phase j).Holds (locks (calls j)) k := by
    intro j k hne hk hj
    rcases hholds k hk with hold | hfree
    · exact h.exclusive i j k (Ne.symm hne) hold hj
    · exact hfree j hj
  refine ⟨hnd, ?_, ?_, ?_⟩
  · intro j
    by_cases hj : j = i
    · subst hj
      simpa using hsound
    have hfin : finished = s.finished ∨ ∃ i', i' ≠ j ∧ finished = s.finished ++ [i'] := by
      rcases hfinished with hsame | hsnoc
      · exact .inl hsame
      · exact .inr ⟨i, Ne.symm hj, hsnoc⟩
    simp only [update_of_ne hj]
    exact (h.sound j).frame (hlocks j) hfin (hobj j hj) (hbase j hj)
  · intro a b k hab ha hb
    by_cases hai : a = i
    · subst hai
      simp only [update_self] at ha
      simp only [update_of_ne (Ne.symm hab)] at hb
      exact hapart b k (Ne.symm hab) ha hb
    · simp only [update_of_ne hai] at ha
      by_cases hbi : b = i
      · subst hbi
        simp only [update_self] at hb
        exact hapart a k hai hb ha
      · simp only [update_of_ne hbi] at hb
        exact h.exclusive a b k hab ha hb
  · intro k hk
    apply houts k
    · intro hp
      have hki := hk i
      simp only [update_self] at hki
      exact hki hp
    · intro j hj hw
      have hkj := hk j
      simp only [update_of_ne hj] at hkj
      exact hkj hw

lemma Inv.not_mem_of_working (h : Inv ops locks calls origin s) {j : Fin n} (hne : j ≠ i)
    (hi : (s.phase i).Working) (hk : k ∈ locks (calls i)) (hj : (s.phase j).Working) :
    k ∉ locks (calls j) := by
  intro hkj
  exact h.exclusive i j k (Ne.symm hne) (hi.holds_iff.2 hk) (hj.holds_iff.2 hkj)

lemma Inv.sound_of_phase (h : Inv ops locks calls origin s) (hphase : s.phase i = p) :
    Sound ops locks calls origin s.objects s.finished i p :=
  hphase ▸ h.sound i

lemma Inv.lookup_outside (h : Inv ops locks calls origin s)
    (hi : (s.phase i).Working → k ∉ locks (calls i))
    (hoths : ∀ j, j ≠ i → (s.phase j).Working → k ∉ locks (calls j)) :
    s.objects.lookup k = (ops.serial origin (s.finished.map calls)).lookup k := by
  apply h.outside
  intro j hw
  by_cases hj : j = i
  · subst hj
    exact hi hw
  · exact hoths j hj hw

section

variable (hlocks : ∀ i, ∀ m ∈ calls i, ops.key m ∈ locks (calls i))

include hlocks

lemma Inv.setPhase (h : Inv ops locks calls origin s)
    (hsound : Sound ops locks calls origin s.objects s.finished i p)
    (hholds : ∀ k, p.Holds (locks (calls i)) k →
      (s.phase i).Holds (locks (calls i)) k ∨ Free locks calls s k)
    (hwork : (s.phase i).Working → p.Working) : Inv ops locks calls origin (s.setPhase i p) := by
  refine h.update hlocks h.nodup (.inl rfl) hsound (fun _ _ _ _ _ => rfl)
    (fun _ _ _ _ _ => rfl) hholds ?_
  intro k hk hoths
  exact h.lookup_outside (fun hw => hk (hwork hw)) hoths

/-- A call at work changes an object under one of its locks. -/
lemma Inv.write (h : Inv ops locks calls origin s)
    (hw : (s.phase i).Working) (hp : p.Working) (hk : k ∈ locks (calls i))
    (hobj : ∀ k', k' ≠ k → objects.lookup k' = s.objects.lookup k')
    (hsound : Sound ops locks calls origin objects s.finished i p) :
    Inv ops locks calls origin { s.setPhase i p with objects := objects } := by
  refine h.update hlocks h.nodup (.inl rfl) hsound ?_ (fun _ _ _ _ _ => rfl) ?_ ?_
  · intro j hj hwj k' hk'
    refine hobj k' ?_
    rintro rfl
    exact h.not_mem_of_working hj hw hk hwj hk'
  · intro k' hk'
    exact .inl (hw.holds_iff.2 (hp.holds_iff.1 hk'))
  · intro k' hk' hoths
    have hout := hk' hp
    rw [hobj k' fun heq => hout (heq ▸ hk)]
    exact h.lookup_outside (fun _ => hout) hoths

end

lemma Saved.note {base : Store K V} {backups : List (K × Option V)}
    {v : Option V} (h : Saved base ks backups) (hk : k ∈ ks)
    (hv : k ∉ backups.map Prod.fst → v = base.lookup k) : Saved base ks (note backups k v) := by
  unfold Keyed.note
  split
  · exact h
  next hnew =>
  intro e he
  rcases mem_cons.1 he with rfl | he
  · exact ⟨hk, hv hnew⟩
  · exact h e he

lemma mem_note {backups : List (K × Option V)} {k' : K} {v : Option V} :
    k' ∈ (note backups k v).map Prod.fst ↔ k' = k ∨ k' ∈ backups.map Prod.fst := by
  unfold note
  split
  · next hold =>
    constructor
    · exact .inr
    · rintro (rfl | h)
      · exact hold
      · exact h
  · simp

lemma lookup_restore (objects : Store K V) (k k' : K) (v : Option V) :
    (Keyed.restore objects k v).lookup k' = if k' = k then v else objects.lookup k' := by
  cases v with
  | none =>
    by_cases h : k' = k
    · subst h
      simp [Keyed.restore]
    · simp [Keyed.restore, h, Finmap.lookup_erase_ne h]
  | some v =>
    by_cases h : k' = k
    · subst h
      simp [Keyed.restore]
    · simp [Keyed.restore, h, Finmap.lookup_insert_of_ne _ h]

lemma lookup_of_not_noted {base mid : Store K V} {front : List M}
    {backups : List (K × Option V)} (hmid : ops.call base front = .ok mid)
    (hlook : ∀ k ∈ ks, objects.lookup k = mid.lookup k)
    (hnoted : ∀ m ∈ front, ops.key m ∈ backups.map Prod.fst) (hk : k ∈ ks)
    (hnew : k ∉ backups.map Prod.fst) : objects.lookup k = base.lookup k := by
  rw [hlook k hk]
  apply lookup_of_call hmid
  intro m hm hkey
  exact hnew (hkey ▸ hnoted m hm)

lemma serial_finish (origin : Store K V) (finished : List (Fin n)) (i : Fin n) :
    ops.serial origin ((finished ++ [i]).map calls) =
      ops.after (ops.serial origin (finished.map calls)) (calls i) := by
  rw [map_append, serial, foldl_append]
  rfl

section

variable (hlocks : ∀ i, ∀ m ∈ calls i, ops.key m ∈ locks (calls i))

include hlocks

lemma Inv.finish {failure : Option E} {before}
    (hbefore : ops.serial origin (s.finished.map calls) = before)
    (h : Inv ops locks calls origin s) (hwork : (s.phase i).Working) (hi : i ∉ s.finished)
    (hfail : failure = ops.failure before (calls i))
    (hlook : ∀ k ∈ locks (calls i), s.objects.lookup k = (ops.after before (calls i)).lookup k) :
    Inv ops locks calls origin (s.finish i (locks (calls i)) failure) := by
  subst hbefore
  -- the call changes nothing outside its locks
  have hframe : ∀ k, k ∉ locks (calls i) →
      (ops.after (ops.serial origin (s.finished.map calls)) (calls i)).lookup k =
        (ops.serial origin (s.finished.map calls)).lookup k := by
    intro k hk
    unfold after
    split
    · next next hcall =>
      exact lookup_of_call hcall fun m hm hkey => hk (hkey ▸ hlocks _ m hm)
    · rfl
  refine h.update hlocks ?_ (.inr rfl) ?_ ?_ ?_ ?_ ?_
  · rw [nodup_append]
    exact ⟨h.nodup, by simp, by rintro a ha b hb rfl; simp at hb; exact hi (hb ▸ ha)⟩
  · exact ⟨s.finished, [], rfl, hfail⟩
  · intro j _ _ k _
    rfl
  · intro j hj hw k hk
    rw [serial_finish]
    apply hframe
    intro hki
    exact h.not_mem_of_working hj hwork hki hw hk
  · intro k hk
    exact .inl (hwork.holds_iff.2 hk)
  · intro k _ hoths
    rw [serial_finish]
    by_cases hki : k ∈ locks (calls i)
    · exact hlook k hki
    · rw [hframe k hki]
      exact h.lookup_outside (fun _ => hki) hoths

lemma Inv.step {s' : Machine K V M E n}
    (h : Inv ops locks calls origin s) (hstep : Step ops locks calls workers s s') :
    Inv ops locks calls origin s' := by
  cases hstep with
  | @take i hphase =>
    have hi : i ∉ s.finished := h.sound_of_phase hphase
    exact h.setPhase hlocks ⟨hi, fun k hk => .inr hk⟩ (fun k hk => absurd hk not_mem_nil)
      (by rw [hphase]; exact id)
  | @acquire i k held todo hphase hfree =>
    have hi := h.sound_of_phase hphase
    refine h.setPhase hlocks ⟨hi.1, ?_⟩ ?_ (by rw [hphase]; exact id)
    · intro k' hk'
      rcases hi.2 k' hk' with hheld | htodo
      · exact .inl (mem_cons_of_mem _ hheld)
      rcases mem_cons.1 htodo with rfl | htodo
      · exact .inl mem_cons_self
      · exact .inr htodo
    · intro k' hk'
      rcases mem_cons.1 hk' with rfl | hheld
      · exact .inr hfree
      · exact .inl (by rwa [hphase])
  | @start i held hphase =>
    have hi := h.sound_of_phase hphase
    have hheld : ∀ k ∈ locks (calls i), (s.phase i).Holds (locks (calls i)) k := by
      intro k hk
      rw [hphase]
      exact (hi.2 k hk).resolve_right not_mem_nil
    refine h.setPhase hlocks ⟨hi.1, by simp [Saved], [], _, rfl, rfl, ?_, by simp⟩
      (fun k hk => .inl (hheld k hk)) (fun _ => trivial)
    -- nobody is at work under the locks of the call, so its objects are the finished calls' ones
    intro k hk
    refine h.lookup_outside (by rw [hphase]; exact False.elim) fun j hj hw hkj => ?_
    exact h.exclusive i j k hj.symm (hheld k hk) (hw.holds_iff.2 hkj)
  | @modify i backups m todo v hphase hv =>
    obtain ⟨hi, hsaved, front, mid, hsplit, hmid, hlook, hnoted⟩ := h.sound_of_phase hphase
    have hkey : ops.key m ∈ locks (calls i) := hlocks _ m (by rw [hsplit]; simp)
    have hmid' : ops.call (ops.serial origin (s.finished.map calls)) (front ++ [m]) =
        .ok (mid.insert (ops.key m) v) := by
      rw [call_append, hmid]
      exact call_cons_eq_ok.2 ⟨v, by rw [← hlook _ hkey]; exact hv, rfl⟩
    refine h.write hlocks (by rw [hphase]; trivial) trivial hkey
      (fun k hk => Finmap.lookup_insert_of_ne _ hk) ⟨hi, ?_, front ++ [m], _, ?_, hmid', ?_, ?_⟩
    · exact hsaved.note hkey fun hnew => lookup_of_not_noted hmid hlook hnoted hkey hnew
    · simp [hsplit]
    · intro k hk
      by_cases hkm : k = ops.key m
      · subst hkm
        rw [Finmap.lookup_insert, Finmap.lookup_insert]
      · rw [Finmap.lookup_insert_of_ne _ hkm, Finmap.lookup_insert_of_ne _ hkm]
        exact hlook k hk
    · intro m' hm'
      rw [mem_note]
      rcases mem_append.1 hm' with hfront | hlast
      · exact .inr (hnoted m' hfront)
      · exact .inl (by rw [mem_singleton.1 hlast])
  | @conflict i backups m todo err hphase herr =>
    obtain ⟨hi, hsaved, front, mid, hsplit, hmid, hlook, hnoted⟩ := h.sound_of_phase hphase
    have hkey : ops.key m ∈ locks (calls i) := hlocks _ m (by rw [hsplit]; simp)
    have hcall : ops.call (ops.serial origin (s.finished.map calls)) (calls i) = .error err := by
      rw [hlook _ hkey] at herr
      rw [hsplit, call_append, hmid]
      simp [call_cons, apply, herr, Except.map, bind, Except.bind]
    refine h.setPhase hlocks ⟨hi, ?_, hcall, ?_⟩ (fun k hk => .inl (by rwa [hphase])) fun _ =>
      trivial
    · exact hsaved.note hkey fun hnew => lookup_of_not_noted hmid hlook hnoted hkey hnew
    · intro k hk
      by_cases hnew : k ∈ (note backups (ops.key m) (s.objects.lookup (ops.key m))).map Prod.fst
      · exact .inl hnew
      right
      rw [mem_note, not_or] at hnew
      exact lookup_of_not_noted hmid hlook hnoted hk hnew.2
  | @restore i k v backups err hphase =>
    obtain ⟨hi, hsaved, herr, hlook⟩ := h.sound_of_phase hphase
    have hk := hsaved (k, v) mem_cons_self
    refine h.write hlocks (by rw [hphase]; trivial) trivial hk.1
      (fun k' hne => by rw [lookup_restore, if_neg hne])
      ⟨hi, fun e he => hsaved e (mem_cons_of_mem _ he), herr, ?_⟩
    intro k' hk'
    rw [lookup_restore]
    split
    · next heq => exact .inr (by rw [heq]; exact hk.2)
    next hne =>
    rcases hlook k' hk' with hbackup | hsame
    · left
      simpa [hne] using hbackup
    · exact .inr hsame
  | @commit i backups hphase =>
    obtain ⟨hi, -, front, mid, hsplit, hmid, hlook, -⟩ := h.sound_of_phase hphase
    rw [append_nil] at hsplit
    rw [← hsplit] at hmid
    apply h.finish hlocks rfl (by rw [hphase]; trivial) hi
    · simp [failure, hmid]
    · intro k hk
      rw [after_of_call hmid]
      exact hlook k hk
  | @giveUp i err hphase =>
    obtain ⟨hi, -, herr, hlook⟩ := h.sound_of_phase hphase
    apply h.finish hlocks rfl (by rw [hphase]; trivial) hi
    · simp [failure, herr]
    · intro k hk
      simpa [after, herr] using hlook k hk
  | @release i k held failure hphase =>
    have hi := h.sound_of_phase hphase
    refine h.setPhase hlocks hi (fun k' hk' => .inl ?_) (by rw [hphase]; exact id)
    rw [hphase]
    exact mem_cons_of_mem _ hk'

end

end Preservation

/-! ## Concurrent calls are calls in some order -/

lemma Inv.start (origin : Store K V) : Inv ops locks calls origin (Keyed.start origin) where
  nodup := nodup_nil
  sound i := by simp [Keyed.start, Sound]
  exclusive i j k _ hi := by simp [Keyed.start, Phase.Holds] at hi
  outside k _ := rfl

lemma Inv.reach {origin : Store K V} {s s' : Machine K V M E n}
    (hlocks : ∀ i, ∀ m ∈ calls i, ops.key m ∈ locks (calls i))
    (hreach : ReflTransGen (Step ops locks calls workers) s s')
    (h : Inv ops locks calls origin s) : Inv ops locks calls origin s' := by
  induction hreach with
  | refl => exact h
  | tail _ hstep ih => exact ih.step hlocks hstep

variable (ops calls) in
/-- The outcome of the calls in the order `order`. -/
def Linear (origin last : Store K V) (failures : Fin n → Option E) (order : List (Fin n)) : Prop :=
  order.Nodup ∧ (∀ i, i ∈ order) ∧ last = ops.serial origin (order.map calls) ∧
    ∀ front i back, order = front ++ i :: back →
      failures i = ops.failure (ops.serial origin (front.map calls)) (calls i)

variable {failures : Fin n → Option E}

lemma Inv.linear {origin : Store K V} {s : Machine K V M E n}
    (h : Inv ops locks calls origin s) (hover : ∀ i, s.phase i = .releasing [] (failures i)) :
    Linear ops calls origin s.objects failures s.finished := by
  have hplace : ∀ i, ∃ front back, s.finished = front ++ i :: back ∧
      failures i = ops.failure (ops.serial origin (front.map calls)) (calls i) := by
    intro i
    exact h.sound_of_phase (hover i)
  refine ⟨h.nodup, ?_, ?_, ?_⟩
  · intro i
    obtain ⟨front, back, hsplit, -⟩ := hplace i
    simp [hsplit]
  · apply Finmap.ext_lookup
    intro k
    apply h.outside
    intro i hw
    rw [hover i] at hw
    exact absurd hw id
  · intro front i back hsplit
    obtain ⟨front', back', hsplit', hfail⟩ := hplace i
    -- a call finishes once
    have hfront : front' = front := by
      have hnd := h.nodup
      rw [hsplit'] at hsplit hnd
      have honce : i ∉ front' ++ back' := (nodup_middle.1 hnd).notMem
      rw [mem_append, not_or] at honce
      exact ((append_cons_inj_of_notMem honce.1 honce.2).1 hsplit).1
    rw [hfail, hfront]

/-! ## The queue -/

/-- With `workers` workers on a queue the call that finishes next is one of the first ones. -/
def Feasible (workers : Nat) (order : List (Fin n)) : Prop :=
  ∀ k i, order[k]? = some i → i.val < k + workers

/-- The calls are taken in their order, at most `workers` at a time. -/
structure Fifo (workers : Nat) (s : Machine K V M E n) : Prop where
  initial : ∀ i j, j ≤ i → s.phase j = .queued → s.phase i = .queued
  busy_le : s.busy.card ≤ workers
  feasible : Feasible workers s.finished

section

variable {s s' : Machine K V M E n}

/-- A step takes a call, or goes on with one that a worker is busy with. -/
lemma Step.take_or_busy (h : Step ops locks calls workers s s') :
    (∃ i p, s.phase i = .queued ∧ (∀ j < i, s.phase j ≠ .queued) ∧ s.busy.card < workers ∧
        p ≠ .queued ∧ s' = s.setPhase i p) ∨
      ∃ i p, (s.phase i).Busy ∧ p ≠ .queued ∧ s'.phase = Function.update s.phase i p ∧
        (s'.finished = s.finished ∨ s'.finished = s.finished ++ [i]) := by
  cases h with
  | take hphase hfirst hfree => exact .inl ⟨_, _, hphase, hfirst, hfree, by simp, rfl⟩
  | acquire hphase _ | start hphase | modify hphase _ | conflict hphase _ | restore hphase
  | release hphase => exact .inr ⟨_, _, by simp [hphase, Phase.Busy], by simp, rfl, .inl rfl⟩
  | commit hphase | giveUp hphase =>
    exact .inr ⟨_, _, by simp [hphase, Phase.Busy], by simp, rfl, .inr rfl⟩

lemma Inv.mem_busy_or_finished {origin : Store K V} (h : Inv ops locks calls origin s) {i : Fin n}
    (hi : s.phase i ≠ .queued) : i ∈ s.busy ∨ i ∈ s.finished := by
  by_cases hbusy : (s.phase i).Busy
  · exact .inl (by simpa using hbusy)
  right
  cases hphase : s.phase i with
  | queued => exact absurd hphase hi
  | acquiring held todo | applying backups todo | restoring backups err =>
    simp [hphase, Phase.Busy] at hbusy
  | releasing held failure =>
    obtain ⟨front, back, hsplit, -⟩ := h.sound_of_phase hphase
    simp [hsplit]

lemma Fifo.step {origin : Store K V} (h : Fifo workers s) (hinv : Inv ops locks calls origin s)
    (hstep : Step ops locks calls workers s s') : Fifo workers s' := by
  rcases hstep.take_or_busy with ⟨i, p, hi, hfirst, hfree, hp, rfl⟩ | ⟨i, p, hi, hp, hphase, hfin⟩
  · refine ⟨fun a b hba hb => ?_, ?_, h.feasible⟩
    · by_cases hbi : b = i
      · subst hbi
        simp [hp] at hb
      · have hb' : s.phase b = .queued := by simpa [Machine.setPhase, hbi] using hb
        have hai : a ≠ i := by
          rintro rfl
          exact hfirst b (lt_of_le_of_ne hba hbi) hb'
        simpa [Machine.setPhase, hai] using h.initial a b hba hb'
    · have hsub : (s.setPhase i p).busy ⊆ insert i s.busy := by
        intro j hj
        by_cases hji : j = i
        · simp [hji]
        · simpa [Machine.setPhase, hji] using hj
      exact (Finset.card_le_card hsub).trans ((Finset.card_insert_le _ _).trans hfree)
  · have hnq : s.phase i ≠ .queued := by
      intro hq
      simp [hq, Phase.Busy] at hi
    refine ⟨fun a b hba hb => ?_, ?_, ?_⟩
    · rw [hphase] at hb ⊢
      by_cases hbi : b = i
      · subst hbi
        simp [hp] at hb
      · rw [update_of_ne hbi] at hb
        have ha := h.initial a b hba hb
        have hai : a ≠ i := by
          rintro rfl
          exact hnq ha
        rwa [update_of_ne hai]
    · refine (Finset.card_le_card fun j hj => ?_).trans h.busy_le
      by_cases hji : j = i
      · subst hji
        simpa using hi
      · simpa [hphase, hji] using hj
    · rcases hfin with hfin | hfin
      · rw [hfin]
        exact h.feasible
      · -- the calls up to `i` are finished, or a worker is busy with them
        have hcard : i.val + 1 ≤ s.finished.length + workers := by
          have hsub : Finset.Iic i ⊆ s.finished.toFinset ∪ s.busy := by
            intro j hj
            rw [Finset.mem_union, mem_toFinset]
            refine (hinv.mem_busy_or_finished fun hq => ?_).symm
            exact hnq (h.initial i j (Finset.mem_Iic.1 hj) hq)
          calc i.val + 1 = (Finset.Iic i).card := by simp
            _ ≤ s.finished.toFinset.card + s.busy.card :=
              (Finset.card_le_card hsub).trans (Finset.card_union_le _ _)
            _ ≤ s.finished.length + workers :=
              Nat.add_le_add (toFinset_card_le _) h.busy_le
        rw [hfin]
        intro k j hk
        rcases Nat.lt_trichotomy k s.finished.length with hlt | rfl | hgt
        · rw [getElem?_append_left hlt] at hk
          exact h.feasible k j hk
        · rw [getElem?_append_right le_rfl, Nat.sub_self] at hk
          cases hk
          omega
        · have hout : s.finished.length + 1 ≤ k := hgt
          rw [getElem?_eq_none (by simpa using hout)] at hk
          cases hk

end

lemma completed_linear {origin last : Store K V}
    (hlocks : ∀ i, ∀ m ∈ calls i, ops.key m ∈ locks (calls i))
    (h : Completed ops locks calls workers origin last failures) :
    ∃ order, Linear ops calls origin last failures order ∧ Feasible workers order := by
  obtain ⟨s, hreach, hover, rfl⟩ := h
  have hboth : Inv ops locks calls origin s ∧ Fifo workers s := by
    clear hover
    induction hreach with
    | refl =>
      exact ⟨Inv.start
        origin, by simp [Keyed.start], by simp [Machine.busy, Keyed.start, Phase.Busy],
        by simp [Keyed.start, Feasible]⟩
    | tail _ hstep ih => exact ⟨ih.1.step hlocks hstep, ih.2.step ih.1 hstep⟩
  exact ⟨s.finished, hboth.1.linear hover, hboth.2.feasible⟩

/-! ## Calls in an order are concurrent calls -/

section

variable {s : Machine K V M E n} {i : Fin n}

variable (ops locks calls workers)

lemma reach_acquired {held todo : List K} (hphase : s.phase i = .acquiring held todo)
    (hidle : ∀ j, j ≠ i → ∀ k, ¬ (s.phase j).Holds (locks (calls j)) k)
    (hnew : (held ++ todo).Nodup) :
    ∃ held',
      ReflTransGen (Step ops locks calls workers) s (s.setPhase i (.acquiring held' [])) := by
  induction todo generalizing held s with
  | nil =>
    have hsame : s.setPhase i (.acquiring held []) = s := by
      simp [Machine.setPhase, ← hphase]
    exact ⟨held, by rw [hsame]⟩
  | cons k todo ih =>
    have hfree : Free locks calls s k := by
      intro j hj
      by_cases hji : j = i
      · subst hji
        rw [hphase] at hj
        exact (nodup_middle.1 hnew).notMem (mem_append_left _ hj)
      · exact hidle j hji k hj
    have hnew' : ((k :: held) ++ todo).Nodup := nodup_middle.1 hnew
    rcases ih (s.setPhase_phase (i := i) (.acquiring (k :: held) todo)) (by
      intro j hj k'
      simpa [Machine.setPhase, hj] using hidle j hj k') hnew' with ⟨held', hreach⟩
    rw [Machine.setPhase_setPhase] at hreach
    exact ⟨held', .head (.acquire hphase hfree) hreach⟩

lemma reach_restored {backups : List (K × Option V)} {err : E}
    (hphase : s.phase i = .restoring backups err) :
    ∃ objects, ReflTransGen (Step ops locks calls workers) s
      ({ s with objects := objects }.finish i (locks (calls i)) (some err)) := by
  induction backups generalizing s with
  | nil => exact ⟨s.objects, .single (.giveUp hphase)⟩
  | cons e backups ih =>
    obtain ⟨k, v⟩ := e
    rcases ih (s := { s.setPhase i (.restoring backups err) with
      objects := restore s.objects k v }) (s.setPhase_phase _) with ⟨objects, hreach⟩
    refine ⟨objects, .head (.restore hphase) ?_⟩
    simpa [Machine.finish, Machine.setPhase] using hreach

lemma reach_finished {backups : List (K × Option V)} {todo : List M}
    (hphase : s.phase i = .applying backups todo) :
    ∃ objects failure, ReflTransGen (Step ops locks calls workers) s
      ({ s with objects := objects }.finish i (locks (calls i)) failure) := by
  induction todo generalizing backups s with
  | nil => exact ⟨s.objects, none, .single (.commit hphase)⟩
  | cons m todo ih =>
    cases hv : ops.step m (s.objects.lookup (ops.key m)) with
    | error err =>
      rcases reach_restored ops locks calls workers (s.setPhase_phase (i := i) (.restoring
          (note backups (ops.key m) (s.objects.lookup (ops.key m))) err)) with
        ⟨objects, hreach⟩
      refine ⟨objects, some err, .head (.conflict hphase hv) ?_⟩
      simpa [Machine.finish, Machine.setPhase] using hreach
    | ok v =>
      rcases ih (s := { s.setPhase i (.applying
          (note backups (ops.key m) (s.objects.lookup (ops.key m))) todo) with
        objects := s.objects.insert (ops.key m) v }) (s.setPhase_phase _) with
        ⟨objects, failure, hreach⟩
      refine ⟨objects, failure, .head (.modify hphase hv) ?_⟩
      simpa [Machine.finish, Machine.setPhase] using hreach

lemma reach_released {held : List K} {failure : Option E}
    (hphase : s.phase i = .releasing held failure) :
    ReflTransGen (Step ops locks calls workers) s (s.setPhase i (.releasing [] failure)) := by
  induction held generalizing s with
  | nil =>
    have hsame : s.setPhase i (.releasing [] failure) = s := by
      simp [Machine.setPhase, ← hphase]
    rw [hsame]
  | cons k held ih =>
    have hreach := ih (s.setPhase_phase (i := i) (.releasing held failure))
    rw [Machine.setPhase_setPhase] at hreach
    exact .head (.release hphase) hreach

lemma reach_alone (hnd : (locks (calls i)).Nodup)
    (hphase : s.phase i = .acquiring [] (locks (calls i)))
    (hidle : ∀ j, j ≠ i → ∀ k, ¬ (s.phase j).Holds (locks (calls j)) k) :
    ∃ objects failure, ReflTransGen (Step ops locks calls workers) s
      { objects := objects
        phase := Function.update s.phase i (.releasing [] failure)
        finished := s.finished ++ [i] } := by
  obtain ⟨held, hacquired⟩ := reach_acquired ops locks calls workers hphase hidle hnd
  have hstart : Step ops locks calls workers (s.setPhase i (.acquiring held []))
      (s.setPhase i (.applying [] (calls i))) := by
    have hphase' := s.setPhase_phase (i := i) (.acquiring held [])
    simpa using @Step.start _ _ _ _ _ _ ops locks calls workers _ _ _ hphase'
  obtain ⟨objects, failure, hfinished⟩ :=
    reach_finished ops locks calls workers (s.setPhase_phase (i := i) (.applying [] (calls i)))
  refine ⟨objects, failure, hacquired.trans (.head hstart (hfinished.trans ?_))⟩
  have hphase' : ({ s.setPhase i (.applying [] (calls i)) with objects := objects }.finish i
      (locks (calls i)) failure).phase i = .releasing (locks (calls i)) failure := by
    simp [Machine.finish]
  have hreleased := reach_released ops locks calls workers hphase'
  simpa [Machine.finish, Machine.setPhase] using hreleased

end

/-- The calls before call `m` are taken, and those of `order` are over. -/
structure Between (locks : List M → List K) (calls : Fin n → List M) (order : List (Fin n))
    (m : Nat) (s : Machine K V M E n) : Prop where
  finished : s.finished = order
  queued : ∀ i : Fin n, m ≤ i.val → s.phase i = .queued
  waiting : ∀ i : Fin n, i.val < m → i ∉ order → s.phase i = .acquiring [] (locks (calls i))
  ended : ∀ i ∈ order, i.val < m ∧ ∃ failure, s.phase i = .releasing [] failure

section

variable {s : Machine K V M E n} {order : List (Fin n)} {m : Nat}

omit [DecidableEq K] in
lemma Between.idle (h : Between locks calls order m s) (j : Fin n) (k : K) :
    ¬ (s.phase j).Holds (locks (calls j)) k := by
  by_cases hj : j ∈ order
  · obtain ⟨-, failure, hphase⟩ := h.ended j hj
    simp [hphase, Phase.Holds]
  · rcases Nat.lt_or_ge j.val m with hlt | hge
    · simp [h.waiting j hlt hj, Phase.Holds]
    · simp [h.queued j hge, Phase.Holds]

omit [DecidableEq K] in
lemma Between.card_busy (h : Between locks calls order m s) (hnd : order.Nodup) :
    s.busy.card + order.length ≤ m := by
  have hsub : (s.busy ∪ order.toFinset).image Fin.val ⊆ Finset.range m := by
    intro x hx
    obtain ⟨i, hi, rfl⟩ := Finset.mem_image.1 hx
    rw [Finset.mem_range]
    rcases Finset.mem_union.1 hi with hbusy | hover
    · by_contra hge
      simp [h.queued i (not_lt.1 hge), Phase.Busy] at hbusy
    · exact (h.ended i (mem_toFinset.1 hover)).1
  have hdisj : Disjoint s.busy order.toFinset := by
    rw [Finset.disjoint_left]
    intro i hbusy hover
    obtain ⟨-, failure, hphase⟩ := h.ended i (mem_toFinset.1 hover)
    simp [hphase, Phase.Busy] at hbusy
  have hcard := Finset.card_le_card hsub
  rw [Finset.card_image_of_injective _ Fin.val_injective, Finset.card_union_of_disjoint hdisj,
    toFinset_card_of_nodup hnd, Finset.card_range] at hcard
  exact hcard

variable (ops workers) in
lemma Between.take (h : Between locks calls order m s) (hnd : order.Nodup) (hm : m < n)
    (hfree : m < order.length + workers) :
    ∃ s', Step ops locks calls workers s s' ∧ Between locks calls order (m + 1) s' := by
  have hbusy := h.card_busy hnd
  refine ⟨_, .take (i := ⟨m, hm⟩) (h.queued _ le_rfl) (fun j hj => ?_) (by omega), h.finished, ?_,
    ?_, ?_⟩
  · by_cases hover : j ∈ order
    · obtain ⟨-, failure, hphase⟩ := h.ended j hover
      simp [hphase]
    · simp [h.waiting j hj hover]
  · intro i hi
    have hne : i ≠ ⟨m, hm⟩ := by
      rintro rfl
      exact Nat.not_succ_le_self m hi
    simpa [Machine.setPhase, hne] using h.queued i (Nat.le_of_succ_le hi)
  · intro i hi hnot
    by_cases hne : i = ⟨m, hm⟩
    · subst hne
      simp
    · have hlt : i.val < m := lt_of_le_of_ne (Nat.lt_succ_iff.1 hi) fun heq => hne (Fin.ext heq)
      simpa [Machine.setPhase, hne] using h.waiting i hlt hnot
  · intro i hi
    obtain ⟨hlt, failure, hphase⟩ := h.ended i hi
    have hne : i ≠ ⟨m, hm⟩ := by
      rintro rfl
      exact lt_irrefl m hlt
    exact ⟨hlt.trans (Nat.lt_succ_self m), failure, by simpa [Machine.setPhase, hne] using hphase⟩

variable (ops workers) in
/-- A call that is near enough to the front is taken. -/
lemma Between.takeUntil (h : Between locks calls order m s) (hnd : order.Nodup) {i : Fin n}
    (hi : i.val < order.length + workers) :
    ∃ s' m', ReflTransGen (Step ops locks calls workers) s s' ∧
      Between locks calls order m' s' ∧ i.val < m' := by
  induction hd : i.val + 1 - m generalizing m s with
  | zero => exact ⟨s, m, .refl, h, by omega⟩
  | succ d ih =>
    obtain ⟨s', hstep, h'⟩ := h.take ops workers hnd (by omega) (by omega)
    obtain ⟨s'', m', hreach, hbetween, hlt⟩ := ih h' (by omega)
    exact ⟨s'', m', .head hstep hreach, hbetween, hlt⟩

end

variable (ops locks calls workers) in
lemma exists_reach_order (hnd : ∀ i, (locks (calls i)).Nodup) (origin : Store K V)
    (order : List (Fin n)) :
    order.Nodup → Feasible workers order → ∃ s m,
      ReflTransGen (Step ops locks calls workers) (start origin) s ∧
        Between locks calls order m s := by
  induction order using List.reverseRecOn with
  | nil =>
    intro _ _
    exact ⟨_, 0, .refl, rfl, fun i _ => rfl, by simp, by simp⟩
  | append_singleton order i ih =>
    intro horder hfeasible
    rw [nodup_append] at horder
    have hi : i ∉ order := fun hmem => horder.2.2 i hmem i (by simp) rfl
    have hfeasible' : Feasible workers order := by
      intro k j hk
      refine hfeasible k j ?_
      rwa [getElem?_append_left (List.getElem?_eq_some_iff.1 hk).1]
    obtain ⟨s, m, hreach, hbetween⟩ := ih horder.1 hfeasible'
    have hnear : i.val < order.length + workers := hfeasible order.length i (by simp)
    obtain ⟨s', m', htaken, hbetween', hlt⟩ := hbetween.takeUntil ops workers horder.1 hnear
    rcases reach_alone ops locks calls workers (hnd i) (hbetween'.waiting i hlt hi)
      (fun j _ => hbetween'.idle j) with ⟨objects, failure, halone⟩
    refine ⟨_, m', (hreach.trans htaken).trans halone, by simp [hbetween'.finished], ?_, ?_, ?_⟩
    · intro j hj
      have hne : j ≠ i := by
        rintro rfl
        omega
      simpa [update_of_ne hne] using hbetween'.queued j hj
    · intro j hj hnot
      rw [mem_append, not_or, mem_singleton] at hnot
      simpa [update_of_ne hnot.2] using hbetween'.waiting j hj hnot.1
    · intro j hj
      by_cases hji : j = i
      · subst hji
        exact ⟨hlt, failure, by simp⟩
      · have hjo : j ∈ order := by simpa [hji] using hj
        simpa [update_of_ne hji] using hbetween'.ended j hjo

variable {order : List (Fin n)}

lemma Linear.unique {origin last last' : Store K V} {failures' : Fin n → Option E}
    (h : Linear ops calls origin last failures order)
    (h' : Linear ops calls origin last' failures' order) : last = last' ∧ failures = failures' := by
  refine ⟨h.2.2.1.trans h'.2.2.1.symm, ?_⟩
  funext i
  obtain ⟨front, back, hsplit⟩ := append_of_mem (h.2.1 i)
  rw [h.2.2.2 front i back hsplit, h'.2.2.2 front i back hsplit]

variable (ops calls) in
/-- The failure of a call when the calls are performed in the order `order`. -/
def failureIn (origin : Store K V) (order : List (Fin n)) (i : Fin n) : Option E :=
  ops.failure (ops.serial origin ((order.takeWhile (· ≠ i)).map calls)) (calls i)

lemma linear_of_order {origin : Store K V} (hnd : order.Nodup) (hall : ∀ i, i ∈ order) :
    Linear ops calls origin (ops.serial origin (order.map calls)) (failureIn ops calls origin order)
      order := by
  refine ⟨hnd, hall, rfl, ?_⟩
  intro front i back hsplit
  have honce : ∀ j ∈ front, j ≠ i := by
    rw [hsplit] at hnd
    rintro j hj rfl
    exact (nodup_middle.1 hnd).notMem (mem_append_left _ hj)
  have htake : order.takeWhile (· ≠ i) = front := by
    rw [hsplit, takeWhile_append_of_pos (by simpa using honce)]
    simp
  unfold failureIn
  rw [htake]

lemma completed_of_order {origin last : Store K V}
    (hlocks : ∀ i, ∀ m ∈ calls i, ops.key m ∈ locks (calls i)) (hnd : ∀ i, (locks (calls i)).Nodup)
    (h : Linear ops calls origin last failures order) (hfeasible : Feasible workers order) :
    Completed ops locks calls workers origin last failures := by
  obtain ⟨s, m, hreach, hbetween⟩ :=
    exists_reach_order ops locks calls workers hnd origin order h.1 hfeasible
  have hphase : ∀ i, ∃ failure, s.phase i = .releasing [] failure := fun i =>
    (hbetween.ended i (h.2.1 i)).2
  choose failures' hover' using hphase
  have hlinear := ((Inv.start origin).reach hlocks hreach).linear hover'
  rw [hbetween.finished] at hlinear
  obtain ⟨rfl, rfl⟩ := h.unique hlinear
  exact ⟨s, hreach, hover', rfl⟩

end

end ChainLab.Keyed
