import ChainLab.Execution.Literature.AddressGraph

/-!
# Sorted queues

A queue that is sorted leaves its live writers with numbers of their own, above those of the readers
(`spread_sort`).  A later sort, however, may give a transaction another number, and it does not look
at the queues that were sorted before.  `Undisturbed` says that this does no harm: no transaction
that a sort moves conflicts with a live transaction at a key whose queue was sorted earlier.  Then,
once all queues are sorted, live transactions that conflict have different numbers
(`settled_of_undisturbed`).
-/

namespace ChainLab.Execution.Literature

open List GoMap

/-! ## One queue -/

section

variable {acc : Nat} {f : Nat → Nat} {l : List Nat}

lemma le_foldl_max {r : Nat} (hr : r ∈ l) :
    f r ≤ l.foldl (fun greatest r => max greatest (f r)) acc :=
  Run.foldl_of_mem (P := (f r ≤ ·)) hr (fun _ => le_max_right _ _)
    (fun _ _ _ hle => le_max_of_le_left hle) acc

lemma foldl_min_le {r : Nat} (hr : r ∈ l) : l.foldl (fun least r => min least (f r)) acc ≤ f r :=
  Run.foldl_of_mem (P := (· ≤ f r)) hr (fun _ => min_le_right _ _)
    (fun _ _ _ hle => min_le_of_left_le hle) acc

lemma foldl_min_pos (hacc : 0 < acc) (hall : ∀ r ∈ l, 0 < f r) :
    0 < l.foldl (fun least r => min least (f r)) acc := by
  refine foldlRecOn (motive := (0 < ·)) l _ hacc ?_
  exact fun least hleast r hr => Nat.lt_min.2 ⟨hleast, hall r hr⟩

lemma nextFree_spec {values : List Nat} {fuel candidate : Nat}
    (hfuel : (values.filter (candidate ≤ ·)).length ≤ fuel) :
    candidate ≤ nextFree values fuel candidate ∧ nextFree values fuel candidate ∉ values := by
  induction fuel generalizing candidate with
  | zero =>
    refine ⟨Nat.le_refl _, fun hin => ?_⟩
    have hnil := length_eq_zero_iff.1 (Nat.le_zero.1 hfuel)
    have hmem : candidate ∈ values.filter (candidate ≤ ·) := mem_filter.2 ⟨hin, by simp⟩
    rw [hnil] at hmem
    cases hmem
  | succ fuel ih =>
    simp only [nextFree]
    split
    next hin =>
      -- the candidate itself is one of the numbers from it on
      have hless :
          (values.filter (candidate + 1 ≤ ·)).length < (values.filter (candidate ≤ ·)).length := by
        have hsub :
            List.Sublist (values.filter (candidate + 1 ≤ ·)) (values.filter (candidate ≤ ·)) :=
          monotone_filter_right _ fun v hv => by
            simp only [decide_eq_true_eq] at hv ⊢
            omega
        refine Nat.lt_of_le_of_ne hsub.length_le fun he => ?_
        have hmem : candidate ∈ values.filter (candidate ≤ ·) := mem_filter.2 ⟨hin, by simp⟩
        rw [← hsub.eq_of_length he] at hmem
        simpa using (mem_filter.1 hmem).2
      obtain ⟨hle, hfree⟩ := @ih (candidate + 1) (by omega)
      exact ⟨by omega, hfree⟩
    next hfree => exact ⟨Nat.le_refl _, hfree⟩

end

section Queue

variable {T : Type} {ds : List (TxAccess T)} {key : String} {s : Nezha} {q : QueuePass}

variable {i raw w : Nat} {owners : List Nat}

lemma Nezha.mem_live : i ∈ s.live owners ↔ i ∈ owners ∧ i ∉ s.aborted := by
  simp [Nezha.live]

lemma mem_readOwners : i ∈ readOwners ds key ↔ i < ds.length ∧ key ∈ readKeysAt ds i := by
  simp [readOwners]

lemma mem_writeOwners : i ∈ writeOwners ds key ↔ i < ds.length ∧ key ∈ writeKeysAt ds i := by
  simp [writeOwners]

lemma sequence_sortReads (h : s.sequence.get i ≠ 0) :
    (sortReads ds key s).1.sequence.get i = s.sequence.get i := by
  simp only [sortReads, get_foldl_put]
  rw [if_neg]
  intro hin
  exact h (by simpa using (mem_filter.1 hin).2)

lemma sortReads_spec {live} (hlive : s.live (readOwners ds key) = live) (hi : i ∈ live) :
    0 < (sortReads ds key s).1.sequence.get i ∧
      (sortReads ds key s).1.sequence.get i ≤ (sortReads ds key s).2 := by
  have hsome : live ≠ [] := ne_nil_of_mem hi
  simp only [sortReads, hlive, get_foldl_put, if_neg hsome]
  by_cases hnone : live.filter (s.sequence.get · ≠ 0) = []
  · have hzero : s.sequence.get i = 0 := by
      by_contra hne
      have hmem : i ∈ live.filter (s.sequence.get · ≠ 0) :=
        mem_filter.2 ⟨hi, by simpa using hne⟩
      rw [hnone] at hmem
      cases hmem
    have hmem : i ∈ live.filter (s.sequence.get · = 0) :=
      mem_filter.2 ⟨hi, by simpa using hzero⟩
    simp only [if_pos hmem, if_pos hnone]
    exact ⟨by decide, Nat.le_refl _⟩
  · have hpos : ∀ r ∈ live.filter (s.sequence.get · ≠ 0), 0 < s.sequence.get r := by
      intro r hr
      have hne : s.sequence.get r ≠ 0 := by simpa using (mem_filter.1 hr).2
      omega
    split
    · -- the least number is below every other one
      refine ⟨foldl_min_pos (by decide) hpos, ?_⟩
      obtain ⟨r, hr⟩ := exists_mem_of_ne_nil _ hnone
      exact le_trans (foldl_min_le hr) (le_foldl_max hr)
    next hnot =>
      have hne : s.sequence.get i ≠ 0 := by
        intro hzero
        exact hnot (mem_filter.2 ⟨hi, by simpa using hzero⟩)
      have hmem : i ∈ live.filter (s.sequence.get · ≠ 0) :=
        mem_filter.2 ⟨hi, by simpa using hne⟩
      exact ⟨Nat.pos_of_ne_zero hne, le_foldl_max hmem⟩

/-- Writers with numbers of their own, above `bound`. -/
structure Spread (bound : Nat) (values : List Nat) (q : QueuePass) (settled : Nat → Prop) :
    Prop where
  floor : bound ≤ q.maxWrite
  above : ∀ w, settled w → bound < q.nezha.sequence.get w
  below : ∀ w, settled w → q.nezha.sequence.get w ≤ q.maxWrite ∨ q.nezha.sequence.get w ∈ values
  distinct : ∀ w w', settled w → settled w' → q.nezha.sequence.get w = q.nezha.sequence.get w' →
    w = w'

variable {bound : Nat} {values : List Nat} {settled : Nat → Prop}

section

variable (h : Spread bound values q settled)

include h

lemma Spread.assign {sequence : Nat} (hw : ¬settled w)
    (hgt : q.maxWrite < sequence) (hfree : sequence ∉ values) :
    Spread bound values (q.assign w sequence) fun x => x = w ∨ settled x := by
  have hfloor := h.floor
  have hself : (q.assign w sequence).nezha.sequence.get w = sequence := by
    simp [QueuePass.assign, get_put]
  have hother : ∀ x, settled x →
      (q.assign w sequence).nezha.sequence.get x = q.nezha.sequence.get x := by
    intro x hx
    have hne : x ≠ w := fun he => hw (he ▸ hx)
    simp [QueuePass.assign, get_put, hne]
  -- nobody has the number
  have hnew : ∀ x, settled x → q.nezha.sequence.get x ≠ sequence := by
    intro x hx he
    rcases h.below x hx with hle | hin
    · omega
    · exact hfree (he ▸ hin)
  refine ⟨Nat.le_of_lt (Nat.lt_of_le_of_lt hfloor hgt), ?_, ?_, ?_⟩
  · rintro x (rfl | hx)
    · omega
    · rw [hother x hx]
      exact h.above x hx
  · rintro x (rfl | hx)
    · exact .inl (Nat.le_of_eq hself)
    · rw [hother x hx]
      exact (h.below x hx).imp (fun hle => le_trans hle (Nat.le_of_lt hgt)) id
  · rintro x y (rfl | hx) (rfl | hy) he
    · rfl
    · rw [hself, hother y hy] at he
      exact absurd he.symm (hnew y hy)
    · rw [hself, hother x hx] at he
      exact absurd he (hnew x hx)
    · rw [hother x hx, hother y hy] at he
      exact h.distinct x y hx hy he

lemma Spread.congr {settled' : Nat → Prop}
    (himp : ∀ w, settled' w → settled w) : Spread bound values q settled' :=
  ⟨h.floor, fun w hw => h.above w (himp w hw), fun w hw => h.below w (himp w hw),
    fun w w' hw hw' => h.distinct w w' (himp w hw) (himp w' hw')⟩

lemma Spread.raise (greatest : Nat) :
    Spread bound values { q with maxWrite := max q.maxWrite greatest } settled :=
  ⟨le_trans h.floor (Nat.le_max_left _ _), h.above,
    fun w hw => (h.below w hw).imp (fun hle => le_trans hle (Nat.le_max_left _ _)) id, h.distinct⟩

lemma Spread.foldl_placeNew : Spread bound values (owners.foldl (placeNew values) q) fun w =>
      settled w ∨ (w ∈ owners ∧ q.nezha.sequence.get w = 0 ∧ w ∉ q.nezha.aborted) := by
  induction owners generalizing q settled with
  | nil => exact h.congr fun w hw => hw.resolve_right fun hw => nomatch hw.1
  | cons a owners ih =>
    rw [foldl_cons, placeNew]
    split
    next hskip =>
      refine (ih h).congr fun w hw => hw.imp_right ?_
      rintro ⟨hmem, hzero, hlive⟩
      rcases mem_cons.1 hmem with rfl | hmem
      · exact absurd hskip (by simp [hzero, hlive])
      · exact ⟨hmem, hzero, hlive⟩
    next hplace =>
      obtain ⟨hgt, hfree⟩ := nextFree_spec (length_filter_le (q.maxWrite + 1 ≤ ·) values)
      have hnew : ¬settled a := fun ha => by
        have hpos := h.above a ha
        omega
      refine (ih (h.assign hnew hgt hfree)).congr fun w hw => ?_
      by_cases he : w = a
      · exact .inl (.inl he)
      rcases hw with hw | ⟨hmem, hzero, hlive⟩
      · exact .inl (.inr hw)
      · refine .inr ⟨(mem_cons.1 hmem).resolve_left he, ?_, hlive⟩
        simpa [QueuePass.assign, get_put, he] using hzero

end

/-- The numbers of some writers stay, and who is aborted. -/
structure Frame (kept : Nat → Prop) (q r : QueuePass) : Prop where
  aborted : r.nezha.aborted = q.nezha.aborted
  maxRead : r.maxRead = q.maxRead
  sequence : ∀ w, kept w → r.nezha.sequence.get w = q.nezha.sequence.get w

lemma Frame.assign {kept : Nat → Prop} {r : QueuePass} (h : Frame kept q r) (hw : ¬kept w)
    (sequence : Nat) : Frame kept q (r.assign w sequence) := by
  refine ⟨h.aborted, h.maxRead, fun x hx => ?_⟩
  have hne : x ≠ w := fun he => hw (he ▸ hx)
  simp [QueuePass.assign, get_put, hne, h.sequence x hx]

lemma foldl_placeNew_frame : Frame (fun w => w ∉ owners ∨ q.nezha.sequence.get w ≠ 0) q
    (owners.foldl (placeNew values) q) := by
  refine foldlRecOn owners _ ⟨rfl, rfl, fun _ _ => rfl⟩ fun r h a ha => ?_
  rw [placeNew]
  split
  next => exact h
  next hplace =>
    simp only [not_or, ne_eq, not_not] at hplace
    refine h.assign (fun hkept => ?_) _
    have hsame := h.sequence a hkept
    rcases hkept with hnot | hpos
    · exact hnot ha
    · exact hpos (hsame ▸ hplace.1)

def placeMover (q : QueuePass) (w : Nat) : QueuePass :=
  if w ∈ q.nezha.aborted then q else q.assign w (q.maxWrite + 1)

variable {l moved same : List Nat} {k maxRead : Nat}

lemma foldl_placeMover_frame : Frame (· ∉ moved) q (moved.foldl placeMover q) := by
  refine foldlRecOn moved _ ⟨rfl, rfl, fun _ _ => rfl⟩ fun r h a ha => ?_
  rw [placeMover]
  split
  · exact h
  · exact h.assign (not_not.2 ha) _

lemma Spread.foldl_placeMover (h : Spread bound values q settled)
    (hvals : ∀ v ∈ values, v ≤ q.maxWrite) (hnd : moved.Nodup) (hnew : ∀ w ∈ moved, ¬settled w)
    (hlive : ∀ w ∈ moved, w ∉ q.nezha.aborted) :
    Spread bound values (moved.foldl placeMover q) fun w => settled w ∨ w ∈ moved := by
  induction moved generalizing q settled with
  | nil => exact h.congr fun w hw => hw.resolve_right (by simp)
  | cons a moved ih =>
    obtain ⟨hnot, hnd⟩ := nodup_cons.1 hnd
    have hfree : q.maxWrite + 1 ∉ values := fun hin => by
      have hle := hvals _ hin
      omega
    have hassign := h.assign (hnew a mem_cons_self) (Nat.lt_succ_self _) hfree
    rw [foldl_cons, placeMover, if_neg (hlive a mem_cons_self)]
    refine (ih hassign ?_ hnd ?_ ?_).congr ?_
    · exact fun v hv => Nat.le_succ_of_le (hvals v hv)
    · rintro w hw (rfl | hsett)
      · exact hnot hw
      · exact hnew w (mem_cons_of_mem _ hw) hsett
    · exact fun w hw => hlive w (mem_cons_of_mem _ hw)
    · rintro w (hw | hw)
      · exact .inl (.inr hw)
      rcases mem_cons.1 hw with rfl | hw
      · exact .inl (.inl rfl)
      · exact .inr hw

/-! ### The stages of a sort -/

/-- The writers that read the key as well have been placed. -/
def afterSame (q : QueuePass) : List Nat → QueuePass
  | [] => q
  | first :: rest =>
    { nezha :=
        { q.nezha with
          sequence := q.nezha.sequence.put first (q.maxWrite + 1)
          aborted := q.nezha.aborted ++ rest }
      maxRead := q.maxWrite + 1
      maxWrite := q.maxWrite + 1 }

/-- What placing them changes, when they start from the greatest number of a reader. -/
structure SamePlaced (q : QueuePass) (same : List Nat) : Prop where
  maxRead : (afterSame q same).maxRead = if same = [] then q.maxRead else q.maxRead + 1
  maxWrite : q.maxWrite ≤ (afterSame q same).maxWrite
  first : ∀ w ∈ same.take 1, (afterSame q same).nezha.sequence.get w = (afterSame q same).maxRead ∧
    q.maxRead < (afterSame q same).maxRead ∧
      (afterSame q same).maxRead ≤ (afterSame q same).maxWrite
  other : ∀ w, w ∉ same.take 1 → (afterSame q same).nezha.sequence.get w = q.nezha.sequence.get w
  aborted : (afterSame q same).nezha.aborted = q.nezha.aborted ++ same.drop 1

lemma samePlaced (h : same ≠ [] → q.maxWrite = q.maxRead) : SamePlaced q same := by
  cases same with
  | nil => exact ⟨rfl, Nat.le_refl _, by simp, fun _ _ => rfl, (append_nil _).symm⟩
  | cons a rest =>
    have he := h (cons_ne_nil a rest)
    refine ⟨?_, Nat.le_succ _, ?_, ?_, rfl⟩
    · rw [← he]
      rfl
    · intro w hw
      have hwa : w = a := by simpa using hw
      have hget : (afterSame q (a :: rest)).nezha.sequence.get w = q.maxWrite + 1 := by
        simp [afterSame, get_put, hwa]
      exact ⟨hget, he ▸ Nat.lt_succ_self _, Nat.le_refl _⟩
    · intro w hw
      have hne : w ≠ a := by simpa using hw
      simp [afterSame, get_put, hne]

lemma foldl_placeSame_rest {rest : List Nat} (hk : k ≠ 0) (hnd : rest.Nodup)
    (hlive : ∀ w ∈ rest, w ∉ q.nezha.aborted) :
    (rest.zipIdx k).foldl placeSame q =
      { q with nezha := { q.nezha with aborted := q.nezha.aborted ++ rest } } := by
  induction rest generalizing q k with
  | nil => simp
  | cons w rest ih =>
    obtain ⟨hnot, hnd⟩ := nodup_cons.1 hnd
    have hstep : placeSame q (w, k) = q.abort w := by
      rw [placeSame, if_neg (hlive w mem_cons_self), if_neg hk]
    rw [zipIdx_cons, foldl_cons, hstep, ih (Nat.succ_ne_zero k) hnd]
    · simp [QueuePass.abort]
    · intro x hx hin
      rcases mem_append.1 hin with hin | hin
      · exact hlive x (mem_cons_of_mem _ hx) hin
      · exact hnot (mem_singleton.1 hin ▸ hx)

lemma foldl_placeSame (hnd : same.Nodup) (hlive : ∀ w ∈ same, w ∉ q.nezha.aborted) :
    same.zipIdx.foldl placeSame q = afterSame q same := by
  cases same with
  | nil => rfl
  | cons first rest =>
    obtain ⟨hnot, hnd⟩ := nodup_cons.1 hnd
    have hstep : placeSame q (first, 0) =
        { q.assign first (q.maxWrite + 1) with maxRead := q.maxWrite + 1 } := by
      rw [placeSame, if_neg (hlive first mem_cons_self), if_pos rfl]
    rw [zipIdx_cons, foldl_cons, hstep, foldl_placeSame_rest Nat.one_ne_zero hnd]
    · rfl
    · exact fun w hw => hlive w (mem_cons_of_mem _ hw)

lemma foldl_placeAgain_rest (h : ¬q.maxRead < raw ∨ k ≠ 0) :
    (l.zipIdx k).foldl (placeAgain raw) q = l.foldl placeMover q := by
  induction l generalizing q k with
  | nil => rfl
  | cons w l ih =>
    have hstep : placeAgain raw q (w, k) = placeMover q w := by
      rw [placeAgain, placeMover]
      split
      · rfl
      · rw [if_neg fun hkeep => h.elim (fun hnot => hnot hkeep.1) fun hne => hne hkeep.2]
    rw [zipIdx_cons, foldl_cons, hstep]
    exact ih (.inr (Nat.succ_ne_zero k))

lemma foldl_placeAgain : l.zipIdx.foldl (placeAgain raw) q =
      (l.drop (if q.maxRead < raw then 1 else 0)).foldl placeMover q := by
  by_cases hkeep : q.maxRead < raw
  · rw [if_pos hkeep]
    cases l with
    | nil => rfl
    | cons w l =>
      have hstep : placeAgain raw q (w, 0) = q := by
        rw [placeAgain]
        split
        · rfl
        · rw [if_pos ⟨hkeep, rfl⟩]
      rw [zipIdx_cons, foldl_cons, hstep, drop_succ_cons]
      exact foldl_placeAgain_rest (.inr Nat.one_ne_zero)
  · rw [if_neg hkeep]
    exact foldl_placeAgain_rest (.inl hkeep)

lemma foldl_classes {members : Nat → List Nat} :
    values.foldl (fun q raw => (members raw).zipIdx.foldl (placeAgain raw) q) q =
      (values.flatMap fun raw => (members raw).drop (if q.maxRead < raw then 1 else 0)).foldl
        placeMover q := by
  induction values generalizing q with
  | nil => rfl
  | cons raw values ih =>
    rw [foldl_cons, ih, foldl_placeAgain, flatMap_cons, foldl_append,
      foldl_placeMover_frame.maxRead]

section Movers

variable (ds key s)

def raisedRead : Nat :=
  if tmpSame ds key (sortReads ds key s).1 (sortReads ds key s).2 = [] then (sortReads ds key s).2
  else (sortReads ds key s).2 + 1

/-- The placed writers that do not keep their numbers. -/
def placedMovers : List Nat :=
  (placedSequences ds key (sortReads ds key s).1 (sortReads ds key s).2).flatMap fun raw =>
    (placedAt ds key (sortReads ds key s).1 (sortReads ds key s).2 raw).drop
      (if raisedRead ds key s < raw then 1 else 0)

def movers : List Nat :=
  (tmpSame ds key (sortReads ds key s).1 (sortReads ds key s).2).take 1 ++ placedMovers ds key s

def Keeps (w : Nat) : Prop :=
  raisedRead ds key s < (sortReads ds key s).1.sequence.get w ∧
    (placedAt ds key (sortReads ds key s).1 (sortReads ds key s).2
      ((sortReads ds key s).1.sequence.get w)).head? = some w

end Movers

lemma mem_sequencedWriters : w ∈ sequencedWriters ds key s ↔
    w ∈ s.live (writeOwners ds key) ∧ s.sequence.get w ≠ 0 := by
  simp [sequencedWriters]

lemma nodup_sequencedWriters : (sequencedWriters ds key s).Nodup :=
  ((nodup_range.filter _).filter _).filter _

lemma mem_placedAt :
    w ∈ placedAt ds key s maxRead raw ↔ w ∈ placedWriters ds key s maxRead ∧
      s.sequence.get w = raw := by
  simp [placedAt]

lemma mem_placedSequences : raw ∈ placedSequences ds key s maxRead ↔
    ∃ w ∈ placedWriters ds key s maxRead, s.sequence.get w = raw := by
  simp [placedSequences]

lemma mem_placedMovers : w ∈ placedMovers ds key s ↔
    w ∈ placedWriters ds key (sortReads ds key s).1 (sortReads ds key s).2 ∧ ¬Keeps ds key s w := by
  have hnd : ∀ raw, (placedAt ds key (sortReads ds key s).1 (sortReads ds key s).2 raw).Nodup :=
    fun raw => (nodup_sequencedWriters.filter _).filter _
  simp only [placedMovers, mem_flatMap, mem_placedSequences]
  constructor
  · rintro ⟨raw, -, hw⟩
    have hmem := mem_placedAt.1 (mem_of_mem_drop hw)
    refine ⟨hmem.1, ?_⟩
    rintro ⟨hgt, hhead⟩
    rw [hmem.2] at hgt hhead
    rw [if_pos hgt] at hw
    obtain ⟨rest, hrest⟩ := head?_eq_some_iff.1 hhead
    have hdist := hnd raw
    rw [hrest] at hw hdist
    exact (nodup_cons.1 hdist).1 hw
  · rintro ⟨hplaced, hmoves⟩
    refine ⟨_, ⟨w, hplaced, rfl⟩, ?_⟩
    have hmem := mem_placedAt.2 ⟨hplaced, rfl⟩
    split
    next hgt =>
      generalize hl : placedAt ds key (sortReads ds key s).1 (sortReads ds key s).2
        ((sortReads ds key s).1.sequence.get w) = l at hmem
      cases l with
      | nil => cases hmem
      | cons first rest =>
        rcases mem_cons.1 hmem with rfl | hmem
        · exact absurd ⟨hgt, by rw [hl]; rfl⟩ hmoves
        · exact hmem
    next => exact hmem

lemma nodup_placedMovers : (placedMovers ds key s).Nodup := by
  have hvals : (placedSequences ds key (sortReads ds key s).1 (sortReads ds key s).2).Nodup :=
    (perm_insertionSort _ _).nodup_iff.2 (nodup_dedup _)
  refine nodup_flatMap.2 ⟨fun raw _ => ?_, hvals.imp ?_⟩
  · exact ((nodup_sequencedWriters.filter _).filter _).sublist (drop_sublist _ _)
  · intro raw raw' hne w hw hw'
    have he := (mem_placedAt.1 (mem_of_mem_drop hw)).2
    have he' := (mem_placedAt.1 (mem_of_mem_drop hw')).2
    exact hne (he.symm.trans he')

/-! ### What a sort leaves -/

lemma Spread.of_first {first : List Nat} {keeps : Nat → Prop} (hfloor : bound ≤ q.maxWrite)
    (hread : bound ≤ q.maxRead) (hunique : ∀ w ∈ first, ∀ w' ∈ first, w = w')
    (hfirst : ∀ w ∈ first, q.nezha.sequence.get w = q.maxRead ∧ bound < q.maxRead ∧
      q.maxRead ≤ q.maxWrite)
    (hkeeps : ∀ w, keeps w → q.maxRead < q.nezha.sequence.get w ∧ q.nezha.sequence.get w ∈ values)
    (hinj : ∀ w w', keeps w → keeps w' → q.nezha.sequence.get w = q.nezha.sequence.get w' →
      w = w') :
    Spread bound values q fun w => w ∈ first ∨ keeps w := by
  refine ⟨hfloor, ?_, ?_, ?_⟩
  · rintro w (hw | hw)
    · rw [(hfirst w hw).1]
      exact (hfirst w hw).2.1
    · exact Nat.lt_of_le_of_lt hread (hkeeps w hw).1
  · rintro w (hw | hw)
    · rw [(hfirst w hw).1]
      exact .inl (hfirst w hw).2.2
    · exact .inr (hkeeps w hw).2
  · rintro w w' (hw | hw) (hw' | hw') he
    · exact hunique w hw w' hw'
    · have hgt := (hkeeps w' hw').1
      rw [← he, (hfirst w hw).1] at hgt
      exact absurd hgt (Nat.lt_irrefl _)
    · have hgt := (hkeeps w hw).1
      rw [he, (hfirst w' hw').1] at hgt
      exact absurd hgt (Nat.lt_irrefl _)
    · exact hinj w w' hw hw' he

section Sorted

variable (ds key s)

/-- The sort of a queue when the readers have their numbers. -/
def sortedReads : QueuePass where
  nezha :=
    { (sortReads ds key s).1 with
      aborted := s.aborted ++ lateWriters ds key (sortReads ds key s).1 (sortReads ds key s).2 }
  maxRead := (sortReads ds key s).2
  maxWrite :=
    if (sortReads ds key s).2 = 0 then nezhaInitialSequence - 1 else (sortReads ds key s).2

def sortedSame : QueuePass :=
  afterSame (sortedReads ds key s) (tmpSame ds key (sortReads ds key s).1 (sortReads ds key s).2)

/-- The new writers get their numbers, and later numbers are above those of the placed writers. -/
def newPlaced (q : QueuePass) : QueuePass :=
  let values := placedSequences ds key (sortReads ds key s).1 (sortReads ds key s).2
  let fresh := (writeOwners ds key).foldl (placeNew values) q
  { fresh with maxWrite := max fresh.maxWrite (values.getLastD 0) }

def sortedNew : QueuePass := newPlaced ds key s (sortedSame ds key s)

abbrev sameWriters : List Nat := tmpSame ds key (sortReads ds key s).1 (sortReads ds key s).2

abbrev oldWriters : List Nat := placedWriters ds key (sortReads ds key s).1 (sortReads ds key s).2

variable {ds key s}

variable {w : Nat}

lemma disjoint_same_placed {maxRead : Nat} (hw : w ∈ tmpSame ds key s maxRead) :
    w ∉ placedWriters ds key s maxRead := by
  simp only [tmpSame, placedWriters, mem_filter, decide_eq_true_eq] at hw ⊢
  rintro ⟨-, hgt | hnot⟩
  · omega
  · exact hnot.1 hw.2.2

lemma samePlaced_sortedReads : SamePlaced (sortedReads ds key s) (sameWriters ds key s) := by
  refine samePlaced fun hsome => ?_
  obtain ⟨w, hw⟩ := exists_mem_of_ne_nil _ hsome
  simp only [sameWriters, tmpSame, mem_filter, decide_eq_true_eq, mem_sequencedWriters] at hw
  -- the number of a reader is not zero
  have hne : (sortReads ds key s).2 ≠ 0 := fun hzero => by
    omega
  exact if_neg hne

lemma sortedSame_maxRead : (sortedSame ds key s).maxRead = raisedRead ds key s :=
  samePlaced_sortedReads.maxRead

lemma le_raisedRead : (sortReads ds key s).2 ≤ raisedRead ds key s := by
  unfold raisedRead
  split
  · exact Nat.le_refl _
  · exact Nat.le_succ _

/-- Up to the new writers, everybody who is not the first of the writers that read the key as well
keeps the number. -/
lemma sequence_sortedSame (hw : w ∉ (sameWriters ds key s).take 1) :
    (sortedSame ds key s).nezha.sequence.get w = (sortReads ds key s).1.sequence.get w :=
  samePlaced_sortedReads.other w hw

lemma spread_sortedSame : Spread (sortReads ds key s).2
      (placedSequences ds key (sortReads ds key s).1 (sortReads ds key s).2) (sortedSame ds key s)
      fun w => w ∈ (sameWriters ds key s).take 1 ∨
        (w ∈ oldWriters ds key s ∧ Keeps ds key s w) := by
  have hplaced : SamePlaced (sortedReads ds key s) (sameWriters ds key s) := samePlaced_sortedReads
  have hfloor : (sortReads ds key s).2 ≤ (sortedReads ds key s).maxWrite := by
    simp only [sortedReads]
    split
    next hzero => omega
    next => exact Nat.le_refl _
  have hkept : ∀ w, w ∈ oldWriters ds key s →
      (sortedSame ds key s).nezha.sequence.get w = (sortReads ds key s).1.sequence.get w :=
    fun w hw => sequence_sortedSame fun hin => disjoint_same_placed (mem_of_mem_take hin) hw
  refine Spread.of_first (le_trans hfloor hplaced.maxWrite) ?_ ?_ hplaced.first ?_ ?_
  · rw [sortedSame_maxRead]
    exact le_raisedRead
  · intro w hw w' hw'
    generalize sameWriters ds key s = same at hw hw'
    cases same with
    | nil => cases hw
    | cons a rest =>
      have hwa : w = a := by simpa using hw
      have hwa' : w' = a := by simpa using hw'
      rw [hwa, hwa']
  · rintro w ⟨hmem, hkeeps⟩
    rw [hkept w hmem, sortedSame_maxRead]
    exact ⟨hkeeps.1, mem_placedSequences.2 ⟨w, hmem, rfl⟩⟩
  · rintro w w' ⟨hmem, hkeeps⟩ ⟨hmem', hkeeps'⟩ he
    rw [hkept w hmem, hkept w' hmem'] at he
    have hhead := hkeeps.2
    rw [he, hkeeps'.2] at hhead
    exact (Option.some.inj hhead).symm

lemma nezhaSortInQueue_eq :
    nezhaSortInQueue ds key s =
      ((placedMovers ds key s).foldl placeMover (sortedNew ds key s)).nezha := by
  have hsame : (sameWriters ds key s).zipIdx.foldl placeSame (sortedReads ds key s) =
      sortedSame ds key s := by
    refine foldl_placeSame (nodup_sequencedWriters.filter _) fun w hw hin => ?_
    simp only [sameWriters, tmpSame, mem_filter, decide_eq_true_eq] at hw
    rcases mem_append.1 hin with hin | hin
    · exact (Nezha.mem_live.1 (mem_sequencedWriters.1 hw.1).1).2 hin
    · simp only [lateWriters, mem_filter, decide_eq_true_eq] at hin
      exact hin.2.2.1 hw.2.2
  have hread : (sortedNew ds key s).maxRead = raisedRead ds key s :=
    foldl_placeNew_frame.maxRead.trans sortedSame_maxRead
  rw [placedMovers, ← hread, ← foldl_classes, sortedNew, ← hsame]
  rfl

lemma aborted_sort : (nezhaSortInQueue ds key s).aborted =
    s.aborted ++ lateWriters ds key (sortReads ds key s).1 (sortReads ds key s).2 ++
      (sameWriters ds key s).drop 1 := by
  rw [nezhaSortInQueue_eq, foldl_placeMover_frame.aborted]
  exact foldl_placeNew_frame.aborted.trans samePlaced_sortedReads.aborted

lemma sequence_sort (hpos : s.sequence.get w ≠ 0) (hw : w ∉ movers ds key s) :
    (nezhaSortInQueue ds key s).sequence.get w = s.sequence.get w := by
  simp only [movers, mem_append, not_or] at hw
  have hreads : (sortReads ds key s).1.sequence.get w = s.sequence.get w := sequence_sortReads hpos
  have hsame := (sequence_sortedSame hw.1).trans hreads
  rw [nezhaSortInQueue_eq, foldl_placeMover_frame.sequence w hw.2]
  exact (foldl_placeNew_frame.sequence w (.inr (hsame ▸ hpos))).trans hsame

lemma placed_live (hw : w ∈ oldWriters ds key s) : w ∉ (nezhaSortInQueue ds key s).aborted := by
  rw [aborted_sort, mem_append, mem_append]
  rintro ((hin | hin) | hin)
  · have hlive := (mem_sequencedWriters.1 (mem_filter.1 hw).1).1
    exact (Nezha.mem_live.1 hlive).2 hin
  · simp only [oldWriters, placedWriters, lateWriters, mem_filter, decide_eq_true_eq] at hw hin
    rcases hw.2 with hgt | hnone
    · omega
    · exact hnone.2 hin.2.2.2
  · exact disjoint_same_placed (mem_of_mem_drop hin) hw

lemma le_getLastD {l : List Nat} (hsort : l.Pairwise (· ≤ ·)) {v : Nat} (hv : v ∈ l) :
    v ≤ l.getLastD 0 := by
  cases l with
  | nil => cases hv
  | cons a l =>
    exact hsort.rel_getLast hv

lemma spread_sort : Spread (sortReads ds key s).2
      (placedSequences ds key (sortReads ds key s).1 (sortReads ds key s).2)
      ((placedMovers ds key s).foldl placeMover (sortedNew ds key s))
      fun w => w ∈ writeOwners ds key ∧ w ∉ (nezhaSortInQueue ds key s).aborted := by
  have hsame : Spread _ _ (sortedSame ds key s) _ := spread_sortedSame
  have hnew : Spread _ _ (sortedNew ds key s) _ := (Spread.foldl_placeNew hsame).raise _
  have habort : (sortedNew ds key s).nezha.aborted = (nezhaSortInQueue ds key s).aborted := by
    rw [nezhaSortInQueue_eq, foldl_placeMover_frame.aborted]
  refine (hnew.foldl_placeMover ?_ nodup_placedMovers ?_ ?_).congr ?_
  · intro v hv
    exact le_trans (le_getLastD (pairwise_insertionSort _ _) hv) (Nat.le_max_right _ _)
  · rintro w hw ((hfirst | ⟨-, hkeeps⟩) | ⟨-, hzero, -⟩)
    · exact disjoint_same_placed (mem_of_mem_take hfirst) (mem_placedMovers.1 hw).1
    · exact (mem_placedMovers.1 hw).2 hkeeps
    have hplaced := (mem_placedMovers.1 hw).1
    rw [sequence_sortedSame fun hin => disjoint_same_placed (mem_of_mem_take hin) hplaced] at hzero
    exact (mem_sequencedWriters.1 (mem_filter.1 hplaced).1).2 hzero
  · intro w hw
    rw [habort]
    exact placed_live (mem_placedMovers.1 hw).1
  · rintro w ⟨howner, hlive⟩
    have hlive' := hlive
    rw [aborted_sort, mem_append, mem_append] at hlive'
    push Not at hlive'
    obtain ⟨⟨halive, hlate⟩, hrest⟩ := hlive'
    by_cases hzero : (sortReads ds key s).1.sequence.get w = 0
    · have hnot : w ∉ (sameWriters ds key s).take 1 := fun hin =>
        (mem_sequencedWriters.1 (mem_filter.1 (mem_of_mem_take hin)).1).2 hzero
      have hsameAborted : w ∉ (sortedSame ds key s).nezha.aborted := by
        rw [← habort] at hlive
        exact fun hin => hlive (foldl_placeNew_frame.aborted.symm ▸ hin)
      exact .inl (.inr ⟨howner, (sequence_sortedSame hnot).trans hzero, hsameAborted⟩)
    · have hseq : w ∈ sequencedWriters ds key (sortReads ds key s).1 :=
        mem_sequencedWriters.2 ⟨Nezha.mem_live.2 ⟨howner, halive⟩, hzero⟩
      simp only [lateWriters, mem_filter, decide_eq_true_eq, hseq, true_and] at hlate
      by_cases hplaced : w ∈ oldWriters ds key s
      · by_cases hkeeps : Keeps ds key s w
        · exact .inl (.inl (.inr ⟨hplaced, hkeeps⟩))
        · exact .inr (mem_placedMovers.2 ⟨hplaced, hkeeps⟩)
      · -- whoever is neither placed nor late reads the key as well
        have hin : w ∈ sameWriters ds key s := by
          simp only [oldWriters, sameWriters, placedWriters, tmpSame, mem_filter, decide_eq_true_eq,
            hseq, true_and, not_or, not_lt] at hplaced ⊢
          refine ⟨hplaced.1, ?_⟩
          by_contra hnot
          exact hplaced.2 ⟨hnot, fun hother => hlate ⟨hplaced.1, hnot, hother⟩⟩
        rw [← take_append_drop 1 (sameWriters ds key s), mem_append] at hin
        exact .inl (.inl (.inl (hin.resolve_right hrest)))

lemma mem_writeOwners_of_placed (hw : w ∈ oldWriters ds key s) : w ∈ writeOwners ds key :=
  (Nezha.mem_live.1 (mem_sequencedWriters.1 (mem_filter.1 hw).1).1).1

lemma mem_writeOwners_of_movers (hw : w ∈ movers ds key s) : w ∈ writeOwners ds key := by
  rcases mem_append.1 hw with hw | hw
  · have hseq := (mem_filter.1 (mem_of_mem_take hw)).1
    exact (Nezha.mem_live.1 (mem_sequencedWriters.1 hseq).1).1
  · exact mem_writeOwners_of_placed (mem_placedMovers.1 hw).1

lemma sequence_sort_reader {i : Nat} (hi : i ∉ writeOwners ds key) :
    (nezhaSortInQueue ds key s).sequence.get i = (sortReads ds key s).1.sequence.get i := by
  have hnot : i ∉ movers ds key s := fun hin => hi (mem_writeOwners_of_movers hin)
  simp only [movers, mem_append, not_or] at hnot
  rw [nezhaSortInQueue_eq, foldl_placeMover_frame.sequence i hnot.2]
  exact (foldl_placeNew_frame.sequence i (.inl hi)).trans (sequence_sortedSame hnot.1)

lemma lt_sequence_sort (hw : w ∈ writeOwners ds key)
    (hlive : w ∉ (nezhaSortInQueue ds key s).aborted) :
    (sortReads ds key s).2 < (nezhaSortInQueue ds key s).sequence.get w := by
  have habove := spread_sort.above w ⟨hw, hlive⟩
  rwa [← nezhaSortInQueue_eq] at habove

lemma live_of_sort {i : Nat} (hlive : i ∉ (nezhaSortInQueue ds key s).aborted) : i ∉ s.aborted := by
  rw [aborted_sort, append_assoc] at hlive
  exact fun hin => hlive (mem_append_left _ hin)

end Sorted

end Queue

/-! ## All queues -/

section

variable {T : Type} (ds : List (TxAccess T))

def ConflictOn (key : String) (i j : Nat) : Prop :=
  (key ∈ writeKeysAt ds i ∧ (key ∈ readKeysAt ds j ∨ key ∈ writeKeysAt ds j)) ∨
    (key ∈ readKeysAt ds i ∧ key ∈ writeKeysAt ds j)

instance (key : String) (i j : Nat) : Decidable (ConflictOn ds key i j) :=
  inferInstanceAs (Decidable (_ ∨ _))

/-- The sort of a queue moves no transaction that conflicts with a live one at a key in `done`. -/
def Harmless (done : List String) (key : String) (s : Nezha) : Prop :=
  ∀ w ∈ movers ds key s, ∀ other ∈ done, ∀ j ∈ List.range ds.length, j ≠ w → j ∉ s.aborted →
    ¬ConflictOn ds other w j

instance (done : List String) (key : String) (s : Nezha) : Decidable (Harmless ds done key s) :=
  inferInstanceAs (Decidable (∀ w ∈ movers ds key s, ∀ other ∈ done, ∀ j ∈ List.range ds.length,
    j ≠ w → j ∉ s.aborted → ¬ConflictOn ds other w j))

/-- Every sort is harmless for the queues that were sorted before it. -/
def Undisturbed : List String → List String → Nezha → Prop
  | _, [], _ => True
  | done, key :: keys, s =>
    Harmless ds done key s ∧ Undisturbed (done ++ [key]) keys (nezhaSortInQueue ds key s)

instance decidableUndisturbed : ∀ (done keys : List String) (s : Nezha),
    Decidable (Undisturbed ds done keys s)
  | _, [], _ => .isTrue trivial
  | done, key :: keys, s =>
    have := decidableUndisturbed (done ++ [key]) keys (nezhaSortInQueue ds key s)
    inferInstanceAs (Decidable (Harmless ds done key s ∧ _))

/-- Live transactions that conflict at a key in `done` have different numbers. -/
structure Settled (done : List String) (s : Nezha) : Prop where
  sequenced : ∀ key ∈ done, ∀ i ∈ readOwners ds key ++ writeOwners ds key, i ∉ s.aborted →
    s.sequence.get i ≠ 0
  apart : ∀ key ∈ done, ∀ i ∈ writeOwners ds key, ∀ j ∈ readOwners ds key ++ writeOwners ds key,
    i ≠ j →
    i ∉ s.aborted → j ∉ s.aborted → s.sequence.get i ≠ s.sequence.get j

variable {ds} {done keys : List String} {key : String} {s : Nezha}

variable {i j : Nat}

lemma sequenced_sort (hi : i ∈ readOwners ds key ++ writeOwners ds key)
    (hlive : i ∉ (nezhaSortInQueue ds key s).aborted) :
    (nezhaSortInQueue ds key s).sequence.get i ≠ 0 := by
  by_cases hwriter : i ∈ writeOwners ds key
  · have habove := lt_sequence_sort hwriter hlive
    omega
  · rw [sequence_sort_reader hwriter]
    have hreader := (mem_append.1 hi).resolve_right hwriter
    have hpos := (sortReads_spec rfl (Nezha.mem_live.2 ⟨hreader, live_of_sort hlive⟩)).1
    omega

lemma apart_sort (hi : i ∈ writeOwners ds key) (hj : j ∈ readOwners ds key ++ writeOwners ds key)
    (hne : i ≠ j) (hlive : i ∉ (nezhaSortInQueue ds key s).aborted)
    (hlive' : j ∉ (nezhaSortInQueue ds key s).aborted) :
    (nezhaSortInQueue ds key s).sequence.get i ≠ (nezhaSortInQueue ds key s).sequence.get j := by
  intro he
  by_cases hwriter : j ∈ writeOwners ds key
  · refine hne (spread_sort.distinct i j ⟨hi, hlive⟩ ⟨hwriter, hlive'⟩ ?_)
    rwa [← nezhaSortInQueue_eq]
  -- a reader's number is below the numbers of the writers
  have hreader := (mem_append.1 hj).resolve_right hwriter
  have hle := (sortReads_spec rfl (Nezha.mem_live.2 ⟨hreader, live_of_sort hlive'⟩)).2
  have habove := lt_sequence_sort hi hlive
  rw [sequence_sort_reader hwriter] at he
  omega

lemma mem_range_of_owner (hi : i ∈ readOwners ds key ++ writeOwners ds key) :
    i ∈ List.range ds.length := by
  rcases mem_append.1 hi with hi | hi
  · exact mem_range.2 (mem_readOwners.1 hi).1
  · exact mem_range.2 (mem_writeOwners.1 hi).1

lemma Settled.sort (h : Settled ds done s) (hharmless : Harmless ds done key s) :
    Settled ds (done ++ [key]) (nezhaSortInQueue ds key s) where
  sequenced := by
    intro other hother i hi hlive
    rcases mem_append.1 hother with hother | hother
    · have hpos := h.sequenced other hother i hi (live_of_sort hlive)
      by_cases hmoved : i ∈ movers ds key s
      · exact sequenced_sort (mem_append_right _ (mem_writeOwners_of_movers hmoved)) hlive
      · rwa [sequence_sort hpos hmoved]
    · rw [mem_singleton.1 hother] at hi
      exact sequenced_sort hi hlive
  apart := by
    intro other hother i hi j hj hne hlive hlive'
    rcases mem_append.1 hother with hother | hother
    · have hi' : i ∈ readOwners ds other ++ writeOwners ds other := mem_append_right _ hi
      have hwrs := (mem_writeOwners.1 hi).2
      have haccess : other ∈ readKeysAt ds j ∨ other ∈ writeKeysAt ds j :=
        (mem_append.1 hj).imp (fun hr => (mem_readOwners.1 hr).2) fun hw => (mem_writeOwners.1 hw).2
      -- neither of the two has been moved
      have hstay : i ∉ movers ds key s := fun hmoved =>
        hharmless i hmoved other hother j (mem_range_of_owner hj) hne.symm (live_of_sort hlive')
          (.inl ⟨hwrs, haccess⟩)
      have hstay' : j ∉ movers ds key s := fun hmoved =>
        hharmless j hmoved other hother i (mem_range_of_owner hi') hne (live_of_sort hlive)
          (haccess.elim (fun hr => .inr ⟨hr, hwrs⟩) fun hw => .inl ⟨hw, .inr hwrs⟩)
      rw [sequence_sort (h.sequenced other hother i hi' (live_of_sort hlive)) hstay,
        sequence_sort (h.sequenced other hother j hj (live_of_sort hlive')) hstay']
      exact h.apart other hother i hi j hj hne (live_of_sort hlive) (live_of_sort hlive')
    · rw [mem_singleton.1 hother] at hi hj
      exact apart_sort hi hj hne hlive hlive'

lemma Settled.sortQueues (h : Settled ds done s) (hund : Undisturbed ds done keys s) :
    Settled ds (done ++ keys) (sortQueues ds keys s) := by
  induction keys generalizing done s with
  | nil => simpa [Literature.sortQueues] using h
  | cons key keys ih =>
    have hrest := ih (h.sort hund.1) hund.2
    rw [append_assoc, singleton_append] at hrest
    exact hrest

lemma mem_queueKeys_of_write (h : key ∈ writeKeysAt ds i) : key ∈ queueKeys ds := by
  unfold writeKeysAt at h
  cases hd : ds[i]? with
  | none =>
    rw [hd] at h
    cases h
  | some d =>
    rw [hd] at h
    simpa [queueKeys, BatchSI.sortedKeys] using ⟨d, mem_of_getElem? hd, .inr h⟩

lemma Settled.sequenceOf_writer_ne (h : Settled ds (queueKeys ds) s) (hi : i ∈ writeOwners ds key)
    (hj : j ∈ readOwners ds key ++ writeOwners ds key) (hne : i ≠ j) (hlive : i ∉ s.aborted)
    (hlive' : j ∉ s.aborted) : sequenceOf s i ≠ sequenceOf s j := by
  have hkey : key ∈ queueKeys ds := mem_queueKeys_of_write (mem_writeOwners.1 hi).2
  have hpos := h.sequenced key hkey i (mem_append_right _ hi) hlive
  have hpos' := h.sequenced key hkey j hj hlive'
  rw [sequenceOf, sequenceOf, if_neg hpos, if_neg hpos']
  exact h.apart key hkey i hi j hj hne hlive hlive'

lemma Settled.sequenceOf_ne (h : Settled ds (queueKeys ds) s) (hi : i < ds.length)
    (hj : j < ds.length) (hne : i ≠ j) (hlive : i ∉ s.aborted) (hlive' : j ∉ s.aborted)
    (hconf : Conflict ds i j) : sequenceOf s i ≠ sequenceOf s j := by
  obtain ⟨key, ⟨hw, hr⟩ | ⟨hr, hw⟩ | ⟨hw, hw'⟩⟩ := hconf
  · exact h.sequenceOf_writer_ne (mem_writeOwners.2 ⟨hi, hw⟩)
      (mem_append_left _ (mem_readOwners.2 ⟨hj, hr⟩)) hne hlive hlive'
  · exact (h.sequenceOf_writer_ne (mem_writeOwners.2 ⟨hj, hw⟩)
      (mem_append_left _ (mem_readOwners.2 ⟨hi, hr⟩)) hne.symm hlive' hlive).symm
  · exact h.sequenceOf_writer_ne (mem_writeOwners.2 ⟨hi, hw⟩)
      (mem_append_right _ (mem_writeOwners.2 ⟨hj, hw'⟩)) hne hlive hlive'

lemma settled_of_undisturbed (h : Undisturbed ds [] (nezhaQueueOrder ds).1 (Nezha.start ds)) :
    Settled ds (queueKeys ds) (sortQueues ds (nezhaQueueOrder ds).1 (Nezha.start ds)) := by
  have hstart : Settled ds [] (Nezha.start ds) := ⟨by simp, by simp⟩
  have hsett := hstart.sortQueues h
  refine ⟨fun key hkey => ?_, fun key hkey => ?_⟩
  · exact hsett.sequenced key (perm_nezhaQueueOrder.mem_iff.2 hkey)
  · exact hsett.apart key (perm_nezhaQueueOrder.mem_iff.2 hkey)

end

end ChainLab.Execution.Literature
