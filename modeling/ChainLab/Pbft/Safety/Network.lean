import ChainLab.Block.Digest
import ChainLab.Pbft.Core.Agreement
import ChainLab.Pbft.Core.Survival
import ChainLab.Pbft.Safety.Handlers

/-!
# Agreement and survival in a network

A run of the network in which every call keeps the rules about votes is a run of the abstract
machine, so what holds there holds of the network: nodes agree, and committed blocks survive view
changes.  The handlers do not enforce the rules, and without them both fail.
-/

namespace ChainLab.Pbft

open Function (update update_self update_of_ne)
open Interleave (Sound sound_start sound_resume)
open List

/-! ## A call -/

section

variable {hash : BlockCore → String} {K : Core.Committee String} {careful : Prop} {w : World}
  {r : String} {op : Op}

lemma mem_decisions_exec {d : String × Nat × Nat × String} : d ∈ (w.exec hash r op).2.decisions ↔
    d ∈ w.decisions ∨
      d.1 = r ∧ Entry.decided ⟨op, ((w.nodes r).exec hash op).1⟩ = some d.2 := by
  obtain ⟨q, d⟩ := d
  simp only [World.decisions, World.exec, filterMap_append, mem_append]
  refine or_congr Iff.rfl ?_
  cases hdec : Entry.decided ⟨op, ((w.nodes r).exec hash op).1⟩ with
  | none =>
    simp only [filterMap_cons, filterMap_nil, hdec, Option.map_none, not_mem_nil, reduceCtorEq,
      and_false]
  | some decision =>
    simp only [filterMap_cons, filterMap_nil, hdec, Option.map_some, mem_singleton, Prod.mk.injEq,
      Option.some.injEq]
    exact and_congr_right' eq_comm

/-- A call that comes with its facts and keeps the rules keeps the invariant of the network. -/
lemma worldInv_exec (hinj : Function.Injective hash) (h : WorldInv hash K careful w)
    (hr : r ∈ K.replicas) (hcorr : r ∉ K.faulty) (hpre : Pre K w.signed r (w.nodes r) op)
    (hrules : ByTheRules careful K w r op) : WorldInv hash K careful (w.exec hash r op).2 := by
  have hact := h.action hcorr hpre
  have hnode := h.nodes r
  obtain ⟨m, hreach, hrefines⟩ := h.simulated
  obtain ⟨m', hsteps, hrefines'⟩ := simulate_action hinj hrefines hnode hr hcorr h.built hact hrules
  refine ⟨⟨m', hreach.trans hsteps, ?_⟩, fun q => ?_, ?_, ?_, ?_⟩
  · rw [signed_exec]
    exact hrefines'
  · rw [signed_exec]
    by_cases hq : q = r
    · subst hq
      rw [exec_nodes_self]
      exact nodeInv_action hinj hnode hact
    · simp only [World.exec, update_of_ne hq]
      exact (h.nodes q).of_other hact fun heq => hq (heq.symm.trans hnode.nodeID)
  · rw [signed_exec]
    exact sequencesMatch_action h.sequences hact
  · intro vc hvc
    rw [signed_exec, mem_append, Option.mem_toList] at hvc
    rw [mem_built_exec]
    rcases hvc.elim .inl hact.of_viewChange with hold | ⟨hnew, hself⟩
    · exact .inl (h.built vc hold)
    · exact .inr ⟨hself.trans hnode.nodeID, hnew⟩
  · rintro q view height blockHash hdec
    rw [signed_exec]
    rcases mem_decisions_exec.1 hdec with hold | ⟨-, hnew⟩
    · exact (h.decided q view height blockHash hold).mono
        (sentVotes_mono commitKind (subset_append_left _ _))
    · exact decided_supported hnode hact hnew

end

/-! ## The network -/

/-- The validators as a committee: their quorum size, and at most as many Byzantine ones as the
fault tolerance admits. -/
def committee (validators : List String) (byz : Finset String) (hne : validators ≠ [])
    (hbyz : byz.card ≤ faultTolerance validators.length) : Core.Committee String where
  replicas := validators.toFinset
  faulty := byz
  quorum := quorum validators.length
  two_thirds := by
    have hpos := length_pos_iff.2 hne
    have := two_mul_lt_three_mul_quorum hpos
    have := validators.toFinset_card_le
    omega
  intersecting := by
    have hpos := length_pos_iff.2 hne
    have := faultTolerance_lt_two_mul_quorum_sub hpos
    have := validators.toFinset_card_le
    omega

section Network

variable {hash : BlockCore → String} {validators : List String} {byz : Finset String}
  {careful : Prop} {shardID leaderID : String} {interval window : Nat}

lemma stateInv_new {K : Core.Committee String} {r : String} (hne : validators ≠ [])
    (hreplicas : K.replicas = validators.toFinset) (hquor : K.quorum = quorum validators.length) :
    StateInv hash K [] ((State.new r leaderID validators).configureCheckpoint interval window) := by
  have hsort : validators.insertionSort (· ≤ ·) ≠ [] := by
    rw [← length_pos_iff, length_insertionSort, length_pos_iff]
    exact hne
  have hset : ((State.new r leaderID validators).configureCheckpoint interval window).validatorSet =
      validators.insertionSort (· ≤ ·) := by
    simp [State.configureCheckpoint, State.new, hsort]
  exact
    { validators := by
        intro node hnode
        simp only [State.isValidator, hset, Bool.and_eq_true, contains_iff_mem, mem_insertionSort]
          at hnode
        simp [hreplicas, hnode.2]
      quorum_eq := by
        rw [State.prepareQuorum, hset, length_insertionSort, hquor]
      prepares := .empty
      commits := .empty
      locks := .empty
      prepared := by simp [SoundPrepared, State.configureCheckpoint, State.new]
      changes := by
        intro view node vc hvc
        simp [State.configureCheckpoint, State.new] at hvc }

lemma sound_init (hne : validators ≠ []) (hbyz : byz.card ≤ faultTolerance validators.length) :
    Sound (system hash) (discipline hash (committee validators byz hne hbyz) careful)
      (Pool.init shardID leaderID validators interval window) := by
  refine ⟨⟨⟨Core.Machine.start, .refl, fun r => ⟨rfl, rfl, fun _ => rfl, fun _ => rfl⟩, ?_, ?_, ?_⟩,
    fun r => ?_, ?_, ?_, ?_⟩, ?_⟩
  · simp [Core.Machine.start, sentVotes, World.signed, Pool.init]
  · simp [Core.Machine.start, sentVotes, World.signed, Pool.init]
  · simp [Core.Machine.start, sentChanges, World.signed, Pool.init]
  · exact
      { state := stateInv_new hne rfl rfl
        nodeID := rfl
        checkpoints := by
          intro key cp hcp
          simp [Pool.init, State.configureCheckpoint, State.new] at hcp
        sentCheckpoints := by simp [World.signed, Pool.init]
        tasks := by simp [Pool.init, Node.new] }
  · simp [SequencesMatch, World.signed, Pool.init]
  · simp [World.signed, Pool.init]
  · simp [World.decisions, Pool.init]
  · simp [Pool.init]

variable {start : Pool} {acts : List Act}

/-- A run whose calls keep the rules stays sound. -/
lemma sound_run (hinj : Function.Injective hash) {hne : validators ≠ []}
    {hbyz : byz.card ≤ faultTolerance validators.length}
    (hstart : Sound (system hash) (discipline hash (committee validators byz hne hbyz) careful)
      start) (hlegal : Legal hash validators byz start acts) (hord : OrderlyRun hash start acts)
    (hinstep : careful → InStepRun hash validators byz start acts) (i : Nat) :
    Sound (system hash) (discipline hash (committee validators byz hne hbyz) careful)
      (start.runAt hash acts i) := by
  refine Run.stretch_induction (Nat.zero_le i) (by simpa using hstart) ?_
  intro k a _ _ ha hk
  cases a with
  | start r e =>
    obtain ⟨hr, hcorr, hverifies⟩ := hlegal k _ ha
    refine sound_start hk (safe_handle (by simpa [committee] using hr) hcorr ?_)
    exact hverifies.mono (World.sent_subset_signed _)
  | resume r j =>
    refine sound_resume hk fun op hop hpre => ?_
    obtain ⟨hr, hcorr, hpre⟩ := hpre
    have hcall : ∀ P, EveryCall hash start acts P → P (start.worldAt hash acts k) r op :=
      fun P hall => hall k _ ha (r, op) (by simp [Pool.callOf, hop])
    have hrules : ByTheRules careful (committee validators byz hne hbyz)
        (start.worldAt hash acts k) r op := by
      refine ⟨hcall _ hord, ?_, ?_⟩
      · rintro hcare newView height rfl r' hr' hcorr'
        exact hcall _ (hinstep hcare) r' (by simpa [committee] using hr') hcorr'
      · rintro hcare nv rfl
        exact hcall _ (hinstep hcare)
    exact ⟨hrules, worldInv_exec hinj hk.inv hr hcorr hpre hrules,
      fun q _ _ _ => rely_exec hk.inv hcorr hpre q⟩

/-- Without validators nothing ever happens. -/
lemma runAt_init_of_legal
    (hlegal : Legal hash [] byz (Pool.init shardID leaderID [] interval window) acts) (i : Nat) :
    Pool.runAt hash (Pool.init shardID leaderID [] interval window) acts i =
      Pool.init shardID leaderID [] interval window := by
  refine Run.stretch_induction (P :=
    fun pool => pool = Pool.init shardID leaderID [] interval window)
    (Nat.zero_le i) (by simp) ?_
  intro k a _ _ ha hk
  cases a with
  | start r e => exact absurd (hlegal k _ ha).1 (by simp)
  | resume r j =>
    rw [hk]
    simp [Interleave.Pool.step, Pool.init]

/-! ## Agreement -/

section

variable (hinj : Function.Injective hash)
  (hlegal : Legal hash validators byz (Pool.init shardID leaderID validators interval window) acts)
  (horderly : OrderlyRun hash (Pool.init shardID leaderID validators interval window) acts)
include hinj hlegal horderly

/-- Every decision of a run that keeps the rules has a quorum behind it in the abstract machine. -/
lemma decided_of_run (hbyz : byz.card ≤ faultTolerance validators.length) (hne : validators ≠ [])
    (hinstep : careful → InStepRun hash validators byz
      (Pool.init shardID leaderID validators interval window) acts) (i : Nat) :
    ∃ m, Core.Reachable (committee validators byz hne hbyz) careful m ∧
      Refines (Pool.worldAt hash (Pool.init shardID leaderID validators interval window) acts
        i).nodes
        (Pool.worldAt hash (Pool.init shardID leaderID validators interval window) acts i).signed
          m ∧ ∀ r view height blockHash, (r, view, height, blockHash) ∈
        (Pool.worldAt hash (Pool.init shardID leaderID validators interval window) acts
          i).decisions →
        Core.Supported (committee validators byz hne hbyz) m.commits view height blockHash := by
  have hinv := (sound_run hinj (sound_init hne hbyz) hlegal horderly hinstep i).inv
  obtain ⟨m, hreach, hrefines⟩ := hinv.simulated
  refine ⟨m, hreach, hrefines, fun r view height blockHash hdec => ?_⟩
  rw [hrefines.commits]
  exact hinv.decided r view height blockHash hdec

end

/-- In a network without Byzantine validators where every call keeps the rules, no two nodes decide
different blocks at one height. -/
theorem agreement_of_orderlyRun (hinj : Function.Injective hash) (hlegal : Legal hash validators ∅
      (Pool.init shardID leaderID validators interval window) acts)
    (horderly : OrderlyRun hash (Pool.init shardID leaderID validators interval window) acts) :
    Agreement hash (Pool.init shardID leaderID validators interval window) acts := by
  intro i r r' view view' height blockHash blockHash' hdec hdec'
  by_cases hne : validators = []
  · subst hne
    rw [Pool.worldAt, runAt_init_of_legal hlegal] at hdec
    simp [World.decisions, Pool.init] at hdec
  have hrules : False → InStepRun hash validators ∅
      (Pool.init shardID leaderID validators interval window) acts := False.elim
  obtain ⟨m, hreach, -, hsup⟩ := decided_of_run hinj hlegal horderly (by simp) hne hrules i
  rcases Nat.le_total view view' with hle | hle
  · exact (Core.agreement rfl hreach (hsup _ _ _ _ hdec) (hsup _ _ _ _ hdec') hle).symm
  · exact Core.agreement rfl hreach (hsup _ _ _ _ hdec') (hsup _ _ _ _ hdec) hle

end Network

section Runs

/-- The nodes in `others` get a proposal, and they and the leader get each other's prepares. -/
def prepareEvents (view : Nat) (leader : String) (others : List String) (b : Block) :
    List (String × Event) :=
  others.map (fun r => (r, .deliver (.prePrepare (.ofBlock view leader b)))) ++
    (leader :: others).flatMap fun r =>
      ((leader :: others).erase r).map fun s => (r, .deliver (.prepare (.ofBlock view s b)))

def commitEvents (view : Nat) (r : String) (others : List String) (b : Block) :
    List (String × Event) :=
  others.map fun s => (r, .deliver (.commit (.ofBlock view s b)))

def timeoutEvents : List (String × Event) := ["a", "b", "c"].map fun r => (r, .timeout 1)

/-- The certificate that `a`, `b` and `c` have once they have prepared a block of `a`. -/
def coveredCertificate : PreparedCertificate where
  view := 0
  sequence := 1
  height := 1
  blockHash := (plainBlock 1 "a").blockHash
  prepares := ["a", "b", "c"].map fun node => .ofBlock 0 node (plainBlock 1 "a")

/-- What a node announces when it leaves view 0 for view 1. -/
def announcement (node : String) (height : Nat) (prepared : Option PreparedCertificate)
    (b : Option Block) : ViewChange where
  view := 0
  newView := 1
  nodeID := node
  height := height
  leaderID := "b"
  stableCheckpoint := none
  prepared := prepared
  preparedBlock := b

def handover (height : Nat) (prepared : Option PreparedCertificate) (b : Option Block) :
    NewView where
  view := 1
  leaderID := "b"
  height := height
  viewChanges := ["a", "b", "c"].map fun node => announcement node height prepared b
  selectedPrepared := prepared
  selectedBlock := b

/-- The announcements of `a` and `c` reach `b`, which has made its own. -/
def handoverEvents (height : Nat) (prepared : Option PreparedCertificate) (b : Option Block) :
    List (String × Event) :=
  ["a", "c"].map fun node => ("b", .deliver (.viewChange (announcement node height prepared b)))

/-- Node `a` decides a block in view 0.  Then `a`, `b` and `c` leave the view with the certificate
they have for it, and `b` and `c` enter view 1. -/
def carriedEvents : List (String × Event) :=
  ("a", .propose (plainBlock 1 "a")) :: prepareEvents 0 "a" ["b", "c"] (plainBlock 1 "a") ++
    commitEvents 0 "a" ["b", "c"] (plainBlock 1 "a") ++ timeoutEvents ++
    handoverEvents 1 (some coveredCertificate) (some (plainBlock 1 "a")) ++
    [("c", .deliver (.newView (handover 1 (some coveredCertificate) (some (plainBlock 1 "a")))))]

def carriedRun : List Act := oneByOne carriedEvents

lemma legal_carriedRun : Legal plainDigest ["a", "b", "c", "d"] ∅ fourNodes carriedRun := by
  decide +kernel

lemma orderlyRun_carriedRun : OrderlyRun plainDigest fourNodes carriedRun := by
  decide +kernel

theorem agreement_carriedRun : Legal plainDigest ["a", "b", "c", "d"] ∅ fourNodes carriedRun ∧
      OrderlyRun plainDigest fourNodes carriedRun ∧ Agreement plainDigest fourNodes carriedRun :=
  ⟨legal_carriedRun, orderlyRun_carriedRun,
    agreement_of_orderlyRun plainDigest_injective legal_carriedRun orderlyRun_carriedRun⟩

/-- Nodes `a`, `b` and `c` announce view 1 with nothing prepared, and then still prepare and commit
a block in view 0, which `a` decides.  The new view knows nothing of it, and `b` decides another. -/
def splitRun : List Act := oneByOne <|
  ("a", .propose (plainBlock 1 "a")) :: timeoutEvents ++
    prepareEvents 0 "a" ["b", "c"] (plainBlock 1 "a") ++
    commitEvents 0 "a" ["b", "c"] (plainBlock 1 "a") ++
    handoverEvents 1 none none ++ ("b", .propose (plainBlock 1 "b")) ::
    ["c", "d"].map (fun r => (r, .deliver (.newView (handover 1 none none)))) ++
    prepareEvents 1 "b" ["c", "d"] (plainBlock 1 "b") ++
    commitEvents 1 "b" ["c", "d"] (plainBlock 1 "b")

theorem disagreement_splitRun : Legal plainDigest ["a", "b", "c", "d"] ∅ fourNodes splitRun ∧
      ¬ Agreement plainDigest fourNodes splitRun := by
  refine ⟨by decide +kernel, ?_⟩
  intro h
  have hdec : ("a", 0, 1, (plainBlock 1 "a").blockHash) ∈
        (fourNodes.worldAt plainDigest splitRun splitRun.length).decisions ∧
      ("b", 1, 1, (plainBlock 1 "b").blockHash) ∈
        (fourNodes.worldAt plainDigest splitRun splitRun.length).decisions := by
    decide +kernel
  exact absurd (h _ _ _ _ _ _ _ _ hdec.1 hdec.2) (by decide)

end Runs

/-! ## Survival of committed blocks -/

section

variable {hash : BlockCore → String} {validators : List String} {byz : Finset String}
  {shardID leaderID : String} {interval window : Nat} {acts : List Act}

/-- With at most `FaultTolerance` Byzantine validators, in a network where every call keeps the
rules and nodes change views in step, no two nodes decide different blocks at one height. -/
theorem agreement_of_inStepRun (hinj : Function.Injective hash)
    (hbyz : byz.card ≤ faultTolerance validators.length)
    (hlegal :
      Legal hash validators byz (Pool.init shardID leaderID validators interval window) acts)
    (horderly : OrderlyRun hash (Pool.init shardID leaderID validators interval window) acts)
    (hinstep : InStepRun hash validators byz
      (Pool.init shardID leaderID validators interval window) acts) :
    Agreement hash (Pool.init shardID leaderID validators interval window) acts := by
  intro i r r' view view' height blockHash blockHash' hdec hdec'
  by_cases hne : validators = []
  · subst hne
    rw [Pool.worldAt, runAt_init_of_legal hlegal] at hdec
    simp [World.decisions, Pool.init] at hdec
  obtain ⟨m, hreach, -, hsup⟩ :=
    decided_of_run hinj hlegal horderly hbyz hne (fun _ : True => hinstep) i
  rcases Nat.le_total view view' with hle | hle
  · exact (Core.agreement_of_careful hreach (hsup _ _ _ _ hdec) (hsup _ _ _ _ hdec') hle).symm
  · exact Core.agreement_of_careful hreach (hsup _ _ _ _ hdec') (hsup _ _ _ _ hdec) hle

/-- Node `d` is Byzantine and commits another block in view 0. -/
theorem agreement_forgedCommit : Agreement plainDigest fourNodes
    (oneByOne (carriedEvents ++ commitEvents 0 "a" ["d"] (plainBlock 1 "d"))) :=
  agreement_of_inStepRun plainDigest_injective
    (by decide : ({"d"} : Finset String).card ≤ faultTolerance 4) (by decide +kernel)
    (by decide +kernel) (by decide +kernel)

/-- With at most `FaultTolerance` Byzantine validators, in a network where every call keeps the
rules and nodes change views in step, a decided block is what every later NEW-VIEW selects. -/
theorem commitsSurvive_of_inStepRun (hinj : Function.Injective hash)
    (hbyz : byz.card ≤ faultTolerance validators.length)
    (hlegal :
      Legal hash validators byz (Pool.init shardID leaderID validators interval window) acts)
    (horderly : OrderlyRun hash (Pool.init shardID leaderID validators interval window) acts)
    (hinstep : InStepRun hash validators byz
      (Pool.init shardID leaderID validators interval window) acts) :
    CommitsSurvive hash validators byz (Pool.init shardID leaderID validators interval window)
      acts := by
  intro i r view height blockHash hdec r' nv hr' hcorrect hauth hvalid hview hbelow
  have hne : validators ≠ [] := ne_nil_of_mem hr'
  have hrules : True → InStepRun hash validators byz
      (Pool.init shardID leaderID validators interval window) acts := fun _ => hinstep
  have hinv := (sound_run hinj (sound_init hne hbyz) hlegal horderly hrules i).inv
  obtain ⟨m, hreach, hrefines⟩ := hinv.simulated
  have hsup := hinv.decided _ _ _ _ hdec
  rw [← hrefines.commits] at hsup
  have hstate := (hinv.nodes r').state
  have hgen := genuineChanges_of_newView hstate hinv.sequences (validateNewView_ok hvalid)
    (hauth.mono (World.sent_subset_signed _))
  have hjust := justified_of_validNewView hinj hrefines.prepares hrefines.changes hstate
    (validateNewView_ok hvalid) hgen
  rw [← (hrefines.nodes r').durable] at hbelow
  have hmem : r' ∈ (committee validators byz hne hbyz).replicas := by
    simpa [committee] using hr'
  obtain ⟨c, hc, hnames⟩ := Core.survival hreach hsup hview hjust hmem hcorrect hbelow
  obtain ⟨cert, hcert, rfl⟩ := Option.map_eq_some_iff.1 hc
  exact ⟨cert, hcert, hnames.imp_right fun hn => hn.2⟩

end

lemma inStepRun_carriedRun : InStepRun plainDigest ["a", "b", "c", "d"] ∅ fourNodes carriedRun := by
  decide +kernel

theorem commitsSurvive_carriedRun : (∅ : Finset String).card ≤ faultTolerance 4 ∧
      Legal plainDigest ["a", "b", "c", "d"] ∅ fourNodes carriedRun ∧
      OrderlyRun plainDigest fourNodes carriedRun ∧
      InStepRun plainDigest ["a", "b", "c", "d"] ∅ fourNodes carriedRun ∧
      CommitsSurvive plainDigest ["a", "b", "c", "d"] ∅ fourNodes carriedRun :=
  ⟨by decide, legal_carriedRun, orderlyRun_carriedRun, inStepRun_carriedRun,
    commitsSurvive_of_inStepRun plainDigest_injective (by decide) legal_carriedRun
      orderlyRun_carriedRun inStepRun_carriedRun⟩

/-- Nodes `a`, `b` and `c` decide a block and make it durable, which drops their certificates for
it. Then they announce view 1 with nothing prepared, and `d` accepts a new view without the
block. -/
def lostRun : List Act := oneByOne <|
  ("a", .propose (plainBlock 1 "a")) :: prepareEvents 0 "a" ["b", "c"] (plainBlock 1 "a") ++
    ["a", "b", "c"].flatMap (fun r =>
      commitEvents 0 r (["a", "b", "c"].erase r) (plainBlock 1 "a")) ++
    ["a", "b", "c"].map (fun r => (r, .commitDurable (plainBlock 1 "a") "root")) ++
    timeoutEvents ++ handoverEvents 2 none none

theorem commit_lost_lostRun : Legal plainDigest ["a", "b", "c", "d"] ∅ fourNodes lostRun ∧
      ¬ CommitsSurvive plainDigest ["a", "b", "c", "d"] ∅ fourNodes lostRun := by
  refine ⟨by decide +kernel, ?_⟩
  intro h
  have hlost : ("a", 0, 1, (plainBlock 1 "a").blockHash) ∈
        (fourNodes.worldAt plainDigest lostRun lostRun.length).decisions ∧
      Authentic ∅ (fourNodes.worldAt plainDigest lostRun lostRun.length).sent
        (.newView (handover 2 none none)) ∧
      ((fourNodes.worldAt plainDigest lostRun lostRun.length).nodes "d").state.validateNewView
        plainDigest (handover 2 none none) = .ok () ∧
      ((fourNodes.worldAt plainDigest lostRun lostRun.length).nodes "d").committedHeight < 1 := by
    decide +kernel
  obtain ⟨hdec, hauth, hvalid, hbelow⟩ := hlost
  obtain ⟨cert, hcert, -⟩ :=
    h _ _ _ _ _ hdec "d" (handover 2 none none) (by decide) (by decide) hauth
    hvalid (by decide) hbelow
  cases hcert

end ChainLab.Pbft
