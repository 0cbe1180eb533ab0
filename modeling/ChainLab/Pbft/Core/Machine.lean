import ChainLab.Data.Quorum

/-!
# View changes in the abstract

What the PBFT replicas are for, without messages, tables and certificates: replicas vote for blocks,
one height after the other, and leave a view by reporting the highest block they have prepared.  The
votes and reports of all replicas form growing sets; a replica that does not follow the protocol has
no state here, and quorums simply do not rely on it.

Two rules of this machine are not rules of the handlers: a replica votes only for the height after
its durable one, and it does not vote below a view it has announced.  They are what the arguments in
`Core.Agreement` and `Core.Survival` need.
-/

namespace ChainLab.Pbft.Core

structure Vote (R H : Type) where
  replica : R
  view : Nat
  height : Nat
  block : H

structure Report (H : Type) where
  view : Nat
  height : Nat
  block : H

/-- A replica leaves for the view `target` and says what it has prepared. -/
structure Change (R H : Type) where
  replica : R
  target : Nat
  report : Option (Report H)

/-- The replicas, those of them that may be faulty, and a quorum size for which any two quorums
share a correct replica. -/
structure Committee (R : Type) where
  replicas : Finset R
  faulty : Finset R
  quorum : Nat
  two_thirds : 2 * replicas.card < 3 * quorum
  intersecting : replicas.card + faulty.card < 2 * quorum

structure Machine (R H : Type) where
  view : R → Nat
  /-- The height up to which the replica has stored its blocks. -/
  durable : R → Nat
  /-- The view a replica was in when a height became durable. -/
  durableIn : R → Nat → Nat
  /-- The block accepted at a height in the current view. -/
  lock : R → Nat → Option H
  /-- The block prepared at a height, with the view it was prepared in. -/
  prepared : R → Nat → Option (Nat × H)
  prepares : Set (Vote R H)
  commits : Set (Vote R H)
  changes : Set (Change R H)

variable {R H : Type}

def Report.le (c d : Report H) : Prop :=
  c.view < d.view ∨ c.view = d.view ∧
    (c.height < d.height ∨ c.height = d.height ∧ c.block = d.block)

/-- `best` is the highest of the reports in `S`. -/
def IsHighest (S : Set (Report H)) (best : Option (Report H)) : Prop :=
  (best = none → S = ∅) ∧ ∀ c, best = some c → c ∈ S ∧ ∀ d ∈ S, d.le c

/-- A quorum has voted, as far as its correct members go. -/
def Supported (K : Committee R) (votes : Set (Vote R H)) (view height : Nat) (block : H) : Prop :=
  ∃ S ⊆ K.replicas, K.quorum ≤ S.card ∧ ∀ r ∈ S, r ∉ K.faulty → ⟨r, view, height, block⟩ ∈ votes

namespace Machine

def start : Machine R H where
  view _ := 0
  durable _ := 0
  durableIn _ _ := 0
  lock _ _ := none
  prepared _ _ := none
  prepares := ∅
  commits := ∅
  changes := ∅

def votes (m : Machine R H) : Set (Vote R H) := m.prepares ∪ m.commits

def reports (m : Machine R H) (r : R) : Set (Report H) :=
  {c | m.prepared r c.height = some (c.view, c.block) ∧ c.height ≤ m.durable r + 1}

def Settled (m : Machine R H) (r : R) : Prop :=
  ∀ c ∈ m.changes, c.replica = r → c.target ≤ m.view r

/-- The changes of a quorum to the view `target` have `selected` as their highest report. -/
def Justified (K : Committee R) (m : Machine R H) (target : Nat) (selected : Option (Report H)) :
    Prop :=
  ∃ (V : Finset R) (report : R → Option (Report H)), V ⊆ K.replicas ∧ K.quorum ≤ V.card ∧
    (∀ r ∈ V, r ∉ K.faulty → ⟨r, target, report r⟩ ∈ m.changes) ∧
    (∀ r ∈ V, ∀ c, report r = some c → Supported K m.prepares c.view c.height c.block) ∧
    IsHighest {c | ∃ r ∈ V, report r = some c} selected

section Operations

variable [DecidableEq R] (m : Machine R H) (r : R)

def lockBlock (height : Nat) (block : H) : Machine R H :=
  { m with lock := Function.update m.lock r (Function.update (m.lock r) height (some block)) }

def castPrepare (height : Nat) (block : H) : Machine R H :=
  { m with prepares := insert ⟨r, m.view r, height, block⟩ m.prepares }

def certify (height : Nat) (block : H) : Machine R H :=
  { m with
    prepared := Function.update m.prepared r
      (Function.update (m.prepared r) height (some (m.view r, block))) }

def castCommit (height : Nat) (block : H) : Machine R H :=
  { m with commits := insert ⟨r, m.view r, height, block⟩ m.commits }

/-- The next height becomes durable. -/
def advance : Machine R H :=
  { m with
    durable := Function.update m.durable r (m.durable r + 1)
    durableIn := Function.update m.durableIn r
      (Function.update (m.durableIn r) (m.durable r + 1) (m.view r)) }

/-- The replica has only these locks and prepared blocks left. -/
def forget (lock : Nat → Option H) (prepared : Nat → Option (Nat × H)) : Machine R H :=
  { m with
    lock := Function.update m.lock r lock
    prepared := Function.update m.prepared r prepared }

def announce (target : Nat) (report : Option (Report H)) : Machine R H :=
  { m with changes := insert ⟨r, target, report⟩ m.changes }

/-- Enter a view with nothing but the selected block. -/
def install (target : Nat) (selected : Option (Report H)) : Machine R H :=
  { m with
    view := Function.update m.view r target
    lock := Function.update m.lock r fun h =>
      selected.bind fun c => if c.height = h then some c.block else none
    prepared := Function.update m.prepared r fun h =>
      selected.bind fun c => if c.height = h then some (c.view, c.block) else none }

end Operations

end Machine

/-- One step of one replica.  `careful` adds two rules about replicas at different heights: a
replica leaves its view only when no correct one is behind it, and it does not follow a selection
that is ahead of its next height. -/
inductive Step [DecidableEq R] (K : Committee R) (careful : Prop) (m : Machine R H) :
    Machine R H → Prop
  | lockBlock (r : R) (height : Nat) (block : H)
      (hlock : ∀ b, m.lock r height = some b → b = block) :
        Step K careful m (m.lockBlock r height block)
  | castPrepare (r : R) (block : H) (hsettled : m.Settled r)
      (hlock : m.lock r (m.durable r + 1) = some block) :
      Step K careful m (m.castPrepare r (m.durable r + 1) block)
  | certify (r : R) (height : Nat) (block : H) (hlock : m.lock r height = some block)
      (hquorum : Supported K m.prepares (m.view r) height block) :
      Step K careful m (m.certify r height block)
  | castCommit (r : R) (block : H) (hsettled : m.Settled r)
      (hlock : m.lock r (m.durable r + 1) = some block)
      (hquorum : Supported K m.prepares (m.view r) (m.durable r + 1) block)
      (hprepared : ∃ u, m.view r ≤ u ∧ m.prepared r (m.durable r + 1) = some (u, block)) :
      Step K careful m (m.castCommit r (m.durable r + 1) block)
  | advance (r : R) : Step K careful m (m.advance r)
  | forget (r : R) (lock : Nat → Option H) (prepared : Nat → Option (Nat × H))
      (hlock : ∀ k, m.durable r < k → lock k = m.lock r k)
      (hprepared : ∀ k, prepared k = m.prepared r k ∨ k ≤ m.durable r ∧ prepared k = none) :
      Step K careful m (m.forget r lock prepared)
  | announce (r : R) (target : Nat) (report : Option (Report H)) (hview : m.view r < target)
      (hbest : IsHighest (m.reports r) report)
      (hbehind : careful → ∀ r' ∈ K.replicas, r' ∉ K.faulty → m.durable r ≤ m.durable r') :
      Step K careful m (m.announce r target report)
  | install (r : R) (target : Nat) (selected : Option (Report H)) (hr : r ∈ K.replicas)
      (hcorrect : r ∉ K.faulty) (hview : m.view r < target)
      (hjust : m.Justified K target selected)
      (hahead : careful → ∀ c, selected = some c → c.height ≤ m.durable r + 1) :
      Step K careful m (m.install r target selected)

def Reachable [DecidableEq R] (K : Committee R) (careful : Prop) (m : Machine R H) : Prop :=
  Relation.ReflTransGen (Step K careful) Machine.start m

end ChainLab.Pbft.Core
