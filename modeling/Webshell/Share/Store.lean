import Webshell.Lib.Watch

/-!
# Share grants

The grants of the share store with what each of them shares with its leases: the `revoked`
channel and the viewer permits. A grant in the map holds a sender of its channel, and so do the
clones that `list` has given out. Tokens appear decoded, as `verify` returns them; grant ids are
numbers in the order in which they are drawn, so that no two grants have one.

## Main definitions

- `ShareStore`: the grants, with `create`, `sweep`, `resolve`, `revoke`, `lease` and `list`
- `Lease.revoked`, `Lease.expired`, `Lease.valid`

## Main results

- `StoreOp`: what every operation keeps of the leases that are out
-/

namespace Webshell.Share

/-- Seconds on a clock that counts nanoseconds. -/
def nowUnix (clock : ℕ) : ℕ := clock / 1000000000

def maxGrantsPerUser : ℕ := 32

def maxViewersPerGrant : ℕ := 32

structure Grant where
  id : ℕ
  username : String
  index : ℕ
  expiresAt : ℕ
deriving DecidableEq

/-- What a grant shares with its leases, which are named by their viewers. -/
structure Signal where
  revoked : Watch.Channel ℕ Bool
  /-- Senders outside the map. -/
  clones : ℕ
  permits : ℕ

/-- A token whose signature has been verified. -/
structure Token where
  id : ℕ
  username : String
  index : ℕ
  expiresAt : ℕ
deriving DecidableEq

inductive CreateError
  | tooMany
deriving DecidableEq

inductive LeaseError
  | invalid
  | full
deriving DecidableEq

/-- A viewer's admission to the slot of a grant. -/
structure Lease where
  username : String
  index : ℕ
  expiresAt : ℕ
  grant : ℕ
deriving DecidableEq

/-- The grants, with one signal for every grant there has been. -/
structure ShareStore where
  grants : List Grant
  signals : ℕ → Signal
  nextId : ℕ
  numbered : ∀ g ∈ grants, g.id < nextId
  distinct : (grants.map Grant.id).Nodup

/-- Whether a token says what the grant says. -/
def Token.matches (token : Token) (g : Grant) : Bool :=
  g.username = token.username && g.index = token.index && g.expiresAt = token.expiresAt

namespace ShareStore

def empty : ShareStore where
  grants := []
  signals _ := { revoked := .new false, clones := 0, permits := 0 }
  nextId := 0
  numbered := nofun
  distinct := List.nodup_nil

def get (s : ShareStore) (id : ℕ) : Option Grant := s.grants.find? fun g => g.id = id

def setSignal (s : ShareStore) (id : ℕ) (signal : Signal) : ShareStore :=
  { s with signals := Function.update s.signals id signal }

/-- The grants that are not kept leave the map, after `true` has been sent on their channels. -/
def retain (s : ShareStore) (keep : Grant → Bool) : ShareStore where
  grants := s.grants.filter keep
  signals id :=
    if s.grants.any fun g => g.id = id && !keep g then
      { s.signals id with revoked := (s.signals id).revoked.send true }
    else s.signals id
  nextId := s.nextId
  numbered g hg := s.numbered g (List.mem_of_mem_filter hg)
  distinct := s.distinct.sublist (List.filter_sublist.map Grant.id)

def remove (s : ShareStore) (id : ℕ) : ShareStore := s.retain fun g => g.id ≠ id

def insert (s : ShareStore) (username : String) (index expiresAt : ℕ) : ShareStore where
  grants := s.grants ++ [⟨s.nextId, username, index, expiresAt⟩]
  signals := Function.update s.signals s.nextId
    { revoked := .new false, clones := 0, permits := maxViewersPerGrant }
  nextId := s.nextId + 1
  numbered g hg := by
    obtain hg | hg := List.mem_append.mp hg
    · exact Nat.lt_succ_of_lt (s.numbered g hg)
    · obtain rfl := List.mem_singleton.mp hg
      exact Nat.lt_succ_self _
  distinct := by
    rw [List.map_append, List.map_singleton, List.nodup_append_comm, List.singleton_append]
    refine List.nodup_cons.mpr ⟨fun hmem => ?_, s.distinct⟩
    obtain ⟨g, hg, hid⟩ := List.mem_map.mp hmem
    exact (s.numbered g hg).ne hid

/-- An id is drawn that no grant gets. -/
def skipId (s : ShareStore) : ShareStore :=
  { s with
    nextId := s.nextId + 1
    numbered := fun g hg => Nat.lt_succ_of_lt (s.numbered g hg) }

/-- `prune_expired`, and how many channels had a receiver to be told. -/
def pruneExpired (s : ShareStore) (now : ℕ) : ShareStore × ℕ :=
  (s.retain fun g => now < g.expiresAt,
    s.grants.countP fun g => g.expiresAt ≤ now && (s.signals g.id).revoked.receivers ≠ ∅)

/-- The clock is read once for the expiry and again for the pruning; the id is drawn before the
grants are counted. -/
def create (s : ShareStore) (before now : ℕ) (username : String) (index ttl : ℕ) :
    Except CreateError ℕ × ShareStore :=
  let expiresAt := min (before + ttl) (2 ^ 64 - 1)
  let s := (s.pruneExpired now).1
  if maxGrantsPerUser ≤ s.grants.countP fun g => g.username = username then
    (.error .tooMany, s.skipId)
  else (.ok s.nextId, s.insert username index expiresAt)

def sweep (s : ShareStore) (now : ℕ) : ShareStore × ℕ := s.pruneExpired now

def resolve (s : ShareStore) (token : Token) (now : ℕ) : Option (String × ℕ) × ShareStore :=
  if token.expiresAt ≤ now then (none, s.remove token.id)
  else
    match s.get token.id with
    | none => (none, s)
    | some g => (if token.matches g then some (token.username, token.index) else none, s)

def revoke (s : ShareStore) (username : String) (id : ℕ) : Bool × ShareStore :=
  if (s.get id).any (fun g => g.username = username) then (true, s.remove id) else (false, s)

/-- A lease for a viewer, with a permit of the grant and a receiver of its channel. -/
def lease (s : ShareStore) (token : Token) (now viewer : ℕ) :
    Except LeaseError (Lease × ShareStore) :=
  if token.expiresAt ≤ now then .error .invalid
  else
    match s.get token.id with
    | none => .error .invalid
    | some g =>
      if !token.matches g then .error .invalid
      else
        let signal := s.signals token.id
        if signal.permits = 0 then .error .full
        else .ok (⟨token.username, token.index, token.expiresAt, token.id⟩,
          s.setSignal token.id { signal with
            permits := signal.permits - 1
            revoked := signal.revoked.subscribe viewer })

/-- The end of a lease. -/
def dropLease (s : ShareStore) (id viewer : ℕ) : ShareStore :=
  let signal := s.signals id
  s.setSignal id { signal with
    permits := signal.permits + 1
    revoked := signal.revoked.unsubscribe viewer }

/-- The grants of a user, as clones. -/
def list (s : ShareStore) (username : String) (now : ℕ) : List Grant × ShareStore :=
  let s := (s.pruneExpired now).1
  let mine := s.grants.filter fun g => g.username = username
  let signals id :=
    if mine.any fun g => g.id = id then
      { s.signals id with clones := (s.signals id).clones + 1 }
    else s.signals id
  (mine, { s with signals := signals })

/-- A grant that `list` has given out is dropped. -/
def dropClone (s : ShareStore) (id : ℕ) : ShareStore :=
  s.setSignal id { s.signals id with clones := (s.signals id).clones - 1 }

end ShareStore

namespace Lease

/-- The channel says `true`, or has lost its last sender. -/
def revoked (l : Lease) (s : ShareStore) : Bool :=
  (s.signals l.grant).revoked.value ||
    ((s.get l.grant).isNone && (s.signals l.grant).clones = 0)

/-- When the lease ends, in nanoseconds. -/
def expiresAtTime (l : Lease) : ℕ := l.expiresAt * 1000000000

def expired (l : Lease) (clock : ℕ) : Bool := l.expiresAtTime ≤ clock

def valid (l : Lease) (s : ShareStore) (clock : ℕ) : Bool := !l.expired clock && !l.revoked s

end Lease

/-! ## What an operation keeps -/

section
variable {s s' s'' : ShareStore} {id : ℕ}

theorem get_eq_some {g : Grant} (h : s.get id = some g) : g ∈ s.grants ∧ g.id = id := by
  have hid := List.find?_some h
  exact ⟨List.mem_of_find?_eq_some h, by simpa using hid⟩

theorem get_eq_none_iff : s.get id = none ↔ ∀ g ∈ s.grants, g.id ≠ id := by
  simp [ShareStore.get]

/-- Two grants in the map that have one id are one grant. -/
theorem eq_of_id_eq {g g' : Grant} (hg : g ∈ s.grants) (hg' : g' ∈ s.grants) (h : g.id = g'.id) :
    g = g' :=
  List.inj_on_of_nodup_map s.distinct hg hg' h

/-- What an operation on the store leaves of its signals: no channel loses a receiver or goes back
to `false`, a grant that leaves the map has told every receiver, and a channel without a sender
gets none. -/
structure StoreOp (s s' : ShareStore) : Prop where
  nextId : s.nextId ≤ s'.nextId
  grants : ∀ g ∈ s'.grants, g ∈ s.grants ∨ s.nextId ≤ g.id
  receivers : ∀ id, id < s.nextId →
    (s'.signals id).revoked.receivers = (s.signals id).revoked.receivers
  value : ∀ id, id < s.nextId → (s.signals id).revoked.value = true →
    (s'.signals id).revoked.value = true
  told : ∀ g ∈ s.grants, g ∉ s'.grants → ∀ v ∈ (s.signals g.id).revoked.receivers,
    (s'.signals g.id).revoked.value = true
  senders : ∀ id, id < s.nextId → s.get id = none → (s.signals id).clones = 0 →
    (s'.signals id).clones = 0

theorem StoreOp.refl (s : ShareStore) : StoreOp s s :=
  ⟨le_rfl, fun _ hg => .inl hg, fun _ _ => rfl, fun _ _ hv => hv, fun _ hg hno => absurd hg hno,
    fun _ _ _ hc => hc⟩

/-- A grant that is not in the map does not come back. -/
theorem StoreOp.get_eq_none (h : StoreOp s s') (hid : id < s.nextId) (hget : s.get id = none) :
    s'.get id = none := by
  rw [get_eq_none_iff] at hget ⊢
  intro g hg heq
  obtain hold | hnew := h.grants g hg
  · exact hget g hold heq
  · omega

theorem StoreOp.trans (h : StoreOp s s') (h' : StoreOp s' s'') : StoreOp s s'' := by
  have hlt : ∀ {id}, id < s.nextId → id < s'.nextId := fun hid => hid.trans_le h.nextId
  refine ⟨h.nextId.trans h'.nextId, fun g hg => ?_, fun id hid => ?_, fun id hid hv => ?_,
    fun g hg hno v hv => ?_, fun id hid hget hc => ?_⟩
  · obtain hg | hnew := h'.grants g hg
    · exact h.grants g hg
    · exact .inr (h.nextId.trans hnew)
  · exact (h'.receivers id (hlt hid)).trans (h.receivers id hid)
  · exact h'.value id (hlt hid) (h.value id hid hv)
  · have hid := s.numbered g hg
    by_cases hmid : g ∈ s'.grants
    · exact h'.told g hmid hno v (by rwa [h.receivers g.id hid])
    · exact h'.value g.id (hlt hid) (h.told g hg hmid v hv)
  · exact h'.senders id (hlt hid) (h.get_eq_none hid hget) (h.senders id hid hget hc)

theorem storeOp_retain (s : ShareStore) (keep : Grant → Bool) : StoreOp s (s.retain keep) := by
  have hsignal : ∀ id, (s.retain keep).signals id = s.signals id ∨
      (s.retain keep).signals id =
        { s.signals id with revoked := (s.signals id).revoked.send true } := by
    intro id
    simp only [ShareStore.retain]
    split
    · exact .inr rfl
    · exact .inl rfl
  refine ⟨le_rfl, fun g hg => .inl (List.mem_of_mem_filter hg), fun id _ => ?_, fun id _ hv => ?_,
    fun g hg hno v hv => ?_, fun id _ _ hc => ?_⟩
  · obtain heq | heq := hsignal id
    · rw [heq]
    · rw [heq]
      exact Watch.Channel.receivers_send
  · obtain heq | heq := hsignal id
    · rwa [heq]
    · rw [heq]
      simp only [Watch.Channel.send]
      split
      · exact hv
      · rfl
  · have hkeep : keep g = false := by
      simpa [ShareStore.retain, hg] using hno
    have hany : (s.grants.any fun g' => g'.id = g.id && !keep g') = true :=
      List.any_eq_true.mpr ⟨g, hg, by simp [hkeep]⟩
    simp only [ShareStore.retain, hany, if_true]
    rw [Watch.Channel.send_of_mem hv]
  · obtain heq | heq := hsignal id <;> rw [heq] <;> exact hc

theorem storeOp_insert (s : ShareStore) (username : String) (index expiresAt : ℕ) :
    StoreOp s (s.insert username index expiresAt) := by
  have hsignal : ∀ id, id < s.nextId →
      (s.insert username index expiresAt).signals id = s.signals id :=
    fun id hid => Function.update_of_ne hid.ne ..
  refine ⟨Nat.le_succ _, fun g hg => ?_, fun id hid => by rw [hsignal id hid],
    fun id hid hv => by rwa [hsignal id hid], fun g hg hno => ?_,
    fun id hid _ hc => by rwa [hsignal id hid]⟩
  · obtain hg | hg := List.mem_append.mp hg
    · exact .inl hg
    · obtain rfl := List.mem_singleton.mp hg
      exact .inr le_rfl
  · exact absurd (List.mem_append_left _ hg) hno

theorem storeOp_skipId (s : ShareStore) : StoreOp s s.skipId :=
  ⟨Nat.le_succ _, fun _ hg => .inl hg, fun _ _ => rfl, fun _ _ hv => hv,
    fun _ hg hno => absurd hg hno, fun _ _ _ hc => hc⟩

theorem storeOp_create (s : ShareStore) (before now : ℕ) (username : String) (index ttl : ℕ) :
    StoreOp s (s.create before now username index ttl).2 := by
  rw [ShareStore.create]
  split
  · exact (storeOp_retain s _).trans (storeOp_skipId _)
  · exact (storeOp_retain s _).trans (storeOp_insert ..)

theorem storeOp_sweep (s : ShareStore) (now : ℕ) : StoreOp s (s.sweep now).1 :=
  storeOp_retain s _

theorem storeOp_resolve (s : ShareStore) (token : Token) (now : ℕ) :
    StoreOp s (s.resolve token now).2 := by
  rw [ShareStore.resolve]
  split
  · exact storeOp_retain s _
  · split
    · exact .refl s
    · exact .refl s

theorem storeOp_revoke (s : ShareStore) (username : String) (id : ℕ) :
    StoreOp s (s.revoke username id).2 := by
  rw [ShareStore.revoke]
  split
  · exact storeOp_retain s _
  · exact .refl s

theorem storeOp_list (s : ShareStore) (username : String) (now : ℕ) :
    StoreOp s (s.list username now).2 := by
  refine (storeOp_retain s fun g => now < g.expiresAt).trans ?_
  have hsignal : ∀ id,
      ((s.list username now).2.signals id).revoked =
        ((s.pruneExpired now).1.signals id).revoked := by
    intro id
    simp only [ShareStore.list]
    split <;> rfl
  refine ⟨le_rfl, fun _ hg => .inl hg, fun id _ => by rw [hsignal]; rfl,
    fun id _ hv => by rw [hsignal]; exact hv, fun g hg hno => absurd hg hno, fun id _ hget hc => ?_⟩
  simp only [ShareStore.list]
  split
  · next hany =>
    obtain ⟨g, hg, hid⟩ := List.any_eq_true.mp hany
    exact absurd (by simpa using hid) (get_eq_none_iff.mp hget g (List.mem_of_mem_filter hg))
  · exact hc

theorem storeOp_dropClone (s : ShareStore) (id : ℕ) : StoreOp s (s.dropClone id) := by
  have hsignal : ∀ i, ((s.dropClone id).signals i).revoked = (s.signals i).revoked ∧
      ((s.dropClone id).signals i).clones ≤ (s.signals i).clones := by
    intro i
    by_cases hi : i = id
    · subst hi
      simp [ShareStore.dropClone, ShareStore.setSignal]
    · simp [ShareStore.dropClone, ShareStore.setSignal, hi]
  refine ⟨le_rfl, fun _ hg => .inl hg, fun i _ => by rw [(hsignal i).1],
    fun i _ hv => by rw [(hsignal i).1]; exact hv, fun g hg hno => absurd hg hno,
    fun i _ _ hc => ?_⟩
  have := (hsignal i).2
  omega

/-- A lease that is revoked stays revoked. -/
theorem StoreOp.revoked (h : StoreOp s s') {l : Lease} (hl : l.grant < s.nextId)
    (hrevoked : l.revoked s = true) : l.revoked s' = true := by
  simp only [Lease.revoked, Bool.or_eq_true, Bool.and_eq_true, Option.isNone_iff_eq_none,
    decide_eq_true_eq] at hrevoked ⊢
  obtain hvalue | ⟨hget, hclones⟩ := hrevoked
  · exact .inl (h.value _ hl hvalue)
  · exact .inr ⟨h.get_eq_none hl hget, h.senders _ hl hget hclones⟩

end

end Webshell.Share
