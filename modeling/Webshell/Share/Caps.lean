import Webshell.Share.Views

/-!
# The caps of shares

A user holds so many grants, and a grant admits so many viewers. The first cap is a count over the
map, from which expired grants may not have been pruned yet; the second is a semaphore that the
leases of a grant give back one by one, also after the grant has left the map.

## Main definitions

- `ShareStore.held`: the grants of a user that have not expired
- `Leased`, `leaseStep`, `leaseSystem`: the store, the leases that are out, and a clock
- `Capped`: the caps, and where every permit is

## Main results

- `create_cases`, `lease_cases`: when a `create` and a `lease` are refused
- `caps_hold`: the caps hold in every run
-/

namespace Webshell.Share

open Transition

/-- The grants of a user that have not expired. -/
def ShareStore.held (s : ShareStore) (username : String) (now : ℕ) : ℕ :=
  s.grants.countP fun g => g.username = username ∧ now < g.expiresAt

/-- The map has a grant that says what the token says, and it has not expired. -/
def Token.Admitted (token : Token) (s : ShareStore) (now : ℕ) : Prop :=
  now < token.expiresAt ∧ ∃ g ∈ s.grants, g.id = token.id ∧ token.matches g = true

/-! ## What an operation frees -/

/-- No grant comes into the map, and no permit moves. -/
structure Frees (s s' : ShareStore) : Prop where
  nextId : s.nextId ≤ s'.nextId
  grants : s'.grants.Sublist s.grants
  permits : ∀ id, (s'.signals id).permits = (s.signals id).permits

theorem Frees.refl (s : ShareStore) : Frees s s := ⟨le_rfl, List.Sublist.refl _, fun _ => rfl⟩

theorem Frees.trans {s s' s'' : ShareStore} (h : Frees s s') (h' : Frees s' s'') : Frees s s'' :=
  ⟨h.nextId.trans h'.nextId, h'.grants.trans h.grants,
    fun id => (h'.permits id).trans (h.permits id)⟩

theorem frees_retain (s : ShareStore) (keep : Grant → Bool) : Frees s (s.retain keep) := by
  refine ⟨le_rfl, List.filter_sublist, fun id => ?_⟩
  simp only [ShareStore.retain]
  split <;> rfl

theorem frees_skipId (s : ShareStore) : Frees s s.skipId :=
  ⟨Nat.le_succ _, List.Sublist.refl _, fun _ => rfl⟩

theorem frees_list (s : ShareStore) (username : String) (now : ℕ) :
    Frees s (s.list username now).2 := by
  refine (frees_retain s fun g => now < g.expiresAt).trans ⟨le_rfl, List.Sublist.refl _, ?_⟩
  intro id
  simp only [ShareStore.list]
  split <;> rfl

theorem frees_dropClone (s : ShareStore) (id : ℕ) : Frees s (s.dropClone id) := by
  refine ⟨le_rfl, List.Sublist.refl _, fun i => ?_⟩
  by_cases hi : i = id
  · subst hi
    simp [ShareStore.dropClone, ShareStore.setSignal]
  · simp [ShareStore.dropClone, ShareStore.setSignal, hi]

theorem frees_resolve (m : Mint) (s : ShareStore) (token : Text) (now : ℕ) :
    Frees s (m.resolve s token now).2 := by
  rw [Mint.resolve]
  split
  · exact .refl s
  · rw [ShareStore.resolve]
    split
    · exact frees_retain s _
    · split
      · exact .refl s
      · exact .refl s

theorem frees_revoke (s : ShareStore) (username : String) (id : ℕ) :
    Frees s (s.revoke username id).2 := by
  rw [ShareStore.revoke]
  split
  · exact frees_retain s _
  · exact .refl s

/-! ## What is refused -/

section
variable {s s' : ShareStore} {username : String} {now now' : ℕ}

theorem Frees.held_le (h : Frees s s') (username : String) (now : ℕ) :
    s'.held username now ≤ s.held username now :=
  h.grants.countP_le

/-- Grants only expire. -/
theorem held_anti (s : ShareStore) (username : String) (h : now ≤ now') :
    s.held username now' ≤ s.held username now := by
  apply List.countP_mono_left
  intro g _ hg
  simp only [decide_eq_true_eq] at hg ⊢
  exact ⟨hg.1, h.trans_lt hg.2⟩

/-- What is counted once the expired grants are gone. -/
theorem countP_pruneExpired (s : ShareStore) (username : String) (now : ℕ) :
    ((s.pruneExpired now).1.grants.countP fun g => g.username = username) =
      s.held username now := by
  show (s.grants.filter _).countP _ = _
  rw [List.countP_filter, ShareStore.held]
  apply List.countP_congr
  intro g _
  simp

/-- A `create` is refused for the grants of the user that have not expired. -/
theorem create_cases (s : ShareStore) (before now : ℕ) (username : String) (index ttl : ℕ) :
    (maxGrantsPerUser ≤ s.held username now ∧
      s.create before now username index ttl =
        (.error .tooMany, (s.pruneExpired now).1.skipId)) ∨
    (s.held username now < maxGrantsPerUser ∧
      s.create before now username index ttl =
        (.ok s.nextId, (s.pruneExpired now).1.insert username index
          (min (before + ttl) (2 ^ 64 - 1)))) := by
  simp only [ShareStore.create, countP_pruneExpired]
  by_cases hfull : maxGrantsPerUser ≤ s.held username now
  · rw [if_pos hfull]
    exact .inl ⟨hfull, rfl⟩
  · rw [if_neg hfull]
    exact .inr ⟨not_le.mp hfull, rfl⟩

/-- A grant that is added counts for its user only. -/
theorem held_insert_le (s : ShareStore) (username : String) (index expiresAt : ℕ)
    (username' : String) (now : ℕ) :
    (s.insert username index expiresAt).held username' now ≤
      s.held username' now + if username' = username then 1 else 0 := by
  simp only [ShareStore.held, ShareStore.insert, List.countP_append, List.countP_singleton]
  by_cases hname : username = username'
  · rw [if_pos hname.symm]
    split <;> omega
  · rw [if_neg (Ne.symm hname), if_neg (by simp [hname])]

/-- A `lease` takes a permit of the grant that the token names. -/
theorem lease_cases (s : ShareStore) (token : Token) (now viewer : ℕ) :
    (¬ token.Admitted s now ∧ s.lease token now viewer = .error .invalid) ∨
    (token.Admitted s now ∧ (s.signals token.id).permits = 0 ∧
      s.lease token now viewer = .error .full) ∨
    (token.Admitted s now ∧ 0 < (s.signals token.id).permits ∧
      s.lease token now viewer = .ok (⟨token.username, token.index, token.expiresAt, token.id⟩,
        s.setSignal token.id { s.signals token.id with
          permits := (s.signals token.id).permits - 1
          revoked := (s.signals token.id).revoked.subscribe viewer })) := by
  rw [ShareStore.lease]
  by_cases hexpired : token.expiresAt ≤ now
  · rw [if_pos hexpired]
    exact .inl ⟨fun h => by have := h.1; omega, rfl⟩
  rw [if_neg hexpired]
  cases hget : s.get token.id with
  | none =>
    refine .inl ⟨fun h => ?_, rfl⟩
    obtain ⟨-, g, hg, hid, -⟩ := h
    exact get_eq_none_iff.mp hget g hg hid
  | some g =>
    obtain ⟨hg, hid⟩ := get_eq_some hget
    cases hmatches : token.matches g with
    | false =>
      refine .inl ⟨fun h => ?_, by simp only [hmatches, Bool.not_false, if_true]⟩
      obtain ⟨-, g', hg', hid', hmatches'⟩ := h
      rw [eq_of_id_eq hg' hg (hid'.trans hid.symm), hmatches] at hmatches'
      cases hmatches'
    | true =>
      have hadmitted : token.Admitted s now := ⟨not_le.mp hexpired, g, hg, hid, hmatches⟩
      simp only [hmatches, Bool.not_true, Bool.false_eq_true, if_false]
      by_cases hpermits : (s.signals token.id).permits = 0
      · rw [if_pos hpermits]
        exact .inr (.inl ⟨hadmitted, hpermits, rfl⟩)
      · rw [if_neg hpermits]
        exact .inr (.inr ⟨hadmitted, Nat.pos_of_ne_zero hpermits, rfl⟩)

theorem lease_eq_full_iff (s : ShareStore) (token : Token) (now viewer : ℕ) :
    s.lease token now viewer = .error .full ↔
      token.Admitted s now ∧ (s.signals token.id).permits = 0 := by
  obtain ⟨hno, heq⟩ | ⟨hadmitted, hzero, heq⟩ | ⟨hadmitted, hpos, heq⟩ :=
    lease_cases s token now viewer
  · rw [heq]
    exact iff_of_false (by simp) fun h => hno h.1
  · rw [heq]
    exact iff_of_true rfl ⟨hadmitted, hzero⟩
  · rw [heq]
    exact iff_of_false (by simp) fun h => hpos.ne' h.2

end

/-! ## Runs with leases -/

/-- The store, the leases that are out, each the id of its grant and its viewer, and the clock. -/
structure Leased where
  store : ShareStore
  leases : List (ℕ × ℕ)
  clock : ℕ

namespace Leased

/-- The leases of a grant that are out. -/
def alive (s : Leased) (id : ℕ) : ℕ := s.leases.countP fun l => l.1 = id

/-- An operation at a clock value that is not in the past. -/
def moved (s : Leased) (now : ℕ) (store : ShareStore) : Option Leased :=
  if s.clock ≤ now then some { s with store := store, clock := now } else none

end Leased

/-- An operation on the store. Only a lease that is out can be dropped. -/
def leaseStep (m : Mint) (s : Leased) : StoreAct → Option Leased
  | .create before now username index ttl =>
    s.moved now (s.store.create before now username index.toNat ttl).2
  | .list username now => s.moved now (s.store.list username now).2
  | .dropClone id => s.moved s.clock (s.store.dropClone id)
  | .resolve token now => s.moved now (m.resolve s.store token now).2
  | .lease token now viewer =>
    match m.lease s.store token now viewer with
    | .error _ => s.moved now s.store
    | .ok (l, store) =>
      Leased.moved { s with leases := (l.grant, viewer) :: s.leases } now store
  | .dropLease id viewer =>
    if (id, viewer) ∈ s.leases then
      some { s with
        store := s.store.dropLease id viewer
        leases := s.leases.erase (id, viewer) }
    else none
  | .sweep now => s.moved now (s.store.sweep now).1
  | .revoke username id => s.moved s.clock (s.store.revoke username id).2

def leaseSystem (m : Mint) : System Leased StoreAct where
  init s := ∃ clock, s = ⟨.empty, [], clock⟩
  step := leaseStep m

/-- The caps. A permit is in its semaphore or with a lease, and a grant of the map has them all. -/
structure Capped (s : Leased) : Prop where
  held : ∀ username now, s.clock ≤ now → s.store.held username now ≤ maxGrantsPerUser
  drawn : ∀ l ∈ s.leases, l.1 < s.store.nextId
  places : ∀ id, (s.store.signals id).permits + s.alive id ≤ maxViewersPerGrant
  standing : ∀ g ∈ s.store.grants,
    (s.store.signals g.id).permits + s.alive g.id = maxViewersPerGrant

section
variable {m : Mint} {s s' : Leased}

theorem moved_eq_some {now : ℕ} {store : ShareStore} (h : s.moved now store = some s') :
    s.clock ≤ now ∧ s' = { s with store := store, clock := now } := by
  rw [Leased.moved] at h
  split at h
  · next hclock => exact ⟨hclock, (Option.some.inj h).symm⟩
  · cases h

/-- No lease of an id that has not been drawn is out. -/
theorem Capped.alive_nextId (h : Capped s) : s.alive s.store.nextId = 0 := by
  rw [Leased.alive, List.countP_eq_zero]
  intro l hl
  have hlt := h.drawn l hl
  simp only [decide_eq_true_eq]
  omega

theorem capped_empty (clock : ℕ) : Capped ⟨.empty, [], clock⟩ where
  held _ _ _ := Nat.zero_le _
  drawn l hl := by cases hl
  places _ := Nat.zero_le _
  standing g hg := by cases hg

theorem Capped.frees (h : Capped s) {now : ℕ} {store : ShareStore} (hf : Frees s.store store)
    (hs : s.moved now store = some s') : Capped s' := by
  obtain ⟨hclock, rfl⟩ := moved_eq_some hs
  refine ⟨fun username now' hle => ?_, fun l hl => (h.drawn l hl).trans_le hf.nextId, fun id => ?_,
    fun g hg => ?_⟩
  · exact (hf.held_le username now').trans (h.held username now' (hclock.trans hle))
  · show (store.signals id).permits + s.alive id ≤ _
    rw [hf.permits]
    exact h.places id
  · show (store.signals g.id).permits + s.alive g.id = _
    rw [hf.permits]
    exact h.standing g (hf.grants.subset hg)

/-- A grant that is added is within the cap, since its user had a place. -/
theorem Capped.insert (h : Capped s) {username : String} {index expiresAt : ℕ}
    (hroom : s.store.held username s.clock < maxGrantsPerUser) :
    Capped { s with store := s.store.insert username index expiresAt } := by
  have hsignal : ∀ id, id ≠ s.store.nextId →
      (s.store.insert username index expiresAt).signals id = s.store.signals id :=
    fun id hid => Function.update_of_ne hid ..
  have hnew : ((s.store.insert username index expiresAt).signals s.store.nextId).permits =
      maxViewersPerGrant := by
    simp [ShareStore.insert]
  -- the new signal has all its permits, and no lease of its id is out
  have hnone := h.alive_nextId
  refine ⟨fun username' now hle => ?_, fun l hl => Nat.lt_succ_of_lt (h.drawn l hl), fun id => ?_,
    fun g hg => ?_⟩
  · have hclock : s.clock ≤ now := hle
    have hold := h.held username' now hclock
    refine (held_insert_le s.store username index expiresAt username' now).trans ?_
    by_cases hname : username' = username
    · subst hname
      rw [if_pos rfl]
      exact (Nat.succ_le_succ (held_anti s.store username' hclock)).trans hroom
    · rw [if_neg hname]
      exact hold
  · show ((s.store.insert username index expiresAt).signals id).permits + s.alive id ≤ _
    by_cases hid : id = s.store.nextId
    · subst hid
      omega
    · rw [hsignal id hid]
      exact h.places id
  · show ((s.store.insert username index expiresAt).signals g.id).permits + s.alive g.id = _
    obtain hold | hadded := List.mem_append.mp hg
    · rw [hsignal g.id (s.store.numbered g hold).ne]
      exact h.standing g hold
    · obtain rfl := List.mem_singleton.mp hadded
      show ((s.store.insert username index expiresAt).signals s.store.nextId).permits +
        s.alive s.store.nextId = _
      omega

theorem Capped.create (h : Capped s) {before now : ℕ} {username : String} {index ttl : ℕ}
    (hs : s.moved now (s.store.create before now username index ttl).2 = some s') :
    Capped s' := by
  have hprune : Frees s.store (s.store.pruneExpired now).1 := frees_retain s.store _
  obtain ⟨-, heq⟩ | ⟨hroom, heq⟩ := create_cases s.store before now username index ttl
  · rw [heq] at hs
    exact h.frees (hprune.trans (frees_skipId _)) hs
  · rw [heq] at hs
    obtain ⟨hclock, rfl⟩ := moved_eq_some hs
    have hpruned : s.moved now (s.store.pruneExpired now).1 =
        some { s with store := (s.store.pruneExpired now).1, clock := now } := if_pos hclock
    exact (h.frees hprune hpruned).insert ((hprune.held_le username now).trans_lt hroom)

/-- A permit of a signal moves, and nothing else in the store. -/
theorem setSignal_permits (store : ShareStore) (id : ℕ) (signal : Signal) (i : ℕ) :
    ((store.setSignal id signal).signals i).permits =
      if i = id then signal.permits else (store.signals i).permits := by
  show (Function.update store.signals id signal i).permits = _
  rw [Function.update_apply]
  split <;> rfl

/-- Permits go to leases and back, and nothing else changes. -/
theorem Capped.exchange (h : Capped s) {id : ℕ} {signal : Signal} {leases : List (ℕ × ℕ)}
    (hdrawn : ∀ l ∈ leases, l.1 < s.store.nextId)
    (hplace : ∀ i, (if i = id then signal.permits else (s.store.signals i).permits) +
      leases.countP (fun l => l.1 = i) = (s.store.signals i).permits + s.alive i) :
    Capped ⟨s.store.setSignal id signal, leases, s.clock⟩ := by
  have hsame : ∀ i, ((s.store.setSignal id signal).signals i).permits +
      leases.countP (fun l => l.1 = i) = (s.store.signals i).permits + s.alive i := by
    intro i
    rw [setSignal_permits]
    exact hplace i
  exact ⟨h.held, hdrawn, fun i => (hsame i).trans_le (h.places i),
    fun g hg => (hsame g.id).trans (h.standing g hg)⟩

/-- What a lease takes from the semaphore is with the lease. -/
theorem Capped.leased (h : Capped s) {id : ℕ} (viewer : ℕ) {signal : Signal}
    (hid : id < s.store.nextId) (hpos : 0 < (s.store.signals id).permits)
    (htaken : signal.permits = (s.store.signals id).permits - 1) :
    Capped ⟨s.store.setSignal id signal, (id, viewer) :: s.leases, s.clock⟩ := by
  apply h.exchange
  · intro l hl
    obtain rfl | hold := List.mem_cons.mp hl
    · exact hid
    · exact h.drawn l hold
  · intro i
    rw [List.countP_cons, Leased.alive]
    by_cases hi : i = id
    · subst hi
      simp only [if_true, decide_true]
      omega
    · simp only [if_neg hi, decide_eq_true_eq, if_neg (Ne.symm hi), Nat.add_zero]

/-- What a lease gives back is in the semaphore again. -/
theorem Capped.dropped (h : Capped s) {id viewer : ℕ} (hl : (id, viewer) ∈ s.leases) :
    Capped ⟨s.store.dropLease id viewer, s.leases.erase (id, viewer), s.clock⟩ := by
  have hpos : 0 < s.alive id := List.countP_pos_iff.mpr ⟨_, hl, by simp⟩
  apply h.exchange
  · exact fun l hmem => h.drawn l (List.mem_of_mem_erase hmem)
  · intro i
    simp only [Leased.alive, List.countP_erase, hl, true_and, decide_eq_true_eq] at hpos ⊢
    by_cases hi : i = id
    · subst hi
      simp only [if_true]
      omega
    · simp only [if_neg hi, if_neg (Ne.symm hi), Nat.sub_zero]

theorem Capped.lease (h : Capped s) {token : Text} {now viewer : ℕ}
    (hs : leaseStep m s (.lease token now viewer) = some s') : Capped s' := by
  simp only [leaseStep, Mint.lease] at hs
  cases hverify : m.verify token with
  | none =>
    simp only [hverify] at hs
    exact h.frees (.refl _) hs
  | some c =>
    simp only [hverify] at hs
    obtain ⟨-, heq⟩ | ⟨-, -, heq⟩ | ⟨hadmitted, hpos, heq⟩ :=
      lease_cases s.store (m.numbered s.store c) now viewer
    · rw [heq] at hs
      exact h.frees (.refl _) hs
    · rw [heq] at hs
      exact h.frees (.refl _) hs
    · rw [heq] at hs
      obtain ⟨-, g, hg, hid, -⟩ := hadmitted
      have hdrawn := hid ▸ s.store.numbered g hg
      obtain ⟨hclock, rfl⟩ := moved_eq_some hs
      exact (h.leased viewer hdrawn hpos rfl).frees (.refl _) (if_pos hclock)

theorem Capped.step (h : Capped s) {a : StoreAct} (hs : leaseStep m s a = some s') :
    Capped s' := by
  cases a with
  | create before now username index ttl => exact h.create hs
  | list username now => exact h.frees (frees_list ..) hs
  | dropClone id => exact h.frees (frees_dropClone ..) hs
  | resolve token now => exact h.frees (frees_resolve ..) hs
  | lease token now viewer => exact h.lease hs
  | dropLease id viewer =>
    rw [leaseStep] at hs
    split at hs
    · next hl =>
      obtain rfl := Option.some.inj hs
      exact h.dropped hl
    · cases hs
  | sweep now => exact h.frees (frees_retain ..) hs
  | revoke username id => exact h.frees (frees_revoke ..) hs

theorem capped_of_reachable (h : (leaseSystem m).Reachable s) : Capped s :=
  h.invariant (fun _ hinit => by obtain ⟨clock, rfl⟩ := hinit; exact capped_empty clock)
    fun _ _ _ _ hcapped _ hs => hcapped.step hs

/-! ## Places that are freed -/

/-- A lease that ends gives its place back. -/
theorem alive_dropLease {id viewer : ℕ}
    (hs : leaseStep m s (.dropLease id viewer) = some s') :
    s'.alive id + 1 = s.alive id ∧ s'.store.grants = s.store.grants := by
  rw [leaseStep] at hs
  split at hs
  · next hl =>
    obtain rfl := Option.some.inj hs
    have hpos : 0 < s.alive id := List.countP_pos_iff.mpr ⟨_, hl, by simp⟩
    refine ⟨?_, rfl⟩
    simp only [Leased.alive, List.countP_erase, hl, true_and, decide_true, if_true] at hpos ⊢
    omega
  · cases hs

/-- A grant of the map that counted at one time and does not at another. -/
theorem held_lt {store store' : ShareStore} {g : Grant} {now now' : ℕ} (hg : g ∈ store.grants)
    (hf : Frees store store') (hle : now ≤ now') (hbefore : now < g.expiresAt)
    (hafter : g ∉ store'.grants ∨ g.expiresAt ≤ now') :
    store'.held g.username now' < store.held g.username now := by
  have hsub :
      (store'.grants.filter fun g' => g'.username = g.username ∧ now' < g'.expiresAt).Sublist
        (store.grants.filter fun g' => g'.username = g.username ∧ now < g'.expiresAt) := by
    refine (hf.grants.filter _).trans (List.monotone_filter_right _ fun g' hg' => ?_)
    simp only [decide_eq_true_eq] at hg' ⊢
    exact ⟨hg'.1, hle.trans_lt hg'.2⟩
  simp only [ShareStore.held, List.countP_eq_length_filter]
  -- were there as many as before, they would be the same ones, and `g` among them
  by_contra hge
  have heq := hsub.eq_of_length_le (not_lt.mp hge)
  have hmem : g ∈ store.grants.filter fun g' =>
      g'.username = g.username ∧ now < g'.expiresAt :=
    List.mem_filter.mpr ⟨hg, by simp [hbefore]⟩
  rw [← heq, List.mem_filter] at hmem
  obtain hgone | hexpired := hafter
  · exact hgone hmem.1
  · simp only [decide_eq_true_eq] at hmem
    omega

/-- The owner of a grant can revoke it. -/
theorem revoke_of_mem {store : ShareStore} {g : Grant} (hg : g ∈ store.grants) :
    (store.revoke g.username g.id).1 = true := by
  rw [ShareStore.revoke]
  cases hget : store.get g.id with
  | none => exact absurd rfl (get_eq_none_iff.mp hget g hg)
  | some g' =>
    obtain ⟨hg', hid⟩ := get_eq_some hget
    obtain rfl := eq_of_id_eq hg' hg hid
    simp

/-- A user with room is not refused. -/
theorem create_ne_tooMany {store : ShareStore} {username : String} {now : ℕ}
    (hroom : store.held username now < maxGrantsPerUser) (before index ttl : ℕ) :
    (store.create before now username index ttl).1 ≠ .error .tooMany := by
  obtain ⟨hfull, -⟩ | ⟨-, heq⟩ := create_cases store before now username index ttl
  · omega
  · rw [heq]
    exact fun h => by cases h

/-- A lease reports a full grant if all its places are with leases: a grant that admits a token has
all its permits. -/
theorem Capped.lease_eq_full_iff (h : Capped s) (token : Text) (now viewer : ℕ) :
    m.lease s.store token now viewer = .error .full ↔
      ∃ c, m.verify token = some c ∧ (m.numbered s.store c).Admitted s.store now ∧
        s.alive (m.numbered s.store c).id = maxViewersPerGrant := by
  rw [Mint.lease]
  cases hverify : m.verify token with
  | none => simp
  | some c =>
    simp only [Share.lease_eq_full_iff, Option.some.injEq, exists_eq_left']
    refine and_congr_right fun hadmitted => ?_
    obtain ⟨-, g, hg, hid, -⟩ := hadmitted
    have hstanding := h.standing g hg
    rw [hid] at hstanding
    omega

/-- **The caps of shares.** In every run no user holds more than 32 grants that have not expired,
and a `create` is refused exactly to those who hold 32, and then adds none; no grant has more than
32 leases out, and a `lease` reports a full grant exactly if the token stands and 32 are out. A
lease that is dropped makes place for another one, and so does a grant that expires or is revoked
for another grant. -/
theorem caps_hold (h : (leaseSystem m).Reachable s) :
    (∀ username now, s.clock ≤ now → s.store.held username now ≤ maxGrantsPerUser) ∧
    (∀ before now username index ttl, s.clock ≤ now →
      ((s.store.create before now username index ttl).1 = .error .tooMany ↔
        s.store.held username now = maxGrantsPerUser) ∧
      ((s.store.create before now username index ttl).1 = .error .tooMany →
        (s.store.create before now username index ttl).2.grants ⊆ s.store.grants)) ∧
    (∀ id, s.alive id ≤ maxViewersPerGrant) ∧
    (∀ token now viewer, m.lease s.store token now viewer = .error .full ↔
      ∃ c, m.verify token = some c ∧ (m.numbered s.store c).Admitted s.store now ∧
        s.alive (m.numbered s.store c).id = maxViewersPerGrant) ∧
    (∀ id viewer s', leaseStep m s (.dropLease id viewer) = some s' →
      s'.alive id + 1 = s.alive id ∧
      ∀ token c now viewer, m.verify token = some c → (m.numbered s'.store c).id = id →
        m.lease s'.store token now viewer ≠ .error .full) ∧
    ∀ g ∈ s.store.grants, s.clock < g.expiresAt → ∀ before now index ttl, s.clock ≤ now →
      (g.expiresAt ≤ now →
        (s.store.create before now g.username index ttl).1 ≠ .error .tooMany) ∧
      ((s.store.revoke g.username g.id).2.create before now g.username index ttl).1 ≠
        .error .tooMany := by
  have hcapped := capped_of_reachable h
  refine ⟨hcapped.held, fun before now username index ttl hclock => ?_, fun id => ?_,
    hcapped.lease_eq_full_iff, fun id viewer s' hs => ?_,
    fun g hg hlive before now index ttl hclock => ?_⟩
  · have hle := hcapped.held username now hclock
    obtain ⟨hge, heq⟩ | ⟨hlt, heq⟩ := create_cases s.store before now username index ttl
    · rw [heq]
      exact ⟨iff_of_true rfl (le_antisymm hle hge), fun _ => List.filter_subset_self _⟩
    · rw [heq]
      exact ⟨iff_of_false (by simp) hlt.ne, fun hno => by cases hno⟩
  · exact (Nat.le_add_left _ _).trans (hcapped.places id)
  · obtain ⟨halive, -⟩ := alive_dropLease hs
    refine ⟨halive, fun token c now viewer hverify hid hno => ?_⟩
    obtain ⟨c', hverify', -, hall⟩ := ((hcapped.step hs).lease_eq_full_iff token now viewer).mp hno
    obtain rfl : c = c' := Option.some.inj (hverify.symm.trans hverify')
    have hle := hcapped.places id
    rw [hid] at hall
    omega
  · have hle := hcapped.held g.username s.clock le_rfl
    constructor
    · intro hexpired
      apply create_ne_tooMany
      exact (held_lt hg (.refl _) hclock hlive (.inr hexpired)).trans_le hle
    · have hgone : g ∉ (s.store.revoke g.username g.id).2.grants := by
        exact Mint.not_mem_of_revoke (revoke_of_mem hg) rfl
      apply create_ne_tooMany
      exact (held_lt hg (frees_revoke ..) hclock hlive (.inl hgone)).trans_le hle

end

/-! ## One grant too many -/

/-- A new store. -/
def unleased : Leased := ⟨.empty, [], 0⟩

/-- Alice has shared her slot 3 for a minute, as often as she may. -/
def sharedByAlice : Leased :=
  ((leaseSystem mintOfSevens).run unleased
    (List.replicate 32 (.create 1000 1000 "alice" 3 60))).getD unleased

/-- The next grant is refused. -/
theorem caps_hold_sharedByAlice :
    (sharedByAlice.store.create 1059 1059 "alice" 3 60).1 = .error .tooMany := by
  have hrun : (leaseSystem mintOfSevens).run unleased
      (List.replicate 32 (.create 1000 1000 "alice" 3 60)) = some sharedByAlice := by
    rfl
  have hreach : (leaseSystem mintOfSevens).Reachable sharedByAlice :=
    System.Reachable.run (.init ⟨0, rfl⟩) hrun
  have hcaps := caps_hold hreach
  exact ((hcaps.2.1 1059 1059 "alice" 3 60 (by decide +kernel)).1).mpr (by decide +kernel)

end Webshell.Share
