import Webshell.Lib.Transition
import Webshell.Share.Token

/-!
# The views of a share

Four paths of the store look at a token: `resolve`, `lease`, `remaining_secs`, and `list` with the
token of each grant it returns. They are defined here on the token as the text it is, and a run of
the store keeps what its key has signed.

## Main definitions

- `Mint.resolve`, `Mint.lease`, `Mint.remainingSecs`: the paths that verify a token
- `Mint.Refuses`: no view admits the token
- `Issued`, `issueStep`, `issueSystem`: the store and the payloads it has signed

## Main results

- `issuedInv_of_reachable`: a signed payload is that of one grant, which the map has or will never
  have again
- `Mint.shareViews_agree`: the views agree at every clock value
-/

namespace Webshell.Share

open Transition

namespace Mint

variable (m : Mint)

/-- What the store is asked about: the grant of the map under the id, and one that is not in the
map if there is none. -/
def numbered (s : ShareStore) (c : Claims) : Token where
  id := ((s.grants.find? fun g => m.id g.id = c.id).map Grant.id).getD s.nextId
  username := c.username
  index := c.index
  expiresAt := c.expiresAt

/-- Resolve a valid token to its user and slot; an expired one is pruned on the way out. -/
def resolve (s : ShareStore) (token : Text) (now : ℕ) : Option (String × ℕ) × ShareStore :=
  match m.verify token with
  | none => (none, s)
  | some c => s.resolve (m.numbered s c) now

def lease (s : ShareStore) (token : Text) (now viewer : ℕ) :
    Except LeaseError (Lease × ShareStore) :=
  match m.verify token with
  | none => .error .invalid
  | some c => s.lease (m.numbered s c) now viewer

/-- Seconds until the token expires; only the id is looked up. -/
def remainingSecs (s : ShareStore) (token : Text) (now : ℕ) : Option ℕ :=
  match m.verify token with
  | none => none
  | some c =>
    if !s.grants.any fun g => m.id g.id = c.id then none
    else (if now ≤ c.expiresAt then some (c.expiresAt - now) else none).filter (0 < ·)

/-- No view admits the token. -/
structure Refuses (s : ShareStore) (token : Text) (now viewer : ℕ) : Prop where
  resolve : (m.resolve s token now).1 = none
  lease : m.lease s token now viewer = .error .invalid
  remainingSecs : m.remainingSecs s token now = none
  list : ∀ username, ∀ g ∈ (s.list username now).1, m.tokenFor g ≠ token

end Mint

/-! ## Runs of the store -/

/-- The store and the payloads that its key has signed. -/
structure Issued where
  store : ShareStore
  signed : List (List UInt8)

/-- The operations on the store, each at a clock value of its own. -/
inductive StoreAct
  | create (before now : ℕ) (username : String) (index : UInt64) (ttl : ℕ)
  /-- The grants of a user, each with its token. -/
  | list (username : String) (now : ℕ)
  | dropClone (id : ℕ)
  | resolve (token : Text) (now : ℕ)
  | lease (token : Text) (now viewer : ℕ)
  | dropLease (id viewer : ℕ)
  | sweep (now : ℕ)
  | revoke (username : String) (id : ℕ)

/-- The grant that a `create` mints a token for. -/
def ShareStore.minted (s : ShareStore) (before : ℕ) (username : String) (index ttl : ℕ) : Grant :=
  ⟨s.nextId, username, index, min (before + ttl) (2 ^ 64 - 1)⟩

def Issued.withStore (s : Issued) (store : ShareStore) : Issued := { s with store := store }

/-- A step of the store. `create` signs its token before it counts the grants. -/
def issueStep (m : Mint) (s : Issued) : StoreAct → Option Issued
  | .create before now username index ttl =>
    some { store := (s.store.create before now username index.toNat ttl).2
           signed := s.signed ++ [m.payloadFor (s.store.minted before username index.toNat ttl)] }
  | .list username now =>
    some { store := (s.store.list username now).2
           signed := s.signed ++ (s.store.list username now).1.map m.payloadFor }
  | .dropClone id => some (s.withStore (s.store.dropClone id))
  | .resolve token now => some (s.withStore (m.resolve s.store token now).2)
  | .lease token now viewer =>
    match m.lease s.store token now viewer with
    | .error _ => some s
    | .ok (_, store) => some (s.withStore store)
  | .dropLease id viewer => some (s.withStore (s.store.dropLease id viewer))
  | .sweep now => some (s.withStore (s.store.sweep now).1)
  | .revoke username id => some (s.withStore (s.store.revoke username id).2)

def issueSystem (m : Mint) : System Issued StoreAct where
  init s := s = ⟨.empty, []⟩
  step := issueStep m

/-! ## What the grants of the map become -/

section
variable {m : Mint} {s s' : ShareStore}

/-- No grant comes into the map, and no id is drawn. -/
structure Prunes (s s' : ShareStore) : Prop where
  nextId : s'.nextId = s.nextId
  grants : s'.grants ⊆ s.grants

theorem Prunes.refl (s : ShareStore) : Prunes s s := ⟨rfl, List.Subset.refl _⟩

theorem prunes_retain (s : ShareStore) (keep : Grant → Bool) : Prunes s (s.retain keep) :=
  ⟨rfl, List.filter_subset_self _⟩

theorem prunes_list (s : ShareStore) (username : String) (now : ℕ) :
    Prunes s (s.list username now).2 :=
  ⟨rfl, List.filter_subset_self _⟩

theorem prunes_resolve (m : Mint) (s : ShareStore) (token : Text) (now : ℕ) :
    Prunes s (m.resolve s token now).2 := by
  rw [Mint.resolve]
  split
  · exact .refl s
  · rw [ShareStore.resolve]
    split
    · exact prunes_retain s _
    · split
      · exact .refl s
      · exact .refl s

theorem prunes_revoke (s : ShareStore) (username : String) (id : ℕ) :
    Prunes s (s.revoke username id).2 := by
  rw [ShareStore.revoke]
  split
  · exact prunes_retain s _
  · exact .refl s

theorem prunes_lease {token : Text} {now viewer : ℕ} {l : Lease}
    (h : m.lease s token now viewer = .ok (l, s')) : Prunes s s' := by
  rw [Mint.lease] at h
  split at h
  · cases h
  · rw [ShareStore.lease] at h
    split at h
    · cases h
    · split at h
      · cases h
      · split at h
        · cases h
        · dsimp only at h
          split at h
          · cases h
          · obtain ⟨-, rfl⟩ := Prod.mk.inj (Except.ok.inj h)
            exact ⟨rfl, List.Subset.refl _⟩

theorem nextId_create (s : ShareStore) (before now : ℕ) (username : String) (index ttl : ℕ) :
    (s.create before now username index ttl).2.nextId = s.nextId + 1 := by
  rw [ShareStore.create]
  split <;> rfl

theorem mem_create {before now : ℕ} {username : String} {index ttl : ℕ} {g : Grant}
    (h : g ∈ (s.create before now username index ttl).2.grants) :
    g ∈ s.grants ∨ g = s.minted before username index ttl := by
  rw [ShareStore.create] at h
  split at h
  · exact .inl (List.mem_of_mem_filter h)
  · obtain h | h := List.mem_append.mp h
    · exact .inl (List.mem_of_mem_filter h)
    · exact .inr (List.mem_singleton.mp h)

theorem minted_fits (s : ShareStore) (before : ℕ) (username : String) (index : UInt64) (ttl : ℕ) :
    (s.minted before username index.toNat ttl).Fits := by
  refine ⟨index.toNat_lt, ?_⟩
  show min (before + ttl) (2 ^ 64 - 1) < 2 ^ 64
  omega

end

/-- A step only prunes the map and signs grants that are in it, or it is a `create`. -/
theorem issueStep_cases {m : Mint} {s s' : Issued} {a : StoreAct}
    (h : issueStep m s a = some s') :
    (Prunes s.store s'.store ∧
      ∃ gs ⊆ s'.store.grants, s'.signed = s.signed ++ gs.map m.payloadFor) ∨
    ∃ before now username, ∃ index : UInt64, ∃ ttl,
      s'.store = (s.store.create before now username index.toNat ttl).2 ∧
      s'.signed =
        s.signed ++ [m.payloadFor (s.store.minted before username index.toNat ttl)] := by
  have hsame : ∀ {store}, Prunes s.store store →
      Prunes s.store (s.withStore store).store ∧
        ∃ gs ⊆ (s.withStore store).store.grants,
          (s.withStore store).signed = s.signed ++ gs.map m.payloadFor :=
    fun hp => ⟨hp, [], List.nil_subset _, (List.append_nil _).symm⟩
  cases a with
  | create before now username index ttl =>
    obtain rfl := Option.some.inj h
    exact .inr ⟨before, now, username, index, ttl, rfl, rfl⟩
  | list username now =>
    obtain rfl := Option.some.inj h
    exact .inl ⟨prunes_list s.store username now, _, List.filter_subset_self _, rfl⟩
  | dropClone id =>
    obtain rfl := Option.some.inj h
    exact .inl (hsame ⟨rfl, List.Subset.refl _⟩)
  | resolve token now =>
    obtain rfl := Option.some.inj h
    exact .inl (hsame (prunes_resolve m s.store token now))
  | lease token now viewer =>
    rw [issueStep] at h
    split at h
    · obtain rfl := Option.some.inj h
      exact .inl (hsame (.refl _))
    · next hlease =>
      obtain rfl := Option.some.inj h
      exact .inl (hsame (prunes_lease hlease))
  | dropLease id viewer =>
    obtain rfl := Option.some.inj h
    exact .inl (hsame ⟨rfl, List.Subset.refl _⟩)
  | sweep now =>
    obtain rfl := Option.some.inj h
    exact .inl (hsame (prunes_retain s.store _))
  | revoke username id =>
    obtain rfl := Option.some.inj h
    exact .inl (hsame (prunes_revoke s.store username id))

/-! ## The invariant -/

/-- The id of a grant has been drawn for it, and no other grant of the map has it. -/
structure Owns (s : ShareStore) (g : Grant) : Prop where
  drawn : g.id < s.nextId
  only : ∀ g' ∈ s.grants, g'.id = g.id → g' = g

/-- Every grant of the map fits its types, and every payload that has been signed is that of a
grant with an id of its own. -/
structure IssuedInv (m : Mint) (s : Issued) : Prop where
  fits : ∀ g ∈ s.store.grants, g.Fits
  signed : ∀ bytes ∈ s.signed, ∃ g, bytes = m.payloadFor g ∧ g.Fits ∧ Owns s.store g

section
variable {m : Mint} {s s' : Issued} {a : StoreAct} {g : Grant}

theorem owns_of_mem {store : ShareStore} (h : g ∈ store.grants) : Owns store g :=
  ⟨store.numbered g h, fun _ hg' hid => eq_of_id_eq hg' h hid⟩

theorem Owns.prunes {store store' : ShareStore} (h : Owns store g) (hp : Prunes store store') :
    Owns store' g :=
  ⟨hp.nextId ▸ h.drawn, fun g' hg' => h.only g' (hp.grants hg')⟩

theorem Owns.create {store : ShareStore} (h : Owns store g) (before now : ℕ) (username : String)
    (index ttl : ℕ) : Owns (store.create before now username index ttl).2 g := by
  refine ⟨?_, fun g' hg' hid => ?_⟩
  · rw [nextId_create]
    exact Nat.lt_succ_of_lt h.drawn
  · obtain hin | rfl := mem_create hg'
    · exact h.only g' hin hid
    · exact absurd hid h.drawn.ne'

theorem owns_minted (store : ShareStore) (before now : ℕ) (username : String) (index ttl : ℕ) :
    Owns (store.create before now username index ttl).2
      (store.minted before username index ttl) := by
  refine ⟨?_, fun g' hg' hid => ?_⟩
  · rw [nextId_create]
    exact Nat.lt_succ_self _
  · -- the drawn id is on no grant that was there before
    obtain hin | heq := mem_create hg'
    · exact absurd hid (store.numbered g' hin).ne
    · exact heq

/-- An id stays that of its grant. -/
theorem Owns.step (h : Owns s.store g) (hstep : issueStep m s a = some s') : Owns s'.store g := by
  obtain ⟨hp, -⟩ | ⟨before, now, username, index, ttl, hstore, -⟩ := issueStep_cases hstep
  · exact h.prunes hp
  · rw [hstore]
    exact h.create ..

/-- A grant that has left the map does not come back. -/
theorem Owns.not_mem_step (h : Owns s.store g) (hno : g ∉ s.store.grants)
    (hstep : issueStep m s a = some s') : g ∉ s'.store.grants := by
  intro hg
  obtain ⟨hp, -⟩ | ⟨before, now, username, index, ttl, hstore, -⟩ := issueStep_cases hstep
  · exact hno (hp.grants hg)
  · rw [hstore] at hg
    obtain hin | rfl := mem_create hg
    · exact hno hin
    · exact absurd h.drawn (Nat.lt_irrefl _)

theorem IssuedInv.step (h : IssuedInv m s) (hstep : issueStep m s a = some s') :
    IssuedInv m s' := by
  have hold : ∀ bytes ∈ s.signed, ∃ g, bytes = m.payloadFor g ∧ g.Fits ∧ Owns s'.store g := by
    intro bytes hbytes
    obtain ⟨g, heq, hfits, hown⟩ := h.signed bytes hbytes
    exact ⟨g, heq, hfits, hown.step hstep⟩
  obtain ⟨hp, gs, hgs, hsigned⟩ | ⟨before, now, username, index, ttl, hstore, hsigned⟩ :=
    issueStep_cases hstep
  · have hfits : ∀ g ∈ s'.store.grants, g.Fits := fun g hg => h.fits g (hp.grants hg)
    refine ⟨hfits, fun bytes hbytes => ?_⟩
    rw [hsigned] at hbytes
    obtain hbytes | hbytes := List.mem_append.mp hbytes
    · exact hold bytes hbytes
    · obtain ⟨g, hg, rfl⟩ := List.mem_map.mp hbytes
      exact ⟨g, rfl, hfits g (hgs hg), owns_of_mem (hgs hg)⟩
  · refine ⟨fun g hg => ?_, fun bytes hbytes => ?_⟩
    · rw [hstore] at hg
      obtain hin | rfl := mem_create hg
      · exact h.fits g hin
      · exact minted_fits ..
    · rw [hsigned] at hbytes
      obtain hbytes | hbytes := List.mem_append.mp hbytes
      · exact hold bytes hbytes
      · exact ⟨_, List.mem_singleton.mp hbytes, minted_fits .., hstore ▸ owns_minted ..⟩

theorem issuedInv_of_reachable (h : (issueSystem m).Reachable s) : IssuedInv m s := by
  refine System.Reach.invariant (fun s hs => ?_) (fun _ _ _ _ hi _ => hi.step) h
  obtain rfl : s = ⟨.empty, []⟩ := hs
  exact ⟨List.forall_mem_nil _, List.forall_mem_nil _⟩

end

/-! ## Agreement -/

namespace Mint

/-- The ids of the first draws are all different. -/
def Distinct (m : Mint) (n : ℕ) : Prop := Set.InjOn m.draw (Set.Iio n)

/-- The MAC of the token is right only if its payload has been signed. -/
def Unforged (m : Mint) (signed : List (List UInt8)) (token : Text) : Prop :=
  ∀ bytes, m.opened token = some bytes → bytes ∈ signed

section
variable {m : Mint} {s : ShareStore} {g : Grant} {now viewer : ℕ}

/-- A grant of the map that has the id of `g` is `g`. -/
theorem eq_of_id (hids : m.Distinct s.nextId) (hown : Owns s g) {g' : Grant} (hg' : g' ∈ s.grants)
    (h : m.id g'.id = m.id g.id) : g' = g := by
  have hdraw := m.b64.encode_injective h
  exact hown.only g' hg' (hids (s.numbered g' hg') hown.drawn hdraw)

theorem find_of_mem (hids : m.Distinct s.nextId) (hown : Owns s g) (hg : g ∈ s.grants) :
    (s.grants.find? fun g' => m.id g'.id = m.id g.id) = some g := by
  cases hfind : s.grants.find? fun g' => m.id g'.id = m.id g.id with
  | none => exact absurd (List.find?_eq_none.mp hfind g hg) (by simp)
  | some g' =>
    have hid : m.id g'.id = m.id g.id := by simpa using List.find?_some hfind
    rw [eq_of_id hids hown (List.mem_of_find?_eq_some hfind) hid]

theorem find_of_not_mem (hids : m.Distinct s.nextId) (hown : Owns s g) (hg : g ∉ s.grants) :
    (s.grants.find? fun g' => m.id g'.id = m.id g.id) = none := by
  refine List.find?_eq_none.mpr fun g' hg' hid => ?_
  obtain rfl := eq_of_id hids hown hg' (by simpa using hid)
  exact hg hg'

/-- The grant that the map has under the id of a grant it has. -/
theorem get_numbered_of_mem (hids : m.Distinct s.nextId) (hown : Owns s g) (hg : g ∈ s.grants) :
    s.get (m.numbered s (m.claimsOf g)).id = some g := by
  have hid : (m.numbered s (m.claimsOf g)).id = g.id := by
    show ((s.grants.find? fun g' => m.id g'.id = m.id g.id).map Grant.id).getD s.nextId = g.id
    rw [find_of_mem hids hown hg, Option.map_some, Option.getD_some]
  rw [hid]
  cases hget : s.get g.id with
  | none => exact absurd rfl (get_eq_none_iff.mp hget g hg)
  | some g' =>
    obtain ⟨hg', heq⟩ := get_eq_some hget
    rw [eq_of_id_eq hg' hg heq]

theorem get_numbered_of_not_mem (hids : m.Distinct s.nextId) (hown : Owns s g)
    (hg : g ∉ s.grants) : s.get (m.numbered s (m.claimsOf g)).id = none := by
  have hid : (m.numbered s (m.claimsOf g)).id = s.nextId := by
    show ((s.grants.find? fun g' => m.id g'.id = m.id g.id).map Grant.id).getD s.nextId = _
    rw [find_of_not_mem hids hown hg, Option.map_none, Option.getD_none]
  rw [hid]
  exact get_eq_none_iff.mpr fun g' hg' => (s.numbered g' hg').ne

theorem matches_numbered : (m.numbered s (m.claimsOf g)).matches g = true := by
  simp [Token.matches, numbered, claimsOf]

/-- A grant stands at a clock value: it is in the map and has not expired. -/
def Stands (s : ShareStore) (g : Grant) (now : ℕ) : Prop := now < g.expiresAt ∧ g ∈ s.grants

theorem resolve_tokenFor (now : ℕ) (hids : m.Distinct s.nextId) (hown : Owns s g)
    (hfits : g.Fits) :
    (m.resolve s (m.tokenFor g) now).1 = some (g.username, g.index) ∧ Stands s g now ∨
      (m.resolve s (m.tokenFor g) now).1 = none ∧ ¬ Stands s g now := by
  rw [resolve, verify_tokenFor hfits]
  dsimp only
  rw [ShareStore.resolve]
  split
  · next hexp => exact .inr ⟨rfl, fun h => absurd h.1 (Nat.not_lt.mpr hexp)⟩
  · next hexp =>
    by_cases hg : g ∈ s.grants
    · rw [get_numbered_of_mem hids hown hg]
      dsimp only
      rw [if_pos matches_numbered]
      exact .inl ⟨rfl, Nat.not_le.mp hexp, hg⟩
    · rw [get_numbered_of_not_mem hids hown hg]
      exact .inr ⟨rfl, fun h => hg h.2⟩

theorem lease_tokenFor (now viewer : ℕ) (hids : m.Distinct s.nextId) (hown : Owns s g)
    (hfits : g.Fits) :
    m.lease s (m.tokenFor g) now viewer ≠ .error .invalid ∧ Stands s g now ∨
      m.lease s (m.tokenFor g) now viewer = .error .invalid ∧ ¬ Stands s g now := by
  rw [lease, verify_tokenFor hfits]
  dsimp only
  rw [ShareStore.lease]
  split
  · next hexp => exact .inr ⟨rfl, fun h => absurd h.1 (Nat.not_lt.mpr hexp)⟩
  · next hexp =>
    by_cases hg : g ∈ s.grants
    · rw [get_numbered_of_mem hids hown hg]
      dsimp only
      rw [matches_numbered, Bool.not_true, if_neg (by decide)]
      refine .inl ⟨?_, Nat.not_le.mp hexp, hg⟩
      split <;> simp
    · rw [get_numbered_of_not_mem hids hown hg]
      exact .inr ⟨rfl, fun h => hg h.2⟩

theorem remainingSecs_tokenFor (now : ℕ) (hids : m.Distinct s.nextId) (hown : Owns s g)
    (hfits : g.Fits) :
    m.remainingSecs s (m.tokenFor g) now = some (g.expiresAt - now) ∧ Stands s g now ∨
      m.remainingSecs s (m.tokenFor g) now = none ∧ ¬ Stands s g now := by
  have hany : (s.grants.any fun g' => m.id g'.id = m.id g.id) = decide (g ∈ s.grants) := by
    rw [Bool.eq_iff_iff, List.any_eq_true, decide_eq_true_iff]
    constructor
    · rintro ⟨g', hg', hid⟩
      rwa [← eq_of_id hids hown hg' (by simpa using hid)]
    · intro hg
      exact ⟨g, hg, by simp⟩
  rw [remainingSecs, verify_tokenFor hfits]
  show (if !(s.grants.any fun g' => m.id g'.id = m.id g.id) then none
    else (if now ≤ g.expiresAt then some (g.expiresAt - now) else none).filter (0 < ·)) = _ ∧ _ ∨
    (if !(s.grants.any fun g' => m.id g'.id = m.id g.id) then none
    else (if now ≤ g.expiresAt then some (g.expiresAt - now) else none).filter (0 < ·)) = _ ∧ _
  rw [hany]
  by_cases hg : g ∈ s.grants
  · simp only [hg, decide_true, Bool.not_true, Bool.false_eq_true, if_false]
    by_cases hnow : now < g.expiresAt
    · rw [if_pos hnow.le, Option.filter_some, if_pos (by simpa using hnow)]
      exact .inl ⟨rfl, hnow, hg⟩
    · refine .inr ⟨?_, fun h => hnow h.1⟩
      split
      · rw [Option.filter_some, if_neg (by simpa using hnow)]
      · rfl
  · simp only [hg, decide_false, Bool.not_false, if_true]
    exact .inr ⟨trivial, fun h => hg h.2⟩

theorem mem_list {username : String} :
    g ∈ (s.list username now).1 ↔ Stands s g now ∧ g.username = username := by
  simp only [ShareStore.list, ShareStore.pruneExpired, ShareStore.retain, Stands,
    List.mem_filter, decide_eq_true_eq]
  tauto

/-- Of the grants that fit their types, only `g` has its token. -/
theorem eq_of_tokenFor (hids : m.Distinct s.nextId) (hown : Owns s g) (hfits : g.Fits)
    {g' : Grant} (hg' : g' ∈ s.grants) (hfits' : g'.Fits) (h : m.tokenFor g' = m.tokenFor g) :
    g' = g := by
  have hclaims := verify_tokenFor (m := m) hfits'
  rw [h, verify_tokenFor hfits, Option.some.injEq] at hclaims
  exact eq_of_id hids hown hg' (congrArg Claims.id hclaims).symm

theorem list_tokenFor (hids : m.Distinct s.nextId) (hown : Owns s g) (hfits : g.Fits)
    (hall : ∀ g' ∈ s.grants, g'.Fits) (username : String) :
    (∃ g' ∈ (s.list username now).1, m.tokenFor g' = m.tokenFor g) ↔
      Stands s g now ∧ g.username = username := by
  constructor
  · rintro ⟨g', hg', htoken⟩
    have hin := (mem_list.mp hg').1.2
    obtain rfl := eq_of_tokenFor hids hown hfits hin (hall g' hin) htoken
    exact mem_list.mp hg'
  · intro h
    exact ⟨g, mem_list.mpr h, rfl⟩

theorem refuses_iff (hids : m.Distinct s.nextId) (hown : Owns s g) (hfits : g.Fits)
    (hall : ∀ g' ∈ s.grants, g'.Fits) :
    m.Refuses s (m.tokenFor g) now viewer ↔ ¬ Stands s g now := by
  constructor
  · intro h hstands
    exact h.list g.username g (mem_list.mpr ⟨hstands, rfl⟩) rfl
  · intro hno
    refine ⟨?_, ?_, ?_, fun username g' hg' htoken => ?_⟩
    · exact ((resolve_tokenFor now hids hown hfits).resolve_left fun h => hno h.2).1
    · exact ((lease_tokenFor now viewer hids hown hfits).resolve_left fun h => hno h.2).1
    · exact ((remainingSecs_tokenFor now hids hown hfits).resolve_left fun h => hno h.2).1
    · exact hno ((list_tokenFor hids hown hfits hall username).mp ⟨g', hg', htoken⟩).1

/-- A token whose MAC is right is that of a grant whose payload has been signed. -/
theorem exists_grant {s : Issued} (hinv : IssuedInv m s) {token : Text}
    (hmac : m.Unforged s.signed token) {c : Claims} (hverify : m.verify token = some c) :
    ∃ g, m.tokenFor g = token ∧ c = m.claimsOf g ∧ g.Fits ∧ Owns s.store g := by
  obtain ⟨bytes, hopened, hparse⟩ := Option.bind_eq_some_iff.mp hverify
  obtain ⟨g, rfl, hfits, hown⟩ := hinv.signed bytes (hmac bytes hopened)
  rw [parsePayload_payloadFor hfits, Option.some.injEq] at hparse
  exact ⟨g, sealed_of_opened hopened, hparse.symm, hfits, hown⟩

/-- A text that is no token of the store is refused. -/
theorem refuses_of_verify_eq_none {token : Text} (hall : ∀ g ∈ s.grants, g.Fits)
    (h : m.verify token = none) : m.Refuses s token now viewer := by
  refine ⟨?_, ?_, ?_, fun username g hg htoken => ?_⟩
  · rw [resolve, h]
  · rw [lease, h]
  · rw [remainingSecs, h]
  · rw [← htoken, verify_tokenFor (hall g (mem_list.mp hg).1.2)] at h
    cases h

/-- `revoke` answers `true` only after it has taken the grant out of the map. -/
theorem not_mem_of_revoke {username : String} {id : ℕ} (h : (s.revoke username id).1 = true)
    (hid : g.id = id) : g ∉ (s.revoke username id).2.grants := by
  rw [ShareStore.revoke] at h ⊢
  split at h
  · next howner =>
    rw [if_pos howner]
    intro hg
    simpa [hid] using List.of_mem_filter hg
  · cases h

/-- The token of a grant that has left the map is refused ever after. -/
theorem refuses_of_gone {earlier middle s : Issued} {as bs : List StoreAct}
    (h : (issueSystem m).Reachable earlier) (has : (issueSystem m).run earlier as = some middle)
    (hbs : (issueSystem m).run middle bs = some s) (hids : m.Distinct s.store.nextId)
    (hg : g ∈ earlier.store.grants) (hgone : g ∉ middle.store.grants) :
    m.Refuses s.store (m.tokenFor g) now viewer := by
  have hfits := (issuedInv_of_reachable h).fits g hg
  have hall := (issuedInv_of_reachable ((h.run has).run hbs)).fits
  have hmiddle : Owns middle.store g :=
    System.run_invariant (I := fun s => Owns s.store g) (fun _ _ _ ho hs => ho.step hs)
      (owns_of_mem hg) has
  have hs : Owns s.store g ∧ g ∉ s.store.grants :=
    System.run_invariant (I := fun s => Owns s.store g ∧ g ∉ s.store.grants)
      (fun _ _ _ ho hs => ⟨ho.1.step hs, ho.1.not_mem_step ho.2 hs⟩) ⟨hmiddle, hgone⟩ hbs
  exact (refuses_iff hids hs.1 hfits hall).mpr fun hstands => hs.2 hstands.2

/-- **The views of a share agree**: for a token that is no forgery, at any one clock value,
`resolve` gives its user and slot, `lease` does not call it invalid, `remaining_secs` counts down
to its expiry and `list` has a grant with this token, or none of them admits it; they do while the
clock is before the expiry and the grant is in the map. A grant that is revoked leaves the map, and
the token of a grant that has left it is refused from then on. -/
theorem shareViews_agree {s : Issued} (h : (issueSystem m).Reachable s)
    (hids : m.Distinct s.store.nextId) {token : Text} (hmac : m.Unforged s.signed token)
    (now viewer : ℕ) :
    (∀ c, m.verify token = some c →
      List.TFAE
        [(m.resolve s.store token now).1 = some (c.username, c.index),
          m.lease s.store token now viewer ≠ .error .invalid,
          m.remainingSecs s.store token now = some (c.expiresAt - now),
          ∃ g ∈ (s.store.list c.username now).1, m.tokenFor g = token,
          now < c.expiresAt ∧ ∃ g ∈ s.store.grants, m.tokenFor g = token,
          ¬ m.Refuses s.store token now viewer]) ∧
    (m.verify token = none → m.Refuses s.store token now viewer) ∧
    (∀ username id g, (s.store.revoke username id).1 = true → g.id = id →
      g ∉ (s.store.revoke username id).2.grants) ∧
    ∀ earlier middle as bs g, (issueSystem m).Reachable earlier →
      (issueSystem m).run earlier as = some middle → (issueSystem m).run middle bs = some s →
      g ∈ earlier.store.grants → g ∉ middle.store.grants → m.tokenFor g = token →
      m.Refuses s.store token now viewer := by
  have hinv := issuedInv_of_reachable h
  refine ⟨fun c hverify => ?_, refuses_of_verify_eq_none hinv.fits,
    fun _ _ _ => not_mem_of_revoke, fun earlier middle as bs g hr has hbs hg hgone htoken => ?_⟩
  · obtain ⟨g, rfl, rfl, hfits, hown⟩ := exists_grant hinv hmac hverify
    refine List.tfae_of_forall (Stands s.store g now) _ ?_
    simp only [List.forall_mem_cons]
    refine ⟨?_, ?_, ?_, ?_, ?_, ?_, List.forall_mem_nil _⟩
    · obtain ⟨heq, hs⟩ | ⟨heq, hs⟩ := resolve_tokenFor now hids hown hfits
      · exact iff_of_true heq hs
      · exact iff_of_false (by simp [heq]) hs
    · obtain ⟨heq, hs⟩ | ⟨heq, hs⟩ := lease_tokenFor now viewer hids hown hfits
      · exact iff_of_true heq hs
      · exact iff_of_false (not_not_intro heq) hs
    · obtain ⟨heq, hs⟩ | ⟨heq, hs⟩ := remainingSecs_tokenFor now hids hown hfits
      · exact iff_of_true heq hs
      · exact iff_of_false (by simp [heq]) hs
    · rw [list_tokenFor hids hown hfits hinv.fits]
      exact and_iff_left rfl
    · refine and_congr_right fun _ => ⟨?_, fun hg => ⟨g, hg, rfl⟩⟩
      rintro ⟨g', hg', htoken⟩
      rwa [← eq_of_tokenFor hids hown hfits hg' (hinv.fits g' hg') htoken]
    · rw [refuses_iff hids hown hfits hinv.fits, not_not]
  · subst htoken
    exact refuses_of_gone hr has hbs hids hg hgone

end

end Mint

/-- The store after alice has shared her slot 3 for a minute. -/
def issuedToAlice : Issued where
  store := (ShareStore.empty.create 1000 1000 "alice" 3 60).2
  signed := [mintOfSevens.payloadFor grantOfAlice]

theorem shareViews_agree_alice :
    (mintOfSevens.resolve issuedToAlice.store (mintOfSevens.tokenFor grantOfAlice) 1059).1 =
      some ("alice", 3) ∧
    mintOfSevens.remainingSecs issuedToAlice.store (mintOfSevens.tokenFor grantOfAlice) 1059 =
      some 1 := by
  have hreach : (issueSystem mintOfSevens).Reachable issuedToAlice :=
    .step (a := .create 1000 1000 "alice" 3 60) (.init rfl) trivial rfl
  have hids : mintOfSevens.Distinct issuedToAlice.store.nextId := by
    intro i hi j hj _
    have hi : i < 1 := hi
    have hj : j < 1 := hj
    omega
  have hmac : mintOfSevens.Unforged issuedToAlice.signed (mintOfSevens.tokenFor grantOfAlice) := by
    intro bytes hbytes
    rw [Mint.tokenFor_eq_sealed, Mint.opened_sealed, Option.some.injEq] at hbytes
    exact List.mem_singleton.mpr hbytes.symm
  have hverify : mintOfSevens.verify (mintOfSevens.tokenFor grantOfAlice) =
      some (mintOfSevens.claimsOf grantOfAlice) :=
    Mint.verify_tokenFor ⟨by decide, by decide⟩
  have hagree := (Mint.shareViews_agree hreach hids hmac 1059 0).1 _ hverify
  have hstands : 1059 < (mintOfSevens.claimsOf grantOfAlice).expiresAt ∧
      ∃ g ∈ issuedToAlice.store.grants,
        mintOfSevens.tokenFor g = mintOfSevens.tokenFor grantOfAlice :=
    ⟨by decide, grantOfAlice, List.mem_singleton.mpr rfl, rfl⟩
  exact ⟨(hagree.out 0 4).mpr hstands, (hagree.out 2 4).mpr hstands⟩

end Webshell.Share
