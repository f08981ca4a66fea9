import Webshell.Auth.SecondFactor
import Webshell.Lib.History
import Webshell.Lib.Transition

/-!
# Trusted devices

The device store through any sequence of operations at any times. What the store holds is compared
with the history: which mints have returned a token, and what has happened since.

## Main definitions

- `DeviceOp`, `deviceSystem`: the operations, and their runs from a store that trusts nobody
- `Trust`: what a mint has promised
- `Withdraws`, `Prunes`: the two ways in which it ends before its window does

## Main results

- `authorize_iff_trusted`: a device is authorized exactly while a mint's promise stands
- `pruned_before_expiry`: a mint for somebody else ends a promise when the clock has run back
-/

namespace Webshell

open Transition History
open Text (Lowercase)

section
variable [Lowercase]

/-- The operations of the device store. A mint comes with the token that it has drawn. -/
inductive DeviceOp
  | mint (token : ℕ) (identity : Identity) (enrolledAt windowSecs maxPerIdentity now : ℕ)
  | authorize (token : ℕ) (identity : Identity) (enrolledAt now : ℕ)
  | list (identity : Identity) (enrolledAt now : ℕ)
  | idForToken (token : ℕ)
  | revoke (identity : Identity) (id : ℕ)
  | revokeAll (identity : Identity)
  | revokeToken (token : ℕ)
  | forgetIfOwned (token : ℕ) (identity : Identity)
  | sweep (now : ℕ)

/-- What an operation leaves of the map, when its write succeeds. -/
def DeviceStore.exec (s : DeviceStore) : DeviceOp → DeviceStore
  | .mint token identity enrolledAt windowSecs maxPerIdentity now =>
    (s.mint token identity enrolledAt windowSecs maxPerIdentity now true).2
  | .authorize token identity enrolledAt now => (s.authorize token identity enrolledAt now).2
  | .list _ _ _ | .idForToken _ => s
  | .revoke identity id => s.revoke identity id
  | .revokeAll identity => s.revokeAll identity
  | .revokeToken token => s.revokeToken token
  | .forgetIfOwned token identity => s.forgetIfOwned token identity
  | .sweep now => s.sweep now

/-- A store, and the tokens that no mint has drawn yet: those from `nextToken` on. -/
structure Devices where
  store : DeviceStore
  nextToken : ℕ

def DeviceOp.drawn : DeviceOp → Option ℕ
  | .mint token _ _ _ _ _ => some token
  | _ => none

def deviceSystem : System Devices DeviceOp where
  init s := s.store = ∅
  step s op :=
    match op.drawn with
    | none => some ⟨s.store.exec op, s.nextToken⟩
    | some token => if s.nextToken ≤ token then some ⟨s.store.exec op, token + 2⟩ else none

/-- What a mint has promised: until `windowSecs` after `mintedAt` the token stands for the second
factor of the identity, as it was enrolled at `enrolledAt`. -/
structure Trust where
  token : ℕ
  identity : Identity
  enrolledAt : ℕ
  mintedAt : ℕ
  windowSecs : ℕ

/-- The last moment of a `u64` clock never comes into a window. -/
def Trust.expiresAt (t : Trust) : ℕ := min (t.mintedAt + t.windowSecs) (2 ^ 64 - 1)

/-- The mint that returns the token. -/
def Trust.Mints (t : Trust) (e : Devices × DeviceOp) : Prop :=
  ∃ maxPerIdentity,
    e.2 = .mint t.token t.identity t.enrolledAt t.windowSecs maxPerIdentity t.mintedAt

/-- The promise is revoked, forgotten, swept, or evicted by a mint of the same identity. -/
def Trust.Withdraws (t : Trust) (e : Devices × DeviceOp) : Prop :=
  match e.2 with
  | .mint _ identity _ _ maxPerIdentity now =>
    identity = t.identity ∧ t.token ∈ e.1.store.evicted identity maxPerIdentity now
  | .revoke identity id => identity = t.identity ∧ id = t.token + 1
  | .revokeAll identity => identity = t.identity
  | .revokeToken token => token = t.token
  | .forgetIfOwned token identity => token = t.token ∧ identity = t.identity
  | .sweep now => t.expiresAt ≤ now
  | _ => False

/-- A mint, for whomever, at a time past the window. -/
def Trust.Prunes (t : Trust) (e : Devices × DeviceOp) : Prop :=
  match e.2 with
  | .mint _ _ _ _ _ now => t.expiresAt ≤ now
  | _ => False

/-- The mint has happened, and nothing has ended its promise since. -/
def Trust.Stands (t : Trust) (past : List (Devices × DeviceOp)) : Prop :=
  Since t.Mints (fun e => t.Withdraws e ∨ t.Prunes e) past

/-- The operation is `revoke`, `revoke_all` or `forget_if_owned` by the identity. -/
def DeviceOp.RevokesFor (identity : Identity) : DeviceOp → Prop
  | .revoke identity' _ | .revokeAll identity' | .forgetIfOwned _ identity' => identity' = identity
  | _ => False

/-! ## What becomes of a device -/

/-- The record is the one of the promise. -/
structure Device.Of (t : Trust) (d : Device) : Prop where
  id : d.id = t.token + 1
  identity : d.identity = t.identity
  enrolledAt : d.enrolledAt = t.enrolledAt
  expiresAt : d.expiresAt = t.expiresAt

variable {s : DeviceStore} {t : Trust} {d : Device} {token k now : ℕ} {identity : Identity}

theorem Device.Of.expired (h : d.Of t) : d.expired now = true ↔ t.expiresAt ≤ now := by
  rw [Device.expired, decide_eq_true_iff, h.expiresAt]

namespace DeviceStore

/-- Using a device changes when it was last used. -/
theorem lookup_authorize (s : DeviceStore) (token : ℕ) (identity : Identity)
    (enrolledAt now k : ℕ) :
    (s.authorize token identity enrolledAt now).2.lookup k = s.lookup k ∨
      ∃ d, s.lookup k = some d ∧
        (s.authorize token identity enrolledAt now).2.lookup k =
          some { d with lastUsedAt := now } := by
  rw [authorize]
  split
  · exact .inl rfl
  next device hdevice =>
    split
    · exact .inl rfl
    · by_cases hk : k = token
      · subst hk
        exact .inr ⟨device, hdevice, AList.lookup_insert _⟩
      · exact .inl (AList.lookup_insert_ne hk)

/-- A device is authorized for its identity, as that was enrolled, until it expires. -/
theorem authorize_isSome_iff {enrolledAt : ℕ} :
    (s.authorize token identity enrolledAt now).1.isSome ↔
      ∃ d, s.lookup token = some d ∧ d.identity = identity ∧ d.enrolledAt = enrolledAt ∧
        d.expired now = false := by
  constructor
  · intro h
    obtain ⟨id, hid⟩ := Option.isSome_iff_exists.mp h
    obtain ⟨d, hd, hidentity, hlive, henrolled⟩ := authorize_eq_some hid
    exact ⟨d, hd, hidentity, henrolled, hlive⟩
  · rintro ⟨d, hd, rfl, rfl, hlive⟩
    simp [authorize, hd, hlive]

end DeviceStore

variable {r r' : Devices} {op : DeviceOp}

/-- Handles tell the devices of the store apart. -/
def DeviceStore.Handles (s : DeviceStore) : Prop := ∀ k d, s.lookup k = some d → d.id = k + 1

theorem filter_eq_ite {p : Device → Bool} {P : Prop} [Decidable P] (h : p d = true ↔ ¬ P) :
    (some d).filter p = if P then none else some d := by
  by_cases hP : P
  · rw [if_pos hP, Option.filter_some_neg (Bool.eq_false_iff.mpr fun hp => h.mp hp hP)]
  · rw [if_neg hP, Option.filter_some_pos (h.mpr hP)]

open Classical in
/-- **Step lemma**: the record of a promise goes when the operation ends the promise. -/
theorem Device.Of.lookup_exec (hof : d.Of t) (hd : r.store.lookup t.token = some d)
    (hids : r.store.Handles) (hdrawn : op.drawn ≠ some t.token) :
    ∃ d', d'.Of t ∧ (r.store.exec op).lookup t.token =
      if t.Withdraws (r, op) ∨ t.Prunes (r, op) then none else some d' := by
  have hnone : ¬ (False ∨ False) := by simp
  cases op with
  | mint token identity enrolledAt windowSecs maxPerIdentity now =>
    refine ⟨d, hof, ?_⟩
    have hne : t.token ≠ token := fun heq => hdrawn (congrArg some heq.symm)
    show (r.store.mint token identity enrolledAt windowSecs maxPerIdentity now true).2.lookup _ = _
    rw [DeviceStore.lookup_mint, if_neg hne, hd]
    by_cases hevicted : t.token ∈ r.store.evicted identity maxPerIdentity now
    · obtain ⟨d', hd', hidentity⟩ := DeviceStore.identity_of_mem_evicted hevicted
      rw [hd, Option.some.injEq] at hd'
      subst hd'
      rw [if_pos hevicted, if_pos (.inl ⟨hidentity.symm.trans hof.identity, hevicted⟩)]
    · rw [if_neg hevicted]
      apply filter_eq_ite
      have hwithdraws : ¬ t.Withdraws (r, .mint token identity enrolledAt windowSecs
          maxPerIdentity now) := fun h => hevicted h.2
      have hprunes : t.Prunes (r, .mint token identity enrolledAt windowSecs maxPerIdentity now) ↔
          d.expired now = true := hof.expired.symm
      rw [hprunes]
      simp [hwithdraws]
  | authorize token identity enrolledAt now =>
    obtain hsame | ⟨d', hd', hused⟩ :=
      r.store.lookup_authorize token identity enrolledAt now t.token
    · exact ⟨d, hof, (hsame.trans hd).trans (if_neg hnone).symm⟩
    · rw [hd, Option.some.injEq] at hd'
      subst hd'
      exact ⟨{ d with lastUsedAt := now }, ⟨hof.id, hof.identity, hof.enrolledAt, hof.expiresAt⟩,
        hused.trans (if_neg hnone).symm⟩
  | list identity enrolledAt now => exact ⟨d, hof, hd.trans (if_neg hnone).symm⟩
  | idForToken token => exact ⟨d, hof, hd.trans (if_neg hnone).symm⟩
  | revoke identity id =>
    refine ⟨d, hof, ?_⟩
    show (r.store.revoke identity id).lookup _ = _
    rw [DeviceStore.lookup_revoke hids, hd]
    apply filter_eq_ite
    simp only [Trust.Withdraws, Trust.Prunes, hof.id, hof.identity]
    grind
  | revokeAll identity =>
    refine ⟨d, hof, ?_⟩
    show (r.store.revokeAll identity).lookup _ = _
    rw [DeviceStore.lookup_revokeAll, hd]
    apply filter_eq_ite
    simp only [Trust.Withdraws, Trust.Prunes, hof.identity]
    grind
  | revokeToken token =>
    refine ⟨d, hof, ?_⟩
    show (r.store.revokeToken token).lookup _ = _
    rw [DeviceStore.lookup_revokeToken, hd]
    simp only [Trust.Withdraws, Trust.Prunes, or_false, eq_comm]
  | forgetIfOwned token identity =>
    refine ⟨d, hof, ?_⟩
    show (r.store.forgetIfOwned token identity).lookup _ = _
    rw [DeviceStore.lookup_forgetIfOwned, hd]
    apply filter_eq_ite
    simp only [Trust.Withdraws, Trust.Prunes, hof.identity]
    grind
  | sweep now =>
    refine ⟨d, hof, ?_⟩
    show (r.store.live now).lookup _ = _
    rw [DeviceStore.lookup_live, hd]
    apply filter_eq_ite
    simp only [Trust.Withdraws, Trust.Prunes, or_false, ← hof.expired]
    simp

/-- Only a mint brings a device. -/
theorem lookup_exec_of_none (hnone : s.lookup k = none) (hids : s.Handles)
    (hdrawn : op.drawn ≠ some k) : (s.exec op).lookup k = none := by
  cases op with
  | mint token identity enrolledAt windowSecs maxPerIdentity now =>
    have hne : k ≠ token := fun heq => hdrawn (congrArg some heq.symm)
    show (s.mint token identity enrolledAt windowSecs maxPerIdentity now true).2.lookup _ = _
    rw [DeviceStore.lookup_mint, if_neg hne, hnone, Option.filter_none, ite_self]
  | authorize token identity enrolledAt now =>
    obtain hsame | ⟨d, hd, _⟩ := s.lookup_authorize token identity enrolledAt now k
    · exact hsame.trans hnone
    · cases hnone.symm.trans hd
  | list | idForToken => exact hnone
  | revoke identity id =>
    show (s.revoke identity id).lookup _ = _
    rw [DeviceStore.lookup_revoke hids, hnone, Option.filter_none]
  | revokeAll identity =>
    show (s.revokeAll identity).lookup _ = _
    rw [DeviceStore.lookup_revokeAll, hnone, Option.filter_none]
  | revokeToken token =>
    show (s.revokeToken token).lookup _ = _
    rw [DeviceStore.lookup_revokeToken, hnone, ite_self]
  | forgetIfOwned token identity =>
    show (s.forgetIfOwned token identity).lookup _ = _
    rw [DeviceStore.lookup_forgetIfOwned, hnone, Option.filter_none]
  | sweep now =>
    show (s.live now).lookup _ = _
    rw [DeviceStore.lookup_live, hnone, Option.filter_none]

/-- The mint that is the promise leaves its record. -/
theorem Trust.Mints.lookup_exec (h : t.Mints (r, op)) :
    op.drawn = some t.token ∧ ∃ d, (r.store.exec op).lookup t.token = some d ∧ d.Of t := by
  obtain ⟨maxPerIdentity, rfl⟩ := h
  have hlookup := r.store.lookup_mint t.token t.identity t.enrolledAt t.windowSecs maxPerIdentity
    t.mintedAt t.token
  rw [if_pos rfl] at hlookup
  exact ⟨rfl, _, hlookup, ⟨rfl, rfl, rfl, rfl⟩⟩

/-- Who draws a token mints a promise. -/
theorem mints_of_drawn (h : op.drawn = some k) : ∃ t : Trust, t.token = k ∧ t.Mints (r, op) := by
  cases op with
  | mint token identity enrolledAt windowSecs maxPerIdentity now =>
    exact ⟨⟨token, identity, enrolledAt, now, windowSecs⟩, Option.some.inj h, maxPerIdentity, rfl⟩
  | _ => cases h

/-! ## The store and the history -/

/-- What the store holds are the promises that stand. -/
structure DevicesInv (past : List (Devices × DeviceOp)) (s : Devices) : Prop where
  fresh : ∀ k d, s.store.lookup k = some d → k < s.nextToken
  held : ∀ t : Trust, t.Stands past → ∃ d, s.store.lookup t.token = some d ∧ d.Of t
  promised : ∀ k d, s.store.lookup k = some d → ∃ t : Trust, t.token = k ∧ d.Of t ∧ t.Stands past

theorem DevicesInv.handles {past : List (Devices × DeviceOp)} (h : DevicesInv past r) :
    r.store.Handles := by
  intro k d hd
  obtain ⟨t, rfl, hof, _⟩ := h.promised k d hd
  exact hof.id

theorem devices_step_eq_some (h : deviceSystem.step r op = some r') :
    r'.store = r.store.exec op ∧ r.nextToken ≤ r'.nextToken ∧
      ∀ token, op.drawn = some token → r.nextToken ≤ token ∧ token < r'.nextToken := by
  simp only [deviceSystem] at h
  split at h
  next hdrawn =>
    obtain rfl := Option.some.inj h
    exact ⟨rfl, le_rfl, fun token htoken => by rw [hdrawn] at htoken; cases htoken⟩
  next token hdrawn =>
    split at h
    next hfresh =>
      obtain rfl := Option.some.inj h
      refine ⟨rfl, by dsimp only; omega, fun token' htoken => ?_⟩
      rw [hdrawn, Option.some.injEq] at htoken
      subst htoken
      exact ⟨hfresh, by dsimp only; omega⟩
    · cases h

theorem DevicesInv.step {past : List (Devices × DeviceOp)} (h : DevicesInv past r)
    (hstep : deviceSystem.step r op = some r') : DevicesInv (past ++ [(r, op)]) r' := by
  obtain ⟨hstore, hle, hdrawn⟩ := devices_step_eq_some hstep
  -- a device that was there is under a token that no mint draws again
  have hold : ∀ k d, r.store.lookup k = some d → op.drawn ≠ some k := by
    intro k d hd hop
    have hlt := h.fresh k d hd
    have hge := (hdrawn k hop).1
    omega
  have hborn : ∀ k d, r'.store.lookup k = some d → op.drawn = some k ∨
      ∃ d₀, r.store.lookup k = some d₀ := by
    intro k d hd
    by_cases hop : op.drawn = some k
    · exact .inl hop
    · refine .inr (Option.ne_none_iff_exists'.mp fun hnone => ?_)
      rw [hstore, lookup_exec_of_none hnone h.handles hop] at hd
      cases hd
  refine ⟨fun k d hd => ?_, fun t ht => ?_, fun k d hd => ?_⟩
  · obtain hop | ⟨d₀, hd₀⟩ := hborn k d hd
    · exact (hdrawn k hop).2
    · exact (h.fresh k d₀ hd₀).trans_le hle
  · rw [hstore]
    obtain hmints | ⟨hstands, hends⟩ := since_snoc.mp ht
    · exact hmints.lookup_exec.2
    · obtain ⟨d, hd, hof⟩ := h.held t hstands
      obtain ⟨d', hof', hlookup⟩ := hof.lookup_exec hd h.handles (hold t.token d hd)
      exact ⟨d', hlookup.trans (if_neg hends), hof'⟩
  · obtain hop | ⟨d₀, hd₀⟩ := hborn k d hd
    · obtain ⟨t, rfl, hmints⟩ := mints_of_drawn (r := r) hop
      obtain ⟨_, d', hd', hof⟩ := hmints.lookup_exec
      rw [hstore, hd', Option.some.injEq] at hd
      subst hd
      exact ⟨t, rfl, hof, since_snoc.mpr (.inl hmints)⟩
    · obtain ⟨t, rfl, hof, hstands⟩ := h.promised k d₀ hd₀
      obtain ⟨d', hof', hlookup⟩ := hof.lookup_exec hd₀ h.handles (hold t.token d₀ hd₀)
      rw [hstore, hlookup] at hd
      split at hd
      · cases hd
      next hends =>
        rw [Option.some.injEq] at hd
        subst hd
        exact ⟨t, rfl, hof', since_snoc.mpr (.inr ⟨hstands, hends⟩)⟩

theorem devicesInv {past : List (Devices × DeviceOp)} (h : deviceSystem.Trace past r) :
    DevicesInv past r := by
  refine h.invariant (fun s hinit => ?_) fun past s op s' _ hs hstep => hs.step hstep
  have hnone : ∀ k, s.store.lookup k = none := fun k => by
    rw [show s.store = ∅ from hinit, AList.lookup_empty]
  refine ⟨fun k d hd => ?_, fun t ht => absurd ht not_since_nil, fun k d hd => ?_⟩
  · cases (hnone k).symm.trans hd
  · cases (hnone k).symm.trans hd

theorem mem_list {enrolledAt : ℕ} :
    d ∈ s.list identity enrolledAt now ↔
      ∃ token, s.lookup token = some d ∧
        (s.authorize token identity enrolledAt now).1 = some d.id := by
  rw [DeviceStore.list, List.mem_insertionSort, List.mem_filter, List.mem_map]
  constructor
  · rintro ⟨⟨entry, hentry, rfl⟩, hmatch⟩
    simp only [Bool.and_eq_true, decide_eq_true_iff, Bool.not_eq_true'] at hmatch
    obtain ⟨⟨rfl, hlive⟩, rfl⟩ := hmatch
    have hlookup : s.lookup entry.1 = some entry.2 := AList.mem_lookup_iff.mpr hentry
    refine ⟨entry.1, hlookup, ?_⟩
    simp [DeviceStore.authorize, hlookup, hlive]
  · rintro ⟨token, hlookup, hauthorized⟩
    obtain ⟨d', hd', hidentity, hlive, henrolled⟩ := DeviceStore.authorize_eq_some hauthorized
    rw [hlookup, Option.some.injEq] at hd'
    subst hd'
    refine ⟨⟨⟨token, d⟩, AList.mem_lookup_iff.mp hlookup, rfl⟩, ?_⟩
    simp [hidentity, hlive, henrolled]

theorem expiresAt_authorize (enrolledAt : ℕ) :
    ((s.authorize token identity enrolledAt now).2.lookup k).map Device.expiresAt =
      (s.lookup k).map Device.expiresAt := by
  obtain hsame | ⟨d, hd, hused⟩ := s.lookup_authorize token identity enrolledAt now k
  · rw [hsame]
  · rw [hused, hd]
    rfl

/-- A revocation by one identity is not about the devices of another. -/
theorem lookup_exec_of_revokesFor (hids : s.Handles) (hop : op.RevokesFor identity)
    (hd : d.identity ≠ identity) :
    (s.exec op).lookup k = some d ↔ s.lookup k = some d := by
  have hfilter : ∀ p : Device → Bool, p d = true →
      ((s.lookup k).filter p = some d ↔ s.lookup k = some d) := by
    intro p hp
    rw [Option.filter_eq_some_iff, and_iff_left hp]
  cases op with
  | revoke identity' id =>
    obtain rfl : identity' = identity := hop
    show (s.revoke identity' id).lookup _ = _ ↔ _
    rw [DeviceStore.lookup_revoke hids]
    apply hfilter
    simp [hd]
  | revokeAll identity' =>
    obtain rfl : identity' = identity := hop
    show (s.revokeAll identity').lookup _ = _ ↔ _
    rw [DeviceStore.lookup_revokeAll]
    apply hfilter
    simp [hd]
  | forgetIfOwned token identity' =>
    obtain rfl : identity' = identity := hop
    show (s.forgetIfOwned token identity').lookup _ = _ ↔ _
    rw [DeviceStore.lookup_forgetIfOwned]
    apply hfilter
    simp [hd]
  | _ => cases hop

/-- A token is authorized for an identity, as it was enrolled, exactly while a promise of it stands
and its window lasts. Its use does not lengthen the window, the list names the devices that would be
authorized, and a revocation by one identity leaves the devices of the others as they are. -/
theorem authorize_iff_trusted {past : List (Devices × DeviceOp)}
    (h : deviceSystem.Trace past r) :
    (∀ token identity enrolledAt now,
      (r.store.authorize token identity enrolledAt now).1.isSome ↔
        ∃ t : Trust, t.token = token ∧ t.identity = identity ∧ t.enrolledAt = enrolledAt ∧
          t.Stands past ∧ now < t.expiresAt) ∧
      (∀ token identity enrolledAt now k,
        ((r.store.authorize token identity enrolledAt now).2.lookup k).map Device.expiresAt =
          (r.store.lookup k).map Device.expiresAt) ∧
      (∀ identity enrolledAt now d, d ∈ r.store.list identity enrolledAt now ↔
        ∃ token, r.store.lookup token = some d ∧
          (r.store.authorize token identity enrolledAt now).1 = some d.id) ∧
      ∀ op identity, op.RevokesFor identity → ∀ k d, d.identity ≠ identity →
        ((r.store.exec op).lookup k = some d ↔ r.store.lookup k = some d) := by
  have hinv := devicesInv h
  refine ⟨fun token identity enrolledAt now => ?_, fun _ _ enrolledAt _ _ =>
    expiresAt_authorize enrolledAt, fun _ _ _ _ => mem_list, fun _ _ hop _ _ hd =>
    lookup_exec_of_revokesFor hinv.handles hop hd⟩
  rw [DeviceStore.authorize_isSome_iff]
  constructor
  · rintro ⟨d, hd, rfl, rfl, hlive⟩
    obtain ⟨t, rfl, hof, hstands⟩ := hinv.promised token d hd
    refine ⟨t, rfl, hof.identity.symm, hof.enrolledAt.symm, hstands, ?_⟩
    rw [← not_le, ← hof.expired, hlive]
    exact Bool.false_ne_true
  · rintro ⟨t, rfl, rfl, rfl, hstands, hlive⟩
    obtain ⟨d, hd, hof⟩ := hinv.held t hstands
    refine ⟨d, hd, hof.identity, hof.enrolledAt, ?_⟩
    rw [← Bool.not_eq_true, hof.expired, not_le]
    exact hlive

end

/-! ## A clock that runs back -/

open Text.Ascii

namespace DeviceSample

def alice : Identity := .new .google "alice@gmail.com".toList

def bob : Identity := .new .google "bob@gmail.com".toList

def mintAlice : DeviceOp := .mint 0 alice 500 100 10 1000

def mintBob : DeviceOp := .mint 2 bob 500 100 10 2000

/-- Bob opts in after the window of Alice's device. -/
def past : List (Devices × DeviceOp) :=
  [(⟨∅, 0⟩, mintAlice), (⟨DeviceStore.exec ∅ mintAlice, 2⟩, mintBob)]

def store : DeviceStore := (DeviceStore.exec ∅ mintAlice).exec mintBob

theorem trace : deviceSystem.Trace past ⟨store, 4⟩ :=
  .step (.step (.init rfl) rfl) rfl

end DeviceSample

open DeviceSample

theorem authorize_iff_trusted_sample :
    (store.authorize 2 bob 500 2050).1.isSome ↔
      ∃ t : Trust, t.token = 2 ∧ t.identity = bob ∧ t.enrolledAt = 500 ∧
        t.Stands DeviceSample.past ∧ 2050 < t.expiresAt :=
  (authorize_iff_trusted trace).1 2 bob 500 2050

/-- When the clock has been set back, into the window of Alice's device, that device is gone. -/
theorem pruned_before_expiry :
    ¬ ∀ (_ : Lowercase) (past : List (Devices × DeviceOp)) (r : Devices),
      deviceSystem.Trace past r → ∀ token identity enrolledAt now,
        (r.store.authorize token identity enrolledAt now).1.isSome ↔
          ∃ t : Trust, t.token = token ∧ t.identity = identity ∧ t.enrolledAt = enrolledAt ∧
            Since t.Mints t.Withdraws past ∧ now < t.mintedAt + t.windowSecs := by
  intro h
  have hauthorized := (h asciiLowercase _ _ trace 0 alice 500 1050).mpr
    ⟨⟨0, alice, 500, 1000, 100⟩, rfl, rfl, rfl, ?_, by decide⟩
  · exact absurd hauthorized (by decide)
  · refine ⟨[], _, [_], rfl, ⟨10, rfl⟩, fun e he hends => ?_⟩
    obtain rfl := List.mem_singleton.mp he
    exact absurd hends.1 (by decide)

end Webshell
