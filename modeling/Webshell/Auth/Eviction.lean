import Webshell.Auth.Devices

/-!
# Minting at the cap

A mint prunes what has expired, makes room for the new device and writes the file. What it removes
is compared with the cap and the last uses, and what a mint leaves that could not be written with
the store before it.

## Main definitions

- `DeviceStore.devicesOf`: the live devices of an identity
- `DeviceStore.Untraced`: nobody can tell a store from another one

## Main results

- `DeviceStore.mint_evicts`: which devices a mint removes
- `DeviceStore.failed_mint_untraced_iff`: when a mint that fails leaves no trace
- `failed_mint_drops_device`: a failed mint that drops a live device
-/

/-! ## The first of a sorted list -/

namespace List

variable {α κ : Type*} {xs : List α}

/-- What stands before a cut of a sorted list goes before what stands after it. -/
theorem rel_of_mem_take_of_mem_drop {r : α → α → Prop} (h : xs.Pairwise r) {n : ℕ} {a b : α}
    (ha : a ∈ xs.take n) (hb : b ∈ xs.drop n) : r a b := by
  rw [← take_append_drop n xs, pairwise_append] at h
  exact h.2.2 a ha b hb

/-- The elements with the keys of the first ones are the first ones. -/
theorem filter_mem_map_take [DecidableEq κ] {key : α → κ} (h : (xs.map key).Nodup) (n : ℕ) :
    (xs.filter fun x => key x ∈ (xs.take n).map key) = xs.take n := by
  rw [← take_append_drop n xs, map_append, nodup_append] at h
  conv_lhs => arg 2; rw [← take_append_drop n xs]
  rw [filter_append]
  have hfirst : ((xs.take n).filter fun x => key x ∈ (xs.take n).map key) = xs.take n := by
    apply filter_eq_self.mpr
    intro x hx
    exact decide_eq_true (mem_map_of_mem hx)
  have hrest : ((xs.drop n).filter fun x => key x ∈ (xs.take n).map key) = [] := by
    apply filter_eq_nil_iff.mpr
    intro x hx hmem
    exact h.2.2 _ (of_decide_eq_true hmem) _ (mem_map_of_mem hx) rfl
  rw [hfirst, hrest, append_nil]

end List

namespace AList

variable {κ ν : Type*} [DecidableEq κ]

theorem entries_erase (t : Table κ ν) (k : κ) :
    (t.erase k).entries = t.entries.filter fun entry => entry.1 ≠ k := by
  obtain ⟨entries, hnodup⟩ := t
  show entries.kerase k = _
  induction entries with
  | nil => rfl
  | cons entry entries ih =>
    obtain ⟨hnot, hrest⟩ := List.nodupKeys_cons.mp hnodup
    by_cases hk : k = entry.1
    · subst hk
      rw [List.kerase_cons_eq rfl, List.filter_cons_of_neg (by simp)]
      symm
      apply List.filter_eq_self.mpr
      intro other hother
      have hne : other.1 ≠ entry.1 := fun heq => hnot (heq ▸ List.mem_keys_of_mem hother)
      simp [hne]
    · rw [List.kerase_cons_ne hk, List.filter_cons_of_pos (by simpa using Ne.symm hk), ih hrest]

theorem entries_foldl_erase {β : Type*} (key : β → κ) (xs : List β) (t : Table κ ν) :
    (xs.foldl (fun t x => t.erase (key x)) t).entries =
      t.entries.filter fun entry => entry.1 ∉ xs.map key := by
  induction xs generalizing t with
  | nil => simp
  | cons x xs ih =>
    rw [List.foldl_cons, ih, entries_erase, List.filter_filter]
    apply List.filter_congr
    intro entry _
    by_cases hk : entry.1 = key x <;> simp [hk]

end AList

namespace Webshell.DeviceStore

variable [Text.Lowercase]

/-! ## What a mint removes -/

/-- The live devices of an identity, with their tokens. -/
def devicesOf (s : DeviceStore) (identity : Identity) (now : ℕ) : List (Σ _ : ℕ, Device) :=
  (s.live now).entries.filter fun entry => entry.2.identity = identity

variable {s : DeviceStore} {identity : Identity} {token k now maxPerIdentity : ℕ} {d : Device}

theorem mem_devicesOf {entry : Σ _ : ℕ, Device} :
    entry ∈ s.devicesOf identity now ↔
      s.lookup entry.1 = some entry.2 ∧ entry.2.expired now = false ∧
        entry.2.identity = identity := by
  rw [devicesOf, List.mem_filter, decide_eq_true_iff, ← and_assoc]
  refine and_congr_left' ?_
  rw [← AList.mem_lookup_iff, Option.mem_def, lookup_live, Option.filter_eq_some_iff,
    Bool.not_eq_true']

theorem nodup_keys_devicesOf (s : DeviceStore) (identity : Identity) (now : ℕ) :
    ((s.devicesOf identity now).map Sigma.fst).Nodup :=
  (s.live now).keys_nodup.sublist (List.filter_sublist.map Sigma.fst)

/-- The live devices of the identity, the least recently used first. -/
def byUse (s : DeviceStore) (identity : Identity) (now : ℕ) : List (Σ _ : ℕ, Device) :=
  (s.devicesOf identity now).insertionSort fun a b => a.2.lastUsedAt ≤ b.2.lastUsedAt

/-- How many devices have to go for a new one. -/
def excess (s : DeviceStore) (identity : Identity) (maxPerIdentity now : ℕ) : ℕ :=
  (s.devicesOf identity now).length + 1 - max maxPerIdentity 1

theorem evicted_eq (s : DeviceStore) (identity : Identity) (maxPerIdentity now : ℕ) :
    s.evicted identity maxPerIdentity now =
      ((s.byUse identity now).take (s.excess identity maxPerIdentity now)).map Sigma.fst := rfl

theorem excess_le : s.excess identity maxPerIdentity now ≤ (s.devicesOf identity now).length := by
  rw [excess]
  omega

theorem perm_byUse : (s.byUse identity now).Perm (s.devicesOf identity now) :=
  List.perm_insertionSort ..

theorem nodup_keys_byUse : ((s.byUse identity now).map Sigma.fst).Nodup :=
  (perm_byUse.map Sigma.fst).nodup_iff.mpr (s.nodup_keys_devicesOf identity now)

/-- As many devices are dropped as have to go. -/
theorem length_filter_evicted :
    ((s.devicesOf identity now).filter fun entry =>
      entry.1 ∈ s.evicted identity maxPerIdentity now).length =
        s.excess identity maxPerIdentity now := by
  rw [← (perm_byUse.filter _).length_eq, evicted_eq, List.filter_mem_map_take nodup_keys_byUse,
    List.length_take, perm_byUse.length_eq, min_eq_left excess_le]

/-- Those that are dropped were last used before those that stay. -/
theorem lastUsedAt_le_of_evicted {d' : Device} {k' : ℕ}
    (hd : ⟨k, d⟩ ∈ s.devicesOf identity now) (hk : k ∈ s.evicted identity maxPerIdentity now)
    (hd' : ⟨k', d'⟩ ∈ s.devicesOf identity now)
    (hk' : k' ∉ s.evicted identity maxPerIdentity now) : d.lastUsedAt ≤ d'.lastUsedAt := by
  rw [evicted_eq] at hk hk'
  have hsorted : (s.byUse identity now).Pairwise fun a b => a.2.lastUsedAt ≤ b.2.lastUsedAt := by
    have : Std.Total fun a b : Σ _ : ℕ, Device => a.2.lastUsedAt ≤ b.2.lastUsedAt :=
      ⟨fun a b => le_total _ _⟩
    have : IsTrans (Σ _ : ℕ, Device) fun a b => a.2.lastUsedAt ≤ b.2.lastUsedAt :=
      ⟨fun _ _ _ => le_trans⟩
    exact List.pairwise_insertionSort _ _
  obtain ⟨entry, hentry, rfl⟩ := List.mem_map.mp hk
  -- a token names one device
  have hlookup := (mem_devicesOf.mp hd).1
  have hsame := (mem_devicesOf.mp (perm_byUse.mem_iff.mp (List.mem_of_mem_take hentry))).1
  obtain rfl : d = entry.2 := Option.some.inj (hlookup.symm.trans hsame)
  have hstays := perm_byUse.mem_iff.mpr hd'
  rw [← List.take_append_drop (s.excess identity maxPerIdentity now) (s.byUse identity now),
    List.mem_append] at hstays
  obtain hgoes | hstays := hstays
  · exact absurd (List.mem_map_of_mem hgoes) hk'
  · exact List.rel_of_mem_take_of_mem_drop hsorted hentry hstays

theorem length_filter_not_evicted :
    ((s.devicesOf identity now).filter fun entry =>
      entry.1 ∉ s.evicted identity maxPerIdentity now).length =
        (s.devicesOf identity now).length - s.excess identity maxPerIdentity now := by
  have hsplit := List.length_eq_length_filter_add (l := s.devicesOf identity now)
    fun entry => entry.1 ∈ s.evicted identity maxPerIdentity now
  rw [length_filter_evicted] at hsplit
  simp only [decide_not]
  omega

/-- What the identity has after a mint: the new device, and those that were not dropped. -/
theorem devicesOf_mint_subset {enrolledAt windowSecs : ℕ} :
    ∃ d, (s.mint token identity enrolledAt windowSecs maxPerIdentity now true).2.devicesOf
      identity now ⊆ ⟨token, d⟩ :: (s.devicesOf identity now).filter fun entry =>
        entry.1 ∉ s.evicted identity maxPerIdentity now := by
  refine ⟨⟨token + 1, identity, now, min (now + windowSecs) (2 ^ 64 - 1), now, enrolledAt⟩,
    fun entry hentry => ?_⟩
  obtain ⟨hlookup, hlive, hidentity⟩ := mem_devicesOf.mp hentry
  rw [lookup_mint] at hlookup
  split at hlookup
  next hk =>
    obtain ⟨k, d⟩ := entry
    obtain rfl : k = token := hk
    exact List.mem_cons.mpr (.inl (by rw [Option.some.inj hlookup]))
  next =>
    split at hlookup
    · cases hlookup
    next hstays =>
      have hbefore := (Option.filter_eq_some_iff.mp hlookup).1
      refine List.mem_cons_of_mem _ (List.mem_filter.mpr ⟨?_, decide_eq_true hstays⟩)
      exact mem_devicesOf.mpr ⟨hbefore, hlive, hidentity⟩

theorem length_devicesOf_mint {enrolledAt windowSecs : ℕ} :
    ((s.mint token identity enrolledAt windowSecs maxPerIdentity now true).2.devicesOf
      identity now).length ≤ max maxPerIdentity 1 := by
  have hminted : ∃ d, (s.mint token identity enrolledAt windowSecs maxPerIdentity now
      true).2.devicesOf identity now ⊆ ⟨token, d⟩ :: (s.devicesOf identity now).filter fun entry =>
        entry.1 ∉ s.evicted identity maxPerIdentity now := devicesOf_mint_subset
  obtain ⟨d, hsubset⟩ := hminted
  have hle := ((nodup_keys_devicesOf _ identity now).of_map.subperm hsubset).length_le
  rw [List.length_cons, length_filter_not_evicted, excess] at hle
  omega

/-- A live device of the identity is dropped or stays as it is. -/
theorem lookup_mint_of_mem {enrolledAt windowSecs : ℕ} {entry : Σ _ : ℕ, Device}
    (hfresh : s.lookup token = none) (hentry : entry ∈ s.devicesOf identity now) :
    (s.mint token identity enrolledAt windowSecs maxPerIdentity now true).2.lookup entry.1 =
      if entry.1 ∈ s.evicted identity maxPerIdentity now then none else some entry.2 := by
  obtain ⟨hbefore, hlive, _⟩ := mem_devicesOf.mp hentry
  have hne : entry.1 ≠ token := by
    intro heq
    rw [heq, hfresh] at hbefore
    cases hbefore
  rw [lookup_mint, if_neg hne, hbefore, Option.filter_some_pos (by rw [hlive]; rfl)]

/-- A live device of somebody else stays as it is. -/
theorem lookup_mint_of_ne {enrolledAt windowSecs : ℕ} (hfresh : s.lookup token = none)
    (hother : d.identity ≠ identity) (hlive : d.expired now = false) :
    (s.mint token identity enrolledAt windowSecs maxPerIdentity now true).2.lookup k = some d ↔
      s.lookup k = some d := by
  rw [lookup_mint]
  split
  next hk =>
    subst hk
    rw [hfresh]
    constructor
    · intro heq
      obtain rfl := Option.some.inj heq
      exact absurd rfl hother
    · exact fun heq => by cases heq
  · split
    next hgoes =>
      obtain ⟨d', hd', hidentity⟩ := identity_of_mem_evicted hgoes
      refine ⟨fun heq => (by cases heq), fun heq => ?_⟩
      rw [heq, Option.some.injEq] at hd'
      exact absurd (hd' ▸ hidentity) hother
    · rw [Option.filter_eq_some_iff, hlive]
      simp

/-- **Which devices a mint removes.** Afterwards the identity has at most as many live devices as
the cap says, the new one among them; as many are gone as were too many, the least recently used
first, and nobody else's. -/
theorem mint_evicts (s : DeviceStore) (identity : Identity)
    (token enrolledAt windowSecs maxPerIdentity now : ℕ) (hfresh : s.lookup token = none) :
    let s' := (s.mint token identity enrolledAt windowSecs maxPerIdentity now true).2
    (s'.devicesOf identity now).length ≤ max maxPerIdentity 1 ∧
    (∃ d, s'.lookup token = some d ∧ d.identity = identity ∧
      (d.expired now = false ↔ 0 < windowSecs ∧ now < 2 ^ 64 - 1)) ∧
    ((s.devicesOf identity now).filter fun entry => (s'.lookup entry.1).isNone).length =
      (s.devicesOf identity now).length + 1 - max maxPerIdentity 1 ∧
    (∀ entry ∈ s.devicesOf identity now, s'.lookup entry.1 = none →
      ∀ entry' ∈ s.devicesOf identity now, s'.lookup entry'.1 ≠ none →
        s'.lookup entry'.1 = some entry'.2 ∧ entry.2.lastUsedAt ≤ entry'.2.lastUsedAt) ∧
    ∀ k d, d.identity ≠ identity → d.expired now = false →
      (s'.lookup k = some d ↔ s.lookup k = some d) := by
  intro s'
  have hnew := s.lookup_mint token identity enrolledAt windowSecs maxPerIdentity now token
  have hmine : ∀ entry ∈ s.devicesOf identity now, s'.lookup entry.1 =
      if entry.1 ∈ s.evicted identity maxPerIdentity now then none else some entry.2 :=
    fun _ hentry => lookup_mint_of_mem hfresh hentry
  refine ⟨length_devicesOf_mint, ⟨_, hnew.trans (if_pos rfl), rfl, ?_⟩, ?_, ?_, ?_⟩
  · rw [Device.expired, decide_eq_false_iff_not]
    show ¬ min (now + windowSecs) (2 ^ 64 - 1) ≤ now ↔ _
    omega
  · rw [← excess, ← length_filter_evicted]
    congr 1
    apply List.filter_congr
    intro entry hentry
    rw [hmine entry hentry]
    by_cases hgoes : entry.1 ∈ s.evicted identity maxPerIdentity now <;> simp [hgoes]
  · intro entry hentry hgone entry' hentry' hstays
    rw [hmine entry hentry, ite_eq_left_iff] at hgone
    rw [hmine entry' hentry', ne_eq, ite_eq_left_iff] at hstays
    have hgoes : entry.1 ∈ s.evicted identity maxPerIdentity now := by
      by_contra hno
      cases hgone hno
    have hkept : entry'.1 ∉ s.evicted identity maxPerIdentity now := fun hyes =>
      hstays fun hno => absurd hyes hno
    exact ⟨(hmine entry' hentry').trans (if_neg hkept),
      lastUsedAt_le_of_evicted hentry hgoes hentry' hkept⟩
  · intro k d hother hlive
    exact lookup_mint_of_ne hfresh hother hlive

/-! ## A mint that could not be written -/

/-- From that time on, nobody can tell the second store from the first. -/
def Untraced (s s' : DeviceStore) (now : ℕ) : Prop :=
  ∀ later ≥ now, ∀ identity enrolledAt,
    (∀ token, (s'.authorize token identity enrolledAt later).1 =
      (s.authorize token identity enrolledAt later).1) ∧
    s'.list identity enrolledAt later = s.list identity enrolledAt later

theorem authorize_congr {s s' : DeviceStore} {enrolledAt : ℕ}
    (h : (s'.lookup token).filter (fun d => !d.expired now) =
      (s.lookup token).filter fun d => !d.expired now) :
    (s'.authorize token identity enrolledAt now).1 =
      (s.authorize token identity enrolledAt now).1 := by
  have hfst : ∀ s : DeviceStore, (s.authorize token identity enrolledAt now).1 =
      ((s.lookup token).filter fun d => !d.expired now).bind fun d =>
        if d.identity = identity ∧ d.enrolledAt = enrolledAt then some d.id else none := by
    intro s
    rw [authorize]
    cases s.lookup token with
    | none => rfl
    | some d =>
      cases hlive : d.expired now <;> by_cases hidentity : d.identity = identity <;>
        by_cases henrolled : d.enrolledAt = enrolledAt <;>
        simp [hlive, hidentity, henrolled, Option.filter_some]
  rw [hfst, hfst, h]

theorem expired_mono {later : ℕ} (hle : now ≤ later) (h : d.expired now = true) :
    d.expired later = true := by
  rw [Device.expired, decide_eq_true_iff] at h ⊢
  omega

/-- What has expired is seen by nobody. -/
theorem untraced_live (s : DeviceStore) (now : ℕ) : s.Untraced (s.live now) now := by
  intro later hle identity enrolledAt
  refine ⟨fun token => authorize_congr ?_, ?_⟩
  · rw [lookup_live]
    cases s.lookup token with
    | none => rfl
    | some d =>
      cases hnow : d.expired now with
      | false => rw [Option.filter_some_pos (by rw [hnow]; rfl)]
      | true => simp [Option.filter_some, hnow, expired_mono hle hnow]
  · rw [list, list, live, AList.entries_retain, List.filter_map, List.filter_map,
      List.filter_filter]
    congr 2
    apply List.filter_congr
    intro entry _
    cases hnow : entry.2.expired now with
    | false => simp
    | true => simp [expired_mono hle hnow]

/-- What a mint leaves that could not be written. -/
theorem entries_failed_mint (s : DeviceStore) (identity : Identity)
    (token enrolledAt windowSecs maxPerIdentity now : ℕ) :
    (s.mint token identity enrolledAt windowSecs maxPerIdentity now false).2.entries =
      (s.live now).entries.filter fun entry =>
        entry.1 ≠ token ∧ entry.1 ∉ s.evicted identity maxPerIdentity now := by
  have hroom := AList.entries_foldl_erase Sigma.fst
    ((s.byUse identity now).take (s.excess identity maxPerIdentity now)) (s.live now)
  rw [← evicted_eq] at hroom
  simp only [mint, Bool.false_eq_true, if_false]
  rw [AList.entries_erase, AList.entries_insert, List.filter_cons_of_neg (by simp)]
  show ((((s.byUse identity now).take (s.excess identity maxPerIdentity now)).foldl
    (fun s entry => s.erase entry.1) (s.live now)).erase token).entries.filter _ = _
  rw [AList.entries_erase, hroom, List.filter_filter, List.filter_filter]
  apply List.filter_congr
  intro entry _
  by_cases hk : entry.1 = token <;> simp [hk]

theorem lookup_failed_mint (s : DeviceStore) (identity : Identity)
    (token enrolledAt windowSecs maxPerIdentity now k : ℕ) :
    (s.mint token identity enrolledAt windowSecs maxPerIdentity now false).2.lookup k =
      if k = token ∨ k ∈ s.evicted identity maxPerIdentity now then none
      else (s.lookup k).filter fun d => !d.expired now := by
  simp only [mint, Bool.false_eq_true, if_false]
  by_cases hk : k = token
  · rw [hk, AList.lookup_erase, if_pos (.inl rfl)]
  · rw [AList.lookup_erase_ne hk, AList.lookup_insert_ne hk, AList.lookup_foldl_erase, lookup_live]
    simp only [hk, false_or]
    rfl

/-- The mint has room for the device, and draws a token that no live device has. -/
def HasRoom (s : DeviceStore) (identity : Identity) (token maxPerIdentity now : ℕ) : Prop :=
  (s.devicesOf identity now).length < max maxPerIdentity 1 ∧
    ∀ d, s.lookup token = some d → d.expired now = true

theorem failed_mint_of_hasRoom {enrolledAt windowSecs : ℕ}
    (h : s.HasRoom identity token maxPerIdentity now) :
    (s.mint token identity enrolledAt windowSecs maxPerIdentity now false).2 = s.live now := by
  apply AList.ext
  rw [entries_failed_mint]
  apply List.filter_eq_self.mpr
  intro entry hentry
  have hnone : s.evicted identity maxPerIdentity now = [] := by
    have hexcess : s.excess identity maxPerIdentity now = 0 := by
      have hroom := h.1
      rw [excess]
      omega
    rw [evicted_eq, hexcess]
    rfl
  have hne : entry.1 ≠ token := by
    rintro rfl
    have hlive : (s.live now).lookup entry.1 = some entry.2 := AList.mem_lookup_iff.mpr hentry
    rw [lookup_live, Option.filter_eq_some_iff] at hlive
    rw [h.2 entry.2 hlive.1] at hlive
    cases hlive.2
  simp [hnone, hne]

/-- **A mint that fails leaves no trace** exactly when it had room, so that it dropped nothing but
what had expired. -/
theorem failed_mint_untraced_iff (s : DeviceStore) (identity : Identity)
    (token enrolledAt windowSecs maxPerIdentity now : ℕ) :
    s.Untraced (s.mint token identity enrolledAt windowSecs maxPerIdentity now false).2 now ↔
      s.HasRoom identity token maxPerIdentity now := by
  constructor
  · intro h
    -- a live device that is gone is refused now
    have hstays : ∀ k d, s.lookup k = some d → d.expired now = false →
        (s.mint token identity enrolledAt windowSecs maxPerIdentity now false).2.lookup k ≠
          none := by
      intro k d hd hlive hnone
      have hsame := (h now le_rfl d.identity d.enrolledAt).1 k
      simp [authorize, hd, hlive, hnone] at hsame
    refine ⟨?_, fun d hd => ?_⟩
    · -- a full store drops the device that was used least recently, and that one was live
      by_contra hfull
      have hpos : 0 < (s.byUse identity now).length ∧
          0 < s.excess identity maxPerIdentity now := by
        rw [perm_byUse.length_eq, excess]
        omega
      obtain ⟨entry, hentry⟩ : ∃ entry, entry ∈
          (s.byUse identity now).take (s.excess identity maxPerIdentity now) :=
        List.exists_mem_of_length_pos (by rw [List.length_take]; omega)
      obtain ⟨hd, hlive, _⟩ :=
        mem_devicesOf.mp (perm_byUse.mem_iff.mp (List.mem_of_mem_take hentry))
      refine hstays entry.1 entry.2 hd hlive ?_
      rw [lookup_failed_mint, if_pos (.inr (evicted_eq s identity .. ▸ List.mem_map_of_mem hentry))]
    · -- the token is taken out after the failure, and with it the device that had it
      by_contra hlive
      refine hstays token d hd (Bool.eq_false_iff.mpr hlive) ?_
      rw [lookup_failed_mint, if_pos (.inl rfl)]
  · intro h
    rw [failed_mint_of_hasRoom h]
    exact s.untraced_live now

end Webshell.DeviceStore

/-! ## A full store -/

namespace Webshell

open Text.Ascii DeviceSample DeviceStore

/-- The record of a device that expires at 1100. -/
def deviceOf (who : Identity) (lastUsedAt : ℕ) : Device := ⟨1, who, 1000, 1100, lastUsedAt, 500⟩

/-- Three devices of alice's, the second one used last, and one of bob's that is older than all. -/
def severalDevices : DeviceStore :=
  ((((∅ : DeviceStore).insert 0 (deviceOf alice 1010)).insert 2 (deviceOf alice 1030)).insert 4
    (deviceOf alice 1020)).insert 6 (deviceOf bob 1005)

/-- At a cap of two alice's first and third device go. -/
theorem mint_evicts_severalDevices :
    let s' := (severalDevices.mint 8 alice 500 100 2 1050 true).2
    (s'.lookup 0 = none ∧ s'.lookup 4 = none) ∧
    (s'.devicesOf alice 1050).length ≤ max 2 1 ∧
    ((severalDevices.devicesOf alice 1050).filter fun entry =>
        (s'.lookup entry.1).isNone).length =
      (severalDevices.devicesOf alice 1050).length + 1 - max 2 1 ∧
    (∀ entry ∈ severalDevices.devicesOf alice 1050, s'.lookup entry.1 = none →
      ∀ entry' ∈ severalDevices.devicesOf alice 1050, s'.lookup entry'.1 ≠ none →
        s'.lookup entry'.1 = some entry'.2 ∧ entry.2.lastUsedAt ≤ entry'.2.lastUsedAt) ∧
    s'.lookup 6 = some (deviceOf bob 1005) := by
  intro s'
  obtain ⟨hlength, _, hexcess, holdest, hforeign⟩ :=
    mint_evicts severalDevices alice 8 500 100 2 1050 (by decide)
  refine ⟨⟨rfl, rfl⟩, hlength, hexcess, holdest, ?_⟩
  exact (hforeign 6 (deviceOf bob 1005) (by decide) (by decide)).mpr rfl

/-- Alice's one device, under the token 0. -/
def oneDevice : DeviceStore := DeviceStore.exec ∅ mintAlice

/-- At a cap of one, a mint for Alice that fails costs her the device she has. -/
theorem failed_mint_drops_device :
    ¬ ∀ (_ : Text.Lowercase) (s : DeviceStore) (identity : Identity)
      (token enrolledAt windowSecs maxPerIdentity now : ℕ), s.lookup token = none →
      s.Untraced (s.mint token identity enrolledAt windowSecs maxPerIdentity now false).2 now := by
  intro h
  have hauthorized := (h asciiLowercase oneDevice alice 2 500 100 1 1050 (by decide) 1050 le_rfl
    alice 500).1 0
  exact absurd hauthorized (by decide)

end Webshell
