import Mathlib.Data.Char
import Mathlib.Data.List.Lex
import Mathlib.Data.List.Sort
import Webshell.Auth.SecondFactor

/-!
# Identities on disk

The enrollment and the device file write an identity as its text and read it back. A file is taken
as the list of its entries, without the syntax of TOML around them.

## Main definitions

- `EnrollmentStore.toFile`, `EnrollmentStore.ofFile`: what `write` lists and what `load` collects
- `DeviceStore.toFile`, `DeviceStore.ofFile`: the same of the devices

## Main results

- `EnrollmentStore.ofFile_toFile`, `DeviceStore.ofFile_toFile`: the records come back under the
  identities that they were written for
-/

namespace Webshell

variable [Text.Lowercase]

/-! ## The enrollment file -/

/-- An entry as it appears on disk. -/
structure EnrollmentEntry where
  id : Text
  record : Record

/-- An entry of the map, serialized. -/
def EnrollmentEntry.write (entry : Identity × Record) : EnrollmentEntry :=
  ⟨entry.1.display, entry.2⟩

/-- An entry of the file, deserialized; `none` stands for the error. -/
def EnrollmentEntry.read (entry : EnrollmentEntry) : Option (Identity × Record) :=
  (Identity.parse entry.id).map fun id => (id, entry.record)

namespace EnrollmentStore

/-- The records in the order of the texts of their identities. -/
def inOrder (s : EnrollmentStore) : List (Identity × Record) :=
  s.pairs.insertionSort fun a b => a.1.display ≤ b.1.display

def toFile (s : EnrollmentStore) : List EnrollmentEntry := s.inOrder.map EnrollmentEntry.write

/-- `load`; one entry without an identity fails it. -/
def ofFile (file : List EnrollmentEntry) : Option EnrollmentStore :=
  (file.mapM EnrollmentEntry.read).map AList.ofPairs

theorem inOrder_perm (s : EnrollmentStore) : s.inOrder.Perm s.pairs := List.perm_insertionSort ..

/-- What has been written is loaded again. -/
theorem ofFile_toFile (s : EnrollmentStore) (h : ∀ id ∈ s, id.subject ≠ []) :
    ∃ s', ofFile s.toFile = some s' ∧ ∀ id, s'.lookup id = s.lookup id := by
  have hread : s.toFile.mapM EnrollmentEntry.read = some s.inOrder := by
    refine List.mapM_map_eq_some fun pair hpair => ?_
    have hlookup := AList.mem_pairs.mp (s.inOrder_perm.mem_iff.mp hpair)
    have hkey : pair.1 ∈ s := AList.lookup_isSome.mp (by rw [hlookup]; rfl)
    simp only [EnrollmentEntry.read, EnrollmentEntry.write, Identity.parse_display_self (h _ hkey),
      Option.map_some]
  refine ⟨.ofPairs s.inOrder, ?_, AList.lookup_ofPairs s.inOrder_perm⟩
  rw [ofFile, hread, Option.map_some]

end EnrollmentStore

/-! ## The device file -/

/-- A device as it appears on disk, under the hash of its cookie value. -/
structure DeviceEntry where
  id : ℕ
  identity : Text
  tokenHash : ℕ
  createdAt : ℕ
  expiresAt : ℕ
  lastUsedAt : ℕ
  enrolledAt : ℕ

def DeviceEntry.write (entry : ℕ × Device) : DeviceEntry where
  id := entry.2.id
  identity := entry.2.identity.display
  tokenHash := entry.1
  createdAt := entry.2.createdAt
  expiresAt := entry.2.expiresAt
  lastUsedAt := entry.2.lastUsedAt
  enrolledAt := entry.2.enrolledAt

def DeviceEntry.read (entry : DeviceEntry) : Option (ℕ × Device) :=
  (Identity.parse entry.identity).map fun identity =>
    (entry.tokenHash,
      ⟨entry.id, identity, entry.createdAt, entry.expiresAt, entry.lastUsedAt, entry.enrolledAt⟩)

namespace DeviceStore

/-- The devices in the order of the texts of their identities, and then of their ids. -/
def inOrder (s : DeviceStore) : List (ℕ × Device) :=
  s.pairs.insertionSort fun a b =>
    a.2.identity.display < b.2.identity.display ∨
      (a.2.identity.display = b.2.identity.display ∧ a.2.id ≤ b.2.id)

def toFile (s : DeviceStore) : List DeviceEntry := s.inOrder.map DeviceEntry.write

/-- `load`; one device without an identity fails it, and expired ones are dropped. -/
def ofFile (file : List DeviceEntry) (now : ℕ) : Option DeviceStore :=
  (file.mapM DeviceEntry.read).map fun devices =>
    AList.ofPairs (devices.filter fun device => !device.2.expired now)

theorem inOrder_perm (s : DeviceStore) : s.inOrder.Perm s.pairs := List.perm_insertionSort ..

/-- What has been written is loaded again, but for what has expired. -/
theorem ofFile_toFile (s : DeviceStore)
    (h : ∀ token d, s.lookup token = some d → d.identity.subject ≠ []) (now : ℕ) :
    ∃ s', ofFile s.toFile now = some s' ∧ ∀ token, s'.lookup token = (s.live now).lookup token := by
  have hread : s.toFile.mapM DeviceEntry.read = some s.inOrder := by
    refine List.mapM_map_eq_some fun pair hpair => ?_
    have hlookup := AList.mem_pairs.mp (s.inOrder_perm.mem_iff.mp hpair)
    simp only [DeviceEntry.read, DeviceEntry.write,
      Identity.parse_display_self (h _ _ hlookup), Option.map_some]
  have hlive : (s.inOrder.filter fun device => !device.2.expired now).Perm (s.live now).pairs := by
    rw [live, AList.pairs_retain]
    exact s.inOrder_perm.filter _
  refine ⟨_, ?_, AList.lookup_ofPairs hlive⟩
  rw [ofFile, hread, Option.map_some]

end DeviceStore

end Webshell
