import Mathlib.Tactic
import Webshell.Lib.Text

/-!
# TOTP codes and the replay guard

The second factor: which six digits a secret shows in a time step, which of them `verify`
accepts at a moment, and the per-identity memory that makes an accepted code single-use.
HMAC-SHA1 is a parameter; nothing below depends on what it computes.

## Main definitions

- `codeAt`, `verify`: the code of a time step, and the check of a submitted code
- `acceptAt`: the replay guard's step

## Main results

- `mem_window`: the steps of a window, by their distance from the current one
- `acceptAt_cases`: a code is refused while it is remembered, and is remembered once accepted
-/

namespace Webshell.Totp

/-- HMAC-SHA1 of a message under a key. -/
abbrev HmacSha1 := List UInt8 → List UInt8 → Fin 20 → UInt8

def b32 : List UInt8 := "ABCDEFGHIJKLMNOPQRSTUVWXYZ234567".toList.map fun c => c.toNat.toUInt8

def isAsciiWhitespace (b : UInt8) : Bool :=
  b == 0x20 || b == 0x09 || b == 0x0a || b == 0x0c || b == 0x0d

def toAsciiUppercase (b : UInt8) : UInt8 := if 0x61 ≤ b ∧ b ≤ 0x7a then b - 0x20 else b

/-- The loop of `decodeBase32` over the bytes left, with the bytes written and the two
accumulators. -/
def decodeLoop : List UInt8 → List UInt8 → UInt32 → UInt8 → Option (List UInt8)
  | [], out, _, _ => some out
  | c :: cs, out, acc, bits => do
    let value ← b32.idxOf? (toAsciiUppercase c)
    let acc := (acc <<< 5) ||| value.toUInt32
    let bits := bits + 5
    if bits ≥ 8 then
      let bits := bits - 8
      -- `saturating_sub`: the shifted one is never zero, since fewer than eight bits are left
      decodeLoop cs (out ++ [(acc >>> bits.toUInt32).toUInt8])
        (acc &&& ((1 <<< bits.toUInt32) - 1)) bits
    else
      decodeLoop cs out acc bits

def decodeBase32 (text : Text) : Option (List UInt8) :=
  decodeLoop (text.bytes.filter fun b => !isAsciiWhitespace b && b != 0x3d) [] 0 0

def validSeed (seed : Text) : Bool :=
  match decodeBase32 seed with
  | some bytes => 16 ≤ bytes.length
  | none => false

/-- The eight big-endian bytes of a counter. -/
def toBeBytes (n : ℕ) : List UInt8 :=
  (List.range 8).map fun i => (n >>> (8 * (7 - i))).toUInt8

/-- `format!("{value:06}")`, for a value below a million. -/
def sixDigits (value : ℕ) : Text :=
  [100000, 10000, 1000, 100, 10, 1].map fun w => Nat.digitChar (value / w % 10)

/-- The step duration of a code, in seconds. -/
def stepSecs : ℕ := 30

/-- The time steps `verify` looks at: the current one and its two neighbours. -/
def window (now : ℕ) : List ℕ := [now / stepSecs - 1, now / stepSecs, now / stepSecs + 1]

/-- How many recently accepted codes are remembered. -/
def replayMemory : ℕ := 3

/-- The longest an accepted code is remembered. -/
def replayWindowSecs : ℕ := 90

section
variable (hmacSha1 : HmacSha1)

def codeAt (seed : Text) (counter : ℕ) : Option Text := do
  let key ← decodeBase32 seed
  let digest := hmacSha1 key (toBeBytes counter)
  let offset := (digest 19 &&& 0x0f).toNat
  let byte := fun i => (digest (Fin.ofNat 20 (offset + i))).toUInt32
  let word := (byte 0 <<< 24) ||| (byte 1 <<< 16) ||| (byte 2 <<< 8) ||| byte 3
  some (sixDigits ((word &&& 0x7fffffff) % 1000000).toNat)

/-- Does the text show a code of one of the steps around `now`? -/
def verify (seed provided : Text) (now : ℕ) : Bool :=
  let provided := provided.trim
  if provided.byteLength ≠ 6 ∨ provided.all Text.isDigit = false then false
  else ((window now).filterMap (codeAt hmacSha1 seed)).any (· == provided)

end

/-- A replay guard's memory: the accepted codes with the second they were accepted in, oldest
first. -/
abbrev Recent := List (Text × ℕ)

/-- The entries `acceptAt` keeps when it runs in second `now`. -/
def live (recent : Recent) (now : ℕ) : Recent :=
  recent.filter fun entry => now - entry.2 < replayWindowSecs

/-- What is left of a memory when one more code goes in: all of it, or all but the oldest. -/
def kept (recent : Recent) : Recent :=
  if recent.length = replayMemory then recent.tail else recent

/-- Record a code that has just verified; `false` when it was already used. -/
def acceptAt (recent : Recent) (code : Text) (now : ℕ) : Bool × Recent :=
  let code := code.trim
  let recent := live recent now
  if recent.any fun entry => entry.1 == code then (false, recent)
  else (true, kept recent ++ [(code, now)])

/-! ## What the window and the memory say -/

theorem mem_window {k now : ℕ} :
    k ∈ window now ↔ k ≤ now / stepSecs + 1 ∧ now / stepSecs ≤ k + 1 := by
  simp only [window, List.mem_cons, List.not_mem_nil, or_false]
  generalize now / stepSecs = n
  omega

theorem mem_live {recent : Recent} {now : ℕ} {entry : Text × ℕ} :
    entry ∈ live recent now ↔ entry ∈ recent ∧ now - entry.2 < replayWindowSecs := by
  simp only [live, List.mem_filter, decide_eq_true_eq]

/-- A code accepted no earlier than one step before `k` is still remembered while `k` is inside
the window. -/
theorem live_of_window {recent : Recent} {now k time : ℕ} {code : Text}
    (hmem : (code, time) ∈ recent) (hk : k ≤ time / stepSecs + 1) (hw : k ∈ window now) :
    (code, time) ∈ live recent now := by
  have hnow := (mem_window.mp hw).2
  refine mem_live.mpr ⟨hmem, ?_⟩
  simp only [stepSecs, replayWindowSecs] at *
  omega

theorem live_sublist (recent : Recent) (now : ℕ) : (live recent now).Sublist recent :=
  List.filter_sublist

theorem kept_sublist (recent : Recent) : (kept recent).Sublist recent := by
  unfold kept
  split
  · exact List.tail_sublist recent
  · exact List.Sublist.refl recent

/-- A code is refused exactly while it is remembered; an accepted one is remembered last. -/
theorem acceptAt_cases (recent : Recent) (code : Text) (now : ℕ) :
    (acceptAt recent code now = (false, live recent now) ∧
        ∃ time, (code.trim, time) ∈ live recent now) ∨
      (acceptAt recent code now = (true, kept (live recent now) ++ [(code.trim, now)]) ∧
        ∀ time, (code.trim, time) ∉ live recent now) := by
  by_cases hseen : (live recent now).any fun entry => entry.1 == code.trim
  · refine .inl ⟨by simp only [acceptAt, hseen, if_true], ?_⟩
    obtain ⟨⟨c, time⟩, hmem, hc⟩ := List.any_eq_true.mp hseen
    exact ⟨time, by rw [← eq_of_beq hc]; exact hmem⟩
  · refine .inr ⟨by simp only [acceptAt, hseen]; rfl, fun time hmem => hseen ?_⟩
    exact List.any_eq_true.mpr ⟨_, hmem, beq_self_eq_true _⟩

/-! ## A sample -/

/-- The digests of the key `12345678901234567890` for four neighbouring counters. -/
def sampleDigest (counter : ℕ) : List UInt8 :=
  if counter = 58907519 then
    [0xbc, 0x14, 0x3c, 0x8b, 0xec, 0x3f, 0x1c, 0xcd, 0x28, 0x4a, 0xda, 0x3b, 0x16, 0x9b, 0xab, 0x6b,
      0x19, 0xd6, 0xa2, 0x09]
  else if counter = 58907520 then
    [0x21, 0x1a, 0xfc, 0x59, 0xda, 0xd4, 0xcf, 0xbb, 0x62, 0x56, 0xc8, 0x8b, 0x73, 0xd3, 0x0f, 0x1e,
      0x2c, 0x27, 0xe6, 0xf1]
  else if counter = 58907521 then
    [0x04, 0xf0, 0xc7, 0xa8, 0x87, 0x23, 0x06, 0xbe, 0x3c, 0xf7, 0x04, 0x37, 0x16, 0x98, 0xe8, 0x1c,
      0x1f, 0x51, 0x20, 0x5c]
  else if counter = 58907522 then
    [0x2f, 0x9b, 0xa0, 0xef, 0xd7, 0xc5, 0xd3, 0x55, 0x4e, 0x13, 0xaa, 0x77, 0xf9, 0xa4, 0x6f, 0xc1,
      0x63, 0x08, 0x7b, 0x64]
  else []

def sampleHmac : HmacSha1 := fun key message i =>
  if key = (Text.bytes "12345678901234567890".toList) then
    (sampleDigest (message.foldl (fun n b => 256 * n + b.toNat) 0)).getD i 0
  else 0

def sampleSeed : Text := "GEZDGNBVGY3TQOJQGEZDGNBVGY3TQOJQ".toList

example : verify sampleHmac sampleSeed "745690".toList 1767225600 = true := by decide

end Webshell.Totp
