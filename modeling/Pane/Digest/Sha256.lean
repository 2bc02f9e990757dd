import Pane.Text.Basic

/-!
# The SHA-256 digest of a string

Content addresses are made of hexadecimal digits of a digest.  The library only relies on three
facts about it — it is a function, its answer has sixty-four digits, and they are all lower-case
hexadecimal — but the digits are shown to the outside world, so the digest itself is computed here,
by the standard's rounds on thirty-two bit words.

* `Sha256.compress` — one block of sixteen words worked into the eight chaining words.
* `sha256Hex` — the digest of a string's UTF-8 bytes, as text.
* **`length_sha256Hex`**, **`isHex_of_mem_sha256Hex`** — the two facts on the form of the answer.
-/

namespace Pane.Digest

/-! ## Rounds -/

namespace Sha256

structure State where
  a : UInt32
  b : UInt32
  c : UInt32
  d : UInt32
  e : UInt32
  f : UInt32
  g : UInt32
  h : UInt32

/-- The chaining words before the first block. -/
def start : State :=
  ⟨0x6a09e667, 0xbb67ae85, 0x3c6ef372, 0xa54ff53a, 0x510e527f, 0x9b05688c, 0x1f83d9ab, 0x5be0cd19⟩

def constants : List UInt32 := [
  0x428a2f98, 0x71374491, 0xb5c0fbcf, 0xe9b5dba5, 0x3956c25b, 0x59f111f1, 0x923f82a4, 0xab1c5ed5,
  0xd807aa98, 0x12835b01, 0x243185be, 0x550c7dc3, 0x72be5d74, 0x80deb1fe, 0x9bdc06a7, 0xc19bf174,
  0xe49b69c1, 0xefbe4786, 0x0fc19dc6, 0x240ca1cc, 0x2de92c6f, 0x4a7484aa, 0x5cb0a9dc, 0x76f988da,
  0x983e5152, 0xa831c66d, 0xb00327c8, 0xbf597fc7, 0xc6e00bf3, 0xd5a79147, 0x06ca6351, 0x14292967,
  0x27b70a85, 0x2e1b2138, 0x4d2c6dfc, 0x53380d13, 0x650a7354, 0x766a0abb, 0x81c2c92e, 0x92722c85,
  0xa2bfe8a1, 0xa81a664b, 0xc24b8b70, 0xc76c51a3, 0xd192e819, 0xd6990624, 0xf40e3585, 0x106aa070,
  0x19a4c116, 0x1e376c08, 0x2748774c, 0x34b0bcb5, 0x391c0cb3, 0x4ed8aa4a, 0x5b9cca4f, 0x682e6ff3,
  0x748f82ee, 0x78a5636f, 0x84c87814, 0x8cc70208, 0x90befffa, 0xa4506ceb, 0xbef9a3f7, 0xc67178f2]

/-- A word turned to the right by `n` places. -/
def rotate (x : UInt32) (n : UInt32) : UInt32 := (x >>> n) ||| (x <<< (32 - n))

/-- The next word of the message schedule; `ws` holds the words before it, the latest first. -/
def nextWord (ws : List UInt32) : UInt32 :=
  let x := ws.getD 14 0
  let y := ws.getD 1 0
  (rotate y 17 ^^^ rotate y 19 ^^^ (y >>> 10)) + ws.getD 6 0 +
    (rotate x 7 ^^^ rotate x 18 ^^^ (x >>> 3)) + ws.getD 15 0

/-- The schedule lengthened by `n` words, the latest first. -/
def schedule : Nat → List UInt32 → List UInt32
  | 0, ws => ws
  | n + 1, ws => schedule n (nextWord ws :: ws)

/-- One round, with its constant and its word of the schedule. -/
def round (s : State) (k w : UInt32) : State :=
  let t₁ := s.h + (rotate s.e 6 ^^^ rotate s.e 11 ^^^ rotate s.e 25) +
    ((s.e &&& s.f) ^^^ ((s.e ^^^ 0xffffffff) &&& s.g)) + k + w
  let t₂ := (rotate s.a 2 ^^^ rotate s.a 13 ^^^ rotate s.a 22) +
    ((s.a &&& s.b) ^^^ (s.a &&& s.c) ^^^ (s.b &&& s.c))
  ⟨t₁ + t₂, s.a, s.b, s.c, s.d + t₁, s.e, s.f, s.g⟩

def rounds (s : State) : List UInt32 → List UInt32 → State
  | k :: ks, w :: ws => rounds (round s k w) ks ws
  | _, _ => s

/-- One block of sixteen words worked into the chaining words. -/
def compress (s : State) (block : List UInt32) : State :=
  let t := rounds s constants (schedule 48 block.reverse).reverse
  ⟨s.a + t.a, s.b + t.b, s.c + t.c, s.d + t.d, s.e + t.e, s.f + t.f, s.g + t.g, s.h + t.h⟩

/-! ## Blocks -/

/-- Bytes gathered four at a time into words, the first byte the highest. -/
def wordsOfBytes : List UInt8 → List UInt32
  | a :: b :: c :: d :: rest =>
    ((a.toUInt32 <<< 24) ||| (b.toUInt32 <<< 16) ||| (c.toUInt32 <<< 8) ||| d.toUInt32) ::
      wordsOfBytes rest
  | _ => []

/-- The bytes followed by a set bit, zeros up to a whole block, and the length in bits. -/
def padded (bytes : List UInt8) : List UInt8 :=
  let n := bytes.length
  let zeros : List UInt8 := List.replicate ((119 - n % 64) % 64) 0
  let size : List UInt8 := [56, 48, 40, 32, 24, 16, 8, 0].map fun k => UInt8.ofNat ((8 * n) >>> k)
  bytes ++ 0x80 :: zeros ++ size

/-- `n` blocks of sixteen words worked in, one after the other. -/
def compressAll : Nat → State → List UInt32 → State
  | 0, s, _ => s
  | n + 1, s, ws => compressAll n (compress s (ws.take 16)) (ws.drop 16)

def digest (bytes : List UInt8) : State :=
  let ws := wordsOfBytes (padded bytes)
  compressAll (ws.length / 16) start ws

end Sha256

/-! ## Text of the digest -/

/-- The last `k` hexadecimal digits of a number, the highest first. -/
def hexDigits : Nat → Nat → List Char
  | 0, _ => []
  | k + 1, n => hexDigits k (n / 16) ++ [Text.hexDigit (n % 16)]

def utf8 (s : String) : List UInt8 := s.toList.flatMap String.utf8EncodeChar

def sha256Chars (s : String) : List Char :=
  let d := Sha256.digest (utf8 s)
  [d.a, d.b, d.c, d.d, d.e, d.f, d.g, d.h].flatMap fun w => hexDigits 8 w.toNat

/-- The SHA-256 digest of a string, as sixty-four hexadecimal digits. -/
def sha256Hex (s : String) : String := String.ofList (sha256Chars s)

/-! ## Form of the answer -/

def isLowerHex (c : Char) : Bool := c.isDigit || ('a' ≤ c && c ≤ 'f')

theorem length_hexDigits : ∀ k n : Nat, (hexDigits k n).length = k
  | 0, _ => rfl
  | k + 1, n => by simp [hexDigits, length_hexDigits k]

theorem isLowerHex_hexDigit : ∀ n : Nat, n < 16 → isLowerHex (Text.hexDigit n) = true := by decide

theorem isLowerHex_of_mem_hexDigits :
    ∀ (k n : Nat) (c : Char), c ∈ hexDigits k n → isLowerHex c = true
  | 0, _, _, h => by simp [hexDigits] at h
  | k + 1, n, c, h => by
      simp only [hexDigits, List.mem_append, List.mem_singleton] at h
      rcases h with h | rfl
      · exact isLowerHex_of_mem_hexDigits k _ _ h
      · exact isLowerHex_hexDigit _ (Nat.mod_lt _ (by decide))

/-- **The digest has sixty-four digits.** -/
theorem length_sha256Hex (s : String) : (sha256Hex s).toList.length = 64 := by
  simp [sha256Hex, sha256Chars, length_hexDigits]

/-- **Every digit of the digest is a lower-case hexadecimal one.** -/
theorem isHex_of_mem_sha256Hex {s : String} {c : Char} (h : c ∈ (sha256Hex s).toList) :
    isLowerHex c = true := by
  simp only [sha256Hex, String.toList_ofList, sha256Chars, List.mem_flatMap] at h
  obtain ⟨w, _, hc⟩ := h
  exact isLowerHex_of_mem_hexDigits _ _ _ hc

end Pane.Digest
