import Overpass.Core.Bytes
import Mathlib.Data.List.Defs

/-! SHA-256 (FIPS 180-4), the `sha2::Sha256` digest behind every leaf, node, key and
content address. Proofs never unfold it: they hold for any digest function. -/
namespace Overpass.Sha256

/-- The round constants. -/
def k : Array UInt32 := #[
  0x428a2f98, 0x71374491, 0xb5c0fbcf, 0xe9b5dba5, 0x3956c25b, 0x59f111f1, 0x923f82a4, 0xab1c5ed5,
  0xd807aa98, 0x12835b01, 0x243185be, 0x550c7dc3, 0x72be5d74, 0x80deb1fe, 0x9bdc06a7, 0xc19bf174,
  0xe49b69c1, 0xefbe4786, 0x0fc19dc6, 0x240ca1cc, 0x2de92c6f, 0x4a7484aa, 0x5cb0a9dc, 0x76f988da,
  0x983e5152, 0xa831c66d, 0xb00327c8, 0xbf597fc7, 0xc6e00bf3, 0xd5a79147, 0x06ca6351, 0x14292967,
  0x27b70a85, 0x2e1b2138, 0x4d2c6dfc, 0x53380d13, 0x650a7354, 0x766a0abb, 0x81c2c92e, 0x92722c85,
  0xa2bfe8a1, 0xa81a664b, 0xc24b8b70, 0xc76c51a3, 0xd192e819, 0xd6990624, 0xf40e3585, 0x106aa070,
  0x19a4c116, 0x1e376c08, 0x2748774c, 0x34b0bcb5, 0x391c0cb3, 0x4ed8aa4a, 0x5b9cca4f, 0x682e6ff3,
  0x748f82ee, 0x78a5636f, 0x84c87814, 0x8cc70208, 0x90befffa, 0xa4506ceb, 0xbef9a3f7, 0xc67178f2]

/-- The initial hash value. -/
def h0 : List UInt32 :=
  [0x6a09e667, 0xbb67ae85, 0x3c6ef372, 0xa54ff53a, 0x510e527f, 0x9b05688c, 0x1f83d9ab, 0x5be0cd19]

def rotr (x n : UInt32) : UInt32 := (x >>> n) ||| (x <<< (32 - n))

/-- A big-endian word. -/
def word (b : Bytes) : UInt32 := b.foldl (fun w x => (w <<< 8) ||| x.toUInt32) 0

def bytesOfWord (w : UInt32) : Bytes :=
  [(w >>> 24).toUInt8, (w >>> 16).toUInt8, (w >>> 8).toUInt8, w.toUInt8]

/-- The 64-word message schedule of one 64-byte block. -/
def schedule (block : Bytes) : Array UInt32 :=
  (List.range 48).foldl (fun w t =>
    let x := w.getD (t + 14) 0
    let y := w.getD (t + 1) 0
    let s0 := rotr y 7 ^^^ rotr y 18 ^^^ (y >>> 3)
    let s1 := rotr x 17 ^^^ rotr x 19 ^^^ (x >>> 10)
    w.push (s1 + w.getD (t + 9) 0 + s0 + w.getD t 0)) ((block.toChunks 4).map word).toArray

/-- The compression function on the eight working words. -/
def compress (hs : List UInt32) (block : Bytes) : List UInt32 :=
  let w := schedule block
  let out := (List.range 64).foldl (fun v t =>
    match v with
    | [a, b, c, d, e, f, g, h] =>
      let t1 := h + (rotr e 6 ^^^ rotr e 11 ^^^ rotr e 25) + ((e &&& f) ^^^ (~~~e &&& g)) +
        k.getD t 0 + w.getD t 0
      let t2 := (rotr a 2 ^^^ rotr a 13 ^^^ rotr a 22) + ((a &&& b) ^^^ (a &&& c) ^^^ (b &&& c))
      [t1 + t2, a, b, c, d + t1, e, f, g]
    | v => v) hs
  List.zipWith (· + ·) hs out

/-- The message, a one bit, zeros, and the 64-bit big-endian bit length. -/
def pad (m : Bytes) : Bytes :=
  let zeros : Bytes := List.replicate ((119 - m.length % 64) % 64) 0
  let bitLength : Bytes := (List.range 8).reverse.map (fun i => ((m.length * 8) >>> (8 * i)).toUInt8)
  m ++ [0x80] ++ zeros ++ bitLength

def digest (m : Bytes) : Bytes := ((pad m).toChunks 64 |>.foldl compress h0).flatMap bytesOfWord

end Sha256

/-- `Sha256::digest` as a `[u8; 32]`. -/
def sha256 (m : Bytes) : Hash := ⟨(Sha256.digest m ++ List.replicate 32 0).take 32, by simp⟩

end Overpass
