/-!
# A 64-bit digest of bytes

XXH64 with seed 0.  The input is read as little-endian words of eight bytes.  Inputs of 32 bytes
and more first run through four lanes, one word of every stripe of four to each lane; what is left
over is folded in word by word, then at most one group of four bytes, then byte by byte.
-/

namespace Monkey.Digest

def prime1 : UInt64 := 11400714785074694791
def prime2 : UInt64 := 14029467366897019727
def prime3 : UInt64 := 1609587929392839161
def prime4 : UInt64 := 9650029242287828579
def prime5 : UInt64 := 2870177450012600261

/-- Rotation to the left by `k` bits, for `0 < k < 64`. -/
def rotate (x : UInt64) (k : UInt64) : UInt64 := (x <<< k) ||| (x >>> (64 - k))

/-- The number that bytes stand for, the lowest byte first. -/
def littleEndian : List UInt8 → UInt64
  | [] => 0
  | b :: bs => b.toUInt64 ||| (littleEndian bs <<< 8)

/-- The words of eight bytes in some bytes, and the bytes left over. -/
def words : List UInt8 → List UInt64 × List UInt8
  | a :: b :: c :: d :: e :: f :: g :: h :: rest =>
    let (ws, left) := words rest
    (littleEndian [a, b, c, d, e, f, g, h] :: ws, left)
  | left => ([], left)

/-- Mixes a word into a lane. -/
def round (lane word : UInt64) : UInt64 := rotate (lane + word * prime2) 31 * prime1

structure Lanes where
  a : UInt64
  b : UInt64
  c : UInt64
  d : UInt64

def Lanes.start : Lanes := ⟨prime1 + prime2, prime2, 0, 0 - prime1⟩

/-- Runs stripes of four words through the lanes; fewer than four words are left over. -/
def stripes (l : Lanes) : List UInt64 → Lanes × List UInt64
  | w :: x :: y :: z :: ws =>
    stripes ⟨round l.a w, round l.b x, round l.c y, round l.d z⟩ ws
  | left => (l, left)

def merge (h lane : UInt64) : UInt64 := (h ^^^ round 0 lane) * prime1 + prime4

/-- One word out of the four lanes. -/
def Lanes.join (l : Lanes) : UInt64 :=
  let h := rotate l.a 1 + rotate l.b 7 + rotate l.c 12 + rotate l.d 18
  merge (merge (merge (merge h l.a) l.b) l.c) l.d

def foldWord (h word : UInt64) : UInt64 := rotate (h ^^^ round 0 word) 27 * prime1 + prime4

def foldByte (h : UInt64) (b : UInt8) : UInt64 := rotate (h ^^^ (b.toUInt64 * prime5)) 11 * prime1

/-- Folds in fewer than eight bytes. -/
def foldTail (h : UInt64) : List UInt8 → UInt64
  | a :: b :: c :: d :: rest =>
    let half := littleEndian [a, b, c, d]
    rest.foldl foldByte (rotate (h ^^^ (half * prime1)) 23 * prime2 + prime3)
  | rest => rest.foldl foldByte h

/-- Spreads every bit over the whole word. -/
def avalanche (h : UInt64) : UInt64 :=
  let h := (h ^^^ (h >>> 33)) * prime2
  let h := (h ^^^ (h >>> 29)) * prime3
  h ^^^ (h >>> 32)

/-- The digest of some bytes. -/
def xxh64 (bytes : List UInt8) : UInt64 :=
  let (ws, tail) := words bytes
  let (start, ws) :=
    if 4 ≤ ws.length then
      let (lanes, ws) := stripes .start ws
      (lanes.join, ws)
    else (prime5, ws)
  avalanche (foldTail (ws.foldl foldWord (start + UInt64.ofNat bytes.length)) tail)

end Monkey.Digest
