/-!
# Fingerprints of byte sequences

The keyed hash SipHash with one round for each word of the message and three at the end, under the
key zero. It gives patches identifiers that depend on their content alone.
-/

namespace ChangeImpact.Fingerprint

structure State where
  v0 : UInt64
  v1 : UInt64
  v2 : UInt64
  v3 : UInt64
  deriving DecidableEq, Repr

/-- The state before the message, for the key zero. -/
def initial : State :=
  ⟨0x736f6d6570736575, 0x646f72616e646f6d, 0x6c7967656e657261, 0x7465646279746573⟩

def rotateLeft (word : UInt64) (count : UInt64) : UInt64 :=
  (word <<< count) ||| (word >>> (64 - count))

def round (state : State) : State :=
  let v0 := state.v0 + state.v1
  let v1 := rotateLeft state.v1 13 ^^^ v0
  let v0 := rotateLeft v0 32
  let v2 := state.v2 + state.v3
  let v3 := rotateLeft state.v3 16 ^^^ v2
  let v0 := v0 + v3
  let v3 := rotateLeft v3 21 ^^^ v0
  let v2 := v2 + v1
  let v1 := rotateLeft v1 17 ^^^ v2
  let v2 := rotateLeft v2 32
  ⟨v0, v1, v2, v3⟩

def absorb (state : State) (word : UInt64) : State :=
  let state := round { state with v3 := state.v3 ^^^ word }
  { state with v0 := state.v0 ^^^ word }

/-- The word whose bytes are given, the least significant first. -/
def wordOf (bytes : List UInt8) : UInt64 :=
  bytes.foldr (fun byte word => (word <<< 8) ||| byte.toUInt64) 0

/-- The words of a message of `length` bytes; the last one holds what is left and the length. -/
def words (length : Nat) : List UInt8 → List UInt64
  | a :: b :: c :: d :: e :: f :: g :: h :: rest =>
    wordOf [a, b, c, d, e, f, g, h] :: words length rest
  | rest => [wordOf rest ||| (UInt64.ofNat length <<< 56)]

def hash (message : List UInt8) : UInt64 :=
  let state := (words message.length message).foldl absorb initial
  let last := round (round (round { state with v2 := state.v2 ^^^ 0xff }))
  last.v0 ^^^ last.v1 ^^^ last.v2 ^^^ last.v3

/-- The bytes of a text, closed by a byte that no text holds. -/
def textBytes (text : String) : List UInt8 :=
  text.toUTF8.toList ++ [0xff]

/-- The four bytes of a number of 32 bits, the least significant first. -/
def wordBytes (n : Nat) : List UInt8 :=
  [UInt8.ofNat n, UInt8.ofNat (n / 0x100), UInt8.ofNat (n / 0x10000), UInt8.ofNat (n / 0x1000000)]

def hexText (value : UInt64) : String :=
  let digits := Nat.toDigits 16 value.toNat
  String.ofList (List.replicate (16 - digits.length) '0' ++ digits)

end ChangeImpact.Fingerprint
