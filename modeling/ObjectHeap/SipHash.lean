/-
This file defines SipHash-1-3 with a key of zeros, the hash of a finite sequence of bytes:
one round for every block of eight bytes and three rounds at the end. The bytes are fed one
at a time, so that a longer sequence is hashed by feeding its parts in turn.
-/

namespace ObjectHeap

/-- The state of a hash that is being computed. -/
structure SipHash where
  v0 : UInt64
  v1 : UInt64
  v2 : UInt64
  v3 : UInt64
  /-- The bytes of the block that is not full yet, the first one lowest. -/
  block : UInt64
  /-- How many bytes of the block are there. -/
  filled : Nat
  /-- How many bytes were fed in all. -/
  length : Nat

namespace SipHash

/-- Turns a word to the left by `count` bits. -/
def rotate (word : UInt64) (count : UInt64) : UInt64 :=
  (word <<< count) ||| (word >>> (64 - count))

/-- The state before the first byte. -/
def start : SipHash :=
  { v0 := 0x736f6d6570736575
    v1 := 0x646f72616e646f6d
    v2 := 0x6c7967656e657261
    v3 := 0x7465646279746573
    block := 0
    filled := 0
    length := 0 }

/-- One round. -/
def round (state : SipHash) : SipHash :=
  let v0 := state.v0 + state.v1
  let v1 := rotate state.v1 13 ^^^ v0
  let v0 := rotate v0 32
  let v2 := state.v2 + state.v3
  let v3 := rotate state.v3 16 ^^^ v2
  let v0 := v0 + v3
  let v3 := rotate v3 21 ^^^ v0
  let v2 := v2 + v1
  let v1 := rotate v1 17 ^^^ v2
  let v2 := rotate v2 32
  { state with v0, v1, v2, v3 }

/-- Mixes in one block. -/
def compress (state : SipHash) (block : UInt64) : SipHash :=
  let state := { state with v3 := state.v3 ^^^ block }
  let state := state.round
  { state with v0 := state.v0 ^^^ block }

/-- Feeds one byte. -/
def feed (state : SipHash) (byte : UInt8) : SipHash :=
  let block := state.block ||| (byte.toUInt64 <<< (8 * UInt64.ofNat state.filled))
  let state := { state with length := state.length + 1 }
  if state.filled = 7 then
    { state.compress block with block := 0, filled := 0 }
  else
    { state with block, filled := state.filled + 1 }

/-- Feeds bytes in order. -/
def feedAll (state : SipHash) (bytes : List UInt8) : SipHash :=
  bytes.foldl feed state

/-- The hash of what was fed. The last block carries the number of bytes in its top byte. -/
def finish (state : SipHash) : UInt64 :=
  let state := state.compress (state.block ||| (UInt64.ofNat state.length <<< 56))
  let state := { state with v2 := state.v2 ^^^ 0xff }
  let state := state.round.round.round
  state.v0 ^^^ state.v1 ^^^ state.v2 ^^^ state.v3

/-! ### What is hashed -/

/-- The eight bytes of a word, the lowest first. -/
def wordBytes (word : UInt64) : List UInt8 :=
  (List.range 8).map fun place => (word >>> UInt64.ofNat (8 * place)).toUInt8

/-- The hash of a word. -/
def hashWord (word : UInt64) : UInt64 :=
  (start.feedAll (wordBytes word)).finish

/-- The hash of a text: its bytes in UTF-8, closed by a byte that no text contains. -/
def hashText (text : String) : UInt64 :=
  (start.feedAll (text.toUTF8.toList ++ [0xff])).finish

/-- The hash of a sequence of words: their number, then the words. -/
def hashWords (words : List UInt64) : UInt64 :=
  (start.feedAll ((UInt64.ofNat words.length :: words).flatMap wordBytes)).finish

end SipHash

end ObjectHeap
