import CircuitRom.Codec.Bits

/-!
# Prefix codes

Codes in which shorter words come before longer ones and words of one length follow the order of
their symbols, so that the lengths of the words say all.
-/

namespace CircuitRom

/-- A prefix code. -/
structure PrefixCode where
  /-- How many words there are of each length, from one on. -/
  counts : List Nat
  /-- The symbols in the order of their words. -/
  symbols : Array Nat
deriving DecidableEq, Repr

namespace PrefixCode

/-- The length of the longest words. -/
def longest : Nat := 15

/-- The lengths that words may have. -/
def lengths : List Nat := (List.range longest).map (· + 1)

/-- The symbols whose words have the given length. -/
def symbolsOf (widths : List Nat) (length : Nat) : List Nat :=
  widths.zipIdx.filterMap fun (width, symbol) => if width = length then some symbol else none

/-- The number of words of a length. -/
def wordCount (length : Nat) : Nat := Nat.pow 2 length

/-- How many words of the greatest length start with a word of the code. -/
def weight (widths : List Nat) : Nat :=
  widths.foldl (fun n width => if width = 0 then n else n + wordCount (longest - width)) 0

/-- Whether the words have the right lengths: they use up all words of the greatest length, or
there is none, or there is one of a single bit. -/
def isComplete (widths : List Nat) : Bool :=
  let used := widths.filter (· ≠ 0)
  weight widths == wordCount longest || used == [] || used == [1]

/-- The code in which symbol `i` has a word of length `widths[i]`, or no word if that is zero. -/
def ofWidths? (widths : List Nat) : Option PrefixCode :=
  if isComplete widths then
    let groups := lengths.map (symbolsOf widths)
    some ⟨groups.map List.length, groups.flatten.toArray⟩
  else none

/-- Take a word.  `word` holds the bits taken, `first` the first word of their length, and `index`
the place of its symbol. -/
def decodeFrom? (symbols : Array Nat) (word first index : Nat) :
    List Nat → BitSource → Option (Nat × BitSource)
  | [], _ => none
  | count :: counts, source =>
    match source.next? with
    | none => none
    | some (bit, source) =>
      let word := 2 * word + bit.toNat
      let first := 2 * first
      if word < first + count then (symbols[index + (word - first)]?).map (·, source)
      else decodeFrom? symbols word (first + count) (index + count) counts source

/-- Take a word and give its symbol. -/
def decode? (code : PrefixCode) (source : BitSource) : Option (Nat × BitSource) :=
  decodeFrom? code.symbols 0 0 0 code.counts source

example : ((ofWidths? [2, 1, 3, 3]).bind (·.decode? ⟨[true, true, false], []⟩)) =
    some (2, ⟨[], []⟩) := by decide
example : [[1, 2], [1, 1, 1], [2], [0, 7]].all (fun widths => (ofWidths? widths).isNone) := by
  decide
example : [[1, 1], [0, 1], [0], []].all (fun widths => (ofWidths? widths).isSome) := by decide

end PrefixCode
end CircuitRom
