import PathReplay.Word

/-!
# Loaded segments

A segment is a named range of the address space with the contents that the program was loaded with. Where
the contents are missing or too short it reads as zero. `Segment.byte?` is the contents address by
address, `Segment.overlay` lays them over a buffer.
-/

namespace PathReplay

/-- A range of memory that the program was loaded into. -/
structure Segment where
  name : String
  start : Address
  size : UInt64
  data : Option (Array UInt8)
deriving DecidableEq

namespace Segment

/-- The address just past the segment, at most the largest address. -/
def stop (s : Segment) : Address := Word.saturatingAdd s.start s.size

def contains (s : Segment) (a : Address) : Bool := s.start ≤ a && a < s.stop

def contents (s : Segment) : Array UInt8 := s.data.getD #[]

def contentsStop (s : Segment) : Address :=
  min (Word.advance s.start s.contents.size) s.stop

def byte? (s : Segment) (a : Address) : Option UInt8 :=
  if s.start ≤ a ∧ a < s.contentsStop then s.contents[(a - s.start).toNat]? else none

/-- The buffer that starts at `address`, with the loaded contents copied over the part they cover. -/
def overlay (s : Segment) (address : Address) (buffer : Array UInt8) : Array UInt8 :=
  let lo := max address s.start
  let hi := min (Word.advance address buffer.size) s.contentsStop
  if lo < hi then
    let source := (lo - s.start).toNat
    let target := (lo - address).toNat
    let length := (hi - lo).toNat
    buffer.extract 0 target ++ s.contents.extract source (source + length) ++
      buffer.extract (target + length) buffer.size
  else buffer

end Segment
end PathReplay
