/-!
# Outputs with limited room

A sink takes bytes until its room is used up, and then takes no more. A text that does not
fit is taken as far as it fits.
-/
namespace Uninit

/-- An output: what it has taken so far, and how much more it takes (`none` is without limit). -/
structure Sink where
  written : ByteArray
  room : Option Nat

namespace Sink

/-- A sink that takes `limit` bytes in all. -/
def empty (limit : Option Nat) : Sink :=
  ⟨ByteArray.empty, limit⟩

/-- Write one piece of text. The flag says whether all of it was taken. -/
def write (s : Sink) (text : String) : Sink × Bool :=
  let bytes := text.toUTF8
  match s.room with
  | none => (⟨s.written ++ bytes, none⟩, true)
  | some room =>
    if bytes.size ≤ room then (⟨s.written ++ bytes, some (room - bytes.size)⟩, true)
    else (⟨s.written ++ bytes.extract 0 room, some 0⟩, false)

/-- Write pieces one after the other, up to the first that is not taken whole. -/
def writeAll (s : Sink) : List String → Sink × Bool
  | [] => (s, true)
  | piece :: rest =>
    match s.write piece with
    | (s, true) => s.writeAll rest
    | (s, false) => (s, false)

end Sink

end Uninit
