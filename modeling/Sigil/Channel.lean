/-!
# Channels

A channel records the text written to it.  It may have a limit: once that many
lines have been recorded, every further write is refused and leaves nothing
behind.
-/

namespace Sigil

/-- A channel with the text recorded so far and the number of lines it takes. -/
structure Channel where
  text : String
  limit : Option Nat
  deriving DecidableEq, Repr

namespace Channel

/-- An empty channel that takes everything. -/
def unlimited : Channel := ⟨"", none⟩

/-- An empty channel with a limit, or without one. -/
def limited (limit : Option Nat) : Channel := ⟨"", limit⟩

/-- The reason given for a refusal. -/
def refusal : String := "closed"

/-- The channel has recorded as many lines as it takes. -/
def isFull (channel : Channel) : Bool :=
  channel.limit.any fun limit ↦ limit ≤ channel.text.toList.count '\n'

/-- Writes a text, and says whether it was accepted.  There is nothing to refuse about an empty
one. -/
def write (channel : Channel) (text : String) : Channel × Bool :=
  if text = "" then (channel, true)
  else if channel.isFull then (channel, false)
  else ({ channel with text := channel.text ++ text }, true)

/-- Writes a text and then the newline after it. -/
def writeLine (channel : Channel) (text : String) : Channel × Bool :=
  match channel.write text with
  | (channel, true) => channel.write "\n"
  | (channel, false) => (channel, false)

/-- Writes lines up to the first one that is refused. -/
def writeLines (channel : Channel) : List String → Channel × Bool
  | [] => (channel, true)
  | line :: lines =>
    match channel.writeLine line with
    | (channel, true) => channel.writeLines lines
    | (channel, false) => (channel, false)

end Channel

end Sigil
