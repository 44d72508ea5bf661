/-! Names for sessions and processes that have none of their own, and the time.

    A supply is a value: which names it gives out next is decided by its streams and by how many it has
    given out before. -/

namespace Statechart

/-- Where new names and the time come from: streams of names, how many of each have been used, and the
    clock. -/
structure Supply where
  sessionName : Nat → String
  processName : Nat → String
  sessions : Nat
  processes : Nat
  now : Int

namespace Supply

/-- A name for a new session. -/
def nextSession (s : Supply) : String × Supply :=
  (s.sessionName s.sessions, { s with sessions := s.sessions + 1 })

/-- A name for a new process. -/
def nextProcess (s : Supply) : String × Supply :=
  (s.processName s.processes, { s with processes := s.processes + 1 })

/-- Hexadecimal digits of a number, the last `n` of them, lower case. -/
def hexDigits : (n : Nat) → Nat → List Char
  | 0, _ => []
  | n + 1, x => hexDigits n (x / 16) ++ [Nat.digitChar (x % 16)]

/-- A number below 2^122 as a random identifier: 32 hexadecimal digits in five groups, with the version
    and the variant in their places. -/
def identifier (x : Nat) : String :=
  let digits := hexDigits 30 x
  let variant := Nat.digitChar (8 + x / Nat.pow 2 120 % 4)
  let group (start count : Nat) : String := String.ofList ((digits.drop start).take count)
  group 0 8 ++ "-" ++ group 8 4 ++ "-4" ++ group 12 3 ++ "-" ++ variant.toString ++ group 15 3 ++ "-" ++
    group 18 12

/-- The supply that counts up from a random number. -/
def ofSeed (seed : Nat) (now : Int) : Supply :=
  { sessionName := fun n => identifier ((seed + 2 * n) % Nat.pow 2 122)
    processName := fun n => identifier ((seed + 2 * n + 1) % Nat.pow 2 122)
    sessions := 0
    processes := 0
    now }

end Supply

end Statechart
