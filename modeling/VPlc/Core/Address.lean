import VPlc.Core.Area

/-!
# Addresses as text

`parseAddress` splits its argument at dots, dispatches on the first two parts
and hands a later one to `std::stoi`. It throws in three ways only: fewer than
three parts, no number where one is expected, and a number no `int` holds. An
unknown protocol or area is not an error; it comes back as a reference to
nothing, with index zero.

`stoi` is the library's: leading white space and a sign are skipped over, and
whatever follows the digits is ignored.
-/

namespace VPlc

/-- What `parseAddress` can throw. -/
inductive ParseError
  | runtimeError (what : String)
  | invalidArgument
  | outOfRange
  deriving DecidableEq, Repr

/-- `std::isspace` in the C locale. -/
def isSpace (c : Char) : Bool := c.toNat == 32 || (9 ≤ c.toNat && c.toNat ≤ 13)

/-- The number a run of decimal digits spells. -/
def digitsVal (ds : List Char) : Nat :=
  ds.foldl (fun n d => 10 * n + (d.toNat - 48)) 0

/-- An optional sign: whether it was a minus, and what follows it. -/
def takeSign : List Char → Bool × List Char
  | [] => (false, [])
  | c :: cs =>
      if c = '-' then (true, cs) else if c = '+' then (false, cs)
      else (false, c :: cs)

/-- `std::stoi` in base ten. -/
def stoi (s : String) : Except ParseError Int :=
  let (neg, rest) := takeSign (s.toList.dropWhile isSpace)
  let ds := rest.takeWhile Char.isDigit
  if ds.isEmpty then .error .invalidArgument
  else
    let v : Int := if neg then - (digitsVal ds : Int) else digitsVal ds
    if v < -2147483648 ∨ 2147483647 < v then .error .outOfRange else .ok v

/-- `static_cast<uint16_t>(std::stoi(s))`. -/
def stoiU16 (s : String) : Except ParseError UInt16 :=
  (stoi s).map UInt16.ofInt

/-- Repeated `std::getline(ss, part, '.')`: a dot ends a part, and a part that
would start at the end of the text is not produced. -/
def splitDots : List Char → List (List Char)
  | [] => []
  | c :: cs =>
      if c = '.' then [] :: splitDots cs
      else
        match splitDots cs with
        | [] => [[c]]
        | p :: ps => (c :: p) :: ps

def addressParts (addr : String) : List String :=
  (splitDots addr.toList).map String.ofList

/-- The part a data block or an MC word area reads its index from: the fourth
when the third is the word `W` and there are just four. -/
def wordIndexPart (parts : List String) : String :=
  if parts.length = 4 ∧ parts.getD 2 "" = "W" then parts.getD 3 ""
  else parts.getD 2 ""

def parseModbus (area : String) (parts : List String) :
    Except ParseError MemoryRef :=
  if area = "COIL" ∨ area = "C" then do
    return ⟨"MODBUS", "COIL", ← stoiU16 (parts.getD 2 ""), true⟩
  else if area = "DISCRETE_INPUT" ∨ area = "DI" ∨ area = "I" then do
    return ⟨"MODBUS", "DI", ← stoiU16 (parts.getD 2 ""), true⟩
  else if area = "INPUT_REGISTER" ∨ area = "IR" then do
    return ⟨"MODBUS", "IR", ← stoiU16 (parts.getD 2 ""), false⟩
  else if area = "HOLDING_REGISTER" ∨ area = "HR" then do
    return ⟨"MODBUS", "HR", ← stoiU16 (parts.getD 2 ""), false⟩
  else return ⟨"MODBUS", area, 0, true⟩

def parseS7 (area : String) (parts : List String) : Except ParseError MemoryRef :=
  if area = "PE" then do
    return ⟨"S7", area, ← stoiU16 (parts.getD 2 ""), true⟩
  else if area = "PA" then do
    return ⟨"S7", area, ← stoiU16 (parts.getD 2 ""), true⟩
  else if area = "DB1" ∨ area = "DB2" then do
    return ⟨"S7", area, ← stoiU16 (wordIndexPart parts), false⟩
  else return ⟨"S7", area, 0, true⟩

def parseMC (area : String) (parts : List String) : Except ParseError MemoryRef :=
  if area = "X" ∨ area = "Y" ∨ area = "M" ∨ area = "L" ∨ area = "B" ∨
      area = "F" ∨ area = "SM" then do
    return ⟨"MC", area, ← stoiU16 (parts.getD 2 ""), true⟩
  else if area = "D" ∨ area = "W" ∨ area = "R" ∨ area = "ZR" ∨ area = "SD" then do
    return ⟨"MC", area, ← stoiU16 (wordIndexPart parts), false⟩
  else return ⟨"MC", area, 0, true⟩

def parseLS (area : String) (parts : List String) : Except ParseError MemoryRef :=
  if area = "I" ∨ area = "Q" ∨ area = "M" then do
    return ⟨"LS", area, ← stoiU16 (parts.getD 2 ""), true⟩
  else if area = "W" then do
    return ⟨"LS", area, ← stoiU16 (parts.getD 2 ""), false⟩
  else return ⟨"LS", area, 0, true⟩

/-- `PlcMemory::parseAddress`. -/
def parseAddress (addr : String) : Except ParseError MemoryRef :=
  let parts := addressParts addr
  if parts.length < 3 then
    .error (.runtimeError ("Invalid address format: " ++ addr))
  else
    let protocol := parts.getD 0 ""
    let area := parts.getD 1 ""
    if protocol = "MODBUS" then parseModbus area parts
    else if protocol = "S7" then parseS7 area parts
    else if protocol = "MC" then parseMC area parts
    else if protocol = "LS" then parseLS area parts
    else return ⟨protocol, area, 0, true⟩

example : parseAddress "S7.DB1.W.64" = .ok ⟨"S7", "DB1", 64, false⟩ := rfl

example : parseAddress "MODBUS.HR" =
    .error (.runtimeError "Invalid address format: MODBUS.HR") := rfl

end VPlc
