import Falryn.Lib.Splitting

/-!
# Public addresses

Whether a resolved address is publicly routable (`domain/security/network-address.ts`).  An IPv4 address
is judged by a list of blocks; an IPv6 address is expanded into its eight groups, and those that carry
an IPv4 address are judged by it.  `isIPv4` and `isIPv6` are the tests of `node:net`: dotted decimal
without leading zeros, and the text representation of an IPv6 address with a zone after it.
-/

namespace Falryn.Security

/-! ## What `node:net` accepts -/

/-- A decimal number below 256, without leading zeros. -/
def isOctet (part : List Char) : Bool :=
  (List.range 256).any fun n => decide (part = Nat.toDigits 10 n)

def isIPv4 (text : List Char) : Bool :=
  decide ((text.splitOn '.').length = 4) && (text.splitOn '.').all isOctet

/-- The value of a hexadecimal digit of either case. -/
def hexDigit (c : Char) : Option ℕ :=
  if '0' ≤ c ∧ c ≤ '9' then some (c.toNat - 48)
  else if 'a' ≤ c ∧ c ≤ 'f' then some (c.toNat - 87)
  else if 'A' ≤ c ∧ c ≤ 'F' then some (c.toNat - 55)
  else none

/-- One to four hexadecimal digits. -/
def isGroup (part : List Char) : Bool :=
  decide (1 ≤ part.length) && decide (part.length ≤ 4) && part.all fun c => (hexDigit c).isSome

/-- The groups that the parts of an address stand for, if each part is a group or, at the end where it
may be, a dotted IPv4 address. -/
def countGroups (dotted : Bool) : List (List Char) → Option ℕ
  | [] => some 0
  | [part] =>
    if isGroup part then some 1 else if dotted = true ∧ isIPv4 part = true then some 2 else none
  | part :: parts => if isGroup part then (countGroups dotted parts).map (· + 1) else none

/-- The parts between single colons; an empty text has none. -/
def colonParts (text : List Char) : List (List Char) := if text = [] then [] else text.splitOn ':'

/-- An address without its zone: eight groups, or fewer with one "::" for the rest. -/
def isIPv6Text (text : List Char) : Bool :=
  match Splitting.splitOnTwo ':' text with
  | [whole] => decide (countGroups true (colonParts whole) = some 8)
  | [head, tail] =>
    match countGroups false (colonParts head), countGroups true (colonParts tail) with
    | some before, some after => decide (before + after ≤ 7)
    | _, _ => false
  | _ => false

/-- The characters of the name of a zone. -/
def isZoneChar (c : Char) : Bool := c.isAlphanum || c = '-' || c = '.' || c = ':'

/-- What follows an address: nothing, or a "%" and the name of a zone. -/
def isZone : List Char → Bool
  | [] => true
  | c :: name => decide (c = '%') && decide (name ≠ []) && name.all isZoneChar

def isIPv6 (text : List Char) : Bool :=
  isIPv6Text (text.takeWhile (· ≠ '%')) && isZone (text.dropWhile (· ≠ '%'))

/-! ## IPv4 -/

/-- A block of addresses: its first address and the length of what its addresses share. -/
structure V4Block where
  base : String
  bits : ℕ

/-- `V4_NON_PUBLIC`. -/
def v4NonPublic : List V4Block :=
  [⟨"0.0.0.0", 8⟩, ⟨"10.0.0.0", 8⟩, ⟨"100.64.0.0", 10⟩, ⟨"127.0.0.0", 8⟩, ⟨"169.254.0.0", 16⟩,
    ⟨"172.16.0.0", 12⟩, ⟨"192.0.0.0", 24⟩, ⟨"192.0.2.0", 24⟩, ⟨"192.88.99.0", 24⟩, ⟨"192.168.0.0", 16⟩,
    ⟨"198.18.0.0", 15⟩, ⟨"198.51.100.0", 24⟩, ⟨"203.0.113.0", 24⟩, ⟨"224.0.0.0", 4⟩, ⟨"240.0.0.0", 4⟩]

def v4 (address : List Char) : ℕ :=
  (address.splitOn '.').foldl (fun value octet => value * 256 + Nat.ofDigitChars 10 octet 0) 0

/-- A value lies in a block. -/
def V4Block.Contains (block : V4Block) (value : ℕ) : Prop :=
  v4 block.base.toList ≤ value ∧ value < v4 block.base.toList + 2 ^ (32 - block.bits)

instance (block : V4Block) (value : ℕ) : Decidable (block.Contains value) := by
  unfold V4Block.Contains
  infer_instance

def publicV4 (address : List Char) : Bool :=
  !v4NonPublic.any fun block => decide (block.Contains (v4 address))

/-! ## IPv6 -/

/-- One or more decimal digits. -/
def isDigits (part : List Char) : Bool := decide (part ≠ []) && part.all Char.isDigit

/-- The whole of a text is four runs of digits between dots. -/
def isDottedTail (text : List Char) : Bool :=
  decide ((text.splitOn '.').length = 4) && (text.splitOn '.').all isDigits

/-- The match of `/(\d+\.\d+\.\d+\.\d+)$/u`: the longest end of a text that is dotted. -/
def dottedTail (text : List Char) : Option (List Char) := text.tails.find? isDottedTail

/-- `Number.parseInt(group, 16)` of a group without blanks, sign and prefix: the digits it starts with. -/
def parseHex (group : List Char) : Option ℕ :=
  let digits := (group.map hexDigit).takeWhile Option.isSome
  if digits = [] then none else some (digits.foldl (fun value digit => value * 16 + digit.getD 0) 0)

/-- `parse`. -/
def parseParts (text : List Char) : List (Option ℕ) := (colonParts text).map parseHex

/-- The end of `groups`: the parts before and after a "::", and zeros for what is missing between them. -/
def expand (halves : List (List Char)) : Option (List ℕ) :=
  let head := parseParts (halves.getD 0 [])
  let rest := parseParts (halves.getD 1 [])
  if 2 < halves.length then none
  else if (halves.length = 1 ∧ head.length ≠ 8) ∨ (halves.length ≠ 1 ∧ 8 < head.length + rest.length)
  then none
  else
    let all := head ++ List.replicate (8 - (head.length + rest.length)) (some 0) ++ rest
    if all.length = 8 ∧ ∀ group ∈ all, ∃ value ∈ group, value ≤ 0xffff then
      some (all.map (·.getD 0))
    else none

/-- A text with a dotted end written as two groups; none if the end is no IPv4 address. -/
def foldTail (text : List Char) : Option (List Char) :=
  match dottedTail text with
  | none => some text
  | some tail =>
    if isIPv4 tail = false then none
    else some (text.take (text.length - tail.length) ++ Nat.toDigits 16 (v4 tail / 65536)
      ++ ':' :: Nat.toDigits 16 (v4 tail % 65536))

def groups (address : List Char) : Option (List ℕ) :=
  (foldTail ((address.map Char.toLower).takeWhile (· ≠ '%'))).bind fun text =>
    expand (Splitting.splitOnTwo ':' text)

def embeddedV4 (high low : ℕ) : List Char :=
  ['.'].intercalate ([high >>> 8, high &&& 255, low >>> 8, low &&& 255].map (Nat.toDigits 10))

/-- The verdict of `publicV6` on the eight groups. -/
def publicGroups (a b c d e f x y : ℕ) : Bool :=
  let zeroPrefix := a = 0 ∧ b = 0 ∧ c = 0 ∧ d = 0 ∧ e = 0
  if zeroPrefix ∧ f = 0 then false
  else if zeroPrefix ∧ f = 0xffff then publicV4 (embeddedV4 x y)
  else if a = 0x64 ∧ b = 0xff9b ∧ c = 0 ∧ d = 0 ∧ e = 0 ∧ f = 0 then publicV4 (embeddedV4 x y)
  else if a = 0x2002 then publicV4 (embeddedV4 b c)
  else if a &&& 0xfe00 = 0xfc00 then false
  else if a &&& 0xffc0 = 0xfe80 ∨ a &&& 0xffc0 = 0xfec0 then false
  else if a &&& 0xff00 = 0xff00 then false
  else if a = 0x2001 ∧ b = 0x0db8 then false
  else if a = 0x2001 ∧ b = 0 then false
  else if a = 0x0100 ∧ b = 0 ∧ c = 0 ∧ d = 0 then false
  else true

def publicV6 (address : List Char) : Bool :=
  match groups address with
  | none => false
  | some g => publicGroups (g.getD 0 0) (g.getD 1 0) (g.getD 2 0) (g.getD 3 0) (g.getD 4 0) (g.getD 5 0)
      (g.getD 6 0) (g.getD 7 0)

def isPublicAddress (address : String) : Bool :=
  if isIPv4 address.toList then publicV4 address.toList
  else if isIPv6 address.toList then publicV6 address.toList
  else false

end Falryn.Security
