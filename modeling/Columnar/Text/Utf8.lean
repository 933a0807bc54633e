/-!
# UTF-8

Encoding, and a decoder that says where ill-formed input starts and how many of its bytes could
have begun a character. Only shortest forms are accepted, and no surrogates.
-/

namespace Columnar.Utf8

/-- Why bytes are not UTF-8: the index of the first byte that belongs to no character, and the
number of bytes that are wrong there, or `none` when the input ends inside a character. -/
structure Fault where
  index : Nat
  length : Option Nat
  deriving DecidableEq, Repr

namespace Fault

def message (f : Fault) : String :=
  match f.length with
  | some n => s!"invalid utf-8 sequence of {n} bytes from index {f.index}"
  | none => s!"incomplete utf-8 byte sequence from index {f.index}"

end Fault

def encode (cs : List Char) : List UInt8 := cs.flatMap String.utf8EncodeChar

def isContinuation (b : UInt8) : Bool := 0x80 ≤ b && b < 0xC0

/-- True when `b` may follow the first byte `a` of a character of three or four bytes. -/
def mayFollow (a b : UInt8) : Bool :=
  if a == 0xE0 then 0xA0 ≤ b && b < 0xC0
  else if a == 0xED then 0x80 ≤ b && b < 0xA0
  else if a == 0xF0 then 0x90 ≤ b && b < 0xC0
  else if a == 0xF4 then 0x80 ≤ b && b < 0x90
  else isContinuation b

/-- The code point of a first byte stripped to its payload and of continuation bytes. -/
def assemble (lead : Nat) (tail : List UInt8) : Char :=
  Char.ofNat (tail.foldl (fun n b => n * 0x40 + b.toNat % 0x40) lead)

/-- What the next bytes of nonempty input spell: a character and its length in bytes, or the
number of wrong bytes. -/
def next (a : UInt8) (rest : List UInt8) : Except (Option Nat) (Char × Nat) :=
  if a < 0x80 then .ok (Char.ofNat a.toNat, 1)
  else if a < 0xC2 then .error (some 1)
  else if a < 0xE0 then
    match rest with
    | [] => .error none
    | b :: _ =>
      if isContinuation b then .ok (assemble (a.toNat % 0x20) [b], 2) else .error (some 1)
  else if a < 0xF0 then
    match rest with
    | [] => .error none
    | b :: rest =>
      if !mayFollow a b then .error (some 1) else
      match rest with
      | [] => .error none
      | c :: _ =>
        if isContinuation c then .ok (assemble (a.toNat % 0x10) [b, c], 3) else .error (some 2)
  else if a < 0xF5 then
    match rest with
    | [] => .error none
    | b :: rest =>
      if !mayFollow a b then .error (some 1) else
      match rest with
      | [] => .error none
      | c :: rest =>
        if !isContinuation c then .error (some 2) else
        match rest with
        | [] => .error none
        | d :: _ =>
          if isContinuation d then .ok (assemble (a.toNat % 0x08) [b, c, d], 4)
          else .error (some 3)
  else .error (some 1)

/-- Decodes the bytes from `index` on; `done` holds the characters before, latest first. -/
def decodeFrom (index : Nat) (done : List Char) (bytes : List UInt8) :
    Except Fault (List Char) :=
  match bytes with
  | [] => .ok done.reverse
  | a :: rest =>
    match next a rest with
    | .ok (c, n) => decodeFrom (index + n) (c :: done) (rest.drop (n - 1))
    | .error length => .error ⟨index, length⟩
  termination_by bytes.length
  decreasing_by simp only [List.length_drop, List.length_cons]; omega

def decode (bytes : List UInt8) : Except Fault (List Char) := decodeFrom 0 [] bytes

end Columnar.Utf8
