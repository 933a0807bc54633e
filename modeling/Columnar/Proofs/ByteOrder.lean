import Columnar.Blocks
import Columnar.Proofs.StreamCodec

/-!
# Byte order

Reversing the bytes of every element turns data of one byte order into data of the other. On words
this is an operation on bit patterns, in the stream encoding it is the reversal of each group of
bytes that encodes a word. The two agree for every pattern, so what was read from bytes in the wrong
order is put right afterwards.

## Main definitions

* `Word.littleEndian`: the bytes of a word of fixed width, the least significant one first.
* `Bytes.reverseGroups`: bytes with each group of one width in reverse order.
-/

namespace Columnar

/-! ## Groups of bytes -/

theorem blocks_append {α : Type} {size : Nat} {group rest : List α}
    (length : group.length = size + 1) :
    blocks size (group ++ rest) = group :: blocks size rest := by
  cases group with
  | nil => simp at length
  | cons a group =>
    have length : group.length = size := Nat.succ.inj length
    rw [List.cons_append, blocks, List.take_left' length, List.drop_left' length]

/-- Groups of one size are found again in what they make up. -/
theorem blocks_flatten {α : Type} {size : Nat} {groups : List (List α)}
    (lengths : ∀ group ∈ groups, group.length = size + 1) :
    blocks size groups.flatten = groups := by
  induction groups with
  | nil => simp [blocks]
  | cons group groups ih =>
    obtain ⟨first, others⟩ := List.forall_mem_cons.mp lengths
    rw [List.flatten_cons, blocks_append first, ih others]

namespace Bytes

/-- The bytes with every group of `width` of them in reverse order. -/
def reverseGroups (width : Nat) (bytes : List UInt8) : List UInt8 :=
  ((blocks (width - 1) bytes).map List.reverse).flatten

theorem reverseGroups_flatten {width : Nat} (pos : 0 < width) {groups : List (List UInt8)}
    (lengths : ∀ group ∈ groups, group.length = width) :
    reverseGroups width groups.flatten = (groups.map List.reverse).flatten := by
  rw [reverseGroups, blocks_flatten]
  intro group held
  rw [lengths group held]
  omega

end Bytes

/-! ## Words -/

namespace Word

section

variable {bits width : Nat} (size : bits = 8 * width) (x : BitVec bits)
include size

theorem bigEndian_reverseBytes :
    Bytes.bigEndian width (reverseBytes width x).toNat = Bytes.littleEndian width x.toNat :=
  Bytes.bigEndian_ofNat_ofBigEndian size (Bytes.length_littleEndian width x.toNat)

theorem littleEndian_reverseBytes :
    Bytes.littleEndian width (reverseBytes width x).toNat =
      (Bytes.littleEndian width x.toNat).reverse := by
  rw [← bigEndian_reverseBytes size x, Bytes.bigEndian, List.reverse_reverse]

theorem reverseBytes_reverseBytes : reverseBytes width (reverseBytes width x) = x := by
  have recovered := Bytes.ofNat_ofBigEndian_bigEndian size x
  rw [Bytes.ofBigEndian, Bytes.bigEndian, List.reverse_reverse] at recovered
  rw [reverseBytes, bigEndian_reverseBytes size x, recovered]

end

variable {k : Kind}

/-- The bytes of a word of fixed width, the least significant one first. -/
def littleEndian : {k : Kind} → Word k → List UInt8
  | .signed w, x => Bytes.littleEndian w.bytes (BitVec.toNat x)
  | .unsigned w, x => Bytes.littleEndian w.bytes (BitVec.toNat x)
  | .floating p, x => Bytes.littleEndian p.bytes (BitVec.toNat x)
  | .char, x => Bytes.littleEndian 2 (BitVec.toNat x)
  | .string, _ => []

@[simp] theorem length_littleEndian (w : Word k) : w.littleEndian.length = k.streamWidth := by
  cases k with
  | string => rfl
  | signed | unsigned | floating | char => exact Bytes.length_littleEndian _ _

theorem encode_eq_littleEndian (fixed : k ≠ .string) (w : Word k) :
    w.encode = .ok w.littleEndian.reverse := by
  cases k with
  | string => exact absurd rfl fixed
  | signed | unsigned | floating | char => rfl

/-- Every byte sequence of the right length holds a word. -/
theorem exists_littleEndian (fixed : k ≠ .string) {bytes : List UInt8}
    (length : bytes.length = k.streamWidth) : ∃ w : Word k, w.littleEndian = bytes := by
  have backwards : bytes.reverse.length = k.streamWidth := by rwa [List.length_reverse]
  obtain ⟨w, encoded⟩ := BeginsWith.exists_encode fixed backwards
  rw [encode_eq_littleEndian fixed] at encoded
  exact ⟨w, List.reverse_injective (Except.ok.inj encoded)⟩

/-- A word with its bytes reversed holds them in reverse order. -/
@[simp] theorem littleEndian_swapBytes (w : Word k) :
    w.swapBytes.littleEndian = w.littleEndian.reverse := by
  cases k with
  | signed width => exact littleEndian_reverseBytes width.bits_eq w
  | unsigned width => exact littleEndian_reverseBytes width.bits_eq w
  | floating p => exact littleEndian_reverseBytes p.bits_eq w
  | char => exact littleEndian_reverseBytes (show 16 = 8 * 2 from rfl) w
  | string => rfl

@[simp] theorem swapBytes_swapBytes (w : Word k) : w.swapBytes.swapBytes = w := by
  cases k with
  | signed width => exact reverseBytes_reverseBytes width.bits_eq w
  | unsigned width => exact reverseBytes_reverseBytes width.bits_eq w
  | floating p => exact reverseBytes_reverseBytes p.bits_eq w
  | char => exact reverseBytes_reverseBytes (show 16 = 8 * 2 from rfl) w
  | string => rfl

/-- Bytes of the right number are those of words, one word after the other. -/
theorem exists_flatMap_littleEndian (fixed : k ≠ .string) {n : Nat} {input : List UInt8}
    (length : input.length = n * k.streamWidth) :
    ∃ words : List (Word k), words.length = n ∧ words.flatMap littleEndian = input := by
  obtain ⟨words, chunks, rest, rfl, spelled, rfl⟩ :=
    Bytes.BeginsWith.of_length_le (fun _ => exists_littleEndian fixed) (Nat.le_of_eq length.symm)
  have bytes : chunks = words.map littleEndian := by
    rw [← List.forall₂_eq_eq_eq, List.forall₂_map_right_iff]
    exact spelled.imp fun _ _ => Eq.symm
  have all_taken : rest = [] := by
    rw [List.length_append, Bytes.length_flatten (fun _ w held => held ▸ length_littleEndian w)
      spelled] at length
    exact List.length_eq_zero_iff.mp (by omega)
  exact ⟨words, rfl, by rw [bytes, all_taken, List.append_nil, List.flatMap]⟩

theorem mapM_encode (fixed : k ≠ .string) (words : List (Word k)) :
    words.mapM encode = .ok (words.map fun w => w.littleEndian.reverse) := by
  rw [funext (encode_eq_littleEndian fixed)]
  exact List.mapM_pure

end Word

/-! ## Columns -/

theorem Kind.streamWidth_pos {k : Kind} (fixed : k ≠ .string) : 0 < k.streamWidth := by
  revert fixed
  rcases k with ((_ | _ | _ | _) | (_ | _ | _ | _) | (_ | _) | _ | _) <;> decide

namespace Column

variable {k : Kind} {env : Environment} {c d : Column k}

/-- Twice reversed, the column is the one that it was. -/
theorem exists_run_swapByteOrder (formed : c.WellFormed) :
    ∃ d, swapByteOrder.run c = .ok () d ∧ swapByteOrder.run d = .ok () c ∧
      d.words = c.words.map Word.swapBytes ∧ d.size = c.size ∧ d.capacity = c.capacity ∧
      d.flag = c.flag := by
  obtain ⟨words, cap, flag, length, fits, raised, rfl⟩ := wellFormed_iff.mp formed
  have same : (words.map Word.swapBytes).length ≤ cap := by rwa [List.length_map]
  have twice : (words.map Word.swapBytes).map Word.swapBytes = words := by
    simp [Function.comp_def]
  refine ⟨_, run_mapWords length Word.swapBytes, ?_, by simp, by simp, ?_, rfl⟩
  · rw [swapByteOrder, run_mapWords same, twice]
  · rw [capacity_holding same, capacity_holding length]

/-- Reversing the bytes of every element reverses each group of bytes in the encoding. -/
theorem run_writeTo_swapBytes (fixed : k ≠ .string)
    (swapped : d.words = c.words.map Word.swapBytes) :
    ∃ bytes last, ∀ out, c.writeTo.run out = .ok last (out ++ bytes) ∧
      d.writeTo.run out = .ok last (out ++ Bytes.reverseGroups k.streamWidth bytes) := by
  have encoded := Word.mapM_encode fixed c.words
  have others := Word.mapM_encode fixed d.words
  generalize groups_eq : (c.words.map fun w => w.littleEndian.reverse) = groups at encoded
  have backwards : (d.words.map fun w => w.littleEndian.reverse) = groups.map List.reverse := by
    simp [← groups_eq, swapped, Function.comp_def]
  have lengths : ∀ group ∈ groups, group.length = k.streamWidth := by
    simp [← groups_eq]
  have last : ((groups.map List.reverse).getLast?.map List.length).getD 0 =
      (groups.getLast?.map List.length).getD 0 := by
    simp [List.getLast?_map, Function.comp_def]
  refine ⟨groups.flatten, _, fun out => ⟨by rw [run_writeTo, encoded], ?_⟩⟩
  have written : d.writeTo.run out =
      .ok (((groups.map List.reverse).getLast?.map List.length).getD 0)
        (out ++ (groups.map List.reverse).flatten) := by
    rw [run_writeTo, others, backwards]
  rw [written, last, Bytes.reverseGroups_flatten (Kind.streamWidth_pos fixed) lengths]

/-- Words are read from little-endian bytes with their own bytes reversed. -/
theorem run_readFrom_littleEndian (fixed : k ≠ .string) (formed : c.WellFormed)
    {new : List (Word k)} (room : c.HasRoom env new.length) (tail : List UInt8) :
    (readFrom env new.length).run ⟨c, new.flatMap Word.littleEndian ++ tail⟩ =
      .ok () ⟨holding (c.words ++ new.map Word.swapBytes)
        (capacityFor c.capacity (c.size + new.length)) c.flag, tail⟩ := by
  refine (run_readFrom_eq_ok_iff formed).mpr
    ⟨room, new.map Word.swapBytes, _, by simp, Word.mapM_encode fixed _, ?_, rfl⟩
  simp [List.flatMap, Function.comp_def]

/-- Reversing the bytes of every element. It never fails and changes only the elements, and done
twice it changes nothing. Of a kind of fixed width, the encoding afterwards has each group of bytes
reversed, and what was read from little-endian bytes is then the words that these hold. -/
theorem Reachable.reverses_bytes (h : Reachable env c) :
    ∃ d, swapByteOrder.run c = .ok () d ∧ swapByteOrder.run d = .ok () c ∧
      d.size = c.size ∧ d.capacity = c.capacity ∧ d.flag = c.flag ∧
      (k ≠ .string →
        (∃ bytes last, ∀ out, c.writeTo.run out = .ok last (out ++ bytes) ∧
          d.writeTo.run out = .ok last (out ++ Bytes.reverseGroups k.streamWidth bytes)) ∧
        (∀ n (input : List UInt8), input.length = n * k.streamWidth →
          ∃ new : List (Word k), new.length = n ∧ new.flatMap Word.littleEndian = input) ∧
        ∀ new : List (Word k), c.HasRoom env new.length → ∀ tail, ∃ f e,
          (readFrom env new.length).run ⟨c, new.flatMap Word.littleEndian ++ tail⟩ =
            .ok () ⟨f, tail⟩ ∧
          swapByteOrder.run f = .ok () e ∧ e.words = d.words ++ new) := by
  have formed := h.wellFormed
  obtain ⟨d, done, undone, swapped, size, capacity, flag⟩ := exists_run_swapByteOrder formed
  refine ⟨d, done, undone, size, capacity, flag, fun fixed =>
    ⟨run_writeTo_swapBytes fixed swapped, fun n input => Word.exists_flatMap_littleEndian fixed,
      fun new room tail => ?_⟩⟩
  have enough : (c.words ++ new.map Word.swapBytes).length ≤
      capacityFor c.capacity (c.size + new.length) := by
    simpa [formed.length_words] using le_capacityFor c.capacity (c.size + new.length)
  refine ⟨_, _, run_readFrom_littleEndian fixed formed room tail,
    run_mapWords enough Word.swapBytes, ?_⟩
  simp [swapped, Function.comp_def]

/-- A NaN with its bytes reversed, and another one that is read behind it from little-endian
bytes. -/
theorem reversal_of_two_nans :
    let c : Column .float := ofSlots #[0x7fc00001#32] 1
    ∃ d f e, swapByteOrder.run c = .ok () d ∧ swapByteOrder.run d = .ok () c ∧
      d.writeTo.run [] = .ok 4 [0x01, 0x00, 0xc0, 0x7f] ∧
      (readFrom {} 1).run ⟨c, [0x02, 0x00, 0x80, 0x7f] ++ [0xff]⟩ = .ok () ⟨f, [0xff]⟩ ∧
      swapByteOrder.run f = .ok () e ∧
      e.words = d.words ++ ([0x7f800002#32] : List (Word .float)) := by
  intro c
  have reached : Reachable {} c := .ofWords [0x7fc00001#32] rfl
  obtain ⟨d, done, undone, -, -, -, fixed⟩ := Reachable.reverses_bytes reached
  obtain ⟨⟨bytes, last, written⟩, -, reads⟩ := fixed (by decide)
  have before : c.writeTo.run [] = .ok 4 [0x7f, 0xc0, 0x00, 0x01] := rfl
  have room : c.HasRoom {} 1 := .of_size_le (by decide)
  obtain ⟨f, e, read, turned, words⟩ := reads [0x7f800002#32] room [0xff]
  refine ⟨d, f, e, done, undone, ?_, read, turned, words⟩
  obtain ⟨rfl, rfl⟩ : last = 4 ∧ bytes = [0x7f, 0xc0, 0x00, 0x01] := by
    have same := (written []).1
    rw [before] at same
    cases same
    exact ⟨rfl, rfl⟩
  have groups : Bytes.reverseGroups 4 [0x7f, 0xc0, 0x00, 0x01] = [0x01, 0x00, 0xc0, 0x7f] := by cbv
  rw [(written []).2]
  exact congrArg (EStateM.Result.ok 4) groups

end Column

end Columnar
