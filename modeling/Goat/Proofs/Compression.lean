import Goat.Container.Gzip
import Goat.Container.Zstd
import Mathlib.Algebra.Group.Nat.Defs

/-!
# Reading what was compressed

A written file stores its bytes in one frame or member, cut into blocks. Reading takes the blocks
one by one, and gets the bytes back, whatever they are and however many there are.
-/

namespace Goat

namespace Text

theorem flatten_chunks (size : Nat) (t : Text) : (chunks size t).flatten = t := by
  fun_induction chunks size t with
  | case1 t _ => simp
  | case2 t b rest h _ ih =>
    rw [List.flatten_cons, ih, ← h, List.take_append_drop]

theorem length_le_of_mem_chunks {size : Nat} {t chunk : Text} (h : chunk ∈ chunks size t) :
    chunk.length ≤ size + 1 := by
  fun_induction chunks size t with
  | case1 t hdrop =>
    obtain rfl := List.mem_singleton.1 h
    exact List.drop_eq_nil_iff.1 hdrop
  | case2 t b rest _ _ ih =>
    rcases List.mem_cons.1 h with rfl | h
    · exact List.length_take_le _ _
    · exact ih h

theorem chunks_ne_nil (size : Nat) (t : Text) : chunks size t ≠ [] := by
  unfold chunks
  split <;> simp

end Text

theorem LittleEndian.decode_encode {width n : Nat} (h : n < 256 ^ width) :
    decode (encode width n) = n := by
  induction width generalizing n with
  | zero =>
    have : n = 0 := by simpa using h
    simp [this, encode, decode]
  | succ width ih =>
    have : n / 256 < 256 ^ width := by
      apply (Nat.div_lt_iff_lt_mul (by decide)).2
      simpa [Nat.pow_succ] using h
    simp only [encode, decode, ih this, UInt8.toNat_ofNat']
    omega

namespace Zstd

theorem cut_append {count : Nat} {t : Text} (h : t.length = count) (rest : Text) :
    cut count (t ++ rest) = .ok (t, rest) := by
  subst h
  simp [cut]

theorem length_storedBlock (isLast : Bool) (t : Text) :
    (storedBlock isLast t).length = 3 + t.length := by
  simp [storedBlock]

/-- A block with at least three bytes is written for every piece. -/
theorem length_le_length_storedBlocks (pieces : List Text) :
    pieces.length ≤ (storedBlocks pieces).length := by
  fun_induction storedBlocks pieces with
  | case1 => simp
  | case2 t =>
    simp only [length_storedBlock, List.length_cons, List.length_nil]
    omega
  | case3 t rest _ ih =>
    simp only [List.length_append, length_storedBlock, List.length_cons]
    omega

/-- The header of a stored block fits in its three bytes. -/
theorem decode_blockHeader {t : Text} (isLast : Bool) (h : t.length ≤ blockSize + 1) :
    LittleEndian.decode (LittleEndian.encode 3 (t.length * 8 + if isLast then 1 else 0)) =
      t.length * 8 + if isLast then 1 else 0 := by
  apply LittleEndian.decode_encode
  rw [blockSize] at h
  split <;> omega

/-- Reading takes one stored block, and goes on unless it is the last one. -/
theorem readBlocks_storedBlock {t : Text} (isLast : Bool) (h : t.length ≤ blockSize + 1)
    (fuel : Nat) (out : Array UInt8) (rest : Text) :
    readBlocks (fuel + 1) out (storedBlock isLast t ++ rest) =
      if isLast then .ok (out ++ t.toArray, rest) else readBlocks fuel (out ++ t.toArray) rest := by
  have hheader := decode_blockHeader isLast h
  have hcut := cut_append (LittleEndian.length_encode 3 (t.length * 8 + if isLast then 1 else 0))
    (t ++ rest)
  have hcontent := cut_append (t := t) rfl rest
  rw [readBlocks, storedBlock, List.append_assoc, hcut]
  simp only [bind, Except.bind, hheader]
  cases isLast with
  | true =>
    have hkind : (t.length * 8 + 1) / 2 % 4 = 0 := by omega
    have hsize : (t.length * 8 + 1) / 8 = t.length := by omega
    have hlast : (t.length * 8 + 1) % 2 = 1 := by omega
    simp only [if_true, hkind, hsize, hlast, readContent, hcontent]
    rfl
  | false =>
    have hkind : t.length * 8 / 2 % 4 = 0 := by omega
    have hsize : t.length * 8 / 8 = t.length := by omega
    have hlast : t.length * 8 % 2 ≠ 1 := by omega
    simp only [Bool.false_eq_true, if_false, Nat.add_zero, hkind, hsize, hlast, readContent,
      hcontent]

theorem readBlocks_storedBlocks {pieces : List Text} (hne : pieces ≠ [])
    (hsizes : ∀ t ∈ pieces, t.length ≤ blockSize + 1) {fuel : Nat} (hfuel : pieces.length ≤ fuel)
    (out : Array UInt8) (rest : Text) :
    readBlocks fuel out (storedBlocks pieces ++ rest) =
      .ok (out ++ pieces.flatten.toArray, rest) := by
  induction pieces generalizing fuel out with
  | nil => contradiction
  | cons t pieces ih =>
    obtain ⟨ht, hsizes⟩ := List.forall_mem_cons.1 hsizes
    obtain ⟨fuel, rfl⟩ : ∃ n, fuel = n + 1 := ⟨fuel - 1, by rw [List.length_cons] at hfuel; omega⟩
    cases pieces with
    | nil =>
      rw [storedBlocks, readBlocks_storedBlock true ht]
      simp
    | cons next pieces =>
      have hrest := ih (List.cons_ne_nil _ _) hsizes (Nat.le_of_succ_le_succ hfuel)
        (out ++ t.toArray)
      rw [storedBlocks, List.append_assoc, readBlocks_storedBlock false ht]
      · simp only [Bool.false_eq_true, if_false, hrest]
        simp
      · exact List.cons_ne_nil _ _

/-- The header that is written says eight bytes of size and is skipped as a whole. -/
theorem skipHeader_append (n : Nat) (rest : Text) :
    skipHeader (magic ++ descriptor :: LittleEndian.encode 8 n ++ rest) = .ok rest := by
  have hmagic : cut 4 (magic ++ descriptor :: (LittleEndian.encode 8 n ++ rest)) = _ :=
    cut_append rfl _
  have hdescriptor : cut 1 ([descriptor] ++ (LittleEndian.encode 8 n ++ rest)) = _ :=
    cut_append rfl _
  have hsize := cut_append (LittleEndian.length_encode 8 n) rest
  have hflags : LittleEndian.decode [descriptor] = 224 := by decide
  rw [List.singleton_append] at hdescriptor
  rw [List.append_assoc, List.cons_append, skipHeader, hmagic]
  simp only [bind, Except.bind, hdescriptor, hflags, ne_eq, not_true_eq_false, if_false]
  exact congrArg (fun result => result >>= fun x : Text × Text => .ok x.2) hsize

/-- Decompression undoes compression. -/
theorem decode_encode (t : Text) : decode (encode t) = .ok t := by
  have hfuel : (Text.chunks blockSize t).length ≤
      (storedBlocks (Text.chunks blockSize t)).length + 1 :=
    Nat.le_succ_of_le (length_le_length_storedBlocks _)
  have hblocks := readBlocks_storedBlocks (Text.chunks_ne_nil blockSize t)
    (fun _ => Text.length_le_of_mem_chunks) hfuel #[] []
  rw [List.append_nil, Text.flatten_chunks] at hblocks
  rw [decode, decodeFrames, encode, skipHeader_append]
  simp only [bind, Except.bind, hblocks, List.isEmpty_nil, if_true, Array.empty_append]
  rfl

end Zstd

namespace Deflate

namespace BitStream

theorem take_append {count : Nat} {t : Text} (h : t.length = count) (rest : Text)
    (used taken : Nat) :
    take count ⟨t ++ rest, used, taken⟩ = .ok (t, ⟨rest, 0, taken + count⟩) := by
  subst h
  simp [take]

/-- The first bit of a stored block says whether it is the last one. -/
theorem bits_isLast (isLast : Bool) (rest : Text) (taken : Nat) :
    bits 1 ⟨(if isLast then 1 else 0) :: rest, 0, taken⟩ =
      .ok (if isLast then 1 else 0, ⟨(if isLast then 1 else 0) :: rest, 1, taken + 1⟩) := by
  cases isLast <;> simp [bits, bit, bind, Except.bind, pure, Except.pure]

/-- The next two bits say that the block is stored. -/
theorem bits_kind (isLast : Bool) (rest : Text) (taken : Nat) :
    bits 2 ⟨(if isLast then 1 else 0) :: rest, 1, taken⟩ =
      .ok (0, ⟨(if isLast then 1 else 0) :: rest, 3, taken⟩) := by
  cases isLast <;> simp [bits, bit, bind, Except.bind, pure, Except.pure]

end BitStream

/-- What follows the bits in front is aligned to a byte: the size of the block, what is missing
    from the greatest size, and the bytes. -/
theorem readStored_append {t : Text} (h : t.length ≤ storedSize + 1) (b : UInt8)
    (out : Array UInt8) (rest : Text) (taken : Nat) :
    ∃ taken', readStored out ⟨b :: (LittleEndian.encode 2 t.length ++
        (LittleEndian.encode 2 (65535 - t.length) ++ (t ++ rest))), 3, taken⟩ =
      .ok (out ++ t.toArray, ⟨rest, 0, taken'⟩) := by
  rw [storedSize] at h
  have hsize : LittleEndian.decode (LittleEndian.encode 2 t.length) = t.length :=
    LittleEndian.decode_encode (by omega)
  have hmissing : LittleEndian.decode (LittleEndian.encode 2 (65535 - t.length)) =
      65535 - t.length := LittleEndian.decode_encode (by omega)
  have hsum : t.length + (65535 - t.length) = 65535 := by omega
  refine ⟨taken + 2 + 2 + t.length, ?_⟩
  have haligned (s : Text) : BitStream.align ⟨b :: s, 3, taken⟩ = ⟨s, 0, taken⟩ := rfl
  simp only [readStored, haligned, bind, Except.bind,
    BitStream.take_append (LittleEndian.length_encode 2 _), hsize, hmissing, hsum, ne_eq,
    not_true_eq_false, if_false, BitStream.take_append rfl]
  rfl

/-- Reading takes one stored block, and goes on unless it is the last one. -/
theorem readBlocks_storedBlock {t : Text} (isLast : Bool) (h : t.length ≤ storedSize + 1)
    (fuel : Nat) (out : Array UInt8) (rest : Text) (taken : Nat) :
    ∃ taken', readBlocks (fuel + 1) out ⟨storedBlock isLast t ++ rest, 0, taken⟩ =
      if isLast then .ok (out ++ t.toArray, ⟨rest, 0, taken'⟩)
      else readBlocks fuel (out ++ t.toArray) ⟨rest, 0, taken'⟩ := by
  obtain ⟨taken', hstored⟩ := readStored_append h (if isLast then 1 else 0) out rest (taken + 1)
  refine ⟨taken', ?_⟩
  rw [readBlocks, storedBlock]
  simp only [List.cons_append, List.append_assoc, BitStream.bits_isLast, BitStream.bits_kind, bind,
    Except.bind, readBlock, hstored]
  cases isLast <;> rfl

theorem readBlocks_storedBlocks {pieces : List Text} (hne : pieces ≠ [])
    (hsizes : ∀ t ∈ pieces, t.length ≤ storedSize + 1) {fuel : Nat} (hfuel : pieces.length ≤ fuel)
    (out : Array UInt8) (rest : Text) (taken : Nat) :
    ∃ taken', readBlocks fuel out ⟨storedBlocks pieces ++ rest, 0, taken⟩ =
      .ok (out ++ pieces.flatten.toArray, ⟨rest, 0, taken'⟩) := by
  induction pieces generalizing fuel out taken with
  | nil => contradiction
  | cons t pieces ih =>
    obtain ⟨ht, hsizes⟩ := List.forall_mem_cons.1 hsizes
    obtain ⟨fuel, rfl⟩ : ∃ n, fuel = n + 1 := ⟨fuel - 1, by rw [List.length_cons] at hfuel; omega⟩
    cases pieces with
    | nil =>
      obtain ⟨taken', hread⟩ := readBlocks_storedBlock true ht fuel out rest taken
      refine ⟨taken', ?_⟩
      rw [storedBlocks, hread]
      simp
    | cons next pieces =>
      obtain ⟨taken₁, hread⟩ := readBlocks_storedBlock false ht fuel out
        (storedBlocks (next :: pieces) ++ rest) taken
      obtain ⟨taken', hrest⟩ := ih (List.cons_ne_nil _ _) hsizes (Nat.le_of_succ_le_succ hfuel)
        (out ++ t.toArray) taken₁
      refine ⟨taken', ?_⟩
      rw [storedBlocks, List.append_assoc, hread]
      · simp only [Bool.false_eq_true, if_false, hrest]
        simp
      · exact List.cons_ne_nil _ _

/-- A block with at least five bytes is written for every piece. -/
theorem length_le_length_storedBlocks (pieces : List Text) :
    pieces.length ≤ (storedBlocks pieces).length := by
  fun_induction storedBlocks pieces with
  | case1 => simp
  | case2 t => simp [storedBlock]
  | case3 t rest _ ih =>
    simp only [storedBlock, List.length_append, List.length_cons]
    omega

/-- A stream is read to its end, and what follows it is left. -/
theorem decode_encode_append (t rest : Text) : decode (encode t ++ rest) = .ok (t, rest) := by
  have hfuel : (Text.chunks storedSize t).length ≤ 8 * (encode t ++ rest).length + 1 := by
    have := length_le_length_storedBlocks (Text.chunks storedSize t)
    rw [List.length_append, encode]
    omega
  obtain ⟨taken, hread⟩ := readBlocks_storedBlocks (Text.chunks_ne_nil storedSize t)
    (fun _ => Text.length_le_of_mem_chunks) hfuel #[] rest 0
  rw [Text.flatten_chunks, Array.empty_append, ← encode] at hread
  rw [decode, hread]
  rfl

end Deflate

namespace Gzip

theorem cut_append {count : Nat} {t : Text} (h : t.length = count) (rest : Text) :
    cut count (t ++ rest) = .ok (t, rest) := by
  subst h
  simp [cut]

/-- The header that is written has no flags and is skipped as a whole. -/
theorem skipHeader_append (effort : UInt8) (rest : Text) :
    skipHeader (magic ++ [deflateMethod, 0, 0, 0, 0, 0, effort, 0xff] ++ rest) = .ok rest := by
  have hcut : cut 10 (magic ++ [deflateMethod, 0, 0, 0, 0, 0, effort, 0xff] ++ rest) = _ :=
    cut_append rfl rest
  have hstart : (magic ++ [deflateMethod, 0, 0, 0, 0, 0, effort, 0xff]).take 3 =
      magic ++ [deflateMethod] := rfl
  have hflags : (magic ++ [deflateMethod, 0, 0, 0, 0, 0, effort, 0xff]).getD 3 0 = 0 := rfl
  have hunset (flag : UInt8) : hasFlag 0 flag = false := by simp [hasFlag]
  rw [skipHeader, hcut]
  simp only [bind, Except.bind, hstart, ne_eq, not_true_eq_false, if_false, hflags, hunset, skipIf,
    Bool.false_eq_true]

theorem length_trailer (t : Text) : (trailer t).length = 8 := by
  rw [trailer, List.length_append, LittleEndian.length_encode, LittleEndian.length_encode]

/-- Decompression undoes compression. -/
theorem decode_encode (effort : UInt8) (t : Text) : decode (encode effort t) = .ok t := by
  have htrailer := cut_append (length_trailer t) []
  rw [List.append_nil] at htrailer
  have hdeflate : (Deflate.decode (Deflate.encode t ++ trailer t)).mapError Error.ofDeflate =
      .ok (t, trailer t) := by
    rw [Deflate.decode_encode_append]
    rfl
  have hmember : decodeMember (encode effort t) = .ok (t, []) := by
    rw [encode, List.append_assoc, decodeMember, skipHeader_append]
    simp only [bind, Except.bind, hdeflate, htrailer, if_true]
    rfl
  rw [decode, decodeMembers, hmember]
  rfl

end Gzip

end Goat
